import Ece552.Msi.SharerList
import Ece552.Msi.Writeback

/-!
# What arrives in which state

Along runs that take no writeback twice and no PUTM in MS_D, someone always has the newest data, an
L1 that is listed or about to lose the line is in a state that has something to lose, and an
acknowledgement of a writeback is the last message on its way to an L1. So each message finds its
L1 in a state that expects it.
-/

namespace Ece552.Msi.Block

open Library
open Directory (Trigger)

variable {N D : Type} [DecidableEq N] {s s' : Block N D} {useMap : Bool}

/-- The acknowledgements of a queue are behind its other messages. -/
def AcksLast (queue : List (Forward N)) : Prop :=
  queue.Pairwise fun m m' => m.isWbAck = true → m'.isWbAck = true

/-- A sharer has a copy or gets one, or has given up a copy that has not been taken, or it is the
owner that is being downgraded. -/
@[grind =] def Sharing (s : Block N D) (i : N) : Prop :=
  s.state i = .S ∨ s.state i = .SM_AD ∨
    (s.state i = .IS_D ∧ tally Request.isGETS i s.requests = 0) ∨
    ((s.state i = .SI_A ∨ 0 < tally Forward.isGETS i s.forwards) ∧
      tally Forward.isWbAck i s.forwards = 0)

/-- An invalidation finds a copy, one that is on its way, or one that has been given up. -/
@[grind =] def Invalidatable (s : Block N D) (i : N) : Prop :=
  s.state i = .S ∨ s.state i = .SM_AD ∨ s.state i = .SI_A ∨
    (s.state i = .IS_D ∧ 0 < tally Response.isData i s.responses)

/-- What is in flight to the L1s fits their states. -/
structure Expected (s : Block N D) : Prop where
  alive : ∃ p, s.Authority p
  answered : ∀ i, s.unacknowledged i ≤ awaitsWbAck (s.state i)
  acks_last : ∀ i, AcksLast (messagesOf i s.forwards)
  granted : ∀ i, s.Granted i → i ∈ s.owner ∨ 0 < tally Forward.isRequest i s.forwards
  owner : ∀ i, i ∈ s.owner → s.Granted i ∨ s.state i = .MI_A
  forwarding : s.dir = .MS_D → s.downgrades = [] → ∀ i, i ∈ s.sharers → s.Forwarded i
  sharer : ∀ i, i ∈ s.sharers → s.Sharing i
  apart : ∀ i, 0 < tally Forward.isInv i s.forwards → i ∈ s.sharers →
    0 < tally Forward.isGETS i s.forwards
  invalidated : ∀ i, 0 < tally Forward.isInv i s.forwards →
    tally Forward.isInv i s.forwards = 1 ∧ s.Invalidatable i
  invalidator : ∀ i, ¬ (i, .INV i) ∈ s.forwards

/-! ## What follows at once -/

/-- Nothing acknowledges an L1 that waits for nothing, or whose writeback has not been taken. -/
theorem Expected.no_ack {i : N} (hs : s.Expected)
    (hi : awaitsWbAck (s.state i) = 0 ∨ 0 < tally Request.isPut i s.requests) :
    tally Forward.isWbAck i s.forwards = 0 := by
  have hanswered := hs.answered i
  unfold unacknowledged at hanswered
  grind

/-- The owner gets no acknowledgement. -/
theorem Expected.owner_no_ack {i : N} (hs : s.Expected) (ho : s.Ownership) (hi : i ∈ s.owner) :
    tally Forward.isWbAck i s.forwards = 0 := by
  refine hs.no_ack ?_
  rcases hs.owner i hi with hgranted | hst
  · exact Or.inl (by grind)
  · exact Or.inr (Nat.lt_of_lt_of_le (ho.writeback i hst hi) tally_isPUTM_le)

/-- A sharer gets no acknowledgement. -/
theorem Expected.sharing_no_ack {i : N} (hs : s.Expected) (hi : s.Sharing i) :
    tally Forward.isWbAck i s.forwards = 0 := by
  have hnone := hs.no_ack (i := i)
  grind

/-- While the directory has the newest data, nothing is invalidated. -/
theorem Ownership.no_inv (ho : s.Ownership) (ha : s.Accounting) (hdir : s.DirHolds) (i : N) :
    tally Forward.isInv i s.forwards = 0 := by
  by_contra hne
  obtain ⟨c, hc, -⟩ := ha.invalidated_by (Nat.pos_of_ne_zero hne)
  exact nomatch ho.unique _ _ (show s.Authority (some c) from hc) (show s.Authority none from hdir)

/-- A forwarded request arrives at an L1 that gets the line, has it, or gives it up. -/
theorem Expected.of_request {i : N} {m : Forward N} (hs : s.Expected) (ho : s.Ownership)
    (hmem : (i, m) ∈ s.forwards) (hm : m.isRequest = true) :
    s.state i = .MI_A ∨ s.state i = .M ∨ Upgrading (s.state i) := by
  have htaken := (ho.facts hs.alive i).taken (tally_pos.mpr ⟨m, hmem, hm⟩)
  grind

/-- An invalidation arrives at an L1 that has a copy, gets one, or gives one up. -/
theorem Expected.of_inv {i r : N} (hs : s.Expected) (hmem : (i, .INV r) ∈ s.forwards) :
    s.state i = .S ∨ s.state i = .SM_AD ∨ s.state i = .SI_A ∨ s.state i = .IS_D := by
  have hpos : 0 < tally Forward.isInv i s.forwards := tally_pos.mpr ⟨_, hmem, rfl⟩
  have hinvalidated := (hs.invalidated i hpos).2
  grind

/-- An acknowledgement arrives at an L1 that waits for it. -/
theorem Expected.of_ack {i : N} (hs : s.Expected) (hmem : (i, .WB_ACK) ∈ s.forwards) :
    s.state i = .MI_A ∨ s.state i = .SI_A ∨ s.state i = .II_A := by
  have hpos : 0 < tally Forward.isWbAck i s.forwards := tally_pos.mpr ⟨_, hmem, rfl⟩
  have hanswered := hs.answered i
  unfold unacknowledged at hanswered
  grind

/-! ## The order of forwards -/

/-- Sending keeps the acknowledgements last if nothing else is sent behind one. -/
theorem AcksLast.send {j : N} {l sent : List (N × Forward N)} (h : AcksLast (messagesOf j l))
    (hsent : ∀ m m', (j, m) ∈ sent → (j, m') ∈ sent → m = m')
    (hnone : ∀ m, (j, m) ∈ sent → m.isWbAck = false → tally Forward.isWbAck j l = 0) :
    AcksLast (messagesOf j (l ++ sent)) := by
  unfold AcksLast at h ⊢
  rw [messages_of_append, List.pairwise_append]
  refine ⟨h, ?_, fun m hm m' hm' hack => ?_⟩
  · refine List.pairwise_of_forall_mem_list fun m hm m' hm' hack => ?_
    rwa [← hsent m m' (mem_messages_of.mp hm) (mem_messages_of.mp hm')]
  · by_contra hne
    have hzero := hnone m' (mem_messages_of.mp hm') (by simpa using hne)
    exact Nat.ne_of_gt (tally_pos.mpr ⟨m, mem_messages_of.mp hm, hack⟩) hzero

/-- An acknowledgement is sent last. -/
theorem AcksLast.send_ack {j r : N} {l : List (N × Forward N)} (h : AcksLast (messagesOf j l)) :
    AcksLast (messagesOf j (l ++ [(r, .WB_ACK)])) := by
  refine h.send (fun m m' hm hm' => ?_) (fun m hm hack => ?_)
  · simp only [List.mem_singleton, Prod.mk.injEq] at hm hm'
    rw [hm.2, hm'.2]
  · simp only [List.mem_singleton, Prod.mk.injEq] at hm
    rw [hm.2] at hack
    cases hack

/-- A multicast reaches L1s that no acknowledgement is on its way to. -/
theorem AcksLast.multicast {j : N} {l : List (N × Forward N)} {destination : NetDest N}
    {m : Forward N} (h : AcksLast (messagesOf j l))
    (hnone : j ∈ destination → tally Forward.isWbAck j l = 0) :
    AcksLast (messagesOf j (l ++ Block.multicast destination m)) := by
  refine h.send (fun m m' hm hm' => ?_) (fun m hm _ => hnone (mem_multicast.mp hm).2)
  rw [(mem_multicast.mp hm).1, (mem_multicast.mp hm').1]

theorem Step.acks_last [Inhabited D] {label : Option (Directory.Event × N)}
    (h : Step useMap s label s')
    (ho : s.Ownership) (hs : s.Expected) (j : N) : AcksLast (messagesOf j s'.forwards) := by
  have hj := hs.acks_last j
  cases h with
  | cpu h => cases h <;> exact hj
  | forward h =>
      cases h with
      | invI hpop | invS hpop | invSM_AD hpop | invSI_A hpop | wbAckI hpop | wbAck hpop
      | fwdGetSM hpop | fwdGetSMI_A hpop | fwdGetMM hpop | fwdGetMMI_A hpop =>
          exact hj.sublist hpop.messages_of_sublist
  | response h => cases h <;> exact hj
  | request h =>
      cases h with
      | getSI | getMI | getSS | putMOwner | putMMS_M => exact hj
      | putSLastI | putSNotLast | putSLastS | putMS | putSM | putMNotOwner | putSLastMS
      | putMMS_D => exact hj.send_ack
      | getMS => exact hj.multicast fun hmem => hs.sharing_no_ack (hs.sharer j (by grind))
      | getSM | getMM => exact hj.multicast fun hmem => hs.owner_no_ack ho hmem
  | data h => cases h <;> exact hj
  | memory h =>
      cases h with
      | dataIS_M | dataIM_M | ackMS_M => exact hj
      | ackMI_M => exact hj.send_ack

/-- Nothing else is behind an acknowledgement. -/
theorem AcksLast.none_behind {i : N} {l rest : List (N × Forward N)} {p : Forward N → Bool}
    (h : AcksLast (messagesOf i l)) (hpop : Popped l (i, .WB_ACK) rest)
    (hp : ∀ m : Forward N, m.isWbAck = true → p m = false) : tally p i l = 0 := by
  have hhead := hpop.messages_of_self
  dsimp only at hhead
  rw [hhead, AcksLast, List.pairwise_cons] at h
  by_contra hne
  obtain ⟨m, hmem, hm⟩ := tally_pos.mp (Nat.pos_of_ne_zero hne)
  rw [← mem_messages_of, hhead, List.mem_cons] at hmem
  have hack : m.isWbAck = true := hmem.elim (fun heq => heq ▸ rfl) fun hrest => h.1 m hrest rfl
  exact Bool.false_ne_true ((hp m hack).symm.trans hm)

/-! ## Owners -/

/-- An owner waits for the line, has it, or has a writeback that has not been taken. -/
theorem Step.owned [Inhabited D] {label : Option (Directory.Event × N)} (h : Step useMap s label s')
    (ha : s.Accounting) (ho : s.Ownership) (hs : s.Expected) (j : N) (hj : j ∈ s'.owner) :
    s'.Granted j ∨ s'.state j = .MI_A := by
  have hold := hs.owner j
  cases h with
  | cpu h =>
      cases h with
      | @loadI i hst | @storeI i hst | @storeS i hst | @storeM i value hst | @replacementS i hst
      | @replacementM i hst => by_cases hji : j = i <;> grind
  | forward h =>
      have hnot := (ho.facts hs.alive j).not_owner
      have hack := hs.owner_no_ack (i := j) ho
      cases h with
      | @invI i r rest hpop hst | @invS i r rest hpop hst | @invSM_AD i r rest hpop hst
      | @invSI_A i r rest hpop hst | @wbAckI i rest hpop hst =>
          by_cases hji : j = i <;> grind
      | @wbAck i rest hpop hst =>
          have hcount := hpop.removed.tally Forward.isWbAck j
          by_cases hji : j = i <;> grind
      | @fwdGetSM i r rest hpop hst | @fwdGetSMI_A i r rest hpop hst
      | @fwdGetMM i r rest hpop hst | @fwdGetMMI_A i r rest hpop hst =>
          -- the line is taken from an L1 that is not the owner any more
          have hcount := hpop.removed.tally Forward.isRequest j
          by_cases hji : j = i <;> grind
  | response h =>
      cases h with
      | @dataIS_D i value rest hremoved hst | @dataLast i value stored ackCount rest hremoved hst
      | @dataAckCntIM_AD i value ackCount rest hremoved hst
      | @dataAckCntSM_AD i value ackCount rest hremoved hst =>
          have hdata := (ha.balanced i).granted_of_data hremoved.mem
          by_cases hji : j = i <;> grind
      | @invAck i rest hremoved hst | @invAckAll i stored rest hremoved hst =>
          by_cases hji : j = i <;> grind
  | @request _ event r h =>
      cases h with
      | getMI hpop hst | getMS hpop hst | getMM hpop hst =>
          -- the new owner has no other GETM
          have hr := (ha.balanced r).of_getm hpop.mem
          have hone := (ha.balanced r).getm_or_data
          have hcount := hpop.removed.tally Request.isGETM j
          grind
      | getSI hpop | putSLastI hpop | getSS hpop | putSNotLast hpop | putSLastS hpop | putMS hpop
      | getSM hpop | putSM hpop | putMOwner hpop | putMNotOwner hpop | putMMS_D hpop
      | putMMS_M hpop =>
          have hcount := hpop.removed.tally Request.isGETM j
          grind
      | putSLastMS => grind
  | data h => cases h <;> exact hold hj
  | memory h => cases h <;> exact hold hj

/-! ## Someone has the newest data -/

theorem CpuStep.alive (h : CpuStep s s') (hs : s.Expected) : ∃ p, s'.Authority p := by
  obtain ⟨p, hp⟩ := hs.alive
  refine ⟨p, ?_⟩
  cases p with
  | none => cases h <;> exact hp
  | some j =>
      have hgranted := hs.granted j
      simp only [Authority] at hp ⊢
      cases h with
      | @loadI i hst | @storeI i hst | @storeS i hst | @storeM i value hst | @replacementS i hst
      | @replacementM i hst => by_cases hji : j = i <;> grind

theorem ResponseStep.alive (h : ResponseStep s s') (hs : s.Expected) : ∃ p, s'.Authority p := by
  obtain ⟨p, hp⟩ := hs.alive
  refine ⟨p, ?_⟩
  cases p with
  | none => cases h <;> exact hp
  | some j =>
      simp only [Authority] at hp ⊢
      cases h with
      | @dataIS_D i value rest hremoved hst | @dataLast i value stored ackCount rest hremoved hst
      | @dataAckCntIM_AD i value ackCount rest hremoved hst
      | @dataAckCntSM_AD i value ackCount rest hremoved hst =>
          have hcount := hremoved.tally Response.isData j
          by_cases hji : j = i <;> grind
      | @invAck i rest hremoved hst | @invAckAll i stored rest hremoved hst =>
          have hcount := hremoved.tally Response.isData j
          by_cases hji : j = i <;> grind

theorem ForwardStep.alive [Inhabited D] (h : ForwardStep s s') (ha : s.Accounting)
    (hd : s.DowngradeBalanced)
    (hs : s.Expected) : ∃ p, s'.Authority p := by
  obtain ⟨p, hp⟩ := hs.alive
  cases h with
  | @fwdGetSM i r rest hpop hst | @fwdGetSMI_A i r rest hpop hst =>
      -- the data is on its way to the directory
      refine ⟨none, ?_⟩
      have hdir := (hd.of_forwarded_gets hpop.mem).1
      simp [Authority, DirHolds, hdir]
  | @fwdGetMM i r rest hpop hst | @fwdGetMMI_A i r rest hpop hst =>
      -- the data is on its way to the requestor
      refine ⟨some r, ?_⟩
      have hr := (ha.balanced r).of_forwarded_getm hpop.mem
      simp only [Authority]
      grind
  | @invI i r rest hpop hst | @invS i r rest hpop hst | @invSM_AD i r rest hpop hst
  | @invSI_A i r rest hpop hst | @wbAckI i rest hpop hst =>
      refine ⟨p, ?_⟩
      cases p with
      | none => exact hp
      | some j =>
          have hcount := hpop.removed.tally Forward.isRequest j
          simp only [Authority] at hp ⊢
          by_cases hji : j = i <;> grind
  | @wbAck i rest hpop hst =>
      refine ⟨p, ?_⟩
      cases p with
      | none => exact hp
      | some j =>
          -- no forwarded request is behind the acknowledgement
          have hnone := (hs.acks_last i).none_behind hpop (p := Forward.isRequest) (by
            intro m hm
            cases m <;> simp_all [Forward.isWbAck, Forward.isRequest])
          have hcount := hpop.removed.tally Forward.isRequest j
          simp only [Authority] at hp ⊢
          by_cases hji : j = i <;> grind

theorem RequestStep.alive [Inhabited D] {event : Directory.Event} {r : N}
    (h : RequestStep useMap s event r s')
    (ha : s.Accounting) (hs : s.Expected) : ∃ p, s'.Authority p := by
  obtain ⟨p, hp⟩ := hs.alive
  cases h with
  | getSI hpop hst | putSLastS hpop hst | putMMS_D hpop hst | putMOwner hpop hst =>
      exact ⟨none, by simp [Authority, DirHolds]⟩
  | getMI hpop hst | getMS hpop hst =>
      have hr := (ha.balanced r).of_getm hpop.mem
      refine ⟨some r, ?_⟩
      simp only [Authority]
      grind
  | getSM hpop hst | getMM hpop hst =>
      refine ⟨p, ?_⟩
      cases p with
      | none => grind
      | some j =>
          have howned := hs.owner j
          have hput : 0 < tally Request.isPUTM j s.requests → ¬ s.Granted j := fun hpos => by
            obtain ⟨m, hmem, hm⟩ := tally_pos.mp hpos
            exact ha.put_not_granted hmem (by cases m <;> simp_all [Request.isPut, Request.isPUTM])
          have hcount := hpop.removed.tally Request.isPUTM j
          simp only [Authority] at hp ⊢
          grind
  | putSLastI hpop hst | getSS hpop hst | putSNotLast hpop hst | putMS hpop hst
  | putSM hpop hst | putMNotOwner hpop hst | putMMS_M hpop hst =>
      refine ⟨p, ?_⟩
      cases p with
      | none => exact hp
      | some j =>
          have hcount := hpop.removed.tally Request.isPUTM j
          simp only [Authority] at hp ⊢
          grind
  | putSLastMS hpop hst =>
      refine ⟨p, ?_⟩
      cases p with
      | none => exact hp
      | some j =>
          simp only [Authority] at hp ⊢
          grind

theorem Step.alive [Inhabited D] {label : Option (Directory.Event × N)} (h : Step useMap s label s')
    (ha : s.Accounting) (hd : s.DowngradeBalanced) (hs : s.Expected) : ∃ p, s'.Authority p := by
  cases h with
  | cpu h => exact h.alive hs
  | forward h => exact h.alive ha hd hs
  | response h => exact h.alive hs
  | request h => exact h.alive ha hs
  | data h =>
      obtain ⟨p, hp⟩ := hs.alive
      cases h with
      | dropped hremoved hst =>
          refine ⟨p, ?_⟩
          cases p with
          | none => grind
          | some j => exact hp
      | dataMS_D | dataMS_M => exact ⟨none, by simp [Authority, DirHolds, *]⟩
  | @memory _ event r h =>
      cases h with
      | dataIS_M | ackMS_M | ackMI_M => exact ⟨none, by simp [Authority, DirHolds]⟩
      | dataIM_M hremoved hst =>
          have hpos : 0 < tally isRead r s.memory := tally_pos.mpr ⟨_, hremoved.mem, rfl⟩
          have hr := (ha.balanced r).of_read hst hpos
          refine ⟨some r, ?_⟩
          simp only [Authority]
          grind

/-! ## Invalidations -/

/-- No L1 is invalidated for its own store. -/
theorem Step.invalidator [Inhabited D] {label : Option (Directory.Event × N)}
    (h : Step useMap s label s')
    (hs : s.Expected) (j : N) : ¬ (j, .INV j) ∈ s'.forwards := by
  have hold := hs.invalidator j
  cases h with
  | cpu h => cases h <;> exact hold
  | forward h =>
      cases h with
      | invI hpop | invS hpop | invSM_AD hpop | invSI_A hpop | wbAckI hpop | wbAck hpop
      | fwdGetSM hpop | fwdGetSMI_A hpop | fwdGetMM hpop | fwdGetMMI_A hpop =>
          exact fun hmem => hold (hpop.removed.mem_of_rest hmem)
  | response h => cases h <;> exact hold
  | request h => cases h <;> grind
  | data h => cases h <;> exact hold
  | memory h => cases h <;> grind

/-- A sharer that is invalidated is the owner that is being downgraded. -/
theorem Step.apart [Inhabited D] {label : Option (Directory.Event × N)} (h : Step useMap s label s')
    (ha : s.Accounting) (hs : s.Expected) (j : N) (hinv : 0 < tally Forward.isInv j s'.forwards)
    (hj : j ∈ s'.sharers) : 0 < tally Forward.isGETS j s'.forwards := by
  have hold := hs.apart j
  have hinvalidated := hs.invalidated j
  cases h with
  | cpu h => cases h <;> exact hold hinv hj
  | forward h =>
      cases h with
      | @invI i r rest hpop hst | @invS i r rest hpop hst | @invSM_AD i r rest hpop hst
      | @invSI_A i r rest hpop hst | @wbAckI i rest hpop hst | @wbAck i rest hpop hst
      | @fwdGetSM i r rest hpop hst | @fwdGetSMI_A i r rest hpop hst
      | @fwdGetMM i r rest hpop hst | @fwdGetMMI_A i r rest hpop hst =>
          have hcount := hpop.removed.tally Forward.isInv j
          have hgets := hpop.removed.tally Forward.isGETS j
          by_cases hji : j = i <;> grind
  | response h => cases h <;> exact hold hinv hj
  | @request _ event r h =>
      cases h with
      | getSI hpop hst | getSS hpop hst | getSM hpop hst =>
          -- the requestor of a shared copy has no data on its way to be invalidated
          have hr := (ha.balanced r).of_gets hpop.mem
          have hb := ha.balanced r
          have hpos : 0 < tally Request.isGETS r s.requests := tally_pos.mpr ⟨_, hpop.mem, rfl⟩
          simp only [Balanced, sharedPending] at hb
          grind
      | getMI | putSLastI | getMS | putSNotLast | putSLastS | putMS | getMM | putSM | putMOwner
      | putMNotOwner | putSLastMS | putMMS_D | putMMS_M => grind
  | data h => cases h <;> exact hold hinv hj
  | memory h => cases h <;> grind

/-- An L1 that data for a store is on its way to is not invalidated. -/
theorem Expected.not_invalidated {i : N} (hs : s.Expected) (ha : s.Accounting) (ho : s.Ownership)
    (hst : s.state i = .IM_AD ∨ s.state i = .SM_AD)
    (hdata : 0 < tally Response.isData i s.responses) : tally Forward.isInv i s.forwards = 0 := by
  by_contra hne
  obtain ⟨m, hmem, hm⟩ := tally_pos.mp (Nat.pos_of_ne_zero hne)
  cases m with
  | INV c =>
      -- whoever invalidates the L1 has the newest data, and so has the L1
      have hc : s.Authority (some c) := (ha.named_holds (mentions_pos.mpr ⟨i, hmem⟩)).1
      have hi : s.Authority (some i) := by
        simp only [Authority]
        grind
      obtain rfl := Option.some.inj (ho.unique _ _ hc hi)
      exact hs.invalidator c hmem
  | GETS | GETM | WB_ACK => cases hm

theorem Step.invalidated [Inhabited D] {label : Option (Directory.Event × N)}
    (h : Step useMap s label s')
    (ha : s.Accounting) (hd : s.DowngradeBalanced) (ho : s.Ownership) (hs : s.Expected) (j : N)
    (hj : 0 < tally Forward.isInv j s'.forwards) :
    tally Forward.isInv j s'.forwards = 1 ∧ s'.Invalidatable j := by
  have hold := hs.invalidated j
  cases h with
  | cpu h =>
      cases h with
      | @loadI i hst | @storeI i hst | @storeS i hst | @storeM i value hst | @replacementS i hst
      | @replacementM i hst => by_cases hji : j = i <;> grind
  | forward h =>
      cases h with
      | @wbAck i rest hpop hst =>
          have hnone := (hs.acks_last i).none_behind hpop (p := Forward.isInv) (by
            intro m hm
            cases m <;> simp_all [Forward.isWbAck, Forward.isInv])
          have hcount := hpop.removed.tally Forward.isInv j
          by_cases hji : j = i <;> grind
      | @invI i r rest hpop hst | @invS i r rest hpop hst | @invSM_AD i r rest hpop hst
      | @invSI_A i r rest hpop hst | @wbAckI i rest hpop hst
      | @fwdGetSM i r rest hpop hst | @fwdGetSMI_A i r rest hpop hst
      | @fwdGetMM i r rest hpop hst | @fwdGetMMI_A i r rest hpop hst =>
          have hcount := hpop.removed.tally Forward.isInv j
          by_cases hji : j = i <;> grind
  | response h =>
      cases h with
      | @dataIS_D i value rest hremoved hst | @dataLast i value stored ackCount rest hremoved hst
      | @dataAckCntIM_AD i value ackCount rest hremoved hst
      | @dataAckCntSM_AD i value ackCount rest hremoved hst =>
          have hpos : 0 < tally Response.isData i s.responses :=
            tally_pos.mpr ⟨_, hremoved.mem, rfl⟩
          have hnone := hs.not_invalidated (i := i) ha ho
          have hcount := hremoved.tally Response.isData j
          by_cases hji : j = i <;> grind
      | @invAck i rest hremoved hst | @invAckAll i stored rest hremoved hst =>
          have hcount := hremoved.tally Response.isData j
          by_cases hji : j = i <;> grind
  | @request _ event r h =>
      cases h with
      | getMS hpop hst =>
          have hnone := ho.no_inv ha (by simp [DirHolds, hst]) j
          have hsharing := hs.sharer j
          have hgets := hd.no_forwarded_gets (by simp [hst]) j
          have hb := ha.balanced j
          simp only [Balanced, sharedPending, exclusivePending] at hb
          grind
      | getSI | getMI | putSLastI | getSS | putSNotLast | putSLastS | putMS | getSM | getMM | putSM
      | putMOwner | putMNotOwner | putSLastMS | putMMS_D | putMMS_M => grind
  | data h => cases h <;> exact hold hj
  | memory h => cases h <;> grind

/-! ## Sharers -/

theorem Step.sharing [Inhabited D] {label : Option (Directory.Event × N)}
    (h : Step useMap s label s')
    (hrepeats : s.Avoids Trigger.repeatsPut label)
    (hskips : s.Avoids Trigger.skipsDowngrade label) (ha : s.Accounting) (ho : s.Ownership)
    (hs : s.Expected) (j : N) (hj : j ∈ s'.sharers) : s'.Sharing j := by
  have hold := hs.sharer j
  have hforwarded : ∀ c, s.Holds c → j ∈ s.sharers → s.Forwarded j := fun c hc hmem =>
    have hdir := ho.downgrading ha hc hmem
    hs.forwarding hdir.1 hdir.2 j hmem
  cases h with
  | cpu h =>
      have hnone := hs.no_ack (i := j)
      cases h with
      | @loadI i hst | @storeI i hst | @storeS i hst | @storeM i value hst | @replacementS i hst
      | @replacementM i hst => by_cases hji : j = i <;> grind
  | forward h =>
      have hapart := hs.apart j
      have hnone := hs.no_ack (i := j)
      have hfacts := ho.facts hs.alive j
      have honce := hfacts.taken_once
      have htaken := hfacts.taken
      have hle : tally Forward.isGETS j s.forwards ≤ tally Forward.isRequest j s.forwards :=
        tally_isGETS_le
      cases h with
      | @invI i r rest hpop hst | @invS i r rest hpop hst | @invSM_AD i r rest hpop hst
      | @invSI_A i r rest hpop hst | @wbAckI i rest hpop hst | @wbAck i rest hpop hst
      | @fwdGetSM i r rest hpop hst | @fwdGetSMI_A i r rest hpop hst
      | @fwdGetMM i r rest hpop hst | @fwdGetMMI_A i r rest hpop hst =>
          have hgets := hpop.removed.tally Forward.isGETS j
          have hrequests := hpop.removed.tally Forward.isRequest j
          have hinvs := hpop.removed.tally Forward.isInv j
          have hacks := hpop.removed.tally Forward.isWbAck j
          by_cases hji : j = i <;> grind
  | response h =>
      cases h with
      | @dataLast i value stored ackCount rest hremoved hst
      | @dataAckCntSM_AD i value ackCount rest hremoved hst =>
          have hpos : 0 < tally Response.isData i s.responses :=
            tally_pos.mpr ⟨_, hremoved.mem, rfl⟩
          have hholds : s.Holds i := by grind
          have hwaits := (ha.balanced j).of_named_gets
          have hlisted := hforwarded i hholds
          have hanswered := hs.answered j
          unfold unacknowledged at hanswered
          by_cases hji : j = i <;> grind
      | @dataIS_D i value rest hremoved hst | @dataAckCntIM_AD i value ackCount rest hremoved hst
      | @invAck i rest hremoved hst | @invAckAll i stored rest hremoved hst =>
          by_cases hji : j = i <;> grind
  | @request _ event r h =>
      have havoid := hrepeats _ _ rfl
      have hskip := hskips _ _ rfl
      have hunshared := ha.unshared
      cases h with
      | getSI hpop hst | getSS hpop hst =>
          have hr := (ha.balanced r).of_gets hpop.mem
          have hone := (ha.balanced j).gets_le
          have hgets := hpop.removed.tally Request.isGETS j
          grind
      | getSM hpop hst =>
          have hr := (ha.balanced r).of_gets hpop.mem
          have hone := (ha.balanced j).gets_le
          have hgets := hpop.removed.tally Request.isGETS j
          have howner := hs.owner_no_ack (i := j) ho
          grind
      | getMI hpop hst | putSLastI hpop hst
      | getMS hpop hst | putSNotLast hpop hst | putSLastS hpop hst | putMS hpop hst | getMM hpop hst
      | putSM hpop hst | putMOwner hpop hst | putMNotOwner hpop hst | putMMS_D hpop hst
      | putMMS_M hpop hst =>
          have hgets := hpop.removed.tally Request.isGETS j
          grind
      | putSLastMS hpop hst => grind
  | data h => cases h <;> grind
  | memory h =>
      have hunshared := ha.unshared
      cases h <;> grind

/-! ## Runs -/

theorem Initial.expected (h : Initial s) : s.Expected where
  alive := ⟨none, Or.inl h.dir⟩
  answered := by simp [unacknowledged, awaitsWbAck, h.requests, h.forwards, h.state, h.dir]
  acks_last := by simp [AcksLast, h.forwards]
  granted := by simp [Granted, h.state]
  owner := by simp [h.owner]
  forwarding := by simp [h.dir]
  sharer := by simp [h.sharers]
  apart := by simp [h.forwards]
  invalidated := by simp [h.forwards]
  invalidator := by simp [h.forwards]

theorem Step.expected [Inhabited D] {label : Option (Directory.Event × N)}
    (h : Step useMap s label s')
    (hrepeats : s.Avoids Trigger.repeatsPut label)
    (hskips : s.Avoids Trigger.skipsDowngrade label) (hc : s.Coherent) (hs : s.Expected) :
    s'.Expected where
  alive := h.alive hc.accounting hc.downgrade hs
  answered := fun j => by
    have hle := h.unacknowledged_le hc.accounting.dir_shape hrepeats j
    have hj := hs.answered j
    omega
  acks_last := h.acks_last hc.ownership hs
  granted := h.granted_listed hc.accounting hs.granted
  owner := h.owned hc.accounting hc.ownership hs
  forwarding := h.forwarding hc.accounting hs.forwarding
  sharer := h.sharing hrepeats hskips hc.accounting hc.ownership hs
  apart := h.apart hc.accounting hs
  invalidated := h.invalidated hc.accounting hc.downgrade hc.ownership hs
  invalidator := h.invalidator hs

/-- Runs that take no writeback twice, and no PUTM in MS_D, send what is expected. -/
theorem Expected.of_run [Inhabited D] {allowed : Block N D → Option (Directory.Event × N) → Prop}
    (hallowed : ∀ s label, allowed s label →
      s.Avoids Trigger.repeatsPut label ∧ s.Avoids Trigger.skipsDowngrade label)
    (h : (system useMap).Run allowed s) : s.Expected := by
  refine h.invariant (fun _ (hinit : Initial _) => hinit.expected) ?_
  intro s label s' hrun hs hlabel hstep
  obtain ⟨hrepeats, hskips⟩ := hallowed s label hlabel
  exact Step.expected hstep hrepeats hskips
    (Coherent.of_run (fun s label h => (hallowed s label h).2) hrun) hs

/-! ## Writebacks that find the state I behind them -/

/-- A step of the directory leaves no writeback behind. -/
def KeepsPuts (s : Block N D) (label : Option (Directory.Event × N)) : Prop :=
  ∀ event r, label = some (event, r) →
    Trigger.strandsPut ⟨s.dir, s.sharers, event, r⟩ (tallyAll Request.isPut s.requests)
      (tallyAll Request.isPUTM s.requests) = false

/-- The writebacks that the directory cannot take are not in the request network. -/
structure PutsKept (s : Block N D) : Prop where
  modified : s.dir = .I → tallyAll Request.isPUTM s.requests = 0
  any : s.dir = .IS_M ∨ s.dir = .IM_M → tallyAll Request.isPut s.requests = 0

/-- While the directory reads the line for a store, nothing is invalidated. -/
theorem Accounting.no_inv_reading (ha : s.Accounting) (ho : s.Ownership) (hdir : s.dir = .IM_M)
    (i : N) : tally Forward.isInv i s.forwards = 0 := by
  by_contra hne
  obtain ⟨m, hmem, hm⟩ := tally_pos.mp (Nat.pos_of_ne_zero hne)
  cases m with
  | INV c =>
      have hnamed := mentions_pos.mpr ⟨i, hmem⟩
      obtain ⟨hc, -⟩ := ha.named_holds hnamed
      -- the L1 that it names is the owner, to which no data and no ack count is on its way
      have hshape := ha.dir_shape
      simp only [DirShape, hdir] at hshape
      obtain ⟨r, value, hmemory, -, helems⟩ := hshape
      have hr : r ∈ s.owner := by simp [← NetDest.mem_elems, helems]
      have hst := ha.reading_owner hdir hr
      have hholds : s.Holds r := by grind
      obtain rfl : c = r := Option.some.inj (ho.unique _ _ (show s.Authority (some c) from hc)
        (show s.Authority (some r) from hholds))
      have hdata : tally Response.isData c s.responses = 0 := by
        have hb := ha.balanced c
        simp only [Balanced, exclusivePending, hdir, hmemory] at hb
        grind
      have hcount : total Response.ackCount c s.responses = 0 := by
        refine total_eq_zero fun m hm => ?_
        cases m with
        | ACK => rfl
        | DATA value ackCount =>
            exact absurd hdata (Nat.ne_of_gt (tally_pos.mpr ⟨_, hm, rfl⟩))
      obtain ⟨hexpected, ⟨hsign, -⟩, -⟩ := ha.acks_balanced c
      have := hsign hst
      omega
  | GETS | GETM | WB_ACK => cases hm

/-- While the directory reads the line, or nobody has it, no L1 has a copy to evict. -/
theorem Coherent.no_copy {i : N} (hc : s.Coherent) :
    (s.dir = .IS_M ∨ s.dir = .IM_M → s.state i ≠ .S) ∧
      (s.dir = .I ∨ s.dir = .IS_M ∨ s.dir = .IM_M → s.state i ≠ .M) := by
  have hb := hc.accounting.balanced i
  have hshape := hc.accounting.dir_shape
  have hreader := hc.readership.reader i
  have hinv := fun h => hc.accounting.no_inv_reading hc.ownership h i
  have hinv' := fun h => hc.ownership.no_inv hc.accounting h i
  refine ⟨fun hdir hst => ?_, fun hdir hst => ?_⟩
  · rcases hdir with hdir | hdir
    · simp only [DirShape, hdir] at hshape
      obtain ⟨r, value, hmemory, hsharers, -⟩ := hshape
      have hmem : i ∈ s.sharers → i = r := fun h => by
        simpa [hsharers] using NetDest.mem_elems.mpr h
      simp only [Balanced, sharedPending, hdir, hmemory] at hb
      grind
    · grind
  · have hholds : s.Authority (some i) := Or.inl hst
    by_cases hread : s.dir = .IM_M
    · simp only [DirShape, hread] at hshape
      obtain ⟨r, value, -, -, helems⟩ := hshape
      have hr : r ∈ s.owner := by simp [← NetDest.mem_elems, helems]
      have hst' := hc.accounting.reading_owner hread hr
      have hr' : s.Authority (some r) := by
        simp only [Authority]
        grind
      obtain rfl := Option.some.inj (hc.ownership.unique _ _ hholds hr')
      grind
    · have hnone : s.Authority none := by
        simp only [Authority]
        grind
      cases hc.ownership.unique _ _ hholds hnone

theorem Step.puts_kept [Inhabited D] {label : Option (Directory.Event × N)}
    (h : Step useMap s label s')
    (hkeeps : s.KeepsPuts label) (hc : s.Coherent) (hs : s.PutsKept) : s'.PutsKept := by
  obtain ⟨hmodified, hany⟩ := hs
  cases h with
  | cpu h =>
      cases h with
      | @loadI i hst | @storeI i hst | @storeS i hst | @storeM i value hst | @replacementS i hst
      | @replacementM i hst =>
          have hnone := hc.no_copy (i := i)
          constructor <;> grind
  | forward h => cases h <;> exact ⟨hmodified, hany⟩
  | response h => cases h <;> exact ⟨hmodified, hany⟩
  | @request _ event r h =>
      have hkeep := hkeeps _ _ rfl
      cases h with
      | getSI hpop hst | getMI hpop hst | putSLastI hpop hst | getSS hpop hst | getMS hpop hst
      | putSNotLast hpop hst | putSLastS hpop hst | putMS hpop hst | getSM hpop hst
      | getMM hpop hst | putSM hpop hst | putMOwner hpop hst | putMNotOwner hpop hst
      | putMMS_D hpop hst | putMMS_M hpop hst =>
          have hputs := hpop.removed.tallyAll Request.isPut
          have hputms := hpop.removed.tallyAll Request.isPUTM
          constructor <;> grind
      | putSLastMS hpop hst => constructor <;> grind
  | data h => cases h <;> constructor <;> grind
  | @memory _ event r h =>
      have hkeep := hkeeps _ _ rfl
      cases h <;> constructor <;> grind

/-- Runs in which the directory leaves no writeback behind never have one that it cannot take. -/
theorem PutsKept.of_run [Inhabited D] {allowed : Block N D → Option (Directory.Event × N) → Prop}
    (hallowed : ∀ s label, allowed s label →
      s.Avoids Trigger.skipsDowngrade label ∧ s.KeepsPuts label)
    (h : (system useMap).Run allowed s) : s.PutsKept := by
  refine h.invariant (fun s (hinit : Initial s) => ?_) ?_
  · constructor <;> simp [hinit.requests]
  · intro s label s' hrun hs hlabel hstep
    exact Step.puts_kept hstep (hallowed s label hlabel).2
      (Coherent.of_run (fun s label h => (hallowed s label h).1) hrun) hs

end Ece552.Msi.Block
