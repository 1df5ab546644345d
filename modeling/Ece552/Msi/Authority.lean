import Ece552.Msi.Downgrade

/-!
# Who may write a line

At any time at most one L1, or else the directory, has authority over the line: an L1 that is or
will be in state M, one whose writeback or downgrade has not been answered, or the directory while
its own data is the newest. A step leaves the authority where it is, loses it, or moves it.
-/

namespace Ece552.Msi.Block

open Library
open Directory (Trigger)

variable {N D : Type} [DecidableEq N] {s s' : Block N D} {useMap : Bool}

/-- An L1 that the directory has granted exclusive access, and that still has the line. -/
@[grind =] def Granted (s : Block N D) (i : N) : Prop :=
  s.state i = .M ∨ s.state i = .IM_A ∨ s.state i = .SM_A ∨
    ((s.state i = .IM_AD ∨ s.state i = .SM_AD) ∧ tally Request.isGETM i s.requests = 0)

/-- An L1 that has the newest data, or has it on its way with nothing in between: it has or gets
it, a forwarded request will take it from the TBE, or the writeback carries it. -/
@[grind =] def Holds (s : Block N D) (i : N) : Prop :=
  s.state i = .M ∨ s.state i = .IM_A ∨ s.state i = .SM_A ∨
  ((s.state i = .IM_AD ∨ s.state i = .SM_AD) ∧
    (0 < tally Response.isData i s.responses ∨ (s.dir = .IM_M ∧ i ∈ s.owner))) ∨
  (s.state i = .MI_A ∧ 0 < tally Forward.isRequest i s.forwards) ∨
  (0 < tally Request.isPUTM i s.requests ∧ i ∈ s.owner)

/-- The directory has the newest data. -/
@[grind =] def DirHolds (s : Block N D) : Prop :=
  s.dir = .I ∨ s.dir = .IS_M ∨ s.dir = .S ∨ s.dir = .MS_M ∨ s.dir = .MI_M ∨
    (s.dir = .MS_D ∧ s.downgrades ≠ [])

/-- Someone has the newest data: an L1, or the directory for `none`. -/
@[grind =] def Authority (s : Block N D) : Option N → Prop
  | some i => s.Holds i
  | none => s.DirHolds

/-- How a step may change the authority: it can be lost, or move from one place to another. -/
def Transfer (s s' : Block N D) : Prop :=
  (∀ p, s'.Authority p → s.Authority p) ∨
    ∃ p q, s.Authority p ∧ ∀ p', s'.Authority p' → p' = q ∨ (s.Authority p' ∧ p' ≠ p)

/-- What is known of an L1 that owns the line for the directory, or that a forwarded request is in
flight to, as long as someone has the newest data. -/
structure OwnerFacts (s : Block N D) (i : N) : Prop where
  taken_once : tally Forward.isRequest i s.forwards ≤ 1
  not_owner : 0 < tally Forward.isRequest i s.forwards → ¬ i ∈ s.owner
  taken : 0 < tally Forward.isRequest i s.forwards → s.Granted i ∨ s.state i = .MI_A
  owner : i ∈ s.owner → 0 < tally Request.isPUTM i s.requests ∨ s.Granted i

/-- At most one place has authority, and the facts on owners hold. -/
structure Ownership (s : Block N D) : Prop where
  unique : ∀ p q, s.Authority p → s.Authority q → p = q
  writeback : ∀ i, s.state i = .MI_A → i ∈ s.owner → 0 < tally Request.isPUTM i s.requests
  facts : (∃ p, s.Authority p) → ∀ i, s.OwnerFacts i

theorem Transfer.unique (h : Transfer s s') (hunique : ∀ p q, s.Authority p → s.Authority q → p = q)
    (p q : Option N) (hp : s'.Authority p) (hq : s'.Authority q) : p = q := by
  rcases h with h | ⟨p₀, q₀, hp₀, h⟩
  · exact hunique p q (h p hp) (h q hq)
  · -- whoever keeps the authority had it besides the one it moved from
    have hto : ∀ p', s'.Authority p' → p' = q₀ := fun p' hp' =>
      (h p' hp').resolve_right fun hkeep => hkeep.2 (hunique _ _ hkeep.1 hp₀)
    rw [hto p hp, hto q hq]

theorem Transfer.alive (h : Transfer s s') (halive : ∃ p, s'.Authority p) :
    ∃ p, s.Authority p := by
  obtain ⟨p, hp⟩ := halive
  rcases h with h | ⟨p₀, -, hp₀, -⟩
  · exact ⟨p, h p hp⟩
  · exact ⟨p₀, hp₀⟩

/-- While the directory reads the line for an owner, that owner waits for it. -/
theorem Accounting.reading_owner {i : N} (h : s.Accounting) (hdir : s.dir = .IM_M)
    (howner : i ∈ s.owner) : s.state i = .IM_AD ∨ s.state i = .SM_AD := by
  have hshape := h.dir_shape
  simp only [DirShape, hdir] at hshape
  obtain ⟨r, value, hmemory, -, helems⟩ := hshape
  obtain rfl : i = r := by simpa [helems] using NetDest.mem_elems.mpr howner
  have hb := h.balanced i
  simp only [Balanced, exclusivePending, hdir, hmemory] at hb
  grind

/-- The requestor of a forwarded GETS waits for it. -/
theorem Balanced.of_forwarded_gets {i r : N} (h : s.Balanced r)
    (hmem : (i, .GETS r) ∈ s.forwards) : s.state r = .IS_D := by
  have hpos : 0 < mentions (.GETS r) s.forwards := mentions_pos.mpr ⟨i, hmem⟩
  simp only [Balanced, sharedPending] at h
  grind

/-- The requestor of a forwarded GETM waits for it. -/
theorem Balanced.of_forwarded_getm {i r : N} (h : s.Balanced r)
    (hmem : (i, .GETM r) ∈ s.forwards) : s.state r = .IM_AD ∨ s.state r = .SM_AD := by
  have hpos : 0 < mentions (.GETM r) s.forwards := mentions_pos.mpr ⟨i, hmem⟩
  simp only [Balanced, exclusivePending] at h
  grind

/-- No data comes to an L1 whose GETM is not processed. -/
theorem Balanced.getm_or_data {i : N} (h : s.Balanced i) :
    tally Request.isGETM i s.requests + tally Response.isData i s.responses ≤ 1 := by
  simp only [Balanced, exclusivePending] at h
  grind

/-- An L1 with a GETM in the request network is not granted exclusive access. -/
theorem Balanced.not_granted {i : N} (h : s.Balanced i) (hmem : (i, .GETM) ∈ s.requests) :
    ¬ s.Granted i := by
  have hpos : 0 < tally Request.isGETM i s.requests := tally_pos.mpr ⟨_, hmem, rfl⟩
  have hst := h.of_getm hmem
  grind

omit [DecidableEq N] in
/-- No data is on its way to the directory in another state than MS_D. -/
theorem DowngradeBalanced.downgrades_of_ne (h : s.DowngradeBalanced) (hdir : s.dir ≠ .MS_D) :
    s.downgrades = [] := by
  simp only [DowngradeBalanced, downgradesPending, if_neg hdir] at h
  exact List.length_eq_zero_iff.mp (by omega)

omit [DecidableEq N] in
/-- A forwarded GETS is in flight in MS_D only. -/
theorem DowngradeBalanced.of_forwarded_gets {i r : N} (h : s.DowngradeBalanced)
    (hmem : (i, .GETS r) ∈ s.forwards) : s.dir = .MS_D ∧ s.downgrades = [] := by
  have hpos : 0 < tallyAll Forward.isGETS s.forwards := tally_all_pos.mpr ⟨i, _, hmem, rfl⟩
  simp only [DowngradeBalanced, downgradesPending] at h
  split at h
  · next hdir => exact ⟨hdir, List.length_eq_zero_iff.mp (by omega)⟩
  · omega

/-- While a forwarded GETS is in flight the line has no owner. -/
theorem DowngradeBalanced.owner_of_forwarded_gets {i r : N} (h : s.DowngradeBalanced)
    (ha : s.Accounting) (hmem : (i, .GETS r) ∈ s.forwards) : s.owner = .empty := by
  have hshape := ha.dir_shape
  simp only [DirShape, (h.of_forwarded_gets hmem).1] at hshape
  exact hshape.2

theorem CpuStep.authority (h : CpuStep s s') (ha : s.Accounting) (p : Option N)
    (hp : s'.Authority p) : s.Authority p := by
  cases p with
  | none => cases h <;> exact hp
  | some j =>
      have hb := ha.balanced j
      have hread : s.dir = .IM_M → j ∈ s.owner → _ := ha.reading_owner
      simp only [Balanced] at hb
      simp only [Authority, Holds] at hp ⊢
      cases h with
      | @loadI i hst | @storeI i hst | @storeS i hst | @storeM i value hst | @replacementS i hst
      | @replacementM i hst => by_cases hji : j = i <;> grind

theorem ResponseStep.authority (h : ResponseStep s s') (p : Option N) (hp : s'.Authority p) :
    s.Authority p := by
  cases p with
  | none => cases h <;> exact hp
  | some j =>
      simp only [Authority, Holds] at hp ⊢
      cases h with
      | @dataIS_D i value rest hremoved hst | @dataLast i value stored ackCount rest hremoved hst
      | @dataAckCntIM_AD i value ackCount rest hremoved hst
      | @dataAckCntSM_AD i value ackCount rest hremoved hst | @invAck i rest hremoved hst
      | @invAckAll i stored rest hremoved hst =>
          have hcount := hremoved.tally Response.isData j
          by_cases hji : j = i <;> grind

/-- An acknowledged writeback gives nobody authority. -/
theorem wbAck_authority [Inhabited D] {i : N} {rest : List (N × Forward N)}
    (hpop : Popped s.forwards (i, .WB_ACK) rest) (p : Option N)
    (hp : { s.invalidate i with forwards := rest }.Authority p) : s.Authority p := by
  cases p with
  | none => exact hp
  | some j =>
      have hcount := hpop.removed.tally Forward.isRequest j
      simp only [Authority, Holds] at hp ⊢
      by_cases hji : j = i <;> grind

/-- A step on a forwarded request gives the authority of the L1 away. -/
theorem ForwardStep.transfer [Inhabited D] (h : ForwardStep s s') (ha : s.Accounting)
    (hd : s.DowngradeBalanced)
    (ho : s.Ownership) : Transfer s s' := by
  cases h with
  | @invI i r rest hpop hst | @invS i r rest hpop hst | @invSM_AD i r rest hpop hst
  | @invSI_A i r rest hpop hst =>
      left
      rintro (_ | j) hp
      · exact hp
      · have hcount := hpop.removed.tally Forward.isRequest j
        simp only [Authority, Holds] at hp ⊢
        by_cases hji : j = i <;> grind
  | @wbAckI i rest hpop hst =>
      left
      rintro (_ | j) hp
      · exact hp
      · have hcount := hpop.removed.tally Forward.isRequest j
        simp only [Authority, Holds] at hp ⊢
        by_cases hji : j = i <;> grind
  | wbAck hpop => exact Or.inl (wbAck_authority hpop)
  | @fwdGetSM i r rest hpop hst | @fwdGetSMI_A i r rest hpop hst =>
      have htaken := hpop.removed.tally Forward.isRequest
      have hi : s.Authority (some i) := by
        simp only [Authority, Holds]
        grind
      have hr : s.state r = .IS_D := (ha.balanced r).of_forwarded_gets hpop.mem
      have howner : s.owner = .empty := hd.owner_of_forwarded_gets ha hpop.mem
      have hfacts := ho.facts ⟨_, hi⟩ i
      refine Or.inr ⟨some i, none, hi, ?_⟩
      rintro (_ | j) hp
      · exact Or.inl rfl
      · right
        simp only [Authority, Holds, howner] at hp ⊢
        have htaken' := htaken j
        by_cases hji : j = i <;> grind [hfacts.taken_once]
  | @fwdGetMM i r rest hpop hst | @fwdGetMMI_A i r rest hpop hst =>
      have htaken := hpop.removed.tally Forward.isRequest
      have hi : s.Authority (some i) := by
        simp only [Authority, Holds]
        grind
      have hr := (ha.balanced r).of_forwarded_getm hpop.mem
      have hfacts := ho.facts ⟨_, hi⟩ i
      refine Or.inr ⟨some i, some r, hi, ?_⟩
      rintro (_ | j) hp
      · exact Or.inr ⟨hp, (Option.some_ne_none _).symm⟩
      · by_cases hjr : j = r
        · exact Or.inl (congrArg some hjr)
        · right
          simp only [Authority, Holds] at hp ⊢
          have htaken' := htaken j
          by_cases hji : j = i <;> grind [hfacts.taken_once, hfacts.not_owner]

/-- Forwarding a GETS gives nobody authority: the data is not on its way to the directory yet. -/
theorem getSM_authority {r : N} {rest : List (N × Request D)} (hst : s.dir = .M)
    (hd : s.DowngradeBalanced) (ho : s.Ownership) (p : Option N)
    (hp : { s with
      requests := rest
      forwards := s.forwards ++ multicast s.owner (.GETS r)
      dir := .MS_D
      sharers := (s.sharers.add r).addNetDest s.owner
      owner := .empty }.Authority p) : s.Authority p := by
  cases p with
  | none =>
      have hnone := hd.downgrades_of_ne (by simp [hst])
      simp [Authority, DirHolds, hnone] at hp
  | some j =>
      have hw := ho.writeback j
      simp only [Authority, Holds] at hp ⊢
      grind

/-- Forwarding a GETM gives nobody authority: the requestor gets the data from the owner. -/
theorem getMM_authority {r : N} {rest : List (N × Request D)}
    (hpop : Popped s.requests (r, .GETM) rest) (hst : s.dir = .M) (ha : s.Accounting)
    (ho : s.Ownership) (p : Option N)
    (hp : { s with
      requests := rest
      forwards := s.forwards ++ multicast s.owner (.GETM r)
      owner := NetDest.empty.add r }.Authority p) : s.Authority p := by
  cases p with
  | none => simp [Authority, DirHolds, hst] at hp
  | some j =>
      have hw := ho.writeback j
      have hputm := (ha.request_shape r).no_putm hpop rfl
      have hcount := hpop.removed.tally Request.isPUTM j
      simp only [Authority, Holds] at hp ⊢
      grind

/-- A request moves the authority between the directory and its requestor, or not at all. -/
theorem RequestStep.transfer [Inhabited D] {event : Directory.Event} {r : N}
    (h : RequestStep useMap s event r s')
    (hskips : Trigger.skipsDowngrade ⟨s.dir, s.sharers, event, r⟩ = false) (ha : s.Accounting)
    (hd : s.DowngradeBalanced) (ho : s.Ownership) : Transfer s s' := by
  have hshape := ha.dir_shape
  cases h with
  | getMI hpop hst | getMS hpop hst =>
      -- the directory gives the line to the requestor
      refine Or.inr ⟨none, some r, by simp [Authority, DirHolds, hst], ?_⟩
      rintro (_ | j) hp
      · simp [Authority, DirHolds] at hp
      · simp only [DirShape, hst] at hshape
        simp only [Authority, Holds, hshape] at hp ⊢
        by_cases hjr : j = r <;> grind
  | putMOwner hpop hst howner =>
      -- the writeback brings the newest data to the directory
      have hputm : 0 < tally Request.isPUTM r s.requests := tally_pos.mpr ⟨_, hpop.mem, rfl⟩
      have hr : s.Authority (some r) := by
        simp only [Authority, Holds]
        grind
      have hfacts := ho.facts ⟨_, hr⟩ r
      have hput := (ha.request_shape r).put_state _ hpop.mem rfl
      have hdata := (ha.balanced r).getm_or_data
      have hgetm := tally_pos (p := Request.isGETM) (k := r) (l := s.requests)
      refine Or.inr ⟨some r, none, hr, ?_⟩
      rintro (_ | j) hp
      · exact Or.inl rfl
      · right
        have hcount := hpop.removed.tally Request.isPUTM j
        simp only [Authority, Holds] at hp ⊢
        by_cases hjr : j = r <;> grind [hfacts.not_owner]
  | getSM hpop hst => exact Or.inl (getSM_authority hst hd ho)
  | getMM hpop hst => exact Or.inl (getMM_authority hpop hst ha ho)
  | getSS hpop hst =>
      left
      have hr := (ha.balanced r).of_gets hpop.mem
      rintro (_ | j) hp
      · exact hp
      · have hcount := hpop.removed.tally Request.isPUTM j
        simp only [Authority, Holds] at hp ⊢
        grind
  | getSI hpop hst | putSLastI hpop hst | putSNotLast hpop hst
  | putSLastS hpop hst | putMS hpop hst | putSM hpop hst | putMNotOwner hpop hst
  | putSLastMS hpop hst | putMMS_D hpop hst | putMMS_M hpop hst =>
      left
      rintro (_ | j) hp
      · simp only [Authority, DirHolds] at hp ⊢
        grind
      · have hcount := hpop.removed.tally Request.isPUTM j
        simp only [Authority, Holds] at hp ⊢
        grind

theorem DataStep.authority {i : N} (h : DataStep s i s') (p : Option N) (hp : s'.Authority p) :
    s.Authority p := by
  cases p with
  | some j =>
      simp only [Authority, Holds] at hp ⊢
      cases h with
      | dropped hremoved | dataMS_D hremoved | dataMS_M hremoved => grind
  | none =>
      simp only [Authority, DirHolds] at hp ⊢
      cases h with
      | dropped hremoved | dataMS_D hremoved | dataMS_M hremoved =>
          have hmem := List.ne_nil_of_mem hremoved.mem
          grind

theorem MemoryStep.authority [Inhabited D] {event : Directory.Event} {r : N}
    (h : MemoryStep useMap s event r s') (ha : s.Accounting) (p : Option N)
    (hp : s'.Authority p) : s.Authority p := by
  have hshape := ha.dir_shape
  have hb := ha.balanced r
  simp only [Balanced, sharedPending, exclusivePending] at hb
  cases h with
  | dataIS_M hremoved hst | dataIM_M hremoved hst =>
      simp only [DirShape, hst] at hshape
      obtain ⟨r', value', hmemory, hshape⟩ := hshape
      rw [hmemory] at hremoved
      obtain ⟨heq, rfl⟩ := hremoved.of_singleton
      cases p with
      | none =>
          simp only [Authority, DirHolds] at hp ⊢
          grind
      | some j =>
          have howner : s.owner.elems = [r'] → r' ∈ s.owner := fun helems =>
            NetDest.mem_elems.mp (by simp [helems])
          simp only [Authority, Holds] at hp ⊢
          grind
  | ackMS_M hremoved hst | ackMI_M hremoved hst =>
      cases p with
      | none =>
          simp only [Authority, DirHolds] at hp ⊢
          grind
      | some j =>
          simp only [Authority, Holds] at hp ⊢
          grind

/-- No step makes a second authority. -/
theorem Step.transfer [Inhabited D] {label : Option (Directory.Event × N)}
    (h : Step useMap s label s')
    (hskips : s.Avoids Trigger.skipsDowngrade label) (ha : s.Accounting)
    (hd : s.DowngradeBalanced) (ho : s.Ownership) : Transfer s s' := by
  cases h with
  | cpu h => exact Or.inl (h.authority ha)
  | forward h => exact h.transfer ha hd ho
  | response h => exact Or.inl h.authority
  | request h => exact h.transfer (hskips _ _ rfl) ha hd ho
  | data h => exact Or.inl h.authority
  | memory h => exact Or.inl (h.authority ha)

/-! ## Owners -/

/-- A modified line on its way out is in the request network as long as the directory still has
its L1 for the owner. -/
theorem Step.owner_writeback [Inhabited D] {label : Option (Directory.Event × N)}
    (h : Step useMap s label s')
    (ha : s.Accounting) (hs : ∀ i, s.state i = .MI_A → i ∈ s.owner →
      0 < tally Request.isPUTM i s.requests)
    (j : N) : s'.state j = .MI_A → j ∈ s'.owner → 0 < tally Request.isPUTM j s'.requests := by
  have hj := hs j
  cases h with
  | cpu h =>
      cases h with
      | @loadI i hst | @storeI i hst | @storeS i hst | @storeM i value hst | @replacementS i hst
      | @replacementM i hst => by_cases hji : j = i <;> grind
  | forward h =>
      cases h with
      | @invI i r rest hpop hst | @invS i r rest hpop hst | @invSM_AD i r rest hpop hst
      | @invSI_A i r rest hpop hst | @wbAckI i rest hpop hst | @wbAck i rest hpop hst
      | @fwdGetSM i r rest hpop hst | @fwdGetSMI_A i r rest hpop hst | @fwdGetMM i r rest hpop hst
      | @fwdGetMMI_A i r rest hpop hst => by_cases hji : j = i <;> grind
  | response h =>
      cases h with
      | @dataIS_D i value rest hremoved hst | @dataLast i value stored ackCount rest hremoved hst
      | @dataAckCntIM_AD i value ackCount rest hremoved hst
      | @dataAckCntSM_AD i value ackCount rest hremoved hst | @invAck i rest hremoved hst
      | @invAckAll i stored rest hremoved hst => by_cases hji : j = i <;> grind
  | @request _ event r h =>
      cases h with
      | getMI hpop | getMS hpop | getMM hpop =>
          -- the new owner waits for data
          have hr := (ha.balanced r).of_getm hpop.mem
          grind
      | getSI hpop | putSLastI hpop | getSS hpop | putSNotLast hpop | putSLastS hpop | putMS hpop
      | getSM hpop | putSM hpop | putMOwner hpop | putMNotOwner hpop | putSLastMS hpop
      | putMMS_D hpop | putMMS_M hpop =>
          have hcount := hpop.removed.tally Request.isPUTM j
          grind
  | data h => cases h <;> exact hj
  | memory h => cases h <;> exact hj

/-- If a step gives nobody authority and someone has it afterwards, it is who had it before. -/
theorem Ownership.still_holds {i : N} (ho : s.Ownership)
    (hkeep : ∀ p, s'.Authority p → s.Authority p) (halive : ∃ p, s'.Authority p)
    (hi : s.Holds i) : s'.Holds i := by
  obtain ⟨p, hp⟩ := halive
  obtain rfl := ho.unique _ _ (hkeep p hp) (show s.Authority (some i) from hi)
  exact hp

theorem CpuStep.owner_facts (h : CpuStep s s') (hs : ∀ i, s.OwnerFacts i) (j : N) :
    s'.OwnerFacts j := by
  obtain ⟨honce, hnot, htaken, howner⟩ := hs j
  cases h with
  | @loadI i hst | @storeI i hst | @storeS i hst | @storeM i value hst | @replacementS i hst
  | @replacementM i hst => by_cases hji : j = i <;> constructor <;> grind

theorem ResponseStep.owner_facts (h : ResponseStep s s') (hs : ∀ i, s.OwnerFacts i) (j : N) :
    s'.OwnerFacts j := by
  obtain ⟨honce, hnot, htaken, howner⟩ := hs j
  cases h with
  | @dataIS_D i value rest hremoved hst | @dataLast i value stored ackCount rest hremoved hst
  | @dataAckCntIM_AD i value ackCount rest hremoved hst
  | @dataAckCntSM_AD i value ackCount rest hremoved hst | @invAck i rest hremoved hst
  | @invAckAll i stored rest hremoved hst => by_cases hji : j = i <;> constructor <;> grind

theorem ForwardStep.owner_facts [Inhabited D] (h : ForwardStep s s') (ha : s.Accounting)
    (hd : s.DowngradeBalanced) (ho : s.Ownership) (halive : ∃ p, s'.Authority p)
    (hs : ∀ i, s.OwnerFacts i) (j : N) : s'.OwnerFacts j := by
  obtain ⟨honce, hnot, htaken, howner⟩ := hs j
  cases h with
  | @invI i r rest hpop hst | @invS i r rest hpop hst | @invSM_AD i r rest hpop hst
  | @invSI_A i r rest hpop hst | @wbAckI i rest hpop hst =>
      have hcount := hpop.removed.tally Forward.isRequest j
      by_cases hji : j = i <;> constructor <;> grind
  | @wbAck i rest hpop hst =>
      have hcount := hpop.removed.tally Forward.isRequest j
      -- a forwarded request still to come would have taken the line from the TBE
      have hnone : s.state i = .MI_A → tally Forward.isRequest i s.forwards = 0 := by
        intro hmi
        by_contra hne
        have hi : s.Holds i := by grind
        have hkept := ho.still_holds (wbAck_authority hpop) halive hi
        have hnot := (hs i).not_owner (Nat.pos_of_ne_zero hne)
        simp only [Holds] at hkept
        grind
      by_cases hji : j = i <;> constructor <;> grind
  | @fwdGetSM i r rest hpop hst | @fwdGetSMI_A i r rest hpop hst =>
      have hcount := hpop.removed.tally Forward.isRequest j
      have hempty := hd.owner_of_forwarded_gets ha hpop.mem
      by_cases hji : j = i <;> constructor <;> grind
  | @fwdGetMM i r rest hpop hst | @fwdGetMMI_A i r rest hpop hst =>
      have hcount := hpop.removed.tally Forward.isRequest j
      by_cases hji : j = i <;> constructor <;> grind

theorem RequestStep.owner_facts [Inhabited D] {event : Directory.Event} {r : N}
    (h : RequestStep useMap s event r s') (ha : s.Accounting) (hd : s.DowngradeBalanced)
    (ho : s.Ownership) (halive : ∃ p, s'.Authority p) (hs : ∀ i, s.OwnerFacts i) (j : N) :
    s'.OwnerFacts j := by
  obtain ⟨honce, hnot, htaken, howner⟩ := hs j
  have hshape := ha.dir_shape
  cases h with
  | getSM hpop hst =>
      have hdata := (ha.balanced j).getm_or_data
      -- an owner that has not answered yet keeps the authority only by a forwarded request
      have hheld : j ∈ s.owner → s.Granted j ∨ s.state j = .MI_A := by
        intro hj
        by_contra hnone
        have hi : s.Holds j := by grind
        have hkept := ho.still_holds (getSM_authority hst hd ho) halive hi
        simp only [Holds] at hkept
        grind
      have hgetm := hpop.removed.tally Request.isGETM j
      constructor <;> grind
  | getMM hpop hst =>
      have hdata := (ha.balanced j).getm_or_data
      have hr := (ha.balanced r).of_getm hpop.mem
      have hgranted := (ha.balanced r).not_granted hpop.mem
      have hnoput := (ha.request_shape r).no_putm hpop rfl
      have hr' := hs r
      have hheld : j ∈ s.owner → s.Granted j ∨ s.state j = .MI_A := by
        intro hj
        by_contra hnone
        have hi : s.Holds j := by grind
        have hkept := ho.still_holds (getMM_authority hpop hst ha ho) halive hi
        simp only [Holds] at hkept
        grind
      have hgetm := hpop.removed.tally Request.isGETM j
      constructor <;> grind
  | getMI hpop hst | getMS hpop hst =>
      have hr := (ha.balanced r).of_getm hpop.mem
      have hgranted := (ha.balanced r).not_granted hpop.mem
      have hdata := (ha.balanced r).getm_or_data
      have hr' := (hs r).taken
      have hgetm := hpop.removed.tally Request.isGETM j
      have hputm := hpop.removed.tally Request.isPUTM j
      have hcount : tally Request.isGETM r s.requests ≤ 1 := by omega
      constructor <;> grind
  | putMOwner hpop hst =>
      have hgetm := hpop.removed.tally Request.isGETM j
      constructor <;> grind
  | getSI hpop hst | putSLastI hpop hst | getSS hpop hst | putSNotLast hpop hst
  | putSLastS hpop hst | putMS hpop hst | putSM hpop hst | putMNotOwner hpop hst
  | putSLastMS hpop hst | putMMS_D hpop hst | putMMS_M hpop hst =>
      have hgetm := hpop.removed.tally Request.isGETM j
      have hputm := hpop.removed.tally Request.isPUTM j
      constructor <;> grind

theorem Step.owner_facts [Inhabited D] {label : Option (Directory.Event × N)}
    (h : Step useMap s label s')
    (ha : s.Accounting) (hd : s.DowngradeBalanced) (ho : s.Ownership)
    (halive : ∃ p, s'.Authority p) (hs : ∀ i, s.OwnerFacts i) (j : N) : s'.OwnerFacts j := by
  cases h with
  | cpu h => exact h.owner_facts hs j
  | forward h => exact h.owner_facts ha hd ho halive hs j
  | response h => exact h.owner_facts hs j
  | request h => exact h.owner_facts ha hd ho halive hs j
  | data h =>
      obtain ⟨honce, hnot, htaken, howner⟩ := hs j
      cases h <;> exact ⟨honce, hnot, htaken, howner⟩
  | memory h =>
      obtain ⟨honce, hnot, htaken, howner⟩ := hs j
      cases h with
      | dataIS_M | dataIM_M | ackMS_M => exact ⟨honce, hnot, htaken, howner⟩
      | ackMI_M => constructor <;> grind

theorem Initial.ownership (h : Initial s) : s.Ownership where
  unique := by
    have hnone : ∀ p, s.Authority p → p = none := by
      rintro (_ | i) hp
      · rfl
      · simp [Authority, Holds, h.state, h.requests] at hp
    intro p q hp hq
    rw [hnone p hp, hnone q hq]
  writeback := by simp [h.state]
  facts := fun _ i => by constructor <;> simp [h.forwards, h.owner]

theorem Step.ownership [Inhabited D] {label : Option (Directory.Event × N)}
    (h : Step useMap s label s')
    (hskips : s.Avoids Trigger.skipsDowngrade label) (ha : s.Accounting)
    (hd : s.DowngradeBalanced) (ho : s.Ownership) : s'.Ownership where
  unique := (h.transfer hskips ha hd ho).unique ho.unique
  writeback := h.owner_writeback ha ho.writeback
  facts := fun halive =>
    h.owner_facts ha hd ho halive (ho.facts ((h.transfer hskips ha hd ho).alive halive))

/-- Runs that never take a PUTM in MS_D have at most one authority. -/
theorem Ownership.of_run [Inhabited D] {allowed : Block N D → Option (Directory.Event × N) → Prop}
    (hallowed : ∀ s label, allowed s label → s.Avoids Trigger.skipsDowngrade label)
    (h : (system useMap).Run allowed s) : s.Ownership :=
  h.invariant (fun _ (hinit : Initial _) => hinit.ownership) fun s label _ hrun hs hlabel hstep =>
    Step.ownership hstep (hallowed s label hlabel) (Accounting.of_run hrun)
      (DowngradeBalanced.of_run hallowed hrun) hs

end Ece552.Msi.Block
