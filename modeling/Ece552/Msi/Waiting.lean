import Ece552.Msi.Arrival

/-!
# What an L1 waits for

An L1 stalls a forwarded request while it waits for the line itself. What it waits for was asked for
before: along runs that take no writeback twice and no PUTM in MS_D, the forwards on its behalf are
ahead of the request that it stalls. So in the order of sending no L1 waits for anything that comes
later, and with nothing else in flight every wait is one for a forward.
-/

namespace Ece552.Msi

open Library
open Directory (Trigger)

/-- The L1 that a forward is sent on behalf of. -/
def Forward.behalf {N : Type} : Forward N → Option N
  | .GETS r | .GETM r | .INV r => some r
  | .WB_ACK => none

namespace Block

variable {N D : Type} [DecidableEq N] {s s' : Block N D} {useMap : Bool}

/-! ## The order of forwards -/

/-- A forwarded request is behind everything that is sent on behalf of the L1 it is for. -/
structure AskedInOrder (l : List (N × Forward N)) : Prop where
  self : ∀ x ∈ l, x.2.isRequest = true → x.2.behalf ≠ some x.1
  behind : l.Pairwise fun x y => x.2.isRequest = true → y.2.behalf ≠ some x.1

omit [DecidableEq N] in
/-- Whatever is on behalf of the L1 that a forwarded request is for is ahead of the request. -/
theorem AskedInOrder.ahead {before after : List (N × Forward N)} {x y : N × Forward N}
    (h : AskedInOrder (before ++ x :: after)) (hx : x.2.isRequest = true)
    (hy : y.2.behalf = some x.1) : y ∉ x :: after := by
  intro hmem
  rcases List.mem_cons.mp hmem with rfl | hmem
  · exact h.self y (List.mem_append_right _ List.mem_cons_self) hx hy
  · have hbehind := (List.pairwise_append.mp h.behind).2.1
    exact (List.pairwise_cons.mp hbehind).1 y hmem hx hy

omit [DecidableEq N] in
theorem AskedInOrder.sublist {l l' : List (N × Forward N)} (h : AskedInOrder l)
    (hl : l'.Sublist l) : AskedInOrder l' :=
  ⟨fun x hx => h.self x (hl.subset hx), h.behind.sublist hl⟩

omit [DecidableEq N] in
/-- An acknowledgement is on nobody's behalf. -/
theorem AskedInOrder.send_ack {l : List (N × Forward N)} {r : N} (h : AskedInOrder l) :
    AskedInOrder (l ++ [(r, .WB_ACK)]) where
  self := by
    intro x hx hrequest
    rcases List.mem_append.mp hx with hx | hx
    · exact h.self x hx hrequest
    · rw [List.mem_singleton.mp hx] at hrequest
      cases hrequest
  behind := by
    rw [List.pairwise_append]
    refine ⟨h.behind, List.pairwise_singleton _ _, fun x _ y hy _ => ?_⟩
    rw [List.mem_singleton.mp hy]
    exact nofun

/-- A multicast on behalf of an L1 that no forwarded request is on its way to. -/
theorem AskedInOrder.multicast {l : List (N × Forward N)} {destination : NetDest N}
    {m : Forward N} {r : N} (h : AskedInOrder l) (hm : m.behalf = some r)
    (hnone : tally Forward.isRequest r l = 0) (hr : m.isRequest = true → ¬ r ∈ destination) :
    AskedInOrder (l ++ Block.multicast destination m) := by
  have hsent : ∀ x ∈ Block.multicast destination m, x.1 ∈ destination ∧ x.2 = m := by
    intro x hx
    obtain ⟨heq, hmem⟩ := mem_multicast.mp (show (x.1, x.2) ∈ _ from hx)
    exact ⟨hmem, heq⟩
  have hother : ∀ x ∈ Block.multicast destination m, x.2.isRequest = true → x.1 ≠ r := by
    rintro x hx hrequest rfl
    obtain ⟨hmem, heq⟩ := hsent x hx
    exact hr (heq ▸ hrequest) hmem
  refine ⟨fun x hx hrequest => ?_, ?_⟩
  · rcases List.mem_append.mp hx with hx | hx
    · exact h.self x hx hrequest
    · rw [(hsent x hx).2, hm]
      exact fun heq => hother x hx hrequest (Option.some.inj heq).symm
  · rw [List.pairwise_append]
    refine ⟨h.behind, List.pairwise_of_forall_mem_list fun x hx y hy hrequest => ?_,
      fun x hx y hy hrequest => ?_⟩
    · rw [(hsent y hy).2, hm]
      exact fun heq => hother x hx hrequest (Option.some.inj heq).symm
    · rw [(hsent y hy).2, hm]
      intro heq
      obtain rfl := Option.some.inj heq
      exact Nat.ne_of_gt (tally_pos.mpr ⟨x.2, hx, hrequest⟩) hnone

/-- The line is taken from no L1 whose request for it has not been processed. -/
theorem Coherent.not_taken {r : N} {m : Request D} (hc : s.Coherent) (he : s.Expected)
    (hmem : (r, m) ∈ s.requests) (hm : m.isPut = false) :
    tally Forward.isRequest r s.forwards = 0 ∧ ¬ r ∈ s.owner := by
  have hb := hc.accounting.balanced r
  have hst : ¬ s.Granted r ∧ s.state r ≠ .MI_A := by
    cases m with
    | GETS =>
        have hstate := hb.of_gets hmem
        grind
    | GETM =>
        have hstate := hb.of_getm hmem
        exact ⟨hb.not_granted hmem, by grind⟩
    | PUTS | PUTM => cases hm
  refine ⟨Nat.eq_zero_of_not_pos fun hpos => ?_, fun howner => ?_⟩
  · rcases (hc.ownership.facts he.alive r).taken hpos with hgranted | hstate
    · exact hst.1 hgranted
    · exact hst.2 hstate
  · rcases he.owner r howner with hgranted | hstate
    · exact hst.1 hgranted
    · exact hst.2 hstate

theorem Step.asked_in_order [Inhabited D] {label : Option (Directory.Event × N)}
    (h : Step useMap s label s')
    (hc : s.Coherent) (he : s.Expected) (hs : AskedInOrder s.forwards) :
    AskedInOrder s'.forwards := by
  cases h with
  | cpu h => cases h <;> exact hs
  | forward h =>
      cases h with
      | invI hpop | invS hpop | invSM_AD hpop | invSI_A hpop | wbAckI hpop | wbAck hpop
      | fwdGetSM hpop | fwdGetSMI_A hpop | fwdGetMM hpop | fwdGetMMI_A hpop =>
          exact hs.sublist hpop.removed.sublist
  | response h => cases h <;> exact hs
  | request h =>
      cases h with
      | getSI | getMI | getSS | putMOwner | putMMS_M => exact hs
      | putSLastI | putSNotLast | putSLastS | putMS | putSM | putMNotOwner | putSLastMS
      | putMMS_D => exact hs.send_ack
      | getMS hpop | getSM hpop | getMM hpop =>
          obtain ⟨hnone, hnot⟩ := hc.not_taken he hpop.mem rfl
          exact hs.multicast rfl hnone (by simp [Forward.isRequest, hnot])
  | data h => cases h <;> exact hs
  | memory h =>
      cases h with
      | dataIS_M | dataIM_M | ackMS_M => exact hs
      | ackMI_M => exact hs.send_ack

/-- Runs that take no writeback twice and no PUTM in MS_D ask in order. -/
theorem AskedInOrder.of_run [Inhabited D] {allowed : Block N D → Option
    (Directory.Event × N) → Prop}
    (hallowed : ∀ s label, allowed s label →
      s.Avoids Trigger.repeatsPut label ∧ s.Avoids Trigger.skipsDowngrade label)
    (h : (system useMap).Run allowed s) : AskedInOrder s.forwards := by
  refine h.invariant (I := fun s => AskedInOrder s.forwards) ?_ ?_
  · intro s (hinit : Initial s)
    rw [hinit.forwards]
    exact ⟨by simp, .nil⟩
  · intro s label s' hrun hs hlabel hstep
    exact hstep.asked_in_order (Coherent.of_run (fun s label h => (hallowed s label h).2) hrun)
      (Expected.of_run hallowed hrun) hs

/-! ## With nothing but requests and forwards in flight -/

/-- No response, downgrade or memory request is in flight. -/
structure Quiet (s : Block N D) : Prop where
  responses : s.responses = []
  downgrades : s.downgrades = []
  memory : s.memory = []

/-- An L1 that stalls a forwarded request waits for a forward on its behalf. -/
theorem Coherent.waits_for_forward {i : N} {m : Forward N} (hc : s.Coherent) (he : s.Expected)
    (hq : s.Quiet) (hmem : (i, m) ∈ s.forwards) (hm : m.isRequest = true)
    (hst : Upgrading (s.state i)) :
    ∃ y ∈ s.forwards, y.2 = .GETM i ∨ y.2 = .INV i := by
  have htaken := (hc.ownership.facts he.alive i).taken (tally_pos.mpr ⟨m, hmem, hm⟩)
  have hb := hc.accounting.balanced i
  have hacks := hc.accounting.acks_balanced i
  simp only [Balanced, sharedPending, exclusivePending, hq.responses, hq.memory, tally_nil] at hb
  have hexpected := hacks.expected
  rw [hq.responses, total_nil, tally_nil] at hexpected
  have hsign := hacks.sign
  by_cases hdata : s.state i = .IM_AD ∨ s.state i = .SM_AD
  · -- the GETM has been processed, and the data comes from another L1
    have hpos : 0 < mentions (.GETM i) s.forwards := by grind
    obtain ⟨j, hj⟩ := mentions_pos.mp hpos
    exact ⟨_, hj, Or.inl rfl⟩
  · -- acknowledgements are missing
    have hpos : 0 < mentions (.INV i) s.forwards := by
      have hacksPending : 0 < s.pendingAcks i := hsign.2.1 (by grind)
      omega
    obtain ⟨j, hj⟩ := mentions_pos.mp hpos
    exact ⟨_, hj, Or.inr rfl⟩

/-- An L1 in a transient state waits for a message in flight. -/
theorem Coherent.waits_for_message {i : N} (hc : s.Coherent) (hw : s.WritebackBalanced i)
    (hq : s.Quiet) (hst : s.state i ≠ .I ∧ s.state i ≠ .S ∧ s.state i ≠ .M) :
    s.requests ≠ [] ∨ s.forwards ≠ [] := by
  by_contra hnone
  obtain ⟨hrequests, hforwards⟩ := not_or.mp hnone
  rw [not_not] at hrequests hforwards
  have hb := hc.accounting.balanced i
  have hacks := hc.accounting.acks_balanced i
  simp only [Balanced, sharedPending, exclusivePending, hq.responses, hq.memory, hrequests,
    hforwards, tally_nil, mentions_nil] at hb
  simp only [WritebackBalanced, unacknowledged, hq.memory, hrequests, hforwards, tally_nil] at hw
  have hexpected := hacks.expected
  rw [hq.responses, hforwards, total_nil, tally_nil, mentions_nil] at hexpected
  have hsign := hacks.sign
  cases hstate : s.state i <;> grind

/-- A directory in a transient state waits for a forwarded GETS. -/
theorem Coherent.dir_waits (hc : s.Coherent) (hq : s.Quiet)
    (hdir : s.dir ≠ .I ∧ s.dir ≠ .S ∧ s.dir ≠ .M) : s.forwards ≠ [] := by
  intro hnone
  have hshape := hc.accounting.dir_shape
  have hdowngrade := hc.downgrade
  simp only [DowngradeBalanced, downgradesPending, hnone, hq.downgrades,
    tally_all_nil] at hdowngrade
  cases hd : s.dir <;> simp [DirShape, hd, hq.memory] at hshape hdir hdowngrade

end Block

end Ece552.Msi
