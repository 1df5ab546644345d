import Ece552.Tomasulo.Timing

/-!
# Starting order

Which of the waiting instructions issue to execution starts. The rounds work on a copy of the
stations, from which they remove what is in a unit or started; an instruction is in the copy or in a
unit, never in both. So no instruction is started twice, each round starts the oldest one that is
left, and the rounds end when the units are full or nothing is ready.
-/

namespace Ece552.Tomasulo

open Library

variable {trace : Trace} {currentCycle : Nat} {s : Sim}

/-- The instruction waits for no producer. -/
def Ready (table : Nat → Progress) (insn : Nat) : Prop := ∀ k, (table insn).Q k = none

/-- What issue to execution does in a cycle. -/
structure StartsOldest (currentCycle : Nat) (s s' : Sim) : Prop where
  /-- no unit is left empty while an instruction of its class is ready -/
  work_conserving : ∀ u, (s'.fu u).isFull = true ∨
    ∀ insn, (s'.reserv u).Has insn → Ready s'.table insn → (s'.fu u).Has insn
  /-- the instructions that are started are the oldest ones -/
  oldest : ∀ u insn other, (s'.fu u).Has insn → ¬ (s.fu u).Has insn → (s.reserv u).Has other →
    Ready s.table other → ¬ (s'.fu u).Has other → insn < other
  /-- what is started was ready in a station of the class, and gets the current cycle -/
  started : ∀ u insn, (s'.fu u).Has insn → ¬ (s.fu u).Has insn → (s.reserv u).Has insn ∧
    Ready s.table insn ∧ (s'.table insn).tomExecuteCycle = currentCycle
  /-- what is in a unit stays in it, and is not started again -/
  kept : ∀ u i insn, s.fu u i = some insn → s'.fu u i = some insn ∧
    (s'.table insn).tomExecuteCycle = (s.table insn).tomExecuteCycle
  distinct : ∀ u, (s'.fu u).Distinct
  reserv : ∀ u, s'.reserv u = s.reserv u
  dependence : ∀ insn, (s'.table insn).Q = (s.table insn).Q

/-! ## Rounds -/

section Rounds

variable {m n : Nat} {insn other : Nat}

/-- A start does not change the producers that an instruction waits for. -/
theorem ready_update {table : Nat → Progress} : Ready (Function.update table insn
    { table insn with tomExecuteCycle := currentCycle }) other ↔ Ready table other := by
  by_cases hother : other = insn
  · rw [Ready, hother, Function.update_self]
    rfl
  · rw [Ready, Function.update_of_ne hother]
    rfl

/-- A unit that is taken keeps its instruction. -/
theorem issueRounds_keeps (rounds : Nat) {copy : SlotArray m Nat} {fu : SlotArray n Nat}
    {table : Nat → Progress} {i : Fin n} (h : fu i = some insn) :
    (issueRounds currentCycle rounds copy fu table).1 i = some insn := by
  induction rounds generalizing copy fu table with
  | zero => exact h
  | succ rounds ih =>
      rw [issueRounds]
      split
      · exact h
      · next hexit =>
          obtain ⟨-, hfull⟩ := Bool.or_eq_false_iff.mp (Bool.not_eq_true _ ▸ hexit)
          split
          · exact h
          · next started _ =>
              obtain ⟨j, hj, hinsert⟩ := SlotArray.insert_of_not_full (a := started) hfull
              refine ih ?_
              rw [hinsert, Function.update_of_ne]
              · exact h
              · rintro rfl
                rw [hj] at h
                cases h

/-- What the rounds start is older than what they leave. -/
theorem issueRounds_oldest (rounds : Nat) {copy : SlotArray m Nat} {fu : SlotArray n Nat}
    {table : Nat → Progress} (hcopy : copy.Distinct)
    (hin : (issueRounds currentCycle rounds copy fu table).1.Has insn) (hnew : ¬ fu.Has insn)
    (hother : copy.Has other) (hready : Ready table other)
    (hleft : ¬ (issueRounds currentCycle rounds copy fu table).1.Has other) : insn < other := by
  induction rounds generalizing copy fu table with
  | zero => exact absurd hin hnew
  | succ rounds ih =>
      rw [issueRounds] at hin hleft
      split at hin
      · exact absurd hin hnew
      · next hexit =>
          obtain ⟨-, hfull⟩ := Bool.or_eq_false_iff.mp (Bool.not_eq_true _ ▸ hexit)
          rw [if_neg hexit] at hleft
          split at hin
          · exact absurd hin hnew
          · next first hfirst =>
              rw [hfirst] at hleft
              obtain ⟨j, hj, hinsert⟩ := SlotArray.insert_of_not_full (a := first) hfull
              have hstarted : (fu.insert first) j = some first := by
                rw [hinsert, Function.update_self]
              have hne : other ≠ first := by
                rintro rfl
                exact hleft ⟨j, issueRounds_keeps rounds hstarted⟩
              by_cases hinsn : insn = first
              · -- started now, as the least of those that are ready
                have hle : first ≤ other :=
                  SlotArray.le_of_oldest hfirst hother (ready_iff.mpr hready)
                rw [hinsn]
                exact lt_of_le_of_ne hle hne.symm
              · refine ih (hcopy.erase (a := first)) hin (fun h => ?_)
                  (hcopy.has_erase.mpr ⟨hne, hother⟩) (ready_update.mpr hready) hleft
                exact ((SlotArray.has_insert hfull).mp h).elim hinsn hnew

end Rounds

/-! ## Classes -/

/-- Both classes of units are filled in the same way, from a table with the same producers. -/
theorem fu_issueToExecute (hs : s.Distinct) (u : FuClass) : ∃ table : Nat → Progress,
    (∀ insn, (table insn).Q = (s.table insn).Q) ∧ (issueToExecute currentCycle s).fu u =
      (issueToExecuteHelper currentCycle (s.reserv u) (s.fu u) table).1 := by
  cases u with
  | INT => exact ⟨s.table, fun insn => rfl, rfl⟩
  | FP =>
      obtain ⟨started, -, -, -, htable, -⟩ := @issueToExecuteHelper_spec currentCycle _ _ _ _
        s.table (hs.reserv .INT) (hs.fu .INT)
      refine ⟨_, fun insn => ?_, rfl⟩
      show ((issueToExecuteHelper currentCycle (s.reserv .INT) (s.fu .INT) s.table).2 insn).Q = _
      rw [htable]
      split <;> rfl

theorem fu_keeps (hs : s.Distinct) {u : FuClass} {i : Fin (fuSize u)} {insn : Nat}
    (h : s.fu u i = some insn) : (issueToExecute currentCycle s).fu u i = some insn := by
  obtain ⟨table, -, heq⟩ := @fu_issueToExecute currentCycle s hs u
  rw [heq]
  exact issueRounds_keeps _ h

theorem fu_oldest (hs : s.Distinct) {u : FuClass} {insn other : Nat}
    (hin : ((issueToExecute currentCycle s).fu u).Has insn) (hnew : ¬ (s.fu u).Has insn)
    (hother : (s.reserv u).Has other) (hready : Ready s.table other)
    (hleft : ¬ ((issueToExecute currentCycle s).fu u).Has other) : insn < other := by
  obtain ⟨table, hQ, heq⟩ := @fu_issueToExecute currentCycle s hs u
  obtain ⟨hcopy, hhas⟩ := @SlotArray.Distinct.erase_all _ _ _ _ _ (s.fu u) (hs.reserv u)
  have hold : ¬ (s.fu u).Has other := fun ⟨i, hi⟩ => hleft ⟨i, fu_keeps hs hi⟩
  rw [heq] at hin hleft
  refine issueRounds_oldest _ hcopy hin hnew ((hhas other).mpr ⟨hother, hold⟩) (fun k => ?_) hleft
  rw [hQ]
  exact hready k

/-! ## Main result -/

/-- Wherever a run calls issue to execution, the call starts the oldest instructions that are
ready, as many as there are units for. -/
theorem issue_starts_oldest {m : Machine} (h : (runTomasulo trace).Reachable m)
    (hstage : m.stage = .issueToExecute) :
    ∃ s', step trace m = some ⟨s', m.cycle, .dispatchToIssue⟩ ∧
      StartsOldest m.cycle m.sim s' := by
  obtain ⟨s, cycle, stage⟩ := m
  obtain rfl : stage = .issueToExecute := hstage
  obtain ⟨hcycle, left, htimeline⟩ := timeline_of_run h
  obtain ⟨t, rfl⟩ := Nat.exists_eq_succ_of_ne_zero hcycle.ne'
  have hs := htimeline.occupied.distinct
  obtain ⟨started, hspec⟩ := @issueToExecute_spec (t + 1) s hs htimeline.occupied.class_unique
  refine ⟨_, rfl, fun u => ?_, fun u insn other => fu_oldest hs, fun u insn hin hnew => ?_,
    fun u i insn hi => ⟨fu_keeps hs hi, ?_⟩, hspec.distinct.fu, hspec.reserv, hspec.dependence⟩
  · refine (hspec.stalled u).imp_right fun hwaits insn hreserv hready => ?_
    rw [hspec.reserv] at hreserv
    by_contra hout
    obtain ⟨k, hk⟩ := hwaits insn hreserv hout
    refine hk ?_
    rw [← hspec.dependence]
    exact hready k
  · obtain ⟨hreserv, hstarted⟩ := ((hspec.fu u insn).mp hin).resolve_left hnew
    refine ⟨hreserv, (hspec.ready insn hstarted).2, ?_⟩
    rw [hspec.execute, if_pos hstarted]
  · -- what is in a unit is in no other one, and was not in the copy
    have hexecuted := ((htimeline.occupied.fu u insn).mp ⟨i, hi⟩).2
    rw [hspec.execute, if_neg fun hin => ?_]
    exact hexecuted (Timeline.started_of_issues htimeline hspec hin).2.1

set_option maxRecDepth 20000 in
/-- After 37 calls the addition is ready in its station, and the store behind it waits for it. -/
theorem issue_starts_oldest_load_add_store :
    ∃ s', step loadAddStore ((run loadAddStore 37 .initial).get (by decide +kernel)) =
        some ⟨s', 8, .dispatchToIssue⟩ ∧
      StartsOldest 8 ((run loadAddStore 37 .initial).get (by decide +kernel)).sim s' :=
  issue_starts_oldest (reachable_get (by decide +kernel)) (by decide +kernel)

end Ece552.Tomasulo
