import Ece552.Predictor.Machine

/-!
# The 2-bit saturating counters

Bits 3 to 14 of the address of a branch select one of 4096 counters. The table is a bank of
independent counters: what happens to one of them is a function of the outcomes of its own branches.
-/

namespace Ece552.Predictor.TwoBitSat

open Library

/-- Bits 3 to 14 of the address. -/
def selected (b : Branch) : Fin 4096 :=
  ⟨b.pc.toNat / 2 ^ 3 % 2 ^ 12, Nat.mod_lt _ (Nat.two_pow_pos _)⟩

/-- The branches that select a counter. -/
def branchesOf (i : Fin 4096) (branches : List Branch) : List Branch :=
  branches.filter fun b => selected b = i

/-- The outcomes of these branches, the earliest one first. -/
def outcomesOf (i : Fin 4096) (branches : List Branch) : List Bool :=
  (branchesOf i branches).map Branch.taken

/-- The prediction for a branch. -/
def prediction (s : TwoBitSat) (b : Branch) : Except Fault Nat := do
  let index ← checkIndex 4096 (pcBits b.pc 0x0FFF 3)
  .ok (s.predictionTable index)

variable {older : List Branch} {s : TwoBitSat}

/-! ## One branch -/

/-- The index is inside of the table. -/
theorem check_index_eq (b : Branch) :
    checkIndex 4096 (pcBits b.pc 0x0FFF 3) = .ok (selected b) := by
  have hbits : pcBits b.pc 0x0FFF 3 = b.pc.toNat / 2 ^ 3 % 2 ^ 12 :=
    @pc_bits_eq b.pc 0x0FFF 3 12 rfl (Nat.le_of_ble_eq_true rfl)
  rw [hbits]
  exact check_index_of_lt (selected b).isLt

/-- The counter that a branch moves. -/
def update (b : Branch) : Fin 4096 × Bool := (selected b, b.taken)

/-- The outcomes that a counter has seen are those of its branches. -/
theorem outcomes_of_eq (i : Fin 4096) (branches : List Branch) :
    outcomesOf i branches = outcomesAt i (branches.map update) := by
  induction branches with
  | nil => rfl
  | cons b branches ih =>
      rw [outcomesOf, branchesOf] at ih ⊢
      by_cases hb : selected b = i
      · simpa [outcomesAt, update, hb] using ih
      · simpa [outcomesAt, update, hb] using ih

/-- The table is that of a bank of counters, and so is the number of wrong predictions. -/
structure Bank (branches : List Branch) (s : TwoBitSat) : Prop where
  table : s.predictionTable =
    (branches.map update).foldl (bump 3) fun _ => WEAKLY_NOT_TAKEN
  mispredictions : s.simNumMispred2bitsat =
    ∑ i, misses 3 WEAKLY_TAKEN WEAKLY_NOT_TAKEN (outcomesAt i (branches.map update))

/-- Bank of counters at the start. -/
theorem bank_init : Bank [] init := by
  refine ⟨rfl, ?_⟩
  show 0 = ∑ i : Fin 4096, 0
  rw [Finset.sum_const_zero]

/-- A counter is that of the outcomes it has seen. -/
theorem Bank.counter (h : Bank older s) (i : Fin 4096) : s.predictionTable i =
    (outcomesAt i (older.map update)).foldl (saturate 3) WEAKLY_NOT_TAKEN := by
  rw [h.table, foldl_bump]

/-- Step lemma. -/
theorem Bank.step (h : Bank older s) (b : Branch) :
    ∃ s', s.step b = .ok s' ∧ Bank (older ++ [b]) s' := by
  refine ⟨{ predictionTable := bump 3 s.predictionTable (selected b, b.taken)
            simNumMispred2bitsat := countMispred s.simNumMispred2bitsat
              (s.predictionTable (selected b)) b.taken }, ?_, ?_, ?_⟩
  · rw [TwoBitSat.step, check_index_eq]
    rfl
  · rw [List.map_append, List.foldl_append, ← h.table]
    rfl
  · have hle : s.predictionTable (selected b) ≤ 3 := by
      rw [h.counter]
      exact foldl_saturate_le (Nat.le_of_ble_eq_true rfl) _
    show countMispred _ _ _ = _
    rw [count_mispred_eq hle, h.mispredictions, List.map_append, List.map_singleton,
      sum_misses_concat, ← h.table]
    rfl

/-- Run lemma. -/
theorem bank_of_run (branches : List Branch) : ∃ s, run branches = .ok s ∧ Bank branches s := by
  induction branches using List.reverseRecOn with
  | nil => exact ⟨init, rfl, bank_init⟩
  | append_singleton older b ih =>
      obtain ⟨s, hrun, hs⟩ := ih
      obtain ⟨s', hstep, hs'⟩ := hs.step b
      exact ⟨s', foldlM_concat_ok.mpr ⟨s, hrun, hstep⟩, hs'⟩

/-- The prediction is that of the counter of the branch. -/
theorem prediction_eq (s : TwoBitSat) (b : Branch) :
    s.prediction b = .ok (s.predictionTable (selected b)) := by
  rw [prediction, check_index_eq]
  rfl

/-! ## Main result -/

/-- Each counter counts the outcomes of its own branches, the prediction of a branch is a function
of the branches that share its counter, and the mispredictions are those of the separate
counters. -/
theorem counters_independent (branches : List Branch) : ∃ s, run branches = .ok s ∧
    (∀ i, s.predictionTable i =
      (outcomesOf i branches).foldl (saturate 3) WEAKLY_NOT_TAKEN) ∧
    (∀ others b, branchesOf (selected b) others = branchesOf (selected b) branches →
      ∃ s', run others = .ok s' ∧ s'.prediction b = s.prediction b) ∧
    s.simNumMispred2bitsat =
      ∑ i, misses 3 WEAKLY_TAKEN WEAKLY_NOT_TAKEN (outcomesOf i branches) := by
  obtain ⟨s, hrun, hs⟩ := bank_of_run branches
  refine ⟨s, hrun, fun i => ?_, fun others b hsame => ?_, ?_⟩
  · rw [hs.counter, outcomes_of_eq]
  · obtain ⟨s', hrun', hs'⟩ := bank_of_run others
    have houtcomes : outcomesOf (selected b) others = outcomesOf (selected b) branches := by
      rw [outcomesOf, outcomesOf, hsame]
    refine ⟨s', hrun', ?_⟩
    rw [prediction_eq, prediction_eq, hs'.counter, hs.counter, ← outcomes_of_eq,
      ← outcomes_of_eq, houtcomes]
  · rw [hs.mispredictions]
    exact Finset.sum_congr rfl fun i _ => by rw [outcomes_of_eq]

end Ece552.Predictor.TwoBitSat
