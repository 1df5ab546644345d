import Ece552.Library.EventLog
import Ece552.Library.TwoLevelPrediction
import Ece552.Predictor.Machine

/-!
# The two-level predictor

`scheme` is two-level prediction with private histories, over the tables that `sim_main` declares.
The code reads the history of a branch but does not use it: the counter is looked up by the index of
the history register. The two agree as long as that index and the history are both zero.
-/

namespace Ece552.Predictor.TwoLevel

open Library

/-- 512 registers of 6 outcomes, and 8 tables of 2-bit counters. -/
def scheme : Scheme Branch (Fin 512) (Fin 8) where
  register b := ⟨branchHistoryTableIndex b.pc, Nat.lt_succ_of_le (pc_bits_le ..)⟩
  table b := ⟨privateHistoryTableNumber b.pc, Nat.lt_succ_of_le (pc_bits_le ..)⟩
  width := 6
  max := 3
  threshold := WEAKLY_TAKEN
  start := WEAKLY_NOT_TAKEN

/-- The outcomes of a sequence of branches, the latest one first. -/
def history (branches : List Branch) : List (Branch × Bool) :=
  (branches.map fun b => (b, b.taken)).reverse

theorem history_concat (branches : List Branch) (b : Branch) :
    history (branches ++ [b]) = (b, b.taken) :: history branches := by
  rw [history, List.map_append, List.reverse_append]
  rfl

/-- The tables and the counter of mispredictions are those of the scheme. -/
structure Implements (branches : List Branch) (s : TwoLevel) : Prop where
  registers : ∀ r, s.branchHistoryTable r = scheme.patternOf r (history branches)
  counters : ∀ number column, s.privateHistoryTables (number, column) =
    scheme.counter (number, column.val) (history branches)
  mispredictions : s.simNumMispred2level = scheme.mispredictions (history branches)

/-- A branch behind others is predicted by two-level prediction, all indices that it uses are in
their bounds, and the update is that of two-level prediction. -/
def PredictsTwoLevel (older : List Branch) (b : Branch) : Prop :=
  ∃ s index entry s', run older = .ok s ∧ consult b = .ok (index, entry) ∧ s.step b = .ok s' ∧
    decide (WEAKLY_TAKEN ≤ s.privateHistoryTables entry) = scheme.predicts b (history older) ∧
    Implements (older ++ [b]) s'

/-- The branch has the first history register, and no branch was taken before it. -/
def EmptyHistory (older : List Branch) (b : Branch) : Prop :=
  branchHistoryTableIndex b.pc = 0 ∧ ∀ o ∈ older, o.taken = false

/-! ## What a step does -/

variable {older branches : List Branch} {b : Branch} {s s' : TwoLevel}
variable {index r : Fin 512} {entry : Fin 8 × Fin 64}

theorem implements_init : Implements [] init := ⟨fun _ => rfl, fun _ _ => rfl, rfl⟩

theorem consult_eq_ok : consult b = .ok (index, entry) ↔ index = scheme.register b ∧
    entry.1 = scheme.table b ∧ entry.2.val = branchHistoryTableIndex b.pc := by
  have hindex : checkIndex 512 (branchHistoryTableIndex b.pc) = .ok (scheme.register b) :=
    check_index_of_lt (scheme.register b).isLt
  have hnumber : checkIndex 8 (privateHistoryTableNumber b.pc) = .ok (scheme.table b) :=
    check_index_of_lt (scheme.table b).isLt
  have hcolumn := element_eq_ok (n := 64) (i := branchHistoryTableIndex b.pc) (e := entry.2)
  rw [consult, hindex, hnumber]
  show (element 64 (branchHistoryTableIndex b.pc) >>= fun column =>
    .ok (scheme.register b, (scheme.table b, column))) = .ok (index, entry) ↔ _
  constructor
  · intro h
    obtain ⟨column, he, h⟩ := bind_eq_ok.mp h
    have hval := element_eq_ok.mp he
    obtain ⟨rfl, rfl⟩ := Prod.mk.inj (Except.ok.inj h)
    exact ⟨rfl, rfl, hval⟩
  · rintro ⟨rfl, htable, hval⟩
    rw [hcolumn.mpr hval, ← htable]
    rfl

/-- The state after a step that uses these entries. -/
def update (s : TwoLevel) (taken : Bool) (index : Fin 512) (entry : Fin 8 × Fin 64) : TwoLevel where
  branchHistoryTable := Function.update s.branchHistoryTable index
    ((if taken then s.branchHistoryTable index <<< 1 + 1 else s.branchHistoryTable index <<< 1)
      &&& 0x003F)
  privateHistoryTables := bump 3 s.privateHistoryTables (entry, taken)
  simNumMispred2level := countMispred s.simNumMispred2level (s.privateHistoryTables entry) taken

theorem step_of_consult (h : consult b = .ok (index, entry)) :
    s.step b = .ok (s.update b.taken index entry) := by
  rw [step, h]
  rfl

/-- Shifting an outcome in, in the code's way. -/
theorem shifted_eq (c : Nat) (taken : Bool) :
    ((if taken then c <<< 1 + 1 else c <<< 1) &&& 0x003F) = (2 * c + taken.toNat) % 2 ^ 6 := by
  rw [show 0x003F = 2 ^ 6 - 1 from rfl, Nat.and_two_pow_sub_one_eq_mod, Nat.shiftLeft_eq]
  cases taken with
  | false =>
      rw [if_neg Bool.false_ne_true, Bool.toNat_false, Nat.pow_one, Nat.mul_comm, Nat.add_zero]
  | true => rw [if_pos rfl, Bool.toNat_true, Nat.pow_one, Nat.mul_comm]

theorem update_registers (s : TwoLevel) (taken : Bool) (index : Fin 512) (entry : Fin 8 × Fin 64) :
    (s.update taken index entry).branchHistoryTable = Function.update s.branchHistoryTable index
      ((2 * s.branchHistoryTable index + taken.toNat) % 2 ^ 6) := by
  rw [← shifted_eq]
  rfl

theorem update_counters (s : TwoLevel) (taken : Bool) (index : Fin 512) (entry : Fin 8 × Fin 64) :
    (s.update taken index entry).privateHistoryTables =
      bump 3 s.privateHistoryTables (entry, taken) := rfl

theorem counter_le (key : Fin 8 × Nat) (h : List (Branch × Bool)) : scheme.counter key h ≤ 3 := by
  have hstart : scheme.start ≤ scheme.max := Nat.le_of_ble_eq_true rfl
  exact foldl_saturate_le hstart _

/-- A step that uses the entry that two-level prediction selects. -/
theorem Implements.step (h : Implements older s)
    (hentry : (entry.1, entry.2.val) = scheme.selected b (history older)) :
    decide (WEAKLY_TAKEN ≤ s.privateHistoryTables entry) = scheme.predicts b (history older) ∧
    Implements (older ++ [b]) (s.update b.taken (scheme.register b) entry) := by
  have hcounter : s.privateHistoryTables entry =
      scheme.counter (scheme.selected b (history older)) (history older) := by
    rw [← hentry]
    exact h.counters entry.1 entry.2
  have hpredicts : decide (WEAKLY_TAKEN ≤ s.privateHistoryTables entry) =
      scheme.predicts b (history older) := by
    rw [hcounter]
    rfl
  refine ⟨hpredicts, ?_, ?_, ?_⟩
  · intro r
    rw [history_concat, Scheme.pattern_of_cons, update_registers]
    split
    case isTrue hr =>
      subst hr
      rw [Function.update_self, h.registers]
      rfl
    case isFalse hr => rw [Function.update_of_ne (Ne.symm hr), h.registers]
  · intro number column
    rw [history_concat, Scheme.counter_cons, ← hentry, update_counters]
    split
    case isTrue heq =>
      obtain ⟨hnumber, hcolumn⟩ := Prod.mk.inj heq
      obtain rfl : entry = (number, column) := Prod.ext hnumber (Fin.ext hcolumn)
      rw [bump_self, h.counters]
      rfl
    case isFalse hne =>
      have hkey : (number, column) ≠ entry := by
        rintro rfl
        exact hne rfl
      rw [bump_of_ne hkey, h.counters]
  · rw [history_concat]
    show countMispred _ _ _ = scheme.mispredictions (history older) + _
    rw [count_mispred_eq (hcounter ▸ counter_le _ _), hpredicts, h.mispredictions]

/-! ## Where the code agrees with two-level prediction -/

/-- Only a branch that was just taken is in a register. -/
theorem pattern_of_concat (h : Along EmptyHistory (older ++ [b])) :
    scheme.patternOf r (history (older ++ [b])) =
      if scheme.register b = r then b.taken.toNat else 0 := by
  obtain ⟨-, -, hnone⟩ := along_concat.mp h
  have hzero : scheme.patternOf r (history older) = 0 := by
    refine pattern_eq_zero fun o ho => ?_
    obtain ⟨branch, hmem, hbranch⟩ := List.mem_filterMap.mp ho
    obtain ⟨o', ho', rfl⟩ := List.mem_map.mp (List.mem_reverse.mp hmem)
    split at hbranch
    · rw [← Option.some.inj hbranch]
      exact hnone o' ho'
    · exact nomatch hbranch
  rw [history_concat, Scheme.pattern_of_cons, hzero]
  split
  · cases b.taken <;> rfl
  · rfl

theorem pattern_of_empty (h : Along EmptyHistory older) (hnone : ∀ o ∈ older, o.taken = false) :
    scheme.patternOf r (history older) = 0 := by
  cases older using List.reverseRecOn with
  | nil => rfl
  | append_singleton older o =>
      rw [pattern_of_concat h, hnone o (List.mem_append_right _ (List.mem_singleton.mpr rfl))]
      exact ite_self 0

/-- All counters but those of the first columns have their start value. -/
theorem counter_of_along (h : Along EmptyHistory older) {key : Fin 8 × Nat} (hkey : key.2 ≠ 0) :
    scheme.counter key (history older) = WEAKLY_NOT_TAKEN := by
  induction older using List.reverseRecOn with
  | nil => rfl
  | append_singleton older b ih =>
      obtain ⟨hpre, -, hnone⟩ := along_concat.mp h
      have hne : scheme.selected b (history older) ≠ key := by
        rintro rfl
        exact hkey (pattern_of_empty hpre hnone)
      rw [history_concat, Scheme.counter_cons, if_neg hne]
      exact ih hpre

/-- A branch without a history selects the counter that the code uses. -/
theorem consult_of_empty (h : Along EmptyHistory older) (hb : EmptyHistory older b) :
    ∃ entry, consult b = .ok (scheme.register b, entry) ∧
      (entry.1, entry.2.val) = scheme.selected b (history older) := by
  refine ⟨(scheme.table b, 0), consult_eq_ok.mpr ⟨rfl, rfl, hb.1.symm⟩, ?_⟩
  rw [Scheme.selected, pattern_of_empty h hb.2]
  rfl

/-- Step lemma. -/
theorem predicts_of_empty (h : Along EmptyHistory older) (hb : EmptyHistory older b)
    (hrun : run older = .ok s) (hs : Implements older s) : PredictsTwoLevel older b := by
  obtain ⟨entry, hconsult, hentry⟩ := consult_of_empty h hb
  obtain ⟨hpredicts, hs'⟩ := hs.step hentry
  exact ⟨s, _, entry, _, hrun, hconsult, step_of_consult hconsult, hpredicts, hs'⟩

/-- Run lemma. -/
theorem implements_of_along (h : Along EmptyHistory branches) :
    ∃ s, run branches = .ok s ∧ Implements branches s := by
  induction branches using List.reverseRecOn with
  | nil => exact ⟨init, rfl, implements_init⟩
  | append_singleton older b ih =>
      obtain ⟨hpre, hb⟩ := along_concat.mp h
      obtain ⟨s, hrun, hs⟩ := ih hpre
      obtain ⟨s₁, index, entry, s', hrun₁, -, hstep, -, hs'⟩ := predicts_of_empty hpre hb hrun hs
      exact ⟨s', foldlM_concat_ok.mpr ⟨s₁, hrun₁, hstep⟩, hs'⟩

/-- If the update is that of two-level prediction, the code used the selected counter: any other
one of the two still has its start value and moves. -/
theorem selected_of_implements (h : Along EmptyHistory older) (hs : Implements older s)
    (hconsult : consult b = .ok (index, entry))
    (hs' : Implements (older ++ [b]) (s.update b.taken index entry)) :
    branchHistoryTableIndex b.pc = scheme.patternOf (scheme.register b) (history older) := by
  by_contra hne
  obtain ⟨-, htable, hcolumn⟩ := consult_eq_ok.mp hconsult
  set column := scheme.patternOf (scheme.register b) (history older) with hcol
  have hlt : column < 64 := scheme.pattern_of_lt _ _
  have hmoves : saturate 3 1 b.taken ≠ 1 := saturate_ne Nat.one_pos (by omega) b.taken
  have hselected : scheme.selected b (history older) = (scheme.table b, column) := rfl
  by_cases hzero : branchHistoryTableIndex b.pc = 0
  case neg =>
    -- The code moves a counter that the scheme does not.
    have hkey : scheme.selected b (history older) ≠ (entry.1, entry.2.val) := by
      rw [hselected, htable, hcolumn]
      exact fun heq => hne (Prod.mk.inj heq).2.symm
    have hafter := hs'.counters entry.1 entry.2
    have hbefore := hs.counters entry.1 entry.2
    rw [counter_of_along h (hcolumn ▸ hzero)] at hbefore
    rw [history_concat, Scheme.counter_cons, if_neg hkey, counter_of_along h (hcolumn ▸ hzero)]
      at hafter
    refine hmoves ?_
    rw [update_counters, bump_self, hbefore] at hafter
    exact hafter
  case pos =>
    -- The scheme moves a counter that the code does not.
    have hcolne : column ≠ 0 := fun heq => hne (hzero.trans heq.symm)
    have hkey : (scheme.table b, ⟨column, hlt⟩) ≠ entry := by
      rintro rfl
      exact hne hcolumn.symm
    have hafter := hs'.counters (scheme.table b) ⟨column, hlt⟩
    have hbefore := hs.counters (scheme.table b) ⟨column, hlt⟩
    rw [counter_of_along h hcolne] at hbefore
    rw [history_concat, Scheme.counter_cons, if_pos hselected, counter_of_along h hcolne,
      update_counters, bump_of_ne hkey, hbefore] at hafter
    exact hmoves hafter.symm

/-- A branch that selects the counter that the code uses has no history. -/
theorem empty_of_selected (h : Along EmptyHistory older)
    (hindex : branchHistoryTableIndex b.pc =
      scheme.patternOf (scheme.register b) (history older)) : EmptyHistory older b := by
  cases older using List.reverseRecOn with
  | nil => exact ⟨hindex, fun o ho => nomatch ho⟩
  | append_singleton older o =>
      obtain ⟨-, hzero, hnone⟩ := along_concat.mp h
      rw [pattern_of_concat h] at hindex
      have hsame : scheme.register o = scheme.register b ↔ branchHistoryTableIndex b.pc = 0 := by
        rw [Fin.ext_iff]
        show branchHistoryTableIndex o.pc = _ ↔ _
        rw [hzero]
        exact eq_comm
      by_cases hb : branchHistoryTableIndex b.pc = 0
      case neg =>
        rw [if_neg (fun heq => hb (hsame.mp heq))] at hindex
        exact absurd hindex hb
      case pos =>
        rw [if_pos (hsame.mpr hb), hb] at hindex
        refine ⟨hb, fun o' ho' => ?_⟩
        rcases List.mem_append.mp ho' with hold | hlast
        · exact hnone o' hold
        · rw [List.mem_singleton.mp hlast]
          cases htaken : o.taken with
          | false => rfl
          | true =>
              rw [htaken] at hindex
              exact nomatch hindex

/-! ## Main result -/

/-- The predictor implements two-level prediction exactly as long as every branch has the first
history register and no branch before the last one is taken. -/
theorem two_level_iff_empty_history (branches : List Branch) :
    Along PredictsTwoLevel branches ↔ Along EmptyHistory branches := by
  refine along_congr fun older b h => ?_
  obtain ⟨s, hrun, hs⟩ := implements_of_along h
  constructor
  · rintro ⟨s₁, index, entry, s', hrun₁, hconsult, hstep, -, hs'⟩
    obtain rfl : s = s₁ := Except.ok.inj (hrun.symm.trans hrun₁)
    rw [step_of_consult hconsult] at hstep
    rw [← Except.ok.inj hstep] at hs'
    exact empty_of_selected h (selected_of_implements h hs hconsult hs')
  · intro hb
    exact predicts_of_empty h hb hrun hs

/-- The first branch of a run has an empty history. At 64 it uses the second column nevertheless,
and at 4096 a column that the table does not have. -/
theorem two_level_uses_address :
    ¬ Along PredictsTwoLevel [⟨64, 72⟩] ∧ run [⟨4096, 4104⟩] = .error .outOfBounds := by
  refine ⟨fun h => ?_, rfl⟩
  obtain ⟨s, index, entry, s', hrun, hconsult, hstep, -, hs'⟩ := h [] ⟨64, 72⟩ [] rfl
  obtain rfl : init = s := Except.ok.inj hrun
  obtain ⟨-, -, hcolumn⟩ := consult_eq_ok.mp hconsult
  rw [step_of_consult hconsult] at hstep
  rw [← Except.ok.inj hstep] at hs'
  have hindex := selected_of_implements along_nil implements_init hconsult hs'
  revert hindex
  decide

end Ece552.Predictor.TwoLevel
