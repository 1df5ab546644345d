import Ece552.Library.EventLog
import Ece552.Pipeline.Hazards
import Mathlib.Algebra.GroupWithZero.Nat

/-!
# Stall events

The counters of question 3 of the first assignment: WAW hazards, and structural hazards of two
instructions that write back in the same cycle. By the formula for the CPI of question 3, memory
instructions have 6 stages and the others 4. The code counts a structural hazard before it compares
the positions of the instruction and of the last loads, so it counts one for each instruction that
is no memory operation and has no WAW hazard. The counters are right as long as each of them is one,
and as long as the number of the load fits into the `int` in which the code keeps it.
-/

namespace Ece552.Pipeline

open Library

/-- A memory operation that loads. -/
def Inst.isLoad (inst : Inst) : Bool := inst.fMem && inst.fLoad

/-- A counter of 64 bits in an `int`. -/
def toInt (simNumInsn : Nat) : Int := (BitVec.ofNat 32 simNumInsn).toInt

/-- The counters of question 3. The numbers of the last two loads are of the type `int`. -/
structure WriteBacks where
  simNumWAWHazard : Nat
  simNumStructuralHazard : Nat
  singleCycleStalls : Nat
  doubleCycleStalls : Nat
  regReady : Reg → Nat
  lastMemOp : Int
  secondLastMemOp : Int

namespace WriteBacks

/-- Nothing has been counted. -/
def init : WriteBacks := ⟨0, 0, 0, 0, fun _ => 0, 0, 0⟩

local instance neZero_two : NeZero 2 := ⟨by decide⟩

/-- The result is a WAW hazard for the instruction with this number. -/
def isWAWHazard (s : WriteBacks) (simNumInsn : Nat) (inst : Inst) (i : Fin 2) : Bool :=
  inst.rOut i != DNA && decide (simNumInsn < s.regReady (inst.rOut i)) && !(i == 0 && inst.fMem)

/-- The result at which the loop over the results stops. -/
def wawHazard (s : WriteBacks) (simNumInsn : Nat) (inst : Inst) : Option (Fin 2) :=
  (List.finRange 2).find? (s.isWAWHazard simNumInsn inst)

/-- Count a WAW hazard for a register. -/
def stall (s : WriteBacks) (simNumInsn : Nat) (r : Reg) : WriteBacks :=
  let stallOffset := s.regReady r - simNumInsn
  { s with
    simNumWAWHazard := s.simNumWAWHazard + 1
    singleCycleStalls := if stallOffset = 1 then s.singleCycleStalls + 1 else s.singleCycleStalls
    doubleCycleStalls := if stallOffset = 2 then s.doubleCycleStalls + 1 else s.doubleCycleStalls
    regReady := Function.update s.regReady r (s.regReady r - stallOffset) }

/-- Keep track of the last two loads. -/
def noteLoad (s : WriteBacks) (simNumInsn : Nat) (inst : Inst) : WriteBacks :=
  if inst.isLoad then { s with secondLastMemOp := s.lastMemOp, lastMemOp := toInt simNumInsn }
  else s

/-- Count a structural hazard, and its stall if there is one. -/
def structural (s : WriteBacks) (simNumInsn : Nat) : WriteBacks :=
  let s := { s with simNumStructuralHazard := s.simNumStructuralHazard + 1 }
  if (simNumInsn : Int) - s.lastMemOp = 2 then
    { s with singleCycleStalls := s.singleCycleStalls + 1 }
  else if (simNumInsn : Int) - s.secondLastMemOp = 2 then
    { s with doubleCycleStalls := s.doubleCycleStalls + 1 }
  else s

/-- A register that is written is ready at this number. -/
def setReady (s : WriteBacks) (r : Reg) (ready : Nat) : WriteBacks :=
  if r ≠ DNA then { s with regReady := Function.update s.regReady r ready } else s

/-- Count the hazards of an instruction, and record the results of a load. -/
def step (s : WriteBacks) (simNumInsn : Nat) (inst : Inst) : WriteBacks :=
  let found := s.wawHazard simNumInsn inst
  let s :=
    match found with
    | some i => s.stall simNumInsn (inst.rOut i)
    | none => s
  let s := s.noteLoad simNumInsn inst
  let s := if !inst.fMem && !found.isSome then s.structural simNumInsn else s
  if inst.isLoad then
    (s.setReady (inst.rOut 0) (simNumInsn + 3)).setReady (inst.rOut 1) (simNumInsn + 3)
  else s

/-- The counters after a sequence of instructions, which are numbered from 1 on. -/
def run (insts : List Inst) : WriteBacks :=
  (insts.foldl (fun s inst => (s.1 + 1, s.2.step (s.1 + 1) inst)) (0, init)).2

/-! ## What they are for -/

/-- Every WAW or structural hazard is one stall. -/
def StallsAddUp (s : WriteBacks) : Prop :=
  s.simNumWAWHazard + s.simNumStructuralHazard = s.singleCycleStalls + s.doubleCycleStalls

/-- The number of stages. -/
def stages (inst : Inst) : Nat := if inst.fMem then 6 else 4

/-- The cycle in which an instruction writes back. -/
def writeBackCycle (simNumInsn : Nat) (inst : Inst) : Nat := simNumInsn + stages inst - 1

/-- The numbers of the loads of a sequence, the latest one first, with the instructions. -/
def loads (insts : List Inst) : List (Nat × Inst) :=
  ((insts.zipIdx 1).filter fun numbered => numbered.1.isLoad).reverse.map Prod.swap

/-- The instruction writes back in the same cycle as one of the last two loads. -/
def MeetsLoad (older : List Inst) (inst : Inst) : Prop :=
  ∃ load ∈ (loads older).take 2,
    writeBackCycle load.1 load.2 = writeBackCycle (older.length + 1) inst

/-- An instruction behind others has a WAW hazard. -/
def HasWAWHazard (older : List Inst) (inst : Inst) : Prop :=
  ((run older).wawHazard (older.length + 1) inst).isSome

/-- An instruction behind others is counted as a structural hazard if and only if it is one. -/
def CountsStructural (older : List Inst) (inst : Inst) : Prop :=
  (run (older ++ [inst])).simNumStructuralHazard =
      (run older).simNumStructuralHazard + 1 ↔
    inst.fMem = false ∧ ¬ HasWAWHazard older inst ∧ MeetsLoad older inst

/-- An instruction that is no memory operation and has no WAW hazard is two behind one of the last
two loads, whose number is an `int`. -/
def TwoBehindLoad (older : List Inst) (inst : Inst) : Prop :=
  inst.fMem = false → ¬ HasWAWHazard older inst →
    ∃ load ∈ (loads older).take 2, load.1 + 2 = older.length + 1 ∧ load.1 < 2 ^ 31

variable {s : WriteBacks} {n : Nat} {inst : Inst} {older insts : List Inst} {r : Reg}

/-! ## One instruction -/

/-- A number that fits stays what it is. -/
theorem to_int_of_lt (h : n < 2 ^ 31) : toInt n = n := by
  have hnat : (BitVec.ofNat 32 n).toNat = n := by
    rw [BitVec.toNat_ofNat, Nat.mod_eq_of_lt (by omega)]
  rw [toInt, BitVec.toInt_eq_toNat_of_lt (by omega), hnat]

/-- No number is as large as 2^31. -/
theorem to_int_lt (n : Nat) : toInt n < (2 ^ 31 : Nat) := by
  have htwice := BitVec.two_mul_toInt_lt (x := BitVec.ofNat 32 n)
  rw [toInt]
  omega

/-- The counters after the loop over the results of an instruction. -/
def check (s : WriteBacks) (n : Nat) (inst : Inst) : WriteBacks :=
  match s.wawHazard n inst with
  | some i => s.stall n (inst.rOut i)
  | none => s

/-- A load is a memory operation. -/
theorem mem_of_load (h : inst.isLoad = true) : inst.fMem = true := (Bool.and_eq_true_iff.mp h).1

/-- A load is noted, and its results are recorded. -/
theorem step_of_load (h : inst.isLoad = true) : s.step n inst =
    (((s.check n inst).noteLoad n inst).setReady (inst.rOut 0) (n + 3)).setReady
      (inst.rOut 1) (n + 3) := by
  rw [step, if_pos h, mem_of_load h]
  rfl

/-- Another instruction counts a WAW hazard, or is taken for a structural hazard, unless it is a
memory operation. -/
theorem step_of_not_load (h : inst.isLoad = false) : s.step n inst =
    if inst.fMem = false ∧ s.wawHazard n inst = none then s.structural n
    else s.check n inst := by
  have hload : ¬ inst.isLoad = true := Bool.eq_false_iff.mp h
  have hnote : ∀ s : WriteBacks, s.noteLoad n inst = s := fun s => if_neg hload
  rw [step, if_neg hload, hnote, check]
  cases s.wawHazard n inst with
  | none => cases inst.fMem <;> rfl
  | some i => cases inst.fMem <;> rfl

/-- A result is ready no later than what bounds them all. -/
theorem reg_ready_set_ready_le {bound : Nat} (hle : ∀ r, s.regReady r ≤ bound) {ready : Nat}
    (hready : ready ≤ bound) (r r' : Reg) : (s.setReady r ready).regReady r' ≤ bound := by
  rw [setReady]
  split
  · show Function.update s.regReady r ready r' ≤ bound
    by_cases hr : r' = r
    · rw [hr, Function.update_self]
      exact hready
    · rw [Function.update_of_ne hr]
      exact hle r'
  · exact hle r'

/-- The stalls make a register ready earlier. -/
theorem reg_ready_check_le (s : WriteBacks) (n : Nat) (inst : Inst) (r : Reg) :
    (s.check n inst).regReady r ≤ s.regReady r := by
  rw [check]
  split
  case h_1 i hi =>
    show Function.update s.regReady (inst.rOut i) _ r ≤ s.regReady r
    by_cases hr : r = inst.rOut i
    · rw [hr, Function.update_self]
      exact Nat.sub_le _ _
    · rw [Function.update_of_ne hr]
  case h_2 => exact Nat.le_refl _

/-- No result is ready more than two instructions behind the next one. -/
theorem reg_ready_step_le (hnear : ∀ r, s.regReady r ≤ n + 2) (r : Reg) :
    (s.step n inst).regReady r ≤ n + 3 := by
  have hcheck : ∀ r, (s.check n inst).regReady r ≤ n + 3 := fun r =>
    (reg_ready_check_le s n inst r).trans ((hnear r).trans (Nat.le_succ _))
  cases hload : inst.isLoad with
  | true =>
      have hnote : ∀ r, ((s.check n inst).noteLoad n inst).regReady r ≤ n + 3 := by
        rw [noteLoad, if_pos hload]
        exact hcheck
      rw [step_of_load hload]
      exact reg_ready_set_ready_le (fun r => reg_ready_set_ready_le hnote (Nat.le_refl _) _ r)
        (Nat.le_refl _) _ r
  | false =>
      rw [step_of_not_load hload]
      split
      · have hkeep : (s.structural n).regReady = s.regReady := by
          rw [structural]
          split
          · rfl
          · split <;> rfl
        rw [hkeep]
        exact (hnear r).trans (Nat.le_succ _)
      · exact hcheck r

/-- A WAW hazard is a stall of one or two cycles. -/
theorem stalls_check (hnear : ∀ r, s.regReady r ≤ n + 2) (h : s.StallsAddUp) :
    (s.check n inst).StallsAddUp := by
  rw [check]
  split
  case h_1 i hi =>
    have hle := hnear (inst.rOut i)
    have hlt : n < s.regReady (inst.rOut i) := by
      have hfound := List.find?_some hi
      rw [isWAWHazard, Bool.and_eq_true, Bool.and_eq_true, decide_eq_true_iff] at hfound
      exact hfound.1.2
    rw [StallsAddUp] at h
    show s.simNumWAWHazard + 1 + s.simNumStructuralHazard =
      (if s.regReady (inst.rOut i) - n = 1 then _ else _) +
        (if s.regReady (inst.rOut i) - n = 2 then _ else _)
    split <;> split <;> omega
  case h_2 => exact h

/-- Recording a result counts nothing. -/
theorem stalls_set_ready (h : s.StallsAddUp) (r : Reg) (ready : Nat) :
    (s.setReady r ready).StallsAddUp := by
  rw [setReady]
  split
  · exact h
  · exact h

/-- Counting a WAW hazard counts no structural one. -/
theorem structural_check (s : WriteBacks) (n : Nat) (inst : Inst) :
    (s.check n inst).simNumStructuralHazard = s.simNumStructuralHazard := by
  rw [check]
  split <;> rfl

/-- Nor does recording a result. -/
theorem structural_set_ready (s : WriteBacks) (r : Reg) (ready : Nat) :
    (s.setReady r ready).simNumStructuralHazard = s.simNumStructuralHazard := by
  rw [setReady]
  split <;> rfl

/-- A structural hazard is counted as one. -/
theorem structural_structural (s : WriteBacks) (n : Nat) :
    (s.structural n).simNumStructuralHazard = s.simNumStructuralHazard + 1 := by
  rw [structural]
  split
  · rfl
  · split <;> rfl

/-- What is counted as a structural hazard, without a look at the loads. -/
theorem structural_step : (s.step n inst).simNumStructuralHazard = s.simNumStructuralHazard + 1 ↔
    inst.fMem = false ∧ s.wawHazard n inst = none := by
  cases hload : inst.isLoad with
  | true =>
      have hmem := mem_of_load hload
      rw [step_of_load hload, structural_set_ready, structural_set_ready, noteLoad, if_pos hload]
      show (s.check n inst).simNumStructuralHazard = _ ↔ _
      rw [structural_check]
      refine iff_of_false (by omega) fun h => ?_
      rw [hmem] at h
      exact nomatch h.1
  | false =>
      rw [step_of_not_load hload]
      split
      case isTrue h => exact iff_of_true (structural_structural s n) h
      case isFalse h =>
        rw [structural_check]
        exact iff_of_false (by omega) h

/-- There is a stall for the structural hazard if and only if one of the last two loads is two
behind. -/
theorem stalls_structural_iff (h : s.StallsAddUp) : (s.structural n).StallsAddUp ↔
    (n : Int) - s.lastMemOp = 2 ∨ (n : Int) - s.secondLastMemOp = 2 := by
  rw [StallsAddUp] at h
  rw [structural, StallsAddUp]
  split
  case isTrue hlast =>
    refine iff_of_true ?_ (Or.inl hlast)
    show s.simNumWAWHazard + (s.simNumStructuralHazard + 1) =
      s.singleCycleStalls + 1 + s.doubleCycleStalls
    omega
  case isFalse hlast =>
    split
    case isTrue hsecond =>
      refine iff_of_true ?_ (Or.inr hsecond)
      show s.simNumWAWHazard + (s.simNumStructuralHazard + 1) =
        s.singleCycleStalls + (s.doubleCycleStalls + 1)
      omega
    case isFalse hsecond =>
      refine iff_of_false ?_ (not_or.mpr ⟨hlast, hsecond⟩)
      show ¬ s.simNumWAWHazard + (s.simNumStructuralHazard + 1) =
        s.singleCycleStalls + s.doubleCycleStalls
      omega

/-! ## Stalls lag behind -/

/-- The stalls grow by no more than the hazards do. -/
def Lags (s s' : WriteBacks) : Prop :=
  s.simNumWAWHazard + s.simNumStructuralHazard + (s'.singleCycleStalls + s'.doubleCycleStalls) ≤
    s'.simNumWAWHazard + s'.simNumStructuralHazard + (s.singleCycleStalls + s.doubleCycleStalls)

/-- A WAW hazard is one stall at most. -/
theorem lags_check (s : WriteBacks) (n : Nat) (inst : Inst) : s.Lags (s.check n inst) := by
  rw [check, Lags]
  split
  case h_1 i hi =>
    show s.simNumWAWHazard + s.simNumStructuralHazard +
        ((if s.regReady (inst.rOut i) - n = 1 then _ else _) +
          if s.regReady (inst.rOut i) - n = 2 then _ else _) ≤
      s.simNumWAWHazard + 1 + s.simNumStructuralHazard +
        (s.singleCycleStalls + s.doubleCycleStalls)
    split <;> split <;> omega
  case h_2 => exact Nat.le_refl _

/-- A structural hazard is one stall at most. -/
theorem lags_structural (s : WriteBacks) (n : Nat) : s.Lags (s.structural n) := by
  rw [structural, Lags]
  split
  · show s.simNumWAWHazard + s.simNumStructuralHazard +
        (s.singleCycleStalls + 1 + s.doubleCycleStalls) ≤
      s.simNumWAWHazard + (s.simNumStructuralHazard + 1) +
        (s.singleCycleStalls + s.doubleCycleStalls)
    omega
  · split
    · show s.simNumWAWHazard + s.simNumStructuralHazard +
          (s.singleCycleStalls + (s.doubleCycleStalls + 1)) ≤
        s.simNumWAWHazard + (s.simNumStructuralHazard + 1) +
          (s.singleCycleStalls + s.doubleCycleStalls)
      omega
    · show s.simNumWAWHazard + s.simNumStructuralHazard +
          (s.singleCycleStalls + s.doubleCycleStalls) ≤
        s.simNumWAWHazard + (s.simNumStructuralHazard + 1) +
          (s.singleCycleStalls + s.doubleCycleStalls)
      omega

/-- Step lemma. -/
theorem lags_step (s : WriteBacks) (n : Nat) (inst : Inst) : s.Lags (s.step n inst) := by
  have hready : ∀ (s' : WriteBacks) r ready, s.Lags s' → s.Lags (s'.setReady r ready) := by
    intro s' r ready h
    rw [setReady]
    split
    · exact h
    · exact h
  have hcheck := lags_check s n inst
  cases hload : inst.isLoad with
  | true =>
      rw [step_of_load hload]
      refine hready _ _ _ (hready _ _ _ ?_)
      rw [noteLoad, if_pos hload, Lags]
      exact hcheck
  | false =>
      rw [step_of_not_load hload]
      split
      · exact lags_structural s n
      · exact hcheck

/-! ## Loads -/

/-- The last instruction is the latest load, or not. -/
theorem loads_concat (older : List Inst) (inst : Inst) : loads (older ++ [inst]) =
    if inst.isLoad then (older.length + 1, inst) :: loads older else loads older := by
  rw [loads, List.zipIdx_append, List.filter_append, List.reverse_append, List.map_append,
    Nat.add_comm]
  split
  case isTrue h => simp [h, loads]
  case isFalse h => simp [h, loads]

/-- What is numbered as a load is one. -/
theorem is_load_of_mem {load : Nat × Inst} (h : load ∈ loads older) : load.2.isLoad = true := by
  obtain ⟨numbered, hmem, rfl⟩ := List.mem_map.mp h
  exact (List.mem_filter.mp (List.mem_reverse.mp hmem)).2

/-- The loads that the code keeps are the last two; 0 stands for a load that there was not. -/
def Positions (s : WriteBacks) (older : List Inst) : Prop :=
  [s.lastMemOp, s.secondLastMemOp] =
    ((loads older).map (fun load : Nat × Inst => toInt load.1) ++ [0, 0]).take 2

/-- The last two loads are kept. -/
theorem positions_step (h : s.Positions older) :
    (s.step (older.length + 1) inst).Positions (older ++ [inst]) := by
  have hready : ∀ (s : WriteBacks) r ready, (s.setReady r ready).lastMemOp = s.lastMemOp ∧
      (s.setReady r ready).secondLastMemOp = s.secondLastMemOp := by
    intro s r ready
    rw [setReady]
    split
    · exact ⟨rfl, rfl⟩
    · exact ⟨rfl, rfl⟩
  have hcheck : (s.check (older.length + 1) inst).lastMemOp = s.lastMemOp ∧
      (s.check (older.length + 1) inst).secondLastMemOp = s.secondLastMemOp := by
    rw [check]
    split
    · exact ⟨rfl, rfl⟩
    · exact ⟨rfl, rfl⟩
  rw [Positions] at h ⊢
  cases hload : inst.isLoad with
  | true =>
      rw [step_of_load hload, (hready _ _ _).1, (hready _ _ _).1, (hready _ _ _).2,
        (hready _ _ _).2, noteLoad, if_pos hload, loads_concat, if_pos hload]
      show [toInt (older.length + 1), (s.check _ inst).lastMemOp] = _
      rw [hcheck.1, List.map_cons, List.cons_append, List.take_succ_cons]
      have hlast := congrArg (List.take 1) h
      rw [List.take_take] at hlast
      exact congrArg _ hlast
  | false =>
      rw [step_of_not_load hload, loads_concat, if_neg (Bool.eq_false_iff.mp hload)]
      split
      · rw [structural]
        split
        · exact h
        · split
          · exact h
          · exact h
      · rw [hcheck.1, hcheck.2]
        exact h

/-! ## Runs -/

/-- The last instruction has the number behind the others. -/
theorem run_concat (older : List Inst) (inst : Inst) :
    run (older ++ [inst]) = (run older).step (older.length + 1) inst := by
  have hnumber : ∀ insts : List Inst,
      (insts.foldl (fun s inst => (s.1 + 1, s.2.step (s.1 + 1) inst)) (0, init)).1 =
        insts.length := by
    intro insts
    induction insts using List.reverseRecOn with
    | nil => rfl
    | append_singleton insts last ih =>
        rw [List.foldl_append, List.length_append]
        exact congrArg (· + 1) ih
  rw [run, List.foldl_append]
  show (run older).step (_ + 1) inst = _
  rw [hnumber]

/-- Run lemma: a hazard is one or two instructions away, and the last two loads are known. -/
theorem tracked_run (insts : List Inst) :
    (∀ r, (run insts).regReady r ≤ insts.length + 3) ∧ (run insts).Positions insts := by
  induction insts using List.reverseRecOn with
  | nil => exact ⟨fun r => Nat.zero_le _, rfl⟩
  | append_singleton older inst ih =>
      obtain ⟨hnear, hpositions⟩ := ih
      rw [run_concat, List.length_append]
      exact ⟨reg_ready_step_le hnear, positions_step hpositions⟩

/-- A load reaches the last stage two instructions behind an instruction with two stages less. -/
theorem meets_load_iff (hmem : inst.fMem = false) : MeetsLoad older inst ↔
    ∃ load ∈ (loads older).take 2, load.1 + 2 = older.length + 1 := by
  refine exists_congr fun load => and_congr_right fun hmem' => ?_
  have hload := mem_of_load (is_load_of_mem (List.mem_of_mem_take hmem'))
  rw [writeBackCycle, writeBackCycle, stages, stages, if_pos hload, if_neg (by rw [hmem]; simp)]
  omega

/-- Step lemma. -/
theorem counts_structural_iff (older : List Inst) (inst : Inst) : CountsStructural older inst ↔
    (inst.fMem = false → ¬ HasWAWHazard older inst → MeetsLoad older inst) := by
  have hwaw : (run older).wawHazard (older.length + 1) inst = none ↔
      ¬ HasWAWHazard older inst := by
    rw [HasWAWHazard, Bool.not_eq_true, Option.isSome_eq_false_iff, Option.isNone_iff_eq_none]
  rw [CountsStructural, run_concat, structural_step, hwaw]
  constructor
  · intro h hmem hnone
    exact (h.mp ⟨hmem, hnone⟩).2.2
  · intro h
    exact ⟨fun ⟨hmem, hnone⟩ => ⟨hmem, hnone, h hmem hnone⟩, fun hall => ⟨hall.1, hall.2.1⟩⟩

/-- The code finds the load two behind if and only if the number of the load is an `int`. -/
theorem finds_load_iff (older : List Inst)
    (hmeets : ∃ load ∈ (loads older).take 2, load.1 + 2 = older.length + 1) :
    ((older.length + 1 : Nat) : Int) - (run older).lastMemOp = 2 ∨
        ((older.length + 1 : Nat) : Int) - (run older).secondLastMemOp = 2 ↔
      ∃ load ∈ (loads older).take 2, load.1 + 2 = older.length + 1 ∧ load.1 < 2 ^ 31 := by
  have hpositions := (tracked_run older).2
  have hsmall : ∀ kept ∈ [(run older).lastMemOp, (run older).secondLastMemOp],
      kept < (2 ^ 31 : Nat) := by
    intro kept hkept
    rw [hpositions] at hkept
    rcases List.mem_append.mp (List.mem_of_mem_take hkept) with hload | hzero
    · obtain ⟨load, -, rfl⟩ := List.mem_map.mp hload
      exact to_int_lt load.1
    · obtain rfl := List.eq_of_mem_replicate (n := 2) hzero
      decide
  constructor
  · intro hfinds
    obtain ⟨load, hin, hnumber⟩ := hmeets
    refine ⟨load, hin, hnumber, ?_⟩
    rcases hfinds with hlast | hsecond
    · have hlt := hsmall _ List.mem_cons_self
      omega
    · have hlt := hsmall _ (List.mem_cons_of_mem _ List.mem_cons_self)
      omega
  · rintro ⟨load, hin, hnumber, hlt⟩
    have hkept : toInt load.1 ∈ [(run older).lastMemOp, (run older).secondLastMemOp] := by
      rw [hpositions, List.take_append]
      refine List.mem_append_left _ ?_
      rw [← List.map_take]
      exact List.mem_map_of_mem hin
    rw [to_int_of_lt hlt] at hkept
    rcases List.mem_pair.mp hkept with hlast | hsecond
    · left
      omega
    · right
      omega

/-- Step lemma: an instruction whose structural hazard is counted rightly has its stall if and only
if the load is found. -/
theorem stalls_step_iff (h : (run older).StallsAddUp) (hcounts : CountsStructural older inst) :
    (run (older ++ [inst])).StallsAddUp ↔ TwoBehindLoad older inst := by
  obtain ⟨hnear, -⟩ := tracked_run older
  have hcheck : ((run older).check (older.length + 1) inst).StallsAddUp := stalls_check hnear h
  rw [run_concat]
  cases hload : inst.isLoad with
  | true =>
      rw [step_of_load hload]
      refine iff_of_true (stalls_set_ready (stalls_set_ready ?_ _ _) _ _) fun hmem => ?_
      · rw [noteLoad, if_pos hload]
        exact hcheck
      · rw [mem_of_load hload] at hmem
        cases hmem
  | false =>
      rw [step_of_not_load hload]
      split
      case isTrue hcounted =>
        obtain ⟨hmem, hnone⟩ := hcounted
        have hwaw : ¬ HasWAWHazard older inst := by
          rw [HasWAWHazard, hnone]
          exact Bool.false_ne_true
        have hmeets := (meets_load_iff hmem).mp
          ((counts_structural_iff older inst).mp hcounts hmem hwaw)
        rw [stalls_structural_iff h, finds_load_iff older hmeets]
        exact ⟨fun hfound _ _ => hfound, fun htwo => htwo hmem hwaw⟩
      case isFalse hnot =>
        refine iff_of_true hcheck fun hmem hwaw => absurd ⟨hmem, ?_⟩ hnot
        rwa [HasWAWHazard, Bool.not_eq_true, Option.isSome_eq_false_iff,
          Option.isNone_iff_eq_none] at hwaw

/-- Run lemma: there are never more stalls than hazards. -/
theorem stalls_le (insts : List Inst) : init.Lags (run insts) := by
  induction insts using List.reverseRecOn with
  | nil => exact Nat.le_refl _
  | append_singleton older inst ih =>
      have hstep := lags_step (run older) (older.length + 1) inst
      rw [run_concat]
      rw [Lags] at ih hstep ⊢
      omega

/-- Counters that add up have done so before. -/
theorem stalls_of_concat (h : (run (older ++ [inst])).StallsAddUp) : (run older).StallsAddUp := by
  have hstep := lags_step (run older) (older.length + 1) inst
  have hle := stalls_le older
  rw [run_concat] at h
  rw [StallsAddUp] at h ⊢
  rw [Lags] at hstep
  have hle' : 0 + ((run older).singleCycleStalls + (run older).doubleCycleStalls) ≤
    (run older).simNumWAWHazard + (run older).simNumStructuralHazard + 0 := hle
  omega

/-! ## Main result -/

/-- The counters of question 3 are right exactly if each instruction that is no memory operation
and has no WAW hazard is two behind one of the last two loads, whose number is an `int`. -/
theorem stall_events_iff_two_behind_load (insts : List Inst) :
    (run insts).StallsAddUp ∧ Along CountsStructural insts ↔ Along TwoBehindLoad insts := by
  induction insts using List.reverseRecOn with
  | nil => exact iff_of_true ⟨rfl, along_nil⟩ along_nil
  | append_singleton older inst ih =>
      rw [along_concat, along_concat, ← ih]
      constructor
      · rintro ⟨hsum, hcounts, hcount⟩
        have hbefore := stalls_of_concat hsum
        exact ⟨⟨hbefore, hcounts⟩, (stalls_step_iff hbefore hcount).mp hsum⟩
      · rintro ⟨⟨hbefore, hcounts⟩, htwo⟩
        have hcount : CountsStructural older inst := by
          refine (counts_structural_iff older inst).mpr fun hmem hwaw => ?_
          obtain ⟨load, hin, hnumber, -⟩ := htwo hmem hwaw
          exact (meets_load_iff hmem).mpr ⟨load, hin, hnumber⟩
        exact ⟨(stalls_step_iff hbefore hcount).mpr htwo, hcounts, hcount⟩

/-- A single instruction that is no memory operation is counted as a structural hazard, without a
stall. -/
theorem structural_without_load :
    ¬ ((run [⟨fun _ => DNA, fun _ => DNA, false, false, false⟩]).StallsAddUp ∧
      Along CountsStructural [⟨fun _ => DNA, fun _ => DNA, false, false, false⟩]) := by
  rintro ⟨hsum, -⟩
  revert hsum
  unfold StallsAddUp
  decide

end WriteBacks

end Ece552.Pipeline
