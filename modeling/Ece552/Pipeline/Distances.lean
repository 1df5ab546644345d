import Ece552.Library.EventLog
import Ece552.Pipeline.Bubbles

/-!
# Stall distances

No result is ready more than three instructions behind its writer, and a stall only makes a register
ready earlier. So the distance of every hazard is 1 or 2, and each of them is counted as a stall.
-/

namespace Ece552.Pipeline

open Library

variable {q : Question} {h : Hazards} {n : Nat} {inst : Inst} {older insts : List Inst}
variable {r : Reg} {i first : Fin 3}

/-- The counters after the loop over the sources of an instruction, before its results. -/
def Hazards.check (q : Question) (h : Hazards) (n : Nat) (inst : Inst) : Hazards :=
  match h.hazard q n inst with
  | some i => h.stall n (inst.rIn i)
  | none => h

/-- What the loop over the sources of an instruction does behind other instructions. The source that
a question exempts is not inspected. -/
structure StallDistance (q : Question) (older : List Inst) (inst : Inst) : Prop where
  /-- no register is farther away, whether it is inspected or not -/
  near : ∀ r, ((SimMain.run older).hazards q).regReady r ≤ older.length + 1 + 2
  /-- the default of the `switch` is not reached -/
  offset : ∀ first, firstHazard q older inst = some first →
    ((SimMain.run older).hazards q).regReady (inst.rIn first) - (older.length + 1) ∈ [1, 2]
  /-- at most one hazard is counted -/
  once : ((SimMain.run (older ++ [inst])).hazards q).simNumRAWHazard =
    ((SimMain.run older).hazards q).simNumRAWHazard +
      if (firstHazard q older inst).isSome then 1 else 0
  /-- no source up to the one that is counted is still waited for -/
  ready : ∀ i, Inspects q inst i → (∀ first, firstHazard q older inst = some first → i ≤ first) →
    (((SimMain.run older).hazards q).check q (older.length + 1) inst).regReady (inst.rIn i) ≤
      older.length + 1

/-! ## One instruction -/

theorem step_eq_check (q : Question) (h : Hazards) (n : Nat) (inst : Inst) :
    h.step q n inst = ((h.check q n inst).setReady (inst.rOut 0) (n + q.latency inst)).setReady
      (inst.rOut 1) (n + q.latency inst) := rfl

/-- The loop stops at the first source that is a hazard. -/
theorem not_hazard_of_lt (hfirst : h.hazard q n inst = some first) (hi : i < first) :
    h.isHazard q n inst i = false := by
  obtain ⟨-, k, hk, hget, hbefore⟩ := List.find?_eq_some_iff_getElem.mp hfirst
  rw [List.getElem_finRange] at hget
  have hik : i.val < k := by
    rw [← hget] at hi
    exact hi
  have hnot := hbefore i.val hik
  rw [List.getElem_finRange] at hnot
  simpa using hnot

/-- A register that the loop leaves is ready, or it was not looked at as a hazard. -/
theorem reg_ready_check_le (hr : h.regReady r ≤ n) : (h.check q n inst).regReady r ≤ n := by
  rw [Hazards.check]
  split
  case h_1 i hi =>
    show Function.update h.regReady (inst.rIn i) _ r ≤ n
    by_cases hri : r = inst.rIn i
    · rw [hri, Function.update_self]
      rw [hri] at hr
      omega
    · rwa [Function.update_of_ne hri]
  case h_2 => exact hr

/-- The register that is waited for is ready now. -/
theorem reg_ready_check_self (hfirst : h.hazard q n inst = some first) :
    (h.check q n inst).regReady (inst.rIn first) ≤ n := by
  rw [Hazards.check, hfirst]
  show Function.update h.regReady (inst.rIn first) _ (inst.rIn first) ≤ n
  rw [Function.update_self]
  omega

theorem check_ready (hi : Inspects q inst i)
    (hle : ∀ first, h.hazard q n inst = some first → i ≤ first) :
    (h.check q n inst).regReady (inst.rIn i) ≤ n := by
  have hclear : h.isHazard q n inst i = false → h.regReady (inst.rIn i) ≤ n := by
    intro hnot
    by_contra hlt
    have hhazard : h.isHazard q n inst i = true := by
      rw [Hazards.isHazard, hi.2, decide_eq_true (Nat.lt_of_not_le hlt), bne_iff_ne.mpr hi.1]
      rfl
    rw [hnot] at hhazard
    exact Bool.false_ne_true hhazard
  cases hfirst : h.hazard q n inst with
  | none =>
      have hnot := List.find?_eq_none.mp hfirst i (List.mem_finRange i)
      exact reg_ready_check_le (hclear (Bool.eq_false_of_not_eq_true hnot))
  | some first =>
      rcases (hle first hfirst).lt_or_eq with hlt | rfl
      · exact reg_ready_check_le (hclear (not_hazard_of_lt hfirst hlt))
      · exact reg_ready_check_self hfirst

/-- The results are not among the counters of hazards and stalls. -/
theorem counters_set_ready (h : Hazards) (r : Reg) (ready : Nat) :
    (h.setReady r ready).simNumRAWHazard = h.simNumRAWHazard ∧
    (h.setReady r ready).singleCycleStalls = h.singleCycleStalls ∧
    (h.setReady r ready).doubleCycleStalls = h.doubleCycleStalls := by
  rw [Hazards.setReady]
  split
  · exact ⟨rfl, rfl, rfl⟩
  · exact ⟨rfl, rfl, rfl⟩

theorem raw_hazard_step (h : Hazards) : (h.step q n inst).simNumRAWHazard =
    h.simNumRAWHazard + if (h.hazard q n inst).isSome then 1 else 0 := by
  rw [step_eq_check, (counters_set_ready ..).1, (counters_set_ready ..).1, Hazards.check]
  cases h.hazard q n inst <;> rfl

/-- A stall of one or two cycles is counted as one of the two. -/
theorem stalls_step (hnear : ∀ r, h.regReady r ≤ n + 2) :
    (h.step q n inst).singleCycleStalls + (h.step q n inst).doubleCycleStalls =
      h.singleCycleStalls + h.doubleCycleStalls +
        if (h.hazard q n inst).isSome then 1 else 0 := by
  rw [step_eq_check, (counters_set_ready ..).2.1, (counters_set_ready ..).2.1,
    (counters_set_ready ..).2.2, (counters_set_ready ..).2.2, Hazards.check]
  cases hfirst : h.hazard q n inst with
  | none => rfl
  | some first =>
      have hle := hnear (inst.rIn first)
      have hlt : n < h.regReady (inst.rIn first) := by
        have hfound := List.find?_some hfirst
        rw [Hazards.isHazard, Bool.and_eq_true, Bool.and_eq_true, decide_eq_true_iff] at hfound
        exact hfound.1.2
      show (if h.regReady (inst.rIn first) - n = 1 then _ else _) +
        (if h.regReady (inst.rIn first) - n = 2 then _ else _) = _ + 1
      split <;> split <;> omega

/-! ## Runs -/

/-- Step lemma. -/
theorem reg_ready_step_le (hnear : ∀ r, h.regReady r ≤ n + 2) (r : Reg) :
    (h.step q n inst).regReady r ≤ n + 3 := by
  have hlatency := latency_cases q inst
  by_cases hr : r ∈ inst.targets
  · rw [reg_ready_step_of_mem hr]
    omega
  · have hle := hnear r
    rcases reg_ready_step_of_not_mem (h := h) (q := q) (n := n) hr with hkeep | ⟨-, hnow⟩
    · omega
    · omega

/-- Run lemma: for the next instruction, no register is more than two instructions away. -/
theorem reg_ready_le (q : Question) (insts : List Inst) (r : Reg) :
    ((SimMain.run insts).hazards q).regReady r ≤ insts.length + 3 := by
  induction insts using List.reverseRecOn generalizing r with
  | nil => exact Nat.zero_le _
  | append_singleton older inst ih =>
      rw [hazards_concat, List.length_append]
      exact reg_ready_step_le ih r

/-- The counters of a run add up. -/
theorem stalls_eq_hazards (q : Question) (insts : List Inst) :
    ((SimMain.run insts).hazards q).singleCycleStalls +
      ((SimMain.run insts).hazards q).doubleCycleStalls =
    ((SimMain.run insts).hazards q).simNumRAWHazard := by
  induction insts using List.reverseRecOn with
  | nil => rfl
  | append_singleton older inst ih =>
      rw [hazards_concat, stalls_step (reg_ready_le q older), raw_hazard_step, ih]

theorem stall_distance (q : Question) (older : List Inst) (inst : Inst) :
    StallDistance q older inst := by
  refine ⟨reg_ready_le q older, fun first hfirst => ?_, ?_, fun i hi hle => check_ready hi hle⟩
  · have hle := reg_ready_le q older (inst.rIn first)
    have hpos := (hazard_eq_some hfirst).2
    rw [Hazards.wait] at hpos
    rw [List.mem_pair]
    omega
  · rw [hazards_concat, raw_hazard_step]
    rfl

/-! ## Main result -/

/-- For each question, every hazard of a run is one or two instructions away, is counted once, and
leaves no source behind that is still waited for; the stalls are as many as the hazards. -/
theorem stalls_match_hazards (q : Question) (insts : List Inst) :
    ((SimMain.run insts).hazards q).singleCycleStalls +
      ((SimMain.run insts).hazards q).doubleCycleStalls =
    ((SimMain.run insts).hazards q).simNumRAWHazard ∧ Along (StallDistance q) insts :=
  ⟨stalls_eq_hazards q insts, fun older inst _ _ => stall_distance q older inst⟩

end Ece552.Pipeline
