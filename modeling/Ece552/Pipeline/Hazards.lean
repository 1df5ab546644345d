import Mathlib.Data.List.FinRange
import Mathlib.Logic.Function.Basic
import Ece552.Library.InOrderIssue

/-!
# Stall counters

The counters of RAW hazards in `sim_main` of the first assignment. `reg_ready` keeps, for each
register, the number of the instruction that could read it without a stall. Question 1 is about a
pipeline without forwarding, question 2 about one with it; they differ in the latency of results,
and in the data of a store, for which question 2 does not wait.
-/

namespace Ece552.Pipeline

open Library

/-- `MD_TOTAL_REGS` registers. -/
abbrev Reg : Type := Fin 70

/-- No register. -/
abbrev DNA : Reg := 0

/-- What the counters use of a decoded instruction. -/
structure Inst where
  rIn : Fin 3 → Reg
  rOut : Fin 2 → Reg
  fMem : Bool
  fLoad : Bool
  fStore : Bool

/-- The questions of the assignment about RAW hazards. -/
inductive Question where
  | q1
  | q2
  deriving DecidableEq

namespace Question

/-- The distance at which a result is ready. -/
def latency : Question → Inst → Nat
  | q1, _ => 3
  | q2, inst => if inst.fMem && inst.fLoad then 3 else 2

/-- A source for which an instruction does not wait. -/
def skips : Question → Inst → Fin 3 → Bool
  | q1, _, _ => false
  | q2, inst, i => i == 0 && inst.fMem && inst.fStore

end Question

/-- The counters of a question. -/
structure Hazards where
  simNumRAWHazard : Nat
  singleCycleStalls : Nat
  doubleCycleStalls : Nat
  regReady : Reg → Nat

namespace Hazards

/-- Nothing has been counted. -/
def init : Hazards := ⟨0, 0, 0, fun _ => 0⟩

/-- The source is a hazard for the instruction with this number. -/
def isHazard (q : Question) (h : Hazards) (simNumInsn : Nat) (inst : Inst) (i : Fin 3) : Bool :=
  inst.rIn i != DNA && decide (simNumInsn < h.regReady (inst.rIn i)) && !q.skips inst i

/-- The source at which the loop over the sources stops. -/
def hazard (q : Question) (h : Hazards) (simNumInsn : Nat) (inst : Inst) : Option (Fin 3) :=
  (List.finRange 3).find? (h.isHazard q simNumInsn inst)

/-- Count a stall for a register. -/
def stall (h : Hazards) (simNumInsn : Nat) (r : Reg) : Hazards :=
  let stallOffset := h.regReady r - simNumInsn
  { simNumRAWHazard := h.simNumRAWHazard + 1
    singleCycleStalls := if stallOffset = 1 then h.singleCycleStalls + 1 else h.singleCycleStalls
    doubleCycleStalls := if stallOffset = 2 then h.doubleCycleStalls + 1 else h.doubleCycleStalls
    regReady := Function.update h.regReady r (h.regReady r - stallOffset) }

/-- A register that is written is ready at this number. -/
def setReady (h : Hazards) (r : Reg) (ready : Nat) : Hazards :=
  if r ≠ DNA then { h with regReady := Function.update h.regReady r ready } else h

/-- Count the hazard of an instruction, and record its results. -/
def step (q : Question) (h : Hazards) (simNumInsn : Nat) (inst : Inst) : Hazards :=
  let h :=
    match h.hazard q simNumInsn inst with
    | some i => h.stall simNumInsn (inst.rIn i)
    | none => h
  let ready := simNumInsn + q.latency inst
  (h.setReady (inst.rOut 0) ready).setReady (inst.rOut 1) ready

end Hazards

/-- The instructions that were executed, with the counters of both questions. -/
structure SimMain where
  simNumInsn : Nat
  hazards : Question → Hazards

namespace SimMain

/-- Nothing has been executed. -/
def init : SimMain := ⟨0, fun _ => .init⟩

/-- Execute an instruction, as far as the counters see it. -/
def step (s : SimMain) (inst : Inst) : SimMain where
  simNumInsn := s.simNumInsn + 1
  hazards := fun q => (s.hazards q).step q (s.simNumInsn + 1) inst

/-- A run over the instructions in their order. -/
def run (insts : List Inst) : SimMain := insts.foldl step init

/-- The last instruction is counted behind the others. -/
theorem run_concat (insts : List Inst) (inst : Inst) :
    run (insts ++ [inst]) = (run insts).step inst := by
  rw [run, List.foldl_append]
  rfl

/-- Every instruction is counted. -/
theorem sim_num_insn_run (insts : List Inst) : (run insts).simNumInsn = insts.length := by
  induction insts using List.reverseRecOn with
  | nil => rfl
  | append_singleton insts inst ih =>
      rw [run_concat, List.length_append, ← ih]
      rfl

end SimMain

/-! ## The pipelines -/

/-- The sources that an instruction waits for: all but those that the question exempts. -/
def Question.sources (q : Question) (inst : Inst) : List Reg :=
  (((List.finRange 3).filter fun i => !q.skips inst i).map inst.rIn).filter (· ≠ DNA)

/-- The registers that an instruction writes. -/
def Inst.targets (inst : Inst) : List Reg := [inst.rOut 0, inst.rOut 1].filter (· ≠ DNA)

/-- The in-order pipeline of a question. -/
def Question.pipeline (q : Question) : Library.Pipeline Inst Reg where
  sources := q.sources
  targets := Inst.targets
  latency := q.latency

end Ece552.Pipeline
