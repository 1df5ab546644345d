import Ece552.Library.SlotArray
import Mathlib.Data.Fin.VecNotation

/-!
# Instructions and traces

The trace that the functional simulator records, and what the timing simulator asks of it. The
simulator points to an instruction by its index in the trace, which starts at 1. An opcode is known
by the flags that `pisa.def` gives it; those the simulator does not test are left out.
-/

namespace Ece552.Tomasulo

open Library

/-- The number of registers. -/
abbrev MD_TOTAL_REGS : Nat := 32 + 32 + 3 + 1 + 1 + 1

/-- The number of input registers of an instruction. -/
abbrev MAX_INPUT_REGS : Nat := 3

/-- The number of output registers of an instruction. -/
abbrev MAX_OUTPUT_REGS : Nat := 2

/-- A register of the map table. -/
abbrev Reg := Fin MD_TOTAL_REGS

/-- The opcode flags that are tested. -/
inductive Flag where
  | F_ICOMP | F_FCOMP | F_UNCOND | F_COND | F_LOAD | F_STORE | F_TRAP | F_CALL
  deriving DecidableEq, Repr

/-- The kinds of opcodes that an instruction in a trace can have. -/
inductive Opcode where
  | icomp | fcomp | load | store | cond | uncond | call | trap
  deriving DecidableEq, Repr

/-- `MD_OP_FLAGS`. -/
def Opcode.flags : Opcode → List Flag
  | .icomp => [.F_ICOMP]
  | .fcomp => [.F_FCOMP]
  | .load => [.F_LOAD]
  | .store => [.F_STORE]
  | .cond => [.F_COND]
  | .uncond => [.F_UNCOND]
  | .call => [.F_UNCOND, .F_CALL]
  | .trap => [.F_TRAP]

/-- The opcode has a flag. -/
def Opcode.has (op : Opcode) (flag : Flag) : Bool := decide (flag ∈ op.flags)

/-- An unconditional branch, jump or call. -/
def isUncondCtrl (op : Opcode) : Bool := op.has .F_CALL || op.has .F_UNCOND

/-- A conditional branch. -/
def isCondCtrl (op : Opcode) : Bool := op.has .F_COND

/-- A floating-point computation. -/
def isFComp (op : Opcode) : Bool := op.has .F_FCOMP

/-- An integer computation. -/
def isIComp (op : Opcode) : Bool := op.has .F_ICOMP

/-- A load. -/
def isLoad (op : Opcode) : Bool := op.has .F_LOAD

/-- A store. -/
def isStore (op : Opcode) : Bool := op.has .F_STORE

/-- A trap. -/
def isTrap (op : Opcode) : Bool := op.has .F_TRAP

/-- `USES_INT_FU` -/
def usesIntFu (op : Opcode) : Bool := isIComp op || isLoad op || isStore op

/-- `USES_FP_FU` -/
def usesFpFu (op : Opcode) : Bool := isFComp op

/-- `WRITES_CDB` -/
def writesCdb (op : Opcode) : Bool := isIComp op || isLoad op || isFComp op

/-- A branch of either kind. -/
def isBranch (op : Opcode) : Bool := isUncondCtrl op || isCondCtrl op

/-- An instruction of the trace. A register that is not there is `DNA`. The opcode definitions give
a store no output registers. -/
structure Insn where
  op : Opcode
  rOut : Fin MAX_OUTPUT_REGS → Option Reg
  rIn : Fin MAX_INPUT_REGS → Option Reg
  store_no_out : isStore op = true → ∀ k, rOut k = none

/-- The instructions executed, in order. -/
abbrev Trace := List Insn

/-- The first entry of the table, which is skipped. -/
def Insn.skipped : Insn := ⟨.trap, fun _ => none, fun _ => none, fun _ _ => rfl⟩

/-- The instruction at an index, which starts at 1. -/
def getInstr (trace : Trace) (index : Nat) : Insn := trace.getD (index - 1) .skipped

/-- The stage cycles and the producers waited for, which the simulator keeps in the instruction. -/
structure Progress where
  Q : SlotArray MAX_INPUT_REGS Nat := .empty
  tomDispatchCycle : Nat := 0
  tomIssueCycle : Nat := 0
  tomExecuteCycle : Nat := 0
  tomCdbCycle : Nat := 0

/-! ## What a trace says of an index -/

/-- The two classes of reservation stations and functional units. -/
inductive FuClass where
  | INT | FP
  deriving DecidableEq, Repr

/-- The class of units that an opcode uses, if it uses one. -/
def fuClass (op : Opcode) : Option FuClass :=
  if usesIntFu op then some .INT else if usesFpFu op then some .FP else none

variable (trace : Trace)

/-- The opcode at an index. -/
abbrev opAt (index : Nat) : Opcode := (getInstr trace index).op

/-- The index is that of an instruction that is fetched: in the trace and not a trap. -/
def Fetchable (index : Nat) : Prop :=
  1 ≤ index ∧ index ≤ trace.length ∧ isTrap (opAt trace index) = false

/-- The instruction enters a reservation station. -/
def Enters (index : Nat) : Prop :=
  Fetchable trace index ∧ isBranch (opAt trace index) = false

/-- The instruction has the register as an output. -/
def Writes (index : Nat) (reg : Reg) : Prop := ∃ k, (getInstr trace index).rOut k = some reg

/-- The trace is looked up. -/
instance (index : Nat) : Decidable (Fetchable trace index) :=
  inferInstanceAs (Decidable (_ ∧ _ ∧ _))

/-- The trace is looked up. -/
instance (index : Nat) : Decidable (Enters trace index) :=
  inferInstanceAs (Decidable (_ ∧ _))

/-- The trace is looked up. -/
instance (index : Nat) (reg : Reg) : Decidable (Writes trace index reg) :=
  inferInstanceAs (Decidable (∃ k, (getInstr trace index).rOut k = some reg))

/-- The last instruction before an index that enters a reservation station and writes a register. -/
def producer (index : Nat) (reg : Reg) : Option Nat :=
  ((List.range index).reverse).find? fun p => decide (Enters trace p ∧ Writes trace p reg)

variable {trace} {index : Nat} {reg : Reg}

/-- What is neither trap nor branch uses a unit. -/
theorem fu_class_of_not_branch {op : Opcode} (htrap : isTrap op = false)
    (hbranch : isBranch op = false) : ∃ u, fuClass op = some u := by
  have hclass : (fuClass op).isSome = true := by
    revert htrap hbranch
    cases op <;> decide
  exact Option.isSome_iff_exists.mp hclass

/-- What enters uses a unit. -/
theorem Enters.fu_class (h : Enters trace index) : ∃ u, fuClass (opAt trace index) = some u :=
  fu_class_of_not_branch h.1.2.2 h.2

/-- An instruction that uses a unit is neither trap nor branch. -/
theorem not_branch_of_fu_class {op : Opcode} {u : FuClass} (h : fuClass op = some u) :
    isTrap op = false ∧ isBranch op = false := by
  revert u
  cases op <;> decide

/-- A store uses an integer unit. -/
theorem store_uses_int {op : Opcode} (h : isStore op = true) : fuClass op = some .INT := by
  revert h
  cases op <;> decide

/-- What is neither trap, branch nor store writes the common data bus. -/
theorem writes_cdb_iff {op : Opcode} :
    writesCdb op = true ↔ isTrap op = false ∧ isBranch op = false ∧ isStore op = false := by
  cases op <;> decide

/-- The producer is the last one before that enters and writes the register. -/
theorem producer_eq_some {p : Nat} :
    producer trace index reg = some p ↔ p < index ∧ Enters trace p ∧ Writes trace p reg ∧
      ∀ q, q < index → Enters trace q → Writes trace q reg → q ≤ p := by
  induction index with
  | zero => simp [producer]
  | succ index ih =>
      have hrange : producer trace (index + 1) reg =
          if Enters trace index ∧ Writes trace index reg then some index
          else producer trace index reg := by
        simp only [producer, List.range_succ, List.reverse_append, List.reverse_cons,
          List.reverse_nil, List.nil_append, List.cons_append, List.find?_cons]
        by_cases h : Enters trace index ∧ Writes trace index reg <;> simp [h]
      rw [hrange]
      by_cases h : Enters trace index ∧ Writes trace index reg
      · rw [if_pos h, Option.some.injEq]
        constructor
        · rintro rfl
          exact ⟨Nat.lt_succ_self _, h.1, h.2, fun q hq _ _ => Nat.lt_succ_iff.mp hq⟩
        · rintro ⟨hp, -, -, hlast⟩
          exact Nat.le_antisymm (hlast index (Nat.lt_succ_self _) h.1 h.2) (Nat.lt_succ_iff.mp hp)
      · rw [if_neg h, ih]
        constructor
        · rintro ⟨hp, henters, hwrites, hlast⟩
          refine ⟨Nat.lt_succ_of_lt hp, henters, hwrites, fun q hq hq' hq'' => ?_⟩
          refine hlast q (Nat.lt_of_le_of_ne (Nat.lt_succ_iff.mp hq) ?_) hq' hq''
          rintro rfl
          exact h ⟨hq', hq''⟩
        · rintro ⟨hp, henters, hwrites, hlast⟩
          refine ⟨Nat.lt_of_le_of_ne (Nat.lt_succ_iff.mp hp) ?_, henters, hwrites, fun q hq =>
            hlast q (Nat.lt_succ_of_lt hq)⟩
          rintro rfl
          exact h ⟨henters, hwrites⟩

/-! ## Small traces -/

/-- A load that an addition waits for, a store, and a branch. -/
def loadAddStore : Trace :=
  [⟨.load, ![some 2, none], ![some 29, none, none], by decide⟩,
   ⟨.icomp, ![some 3, none], ![some 2, some 2, none], by decide⟩,
   ⟨.store, ![none, none], ![some 3, some 29, none], by decide⟩,
   ⟨.cond, ![none, none], ![some 3, none, none], by decide⟩,
   ⟨.trap, ![none, none], ![none, none, none], by decide⟩]

/-- A floating-point instruction, four instructions that wait for it in all integer stations, one
that waits for a station in the queue, eight branches, and one more instruction. -/
def branchesBehindStall : Trace :=
  [⟨.fcomp, ![some 34, none], ![none, none, none], by decide⟩,
   ⟨.icomp, ![some 1, none], ![some 34, none, none], by decide⟩,
   ⟨.icomp, ![some 2, none], ![some 34, none, none], by decide⟩,
   ⟨.icomp, ![some 3, none], ![some 34, none, none], by decide⟩,
   ⟨.icomp, ![some 4, none], ![some 34, none, none], by decide⟩,
   ⟨.icomp, ![some 5, none], ![none, none, none], by decide⟩] ++
  List.replicate 8 ⟨.cond, ![none, none], ![none, none, none], by decide⟩ ++
  [⟨.icomp, ![some 6, none], ![none, none, none], by decide⟩]

/-- Ten branches. -/
def tenBranches : Trace := List.replicate 10 ⟨.cond, ![none, none], ![none, none, none], by decide⟩

end Ece552.Tomasulo
