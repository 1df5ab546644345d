import Ece552.Library.RingBuffer
import Ece552.Library.TransitionSystem
import Ece552.Tomasulo.Instr

/-!
# The timing simulator

The static variables of `tomasulo.c`, the five functions that the main loop of `runTomasulo` calls
in every cycle, and the loop itself as a machine that makes one call after another. A failed
assertion stops the machine. Cycles and indices are natural numbers, and the index `0x7FFFFFFF`
from which the searches for the oldest instruction start is above all of them.
-/

namespace Ece552.Tomasulo

open Library

/-- The number of instructions in the queue. -/
abbrev INSTR_QUEUE_SIZE : Nat := 10

/-- The number of integer reservation stations. -/
abbrev RESERV_INT_SIZE : Nat := 4

/-- The number of floating-point reservation stations. -/
abbrev RESERV_FP_SIZE : Nat := 2

/-- The number of integer units. -/
abbrev FU_INT_SIZE : Nat := 2

/-- The number of floating-point units. -/
abbrev FU_FP_SIZE : Nat := 1

/-- The cycles of an integer operation. -/
abbrev FU_INT_LATENCY : Nat := 4

/-- The cycles of a floating-point operation. -/
abbrev FU_FP_LATENCY : Nat := 9

/-- The static variables, and the part of the trace table that changes. -/
structure Sim where
  instrQueue : RingBuffer INSTR_QUEUE_SIZE Nat
  reservINT : SlotArray RESERV_INT_SIZE Nat
  reservFP : SlotArray RESERV_FP_SIZE Nat
  fuINT : SlotArray FU_INT_SIZE Nat
  fuFP : SlotArray FU_FP_SIZE Nat
  commonDataBus : Option Nat
  mapTable : SlotArray MD_TOTAL_REGS Nat
  fetchIndex : Nat
  table : Nat → Progress

/-- What `runTomasulo` starts from. -/
def Sim.initial : Sim where
  instrQueue := .empty
  reservINT := .empty
  reservFP := .empty
  fuINT := .empty
  fuFP := .empty
  commonDataBus := none
  mapTable := .empty
  fetchIndex := 0
  table := fun _ => {}

/-! ## The common data bus to retirement -/

/-- Remove a producer from `Q`, once for every input. -/
def Progress.removeProducer (insn : Nat) (p : Progress) : Progress :=
  { p with Q := (SlotArray.erase insn)^[MAX_INPUT_REGS] p.Q }

/-- Remove a producer from the `Q` of every instruction in an array of reservation stations. -/
def clearDependencies {n : Nat} (insn : Nat) (reserv : SlotArray n Nat) (table : Nat → Progress) :
    Nat → Progress :=
  (List.finRange n).foldl (fun table i =>
    match reserv i with
    | none => table
    | some waiting => Function.update table waiting ((table waiting).removeProducer insn)) table

/-- Retire what is on the bus, and tell those that wait for it. -/
def cdbToRetire (s : Sim) : Sim :=
  match s.commonDataBus with
  | none => s
  | some insn =>
      { s with
        table := clearDependencies insn s.reservFP (clearDependencies insn s.reservINT s.table)
        mapTable := (SlotArray.erase insn)^[MAX_OUTPUT_REGS] s.mapTable
        commonDataBus := none }

/-! ## Execution to the common data bus -/

section Execute

variable (trace : Trace) (currentCycle : Nat)

/-- The latency of the unit that an opcode uses. -/
def latency (op : Opcode) : Nat :=
  if usesIntFu op then FU_INT_LATENCY else if usesFpFu op then FU_FP_LATENCY else 0

/-- The store has been in its unit long enough. -/
def completedStore (table : Nat → Progress) (insn : Nat) : Bool :=
  isStore (opAt trace insn) &&
    decide ((table insn).tomExecuteCycle + FU_INT_LATENCY ≤ currentCycle)

/-- Remove the instruction in a slot from the units and from the reservation stations, if it is a
store that is complete. -/
def removeCompletedStore {n m : Nat} (table : Nat → Progress)
    (arrays : SlotArray n Nat × SlotArray m Nat) (i : Fin n) : SlotArray n Nat × SlotArray m Nat :=
  match arrays.1 i with
  | none => arrays
  | some insn =>
      if completedStore trace currentCycle table insn then
        (Function.update arrays.1 i none, arrays.2.erase insn)
      else arrays

/-- Remove the stores that are complete from an array of units and from the reservation stations. -/
def removeCompletedStores {n m : Nat} (table : Nat → Progress) (insns : SlotArray n Nat)
    (reserv : SlotArray m Nat) : SlotArray n Nat × SlotArray m Nat :=
  (List.finRange n).foldl (removeCompletedStore trace currentCycle table) (insns, reserv)

/-- The oldest instruction of an array. -/
def getOldest {n : Nat} (insns : SlotArray n Nat) : Option Nat :=
  insns.oldest fun _ => true

/-- The oldest instruction of an array that has been in its unit long enough. All of them are
asserted to have entered it. -/
def getOldestReadyForCdb {n : Nat} (table : Nat → Progress) (insns : SlotArray n Nat) :
    Option (Option Nat) :=
  if (List.finRange n).all fun i =>
      match insns i with
      | none => true
      | some insn => decide ((table insn).tomExecuteCycle ≠ 0) then
    some (insns.oldest fun insn =>
      decide ((table insn).tomExecuteCycle + latency (opAt trace insn) ≤ currentCycle))
  else none

/-- Without the stores that are complete. -/
def Sim.removeStores (s : Sim) : Sim :=
  let arrays := removeCompletedStores trace currentCycle s.table s.fuINT s.reservINT
  { s with fuINT := arrays.1, reservINT := arrays.2 }

/-- Remove an instruction from the units and the reservation stations and put it on the bus. -/
def Sim.putOnCdb (s : Sim) (insn : Nat) : Sim :=
  { s with
    fuINT := s.fuINT.erase insn
    fuFP := s.fuFP.erase insn
    reservINT := s.reservINT.erase insn
    reservFP := s.reservFP.erase insn
    table := Function.update s.table insn { s.table insn with tomCdbCycle := currentCycle }
    commonDataBus := some insn }

/-- Put the oldest instruction that is ready on the bus, if there is one. -/
def Sim.oldestToCdb (s : Sim) : Option Sim := do
  let oldestINT ← getOldestReadyForCdb trace currentCycle s.table s.fuINT
  let oldestFP ← getOldestReadyForCdb trace currentCycle s.table s.fuFP
  match getOldest ![oldestINT, oldestFP] with
  | none => some s
  | some insn => some (s.putOnCdb currentCycle insn)

/-- Put the oldest instruction that has completed on the bus. -/
def executeToCdb (s : Sim) : Option Sim :=
  if s.commonDataBus.isSome then some s
  else (s.removeStores trace currentCycle).oldestToCdb trace currentCycle

end Execute

/-! ## Issue to execution -/

section Issue

variable (currentCycle : Nat) {m n : Nat}

/-- The oldest instruction of an array that waits for no producer. -/
def getOldestReadyForExecute (table : Nat → Progress) (insns : SlotArray m Nat) : Option Nat :=
  insns.oldest fun insn => (table insn).Q.isEmpty

/-- Move instructions to the units, the oldest that is ready first. Every round takes a unit, so
there are at most as many rounds as units. -/
def issueRounds : Nat → SlotArray m Nat → SlotArray n Nat → (Nat → Progress) →
    SlotArray n Nat × (Nat → Progress)
  | 0, _, fu, table => (fu, table)
  | rounds + 1, copy, fu, table =>
      if copy.isEmpty || fu.isFull then (fu, table)
      else
        match getOldestReadyForExecute table copy with
        | none => (fu, table)
        | some insn =>
            issueRounds rounds (copy.erase insn) (fu.insert insn)
              (Function.update table insn { table insn with tomExecuteCycle := currentCycle })

/-- Those in a unit already are removed from a copy of the reservation stations. -/
def issueToExecuteHelper (reserv : SlotArray m Nat) (fu : SlotArray n Nat)
    (table : Nat → Progress) : SlotArray n Nat × (Nat → Progress) :=
  issueRounds currentCycle n (fu.eraseAll reserv) fu table

/-- Start the oldest instructions that are ready. -/
def issueToExecute (s : Sim) : Sim :=
  let issuedINT := issueToExecuteHelper currentCycle s.reservINT s.fuINT s.table
  let issuedFP := issueToExecuteHelper currentCycle s.reservFP s.fuFP issuedINT.2
  { s with fuINT := issuedINT.1, fuFP := issuedFP.1, table := issuedFP.2 }

end Issue

/-! ## Dispatch to issue -/

section Dispatch

variable (trace : Trace) (currentCycle : Nat)

/-- Take the reservation station: note the producers of the inputs, and become the producer of the
outputs. -/
def Sim.rename (s : Sim) (insn : Nat) : Sim :=
  { s with
    table := Function.update s.table insn
      { s.table insn with
        tomIssueCycle := currentCycle
        Q := fun k =>
          match (getInstr trace insn).rIn k with
          | none => (s.table insn).Q k
          | some reg =>
              match s.mapTable reg with
              | none => (s.table insn).Q k
              | some producer => some producer }
    mapTable := (List.finRange MAX_OUTPUT_REGS).foldl (fun mapTable k =>
      match (getInstr trace insn).rOut k with
      | none => mapTable
      | some reg => Function.update mapTable reg (some insn)) s.mapTable }

/-- Issue the oldest instruction of the queue, if there is a station. -/
def dispatchToIssue (s : Sim) : Option Sim :=
  if s.instrQueue.isEmpty then some s
  else
    match s.instrQueue.peek with
    | none => some s
    | some insn =>
        if isBranch (opAt trace insn) then do
          let (_, queue) ← s.instrQueue.dequeue
          some { s with instrQueue := queue }
        else
          match fuClass (opAt trace insn) with
          | some .INT =>
              if s.reservINT.isFull then some s
              else do
                let (_, queue) ← s.instrQueue.dequeue
                some (Sim.rename trace currentCycle
                  { s with instrQueue := queue, reservINT := s.reservINT.insert insn } insn)
          | some .FP =>
              if s.reservFP.isFull then some s
              else do
                let (_, queue) ← s.instrQueue.dequeue
                some (Sim.rename trace currentCycle
                  { s with instrQueue := queue, reservFP := s.reservFP.insert insn } insn)
          | none => some s

end Dispatch

/-! ## Fetch to dispatch -/

section Fetch

variable (trace : Trace) (currentCycle : Nat)

/-- Advance the index to the next instruction that is no trap, through the rest of the trace. -/
def fetchNext : Trace → Nat → Nat × Option Nat
  | [], index => (index + 1, none)
  | insn :: rest, index =>
      if isTrap insn.op then fetchNext rest (index + 1) else (index + 1, some (index + 1))

/-- Fetch the next instruction that is no trap, if there is room in the queue. -/
def fetch (s : Sim) : Option Sim :=
  if s.instrQueue.isFull then some s
  else
    match fetchNext (trace.drop s.fetchIndex) s.fetchIndex with
    | (index, none) => some { s with fetchIndex := index }
    | (index, some insn) => do
        let queue ← s.instrQueue.enqueue insn
        some { s with instrQueue := queue, fetchIndex := index }

/-- Fetch, and dispatch what is the last one in the queue. -/
def fetchToDispatch (s : Sim) : Option Sim := do
  let s ← fetch trace s
  match s.instrQueue.peekTail with
  | none => some s
  | some insn =>
      if (s.table insn).tomDispatchCycle = 0 then
        some { s with
          table := Function.update s.table insn
            { s.table insn with tomDispatchCycle := currentCycle } }
      else some s

end Fetch

/-! ## The main loop -/

/-- Is the trace at its end, and are the stations and the units empty? -/
def isSimulationDone (simInsn : Nat) (s : Sim) : Bool :=
  decide (simInsn < s.fetchIndex) && s.reservINT.isEmpty && s.reservFP.isEmpty &&
    s.fuINT.isEmpty && s.fuFP.isEmpty

/-- The next call that the loop makes, or the return from it. -/
inductive Stage where
  | cdbToRetire | executeToCdb | issueToExecute | dispatchToIssue | fetchToDispatch | returned
  deriving DecidableEq, Repr

/-- The state of `runTomasulo`. -/
structure Machine where
  sim : Sim
  cycle : Nat
  stage : Stage

/-- Before the first call of the first cycle. -/
def Machine.initial : Machine := ⟨.initial, 1, .cdbToRetire⟩

variable (trace : Trace)

/-- Make the next call. After the last one the cycle is counted and the loop may end. -/
def step (m : Machine) : Option Machine :=
  match m.stage with
  | .cdbToRetire => some ⟨cdbToRetire m.sim, m.cycle, .executeToCdb⟩
  | .executeToCdb =>
      (executeToCdb trace m.cycle m.sim).map fun sim => ⟨sim, m.cycle, .issueToExecute⟩
  | .issueToExecute => some ⟨issueToExecute m.cycle m.sim, m.cycle, .dispatchToIssue⟩
  | .dispatchToIssue =>
      (dispatchToIssue trace m.cycle m.sim).map fun sim => ⟨sim, m.cycle, .fetchToDispatch⟩
  | .fetchToDispatch =>
      (fetchToDispatch trace m.cycle m.sim).map fun sim =>
        ⟨sim, m.cycle + 1,
          if isSimulationDone trace.length sim then .returned else .cdbToRetire⟩
  | .returned => none

/-- Make a number of calls. -/
def run : Nat → Machine → Option Machine
  | 0, m => some m
  | calls + 1, m => (step trace m).bind (run calls)

/-- `runTomasulo` as a transition system. -/
def runTomasulo : TransitionSystem Machine Unit where
  init := fun m => m = .initial
  next := fun m _ m' => step trace m = some m'

end Ece552.Tomasulo
