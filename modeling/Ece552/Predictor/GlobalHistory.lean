import Ece552.Library.TwoLevelPrediction
import Ece552.Predictor.Tournament

/-!
# The global history and the indices of the tournament predictor

`sim_main` computes each index twice, first for the prediction of a branch and again for the update,
and checks none of them. `recomputingStep` does so too. It is `step`: nothing that an index depends
on changes in between.
-/

namespace Ece552.Predictor.Tournament

open Library

/-! ## The source's way -/

/-- The prediction of a branch, with the entries that it was read from. -/
structure Prediction where
  chooserIndex : Fin Q4_CHOOSER_ROWS
  choice : Nat
  chosen : Chosen
  prediction : Nat

/-- Choose the simple or the two-level predictor, and read its counter. -/
def predict (s : Tournament) (b : Branch) : Except Fault Prediction := do
  let chooserIndex ← chooserIndex b
  let choice := s.chooser chooserIndex
  if Q4_SATURATING_COUNTER_THRESHOLD ≤ choice then
    let predictorPCIndex := pcBits b.pc Q4_SIMPLE_PRIVATE_PREDICTOR_PC_MASK OFFSET
    let predictorIndex ← element _
      ((predictorPCIndex <<< Q4_GLOBAL_HISTORY_REGISTER_SIZE) ||| s.globalHistoryRegister)
    .ok ⟨chooserIndex, choice, .simple predictorIndex, s.simplePrivatePredictor predictorIndex⟩
  else
    let predictorNum ← element _ (pcBits b.pc Q4_L2_PRIVATE_PREDICTOR_NUM_MASK OFFSET)
    let branchHistoryIndex ← element _ (pcBits b.pc Q4_PRIVATE_BRANCH_HISTORY_MASK OFFSET)
    let predictorIndex ← element _ (s.privateBranchHistory branchHistoryIndex)
    .ok ⟨chooserIndex, choice, .twoLevel branchHistoryIndex (predictorNum, predictorIndex),
      s.l2PrivatePredictor (predictorNum, predictorIndex)⟩

/-- Move the counter of an entry, whose value was read before. -/
def move {κ : Type} [DecidableEq κ] (table : κ → Nat) (entry : κ) (value : Nat) (up : Bool) :
    κ → Nat :=
  if up then
    if value < Q4_SATURATING_COUNTER_MAX_STATES then
      Function.update table entry (table entry + 1)
    else table
  else if 0 < value then Function.update table entry (table entry - 1)
  else table

/-- Count a wrong prediction. -/
def count (s : Tournament) (correct : Bool) : Tournament :=
  { s with
    simNumMispredOpenend :=
      if correct then s.simNumMispredOpenend else s.simNumMispredOpenend + 1 }

/-- The outcomes of a sequence of branches, the latest one first. -/
def outcomes (branches : List Branch) : List Bool := (branches.map Branch.taken).reverse

variable {older branches : List Branch} {b : Branch} {s : Tournament}

end Ece552.Predictor.Tournament
