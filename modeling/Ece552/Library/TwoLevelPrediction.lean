import Ece552.Library.SaturatingCounter

/-!
# Two-level prediction

Prediction by patterns of earlier outcomes. An instruction has a history register, which it may
share with others, and a table of counters, one for each pattern of the last outcomes in a register.
`Scheme` says which register and which table; everything else is a function of the history, which
begins with the latest branch.
-/

namespace Ece552.Library

/-- The last outcomes as a number, the latest one in the lowest bit. -/
def pattern : Nat → List Bool → Nat
  | 0, _ => 0
  | _ + 1, [] => 0
  | n + 1, outcome :: older => 2 * pattern n older + outcome.toNat

/-- No outcomes make no pattern. -/
@[simp] theorem pattern_nil (n : Nat) : pattern n [] = 0 := by
  cases n <;> rfl

/-- A pattern has as many bits as there are outcomes to remember. -/
theorem pattern_lt (n : Nat) (outcomes : List Bool) : pattern n outcomes < 2 ^ n := by
  induction n generalizing outcomes with
  | zero => exact Nat.one_pos
  | succ n ih =>
      cases outcomes with
      | nil => exact Nat.two_pow_pos _
      | cons outcome older =>
          have hlt := ih older
          have hbit := Bool.toNat_le outcome
          rw [pattern, Nat.pow_succ]
          omega

/-- A register that shifts outcomes in holds their pattern. -/
theorem pattern_cons (n : Nat) (outcome : Bool) (older : List Bool) :
    pattern n (outcome :: older) = (2 * pattern n older + outcome.toNat) % 2 ^ n := by
  induction n generalizing outcome older with
  | zero => rw [Nat.pow_zero, Nat.mod_one, pattern]
  | succ n ih =>
      have hbit := Bool.toNat_lt outcome
      have hmod : ∀ k, (2 * k + outcome.toNat) % 2 ^ (n + 1) = 2 * (k % 2 ^ n) + outcome.toNat := by
        intro k
        rw [Nat.pow_succ, Nat.mul_comm (2 ^ n) 2, Nat.mod_mul]
        have hlow : (2 * k + outcome.toNat) % 2 = outcome.toNat := by omega
        have hhigh : (2 * k + outcome.toNat) / 2 = k := by omega
        rw [hlow, hhigh, Nat.add_comm]
      rw [hmod, pattern]
      cases older with
      | nil => simp
      | cons outcome' older => rw [ih, ← pattern]

/-- No outcome was taken. -/
theorem pattern_eq_zero {n : Nat} {outcomes : List Bool} (h : ∀ o ∈ outcomes, o = false) :
    pattern n outcomes = 0 := by
  induction n generalizing outcomes with
  | zero => rfl
  | succ n ih =>
      cases outcomes with
      | nil => rfl
      | cons outcome older =>
          have hall := List.forall_mem_cons.mp h
          rw [pattern, ih hall.2, hall.1]
          rfl

/-! ## Schemes -/

/-- The history register and the table of each instruction, the width of the registers, and the
range, the threshold and the start of the counters. -/
structure Scheme (β ρ τ : Type*) where
  register : β → ρ
  table : β → τ
  width : Nat
  max : Nat
  threshold : Nat
  start : Nat

namespace Scheme

variable {β ρ τ : Type*} [DecidableEq ρ] (S : Scheme β ρ τ)
variable {b : β} {outcome : Bool} {history : List (β × Bool)} {r : ρ}

/-- The outcomes of the branches that share a register, the latest one first. -/
def outcomesOf (r : ρ) (history : List (β × Bool)) : List Bool :=
  history.filterMap fun branch => if S.register branch.1 = r then some branch.2 else none

/-- The content of a register. -/
def patternOf (r : ρ) (history : List (β × Bool)) : Nat := pattern S.width (S.outcomesOf r history)

/-- The last outcome belongs to the register, or not. -/
theorem outcomes_of_cons : S.outcomesOf r ((b, outcome) :: history) =
    if S.register b = r then outcome :: S.outcomesOf r history else S.outcomesOf r history := by
  by_cases h : S.register b = r
  · simp [outcomesOf, h]
  · simp [outcomesOf, h]

/-- A branch shifts its outcome into its register. -/
theorem pattern_of_cons : S.patternOf r ((b, outcome) :: history) =
    if S.register b = r then (2 * S.patternOf r history + outcome.toNat) % 2 ^ S.width
    else S.patternOf r history := by
  rw [patternOf, outcomes_of_cons]
  split
  · rw [pattern_cons, patternOf]
  · rfl

/-- The pattern of a register is one of its width. -/
theorem pattern_of_lt (r : ρ) (history : List (β × Bool)) :
    S.patternOf r history < 2 ^ S.width := pattern_lt _ _

/-- The counter that predicts a branch: that of its table for the pattern in its register. -/
def selected (b : β) (history : List (β × Bool)) : τ × Nat :=
  (S.table b, S.patternOf (S.register b) history)

/-- The counters that the branches of a history have moved, the earliest one first. -/
def updates : List (β × Bool) → List ((τ × Nat) × Bool)
  | [] => []
  | (b, outcome) :: older => updates older ++ [(S.selected b older, outcome)]

variable [DecidableEq τ] {key : τ × Nat}

/-- The value of a counter. -/
def counter (key : τ × Nat) (history : List (β × Bool)) : Nat :=
  (outcomesAt key (S.updates history)).foldl (saturate S.max) S.start

/-- The outcome that is predicted for a branch. -/
def predicts (b : β) (history : List (β × Bool)) : Bool :=
  decide (S.threshold ≤ S.counter (S.selected b history) history)

/-- The number of branches that were predicted wrongly. -/
def mispredictions : List (β × Bool) → Nat
  | [] => 0
  | (b, outcome) :: older =>
      mispredictions older + if S.predicts b older = outcome then 0 else 1

/-- A branch moves the counter that predicts it, and no other. -/
theorem counter_cons : S.counter key ((b, outcome) :: history) =
    if S.selected b history = key then saturate S.max (S.counter key history) outcome
    else S.counter key history := by
  rw [counter, updates, outcomes_at_concat]
  split
  · rw [List.foldl_append]
    rfl
  · rfl

end Scheme

end Ece552.Library
