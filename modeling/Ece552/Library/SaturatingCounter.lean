import Mathlib.Algebra.BigOperators.Group.Finset.Piecewise
import Mathlib.Data.Fintype.Basic
import Mathlib.Data.List.Induction
import Mathlib.Logic.Function.Basic
import Mathlib.Order.Basic

/-!
# Saturating counters

A counter that each outcome moves up or down by one, between 0 and a maximum. `bump` moves one
counter of a bank; the counters of a bank are independent, by `foldl_bump`: each is the count of the
outcomes for its own key. A counter predicts an outcome by a threshold; `sum_misses_concat` counts
the wrong predictions of a bank by those of its counters.
-/

namespace Ece552.Library

/-- A counter after an outcome. -/
def saturate (max c : Nat) (up : Bool) : Nat :=
  if up then if c < max then c + 1 else c else if 0 < c then c - 1 else c

variable {max c : Nat} {up : Bool}

/-- Up to the maximum. -/
theorem saturate_up (max c : Nat) : saturate max c true = if c < max then c + 1 else c := rfl

/-- Down to zero. -/
theorem saturate_down (max c : Nat) : saturate max c false = c - 1 := by
  show (if 0 < c then c - 1 else c) = c - 1
  split <;> omega

/-- A counter stays below its maximum. -/
theorem saturate_le (h : c ≤ max) (up : Bool) : saturate max c up ≤ max := by
  cases up with
  | false =>
      rw [saturate_down]
      omega
  | true =>
      rw [saturate_up]
      split <;> omega

/-- An outcome moves a counter by at most one. -/
theorem saturate_near (max c : Nat) (up : Bool) :
    saturate max c up ≤ c + 1 ∧ c ≤ saturate max c up + 1 := by
  cases up with
  | false =>
      rw [saturate_down]
      omega
  | true =>
      rw [saturate_up]
      split <;> omega

/-- A counter that is below its maximum and above 0 moves. -/
theorem saturate_ne (hpos : 0 < c) (hlt : c < max) (up : Bool) : saturate max c up ≠ c := by
  cases up with
  | false =>
      rw [saturate_down]
      omega
  | true =>
      rw [saturate_up, if_pos hlt]
      omega

/-- A counter stays within a bound below its maximum if and only if it is not moved up from it. -/
theorem saturate_le_iff {bound : Nat} (h : c ≤ bound) (hlt : bound < max) :
    saturate max c up ≤ bound ↔ (c = bound → up = false) := by
  cases up with
  | false =>
      rw [saturate_down]
      exact iff_of_true (by omega) fun _ => rfl
  | true =>
      rw [saturate_up, if_pos (by omega)]
      refine ⟨fun hle heq => absurd hle (by omega), fun hne => ?_⟩
      have hc : c ≠ bound := fun heq => nomatch hne heq
      omega

/-- As long as it does so, the bound could be its maximum. -/
theorem saturate_eq_of_room {bound : Nat} (h : c ≤ bound) (hlt : bound < max)
    (hroom : c = bound → up = false) : saturate max c up = saturate bound c up := by
  cases up with
  | false => rw [saturate_down, saturate_down]
  | true =>
      have hc : c ≠ bound := fun heq => nomatch hroom heq
      rw [saturate_up, saturate_up, if_pos (by omega), if_pos (by omega)]

/-- So it does for any outcomes. -/
theorem foldl_saturate_le (h : c ≤ max) (outcomes : List Bool) :
    outcomes.foldl (saturate max) c ≤ max := by
  induction outcomes generalizing c with
  | nil => exact h
  | cons outcome outcomes ih => exact ih (saturate_le h outcome)

/-- The same outcome again and again goes up to the maximum. -/
theorem foldl_replicate_up (h : c ≤ max) (n : Nat) :
    (List.replicate n true).foldl (saturate max) c = min max (c + n) := by
  induction n generalizing c with
  | zero => exact (Nat.min_eq_right h).symm
  | succ n ih =>
      rw [List.replicate_succ, List.foldl_cons, ih (saturate_le h true), saturate_up]
      split <;> omega

/-- Or down to zero. -/
theorem foldl_replicate_down (max c n : Nat) :
    (List.replicate n false).foldl (saturate max) c = c - n := by
  induction n generalizing c with
  | zero => rfl
  | succ n ih =>
      rw [List.replicate_succ, List.foldl_cons, ih, saturate_down]
      omega

/-- Whatever a counter counted before, `threshold` equal outcomes make it predict them. -/
theorem foldl_replicate_predicts {threshold : Nat} (h : c ≤ max) (hle : threshold ≤ max)
    (hlt : max < 2 * threshold) (outcome : Bool) :
    decide (threshold ≤ (List.replicate threshold outcome).foldl (saturate max) c) = outcome := by
  cases outcome with
  | false =>
      rw [foldl_replicate_down]
      exact decide_eq_false (by omega)
  | true =>
      rw [foldl_replicate_up h]
      exact decide_eq_true (by omega)

/-! ## Predictions -/

/-- The number of outcomes that a counter predicts wrongly, each before it moves the counter. -/
def misses (max threshold : Nat) : Nat → List Bool → Nat
  | _, [] => 0
  | c, outcome :: outcomes =>
      (if decide (threshold ≤ c) = outcome then 0 else 1) +
        misses max threshold (saturate max c outcome) outcomes

/-- The last outcome is a miss, or not. -/
theorem misses_concat (max threshold c : Nat) (outcomes : List Bool) (outcome : Bool) :
    misses max threshold c (outcomes ++ [outcome]) = misses max threshold c outcomes +
      if decide (threshold ≤ outcomes.foldl (saturate max) c) = outcome then 0 else 1 := by
  induction outcomes generalizing c with
  | nil => exact Nat.add_comm _ _
  | cons first outcomes ih =>
      rw [List.cons_append, misses, ih, misses, List.foldl_cons, Nat.add_assoc]

/-! ## Banks -/

section Bank

variable {κ : Type*} [DecidableEq κ] {bank : κ → Nat} {key : κ}

/-- Move the counter of a key. -/
def bump (max : Nat) (bank : κ → Nat) (update : κ × Bool) : κ → Nat :=
  Function.update bank update.1 (saturate max (bank update.1) update.2)

/-- The outcomes of the updates of a key. -/
def outcomesAt (key : κ) (updates : List (κ × Bool)) : List Bool :=
  updates.filterMap fun update => if update.1 = key then some update.2 else none

@[simp] theorem outcomes_at_nil (key : κ) : outcomesAt key [] = [] := rfl

/-- The last update belongs to the key, or not. -/
theorem outcomes_at_concat (key : κ) (updates : List (κ × Bool)) (update : κ × Bool) :
    outcomesAt key (updates ++ [update]) =
      if update.1 = key then outcomesAt key updates ++ [update.2] else outcomesAt key updates := by
  rw [outcomesAt, List.filterMap_append]
  split
  case isTrue h => simp [outcomesAt, h]
  case isFalse h => simp [outcomesAt, h]

/-- The counter that is updated. -/
theorem bump_self (max : Nat) (bank : κ → Nat) (update : κ × Bool) :
    bump max bank update update.1 = saturate max (bank update.1) update.2 :=
  Function.update_self ..

/-- The other counters stay as they are. -/
theorem bump_of_ne {update : κ × Bool} (h : key ≠ update.1) : bump max bank update key = bank key :=
  Function.update_of_ne h _ _

/-- Each counter of a bank counts the outcomes for its key, whatever happens to the others. -/
theorem foldl_bump (max : Nat) (bank : κ → Nat) (key : κ) (updates : List (κ × Bool)) :
    updates.foldl (bump max) bank key =
      (outcomesAt key updates).foldl (saturate max) (bank key) := by
  induction updates using List.reverseRecOn with
  | nil => rfl
  | append_singleton updates update ih =>
      rw [List.foldl_append, outcomes_at_concat]
      show bump max (updates.foldl (bump max) bank) update key = _
      split
      case isTrue h =>
        subst h
        rw [bump_self, ih, List.foldl_append]
        rfl
      case isFalse h => rw [bump_of_ne (Ne.symm h), ih]

/-- Another update is predicted by the counter of its key, and by no other. -/
theorem sum_misses_concat [Fintype κ] (max threshold : Nat) (bank : κ → Nat)
    (updates : List (κ × Bool)) (update : κ × Bool) :
    ∑ k, misses max threshold (bank k) (outcomesAt k (updates ++ [update])) =
      ∑ k, misses max threshold (bank k) (outcomesAt k updates) +
        if decide (threshold ≤ updates.foldl (bump max) bank update.1) = update.2 then 0
        else 1 := by
  have hkey : ∀ k, misses max threshold (bank k) (outcomesAt k (updates ++ [update])) =
      misses max threshold (bank k) (outcomesAt k updates) + if update.1 = k then
        if decide (threshold ≤ updates.foldl (bump max) bank k) = update.2 then 0 else 1
      else 0 := by
    intro k
    rw [outcomes_at_concat, foldl_bump]
    split
    case isTrue => exact misses_concat ..
    case isFalse => exact (Nat.add_zero _).symm
  rw [Finset.sum_congr rfl fun k _ => hkey k, Finset.sum_add_distrib, Finset.sum_ite_eq,
    if_pos (Finset.mem_univ _)]

end Bank

end Ece552.Library
