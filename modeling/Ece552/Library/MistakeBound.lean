import Ece552.Library.SaturatingCounter
import Mathlib.Algebra.Order.BigOperators.Group.Finset

/-!
# Counters against any other predictions

A bank of saturating counters predicts not much worse than anyone else, whatever else he knows. A
wrong guess of his is worth two wrong predictions of the counters, and a change of his mind at a
counter is worth as many as that counter needs to follow. The measure is how far each counter lags
behind the latest guess that was made instead of it; read `Rival.step` first.
-/

namespace Ece552.Library

variable {max threshold c : Nat} {guess outcome : Bool}

/-- How many outcomes a counter is away from predicting what is guessed. -/
def lag (threshold : Nat) (guess : Bool) (c : Nat) : Nat :=
  if guess then threshold - c else c + 1 - threshold

/-- How far a counter can lag behind. -/
def maxLag (max threshold : Nat) : Nat := Nat.max threshold (max + 1 - threshold)

/-- After a right guess the counter is right or gets closer to the guess. -/
theorem lag_saturate (hpos : 0 < threshold) (hle : threshold ≤ max) (hc : c ≤ max) :
    (if decide (threshold ≤ c) = outcome then 0 else 1) +
        lag threshold guess (saturate max c outcome) ≤
      2 * (if guess = outcome then 0 else 1) + lag threshold guess c := by
  have hup := saturate_up max c
  have hdown := saturate_down max c
  unfold lag
  by_cases hpredict : threshold ≤ c
  · cases guess <;> cases outcome <;> simp only [hup, hdown, hpredict, decide_true, if_true,
      Bool.false_eq_true, if_false, reduceCtorEq]
    · omega
    · split <;> omega
    · omega
    · split <;> omega
  · have hlt : c < max := by omega
    cases guess <;> cases outcome <;> simp only [hup, hdown, hpredict, hlt, decide_false, if_true,
      Bool.false_eq_true, if_false, reduceCtorEq]
    · omega
    · omega
    · omega
    · omega

/-- A change of mind costs what the counter has to move at most. -/
theorem lag_change (hc : c ≤ max) (guess other : Bool) :
    lag threshold guess c ≤
      lag threshold other c + if guess = other then 0 else maxLag max threshold := by
  have hleft : threshold ≤ maxLag max threshold := Nat.le_max_left _ _
  have hright : max + 1 - threshold ≤ maxLag max threshold := Nat.le_max_right _ _
  unfold lag
  cases guess <;> cases other <;> simp only [if_true, Bool.false_eq_true, if_false, reduceCtorEq]
  · omega
  · omega
  · omega
  · omega

section Bank

variable {κ : Type*} [DecidableEq κ]

/-- What somebody guesses, who is asked what a counter will be told: his last guess in place of each
counter, and how often it was not the one before. -/
structure Guesses (κ : Type*) where
  last : κ → Bool
  changes : Nat

/-- Another guess in place of a counter. -/
def Guesses.add (guesses : Guesses κ) (round : κ × Bool) : Guesses κ where
  last := Function.update guesses.last round.1 round.2
  changes := guesses.changes + if round.2 = guesses.last round.1 then 0 else 1

/-- How often somebody changes his mind, who starts with the same guess everywhere. So a first guess
that is another one counts as well. -/
def changesOfMind (first : Bool) (rounds : List (κ × Bool)) : Nat :=
  (rounds.foldl Guesses.add ⟨fun _ => first, 0⟩).changes

variable [Fintype κ]

/-- The counters have not made more wrong predictions than the guesses account for. -/
structure Rival (max threshold : Nat) (bank : κ → Nat) (guesses : Guesses κ)
    (missed wrong : Nat) : Prop where
  range : ∀ k, bank k ≤ max
  account : missed + ∑ k, lag threshold (guesses.last k) (bank k) ≤
    2 * wrong + maxLag max threshold * guesses.changes

variable {bank : κ → Nat} {guesses : Guesses κ} {missed wrong : Nat}

omit [DecidableEq κ] in
/-- Counters that predict what is guessed first. -/
theorem Rival.start (first : Bool) {c : Nat} (hc : c ≤ max) (hlag : lag threshold first c = 0) :
    Rival max threshold (fun _ : κ => c) ⟨fun _ => first, 0⟩ 0 0 := by
  refine ⟨fun _ => hc, ?_⟩
  show 0 + ∑ _k : κ, lag threshold first c ≤ _
  rw [hlag, Finset.sum_const_zero]
  exact Nat.zero_le _

/-- Step lemma: an outcome that a counter predicts, and somebody else guesses. -/
theorem Rival.step (h : Rival max threshold bank guesses missed wrong) (hpos : 0 < threshold)
    (hle : threshold ≤ max) (key : κ) (guess outcome : Bool) :
    Rival max threshold (bump max bank (key, outcome)) (guesses.add (key, guess))
      (missed + if decide (threshold ≤ bank key) = outcome then 0 else 1)
      (wrong + if guess = outcome then 0 else 1) := by
  have hrange : ∀ k, bump max bank (key, outcome) k ≤ max := by
    intro k
    by_cases hk : k = key
    · subst hk
      rw [bump_self max bank (k, outcome)]
      exact saturate_le (h.range k) outcome
    · rw [bump_of_ne hk]
      exact h.range k
  refine ⟨hrange, ?_⟩
  -- only the counter of the key and the guess in its place have changed
  have hothers : ∑ k ∈ Finset.univ.erase key, lag threshold ((guesses.add (key, guess)).last k)
      (bump max bank (key, outcome) k) =
        ∑ k ∈ Finset.univ.erase key, lag threshold (guesses.last k) (bank k) := by
    refine Finset.sum_congr rfl fun k hk => ?_
    have hne : k ≠ key := Finset.ne_of_mem_erase hk
    have hlast : (guesses.add (key, guess)).last k = guesses.last k := Function.update_of_ne hne ..
    rw [hlast, bump_of_ne hne]
  have hkey : lag threshold ((guesses.add (key, guess)).last key)
      (bump max bank (key, outcome) key) =
        lag threshold guess (saturate max (bank key) outcome) := by
    have hlast : (guesses.add (key, guess)).last key = guess := Function.update_self ..
    rw [hlast, bump_self max bank (key, outcome)]
  have hmove : _ ≤ 2 * (if guess = outcome then 0 else 1) + lag threshold guess (bank key) :=
    lag_saturate hpos hle (h.range key)
  have hchange : lag threshold guess (bank key) ≤ _ :=
    lag_change (h.range key) guess (guesses.last key)
  have hchanges : maxLag max threshold * (guesses.add (key, guess)).changes =
      maxLag max threshold * guesses.changes +
        if guess = guesses.last key then 0 else maxLag max threshold := by
    show maxLag max threshold * (guesses.changes + if guess = guesses.last key then 0 else 1) = _
    split <;> simp [Nat.mul_add]
  have hold := h.account
  rw [← Finset.add_sum_erase _ _ (Finset.mem_univ key)] at hold ⊢
  rw [hothers, hkey, hchanges, Nat.mul_add]
  omega

omit [DecidableEq κ] in
/-- The counters have made at most two wrong predictions for each wrong guess, and a few more for
each change of mind. -/
theorem Rival.missed_le (h : Rival max threshold bank guesses missed wrong) :
    missed ≤ 2 * wrong + maxLag max threshold * guesses.changes :=
  (Nat.le_add_right _ _).trans h.account

end Bank

end Ece552.Library
