import Mathlib.Logic.Basic

/-!
# Labelled transition systems

Runs, the invariant rule and simulations of a labelled transition system. A run is
indexed by the predicate that every one of its steps meets, so that a result about
restricted runs and one about all runs have the same form: `Run allowed s` says that `s` is
reached by steps allowed in the state they leave. Read `Run.invariant` first: it is the only
induction over runs, and `Run.simulates` carries a run to a more abstract system.
-/

namespace Ece552.Library

/-- A labelled transition system: its initial states and its steps. -/
structure TransitionSystem (σ α : Type*) where
  init : σ → Prop
  next : σ → α → σ → Prop

namespace TransitionSystem

variable {σ α τ β : Type*}

/-- The states reached from an initial state by steps that are `allowed` where they start. -/
inductive Run (T : TransitionSystem σ α) (allowed : σ → α → Prop) : σ → Prop where
  | init {s : σ} : T.init s → Run T allowed s
  | step {s s' : σ} {l : α} : Run T allowed s → allowed s l → T.next s l s' → Run T allowed s'

/-- The states reached by any steps at all. -/
abbrev Reachable (T : TransitionSystem σ α) : σ → Prop :=
  T.Run fun _ _ => True

variable {T : TransitionSystem σ α} {allowed stricter : σ → α → Prop} {s : σ}

/-- A predicate that holds initially and is preserved by every allowed step holds along every
run. The run up to the step may be used in the preservation proof. -/
theorem Run.invariant {I : σ → Prop} (hinit : ∀ s, T.init s → I s)
    (hstep : ∀ s l s', T.Run allowed s → I s → allowed s l → T.next s l s' → I s')
    (h : T.Run allowed s) : I s := by
  induction h with
  | init h => exact hinit _ h
  | step hrun hallowed hnext ih => exact hstep _ _ _ hrun ih hallowed hnext

/-- Allowing more steps keeps every run. -/
theorem Run.mono (hle : ∀ s l, stricter s l → allowed s l) (h : T.Run stricter s) :
    T.Run allowed s := by
  induction h with
  | init h => exact .init h
  | step _ hstrict hnext ih => exact .step ih (hle _ _ hstrict) hnext

/-- Every run reaches a reachable state. -/
theorem Run.reachable (h : T.Run allowed s) : T.Reachable s :=
  h.mono fun _ _ _ => trivial

/-- A function that maps initial states to initial states and every allowed step to an allowed
step, or to no step at all, maps runs to runs. The run up to the step may be used. -/
theorem Run.simulates {T' : TransitionSystem τ β} {allowed' : τ → β → Prop} (view : σ → τ)
    (hinit : ∀ s, T.init s → T'.init (view s))
    (hstep : ∀ s l s', T.Run allowed s → allowed s l → T.next s l s' →
      view s' = view s ∨ ∃ l', allowed' (view s) l' ∧ T'.next (view s) l' (view s'))
    (h : T.Run allowed s) : T'.Run allowed' (view s) := by
  induction h with
  | init h => exact .init (hinit _ h)
  | step hrun hallowed hnext ih =>
      rcases hstep _ _ _ hrun hallowed hnext with hstutter | ⟨l', hallowed', hnext'⟩
      · rwa [hstutter]
      · exact .step ih hallowed' hnext'

end TransitionSystem

end Ece552.Library
