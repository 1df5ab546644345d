import Mathlib.Data.List.Basic
import Mathlib.Data.List.Induction

/-!
# Logs of events

`Throughout law log` says that every event of a log meets a law, which may speak about the events
before it and behind it. If the law does not forbid later events, a log is checked piece by piece as
it grows. `Along law log` is the case of a law about the events before only: a sequence of inputs
then meets a law if and only if it meets another one, once the laws agree on the next input.
`UsedBefore` compares the last uses of two things.
-/

namespace Ece552.Library

variable {α : Type*}

/-- Every event of the log meets the law. -/
def Throughout (law : List α → α → List α → Prop) (log : List α) : Prop :=
  ∀ pre e post, log = pre ++ e :: post → law pre e post

variable {law : List α → α → List α → Prop} {log more : List α} {e : α}

theorem throughout_nil : Throughout law [] := by
  intro pre e post h
  exact absurd h.symm (by simp)

/-- The first event meets the law before all others, and the others after it. -/
theorem throughout_cons : Throughout law (e :: log) ↔
    law [] e log ∧ Throughout (fun pre => law (e :: pre)) log := by
  constructor
  · intro h
    refine ⟨h [] e log rfl, fun pre e' post hlog => h (e :: pre) e' post ?_⟩
    rw [hlog, List.cons_append]
  · rintro ⟨hfirst, hrest⟩ pre e' post hlog
    cases pre with
    | nil =>
        rw [List.nil_append, List.cons.injEq] at hlog
        rwa [← hlog.1, ← hlog.2]
    | cons first pre =>
        rw [List.cons_append, List.cons.injEq] at hlog
        rw [← hlog.1]
        exact hrest pre e' post hlog.2

/-- A log that grows meets a law that allows for more events behind those of which it speaks. -/
theorem Throughout.append (h : Throughout law log)
    (hmono : ∀ pre e post, law pre e post → law pre e (post ++ more))
    (hmore : Throughout (fun pre => law (log ++ pre)) more) : Throughout law (log ++ more) := by
  intro pre e post heq
  rcases List.append_eq_append_iff.mp heq with ⟨between, hpre, hmore'⟩ | ⟨between, hlog, hpost⟩
  · rw [hpre]
    exact hmore between e post hmore'
  · cases between with
    | nil =>
        rw [List.nil_append] at hpost
        rw [List.append_nil] at hlog
        have hlaw : law (log ++ []) e post := hmore [] e post hpost.symm
        rwa [List.append_nil, hlog] at hlaw
    | cons first between =>
        rw [List.cons_append, List.cons.injEq] at hpost
        obtain ⟨rfl, rfl⟩ := hpost
        exact hmono _ _ _ (h pre e between hlog)

/-! ## Laws about the events before -/

/-- Every event of the log meets the law, which is about the events before it. -/
def Along (law : List α → α → Prop) (log : List α) : Prop :=
  Throughout (fun pre e _ => law pre e) log

section Along

variable {law law' : List α → α → Prop}

theorem along_nil : Along law [] := throughout_nil

theorem along_concat : Along law (log ++ [e]) ↔ Along law log ∧ law log e := by
  constructor
  · intro h
    refine ⟨fun pre e' post hlog => h pre e' (post ++ [e]) ?_, h log e [] rfl⟩
    rw [hlog, List.append_assoc, List.cons_append]
  · rintro ⟨hlog, he⟩
    refine Throughout.append hlog (fun _ _ _ => id) (throughout_cons.mpr ⟨?_, throughout_nil⟩)
    rwa [List.append_nil]

/-- Two laws hold along the same logs if they agree on each event behind a log along which one of
them holds. -/
theorem along_congr (h : ∀ pre e, Along law' pre → (law pre e ↔ law' pre e)) :
    Along law log ↔ Along law' log := by
  induction log using List.reverseRecOn with
  | nil => exact iff_of_true along_nil along_nil
  | append_singleton log e ih =>
      rw [along_concat, along_concat, ih]
      exact and_congr_right fun hlog => h log e hlog

end Along

/-! ## Last uses -/

section LastUse

variable {β : Type*} {uses : β → α → Prop} {p q : β}

/-- The last use of `p` is before a use of `q`. -/
def UsedBefore (uses : β → α → Prop) (log : List α) (p q : β) : Prop :=
  ∃ pre post, log = pre ++ post ∧ (∃ e ∈ pre, uses p e) ∧ (∀ e ∈ post, ¬ uses p e) ∧
    ∃ e ∈ post, uses q e

/-- Events that do not use `p` keep the order. -/
theorem UsedBefore.append (h : UsedBefore uses log p q) (hmore : ∀ e ∈ more, ¬ uses p e) :
    UsedBefore uses (log ++ more) p q := by
  obtain ⟨pre, post, rfl, hpre, hpost, e, he, hq⟩ := h
  refine ⟨pre, post ++ more, List.append_assoc .., hpre, fun e he => ?_,
    e, List.mem_append_left _ he, hq⟩
  rcases List.mem_append.mp he with hin | hin
  · exact hpost e hin
  · exact hmore e hin

/-- What is used now is used after everything else. -/
theorem used_before_of_new (hp : ∃ e ∈ log, uses p e) (hmore : ∀ e ∈ more, ¬ uses p e)
    (hq : ∃ e ∈ more, uses q e) : UsedBefore uses (log ++ more) p q :=
  ⟨log, more, rfl, hp, hmore, hq⟩

end LastUse

end Ece552.Library
