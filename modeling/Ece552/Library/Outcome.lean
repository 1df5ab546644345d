import Mathlib.Logic.Basic

/-!
# Outcomes of fallible functions

`Ensures faults post r` says of a computation that may fail that its result meets `post`, and that
it fails, if it does, with one of the `faults`. There is one rule for each way in which such
computations are put together.
-/

namespace Ece552.Library

universe u v

variable {ε : Type u} {α β : Type v}

/-- The result meets `post`, or the fault is one of `faults`. -/
def Ensures (faults : ε → Prop) (post : α → Prop) : Except ε α → Prop
  | .ok a => post a
  | .error e => faults e

variable {faults more : ε → Prop} {post mid : α → Prop} {r : Except ε α} {a : α} {e : ε}

@[simp] theorem ensures_ok : Ensures faults post (.ok a) ↔ post a := Iff.rfl

@[simp] theorem ensures_error : Ensures faults post (.error e : Except ε α) ↔ faults e := Iff.rfl

theorem Ensures.mono (h : Ensures faults mid r) (hpost : ∀ a, mid a → post a) :
    Ensures faults post r := by
  cases r with
  | ok a => exact hpost a h
  | error e => exact h

theorem Ensures.and {also : α → Prop} (h : Ensures faults post r) (halso : Ensures faults also r) :
    Ensures faults (fun a => post a ∧ also a) r := by
  cases r with
  | ok a => exact ⟨h, halso⟩
  | error e => exact h

/-- More faults may be allowed. -/
theorem Ensures.weaken (h : Ensures faults post r) (hfaults : ∀ e, faults e → more e) :
    Ensures more post r := by
  cases r with
  | ok a => exact h
  | error e => exact hfaults e h

/-- A computation none of whose faults can occur has a result. -/
theorem Ensures.exists_ok (h : Ensures faults post r) (hfaults : ∀ e, ¬ faults e) :
    ∃ a, r = .ok a ∧ post a := by
  cases r with
  | ok a => exact ⟨a, rfl, h⟩
  | error e => exact absurd h (hfaults e)

/-- What the first part ensures is what the second one may rely on. -/
theorem Ensures.bind {post : β → Prop} {f : α → Except ε β} (h : Ensures faults mid r)
    (hf : ∀ a, mid a → Ensures faults post (f a)) : Ensures faults post (r >>= f) := by
  cases r with
  | ok a => exact hf a h
  | error e => exact h

theorem Ensures.of_ok (h : Ensures faults post r) (hr : r = .ok a) : post a := by
  rwa [hr] at h

theorem Ensures.of_error (h : Ensures faults post r) (hr : r = .error e) : faults e := by
  rwa [hr] at h

/-- Every fault is allowed: only the result counts. -/
theorem ensures_of_ok (h : ∀ a, r = .ok a → post a) : Ensures (fun _ : ε => True) post r := by
  cases r with
  | ok a => exact h a rfl
  | error e => trivial

/-- All that is known is the result. -/
theorem ensures_self : Ensures (fun _ : ε => True) (fun a => r = .ok a) r :=
  ensures_of_ok fun _ hr => hr

/-- A computation goes on with the result of its first part. -/
theorem Ensures.ok_bind {f : α → Except ε β} {P : β → Prop} (h : Ensures faults P (f a)) :
    Ensures faults P (Except.ok a >>= f) := h

/-- A fold keeps what each of its rounds keeps. -/
theorem Ensures.foldl {f : β → α → Except ε β} {I : β → Prop} {b : β} (hb : I b)
    (hf : ∀ b a, I b → Ensures faults I (f b a)) (l : List α) :
    Ensures faults I (l.foldlM f b) := by
  induction l generalizing b with
  | nil => exact hb
  | cons a l ih =>
      rw [List.foldlM_cons]
      exact (hf b a hb).bind fun b' hb' => ih hb'

/-- A fold does in each round what the later rounds keep. -/
theorem Ensures.foldl_each {f : β → α → Except ε β} {I : β → Prop} {P : α → β → Prop} {b : β}
    (hb : I b) (hf : ∀ b a, I b → Ensures faults (fun b' => I b' ∧ P a b') (f b a))
    (hkeep : ∀ b a a', I b → P a' b → Ensures faults (P a') (f b a)) (l : List α) :
    Ensures faults (fun b' => I b' ∧ ∀ a ∈ l, P a b') (l.foldlM f b) := by
  induction l generalizing b with
  | nil => exact ⟨hb, fun a ha => absurd ha List.not_mem_nil⟩
  | cons a l ih =>
      rw [List.foldlM_cons]
      refine (hf b a hb).bind fun b' ⟨hb', ha⟩ => ?_
      have hkept : Ensures faults (fun b => I b ∧ P a b) (l.foldlM f b') :=
        Ensures.foldl ⟨hb', ha⟩ (fun b a' ⟨hb, ha⟩ =>
          ((hf b a' hb).and (hkeep b a' a hb ha)).mono fun _ h => ⟨h.1.1, h.2⟩) l
      exact ((ih hb').and hkept).mono fun b ⟨⟨hb, hl⟩, _, ha⟩ =>
        ⟨hb, List.forall_mem_cons.mpr ⟨ha, hl⟩⟩

/-- The same for the rounds that the fold really makes. -/
theorem Ensures.foldl_each_mem {f : β → α → Except ε β} {I : β → Prop} {P : α → β → Prop}
    {F : ε → Prop} {l : List α} {b : β} (hb : I b)
    (hf : ∀ a ∈ l, ∀ b, I b → Ensures F (fun b' => I b' ∧ P a b') (f b a))
    (hkeep : ∀ a ∈ l, ∀ a' ∈ l, ∀ b, I b → P a' b → Ensures F (P a') (f b a)) :
    Ensures F (fun b' => I b' ∧ ∀ a ∈ l, P a b') (l.foldlM f b) := by
  -- the rounds still to come keep what the first one did
  have hrest : ∀ (l' : List α) (a' : α), a' ∈ l → (∀ a ∈ l', a ∈ l) → ∀ b, I b → P a' b →
      Ensures F (fun b' => I b' ∧ P a' b') (l'.foldlM f b) := by
    intro l' a' ha'
    induction l' with
    | nil => exact fun _ b hb hP => ⟨hb, hP⟩
    | cons a l' ih =>
        intro hmem b hb hP
        rw [List.foldlM_cons]
        have ha := hmem a List.mem_cons_self
        refine ((hf a ha b hb).and (hkeep a ha a' ha' b hb hP)).bind fun b' hb' => ?_
        exact ih (fun x hx => hmem x (List.mem_cons_of_mem _ hx)) b' hb'.1.1 hb'.2
  have hall : ∀ l' : List α, (∀ a ∈ l', a ∈ l) → ∀ b, I b →
      Ensures F (fun b' => I b' ∧ ∀ a ∈ l', P a b') (l'.foldlM f b) := by
    intro l'
    induction l' with
    | nil => exact fun _ b hb => ⟨hb, fun a ha => absurd ha List.not_mem_nil⟩
    | cons a l' ih =>
        intro hmem b hb
        rw [List.foldlM_cons]
        have ha := hmem a List.mem_cons_self
        have htail : ∀ x ∈ l', x ∈ l := fun x hx => hmem x (List.mem_cons_of_mem _ hx)
        refine (hf a ha b hb).bind fun b' hb' => ?_
        refine ((ih htail b' hb'.1).and
          (hrest l' a ha htail b' hb'.1 hb'.2)).mono fun b'' hb'' => ?_
        exact ⟨hb''.1.1, List.forall_mem_cons.mpr ⟨hb''.2.2, hb''.1.2⟩⟩
  exact hall l (fun _ ha => ha) b hb

/-- A computation in two parts has a result if both parts have one. -/
theorem bind_eq_ok {f : α → Except ε β} {b : β} :
    r >>= f = .ok b ↔ ∃ a, r = .ok a ∧ f a = .ok b := by
  cases r with
  | error e => exact ⟨fun h => (nomatch h), fun ⟨_, h, _⟩ => (nomatch h)⟩
  | ok a =>
      refine ⟨fun h => ⟨a, rfl, h⟩, fun ⟨a', h, hf⟩ => ?_⟩
      rwa [← Except.ok.inj h] at hf

/-! ## Folds that may fail -/

section Fold

variable {f : β → α → Except ε β} {b b' : β} {l : List α}

/-- A fold ends with its last round. -/
theorem foldlM_concat (f : β → α → Except ε β) (b : β) (l : List α) (a : α) :
    (l ++ [a]).foldlM f b = l.foldlM f b >>= fun b' => f b' a := by
  rw [List.foldlM_append]
  refine congrArg (l.foldlM f b >>= ·) (funext fun b' => ?_)
  rw [List.foldlM_cons]
  exact bind_pure _

theorem foldlM_concat_ok : (l ++ [a]).foldlM f b = .ok b' ↔
    ∃ c, l.foldlM f b = .ok c ∧ f c a = .ok b' := by
  rw [foldlM_concat]
  exact bind_eq_ok

end Fold

end Ece552.Library
