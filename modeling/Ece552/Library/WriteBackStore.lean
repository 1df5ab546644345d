import Mathlib.Logic.Function.Basic

/-!
# Write-back stores

The contents that slots hold of a store below, which gets them back when a slot that was written to
is dropped. Beside them goes the plain store, to which every write goes at once. `Transparent` says
that both agree for whoever reads through the slots: it is the invariant of the four things that can
happen to a slot, and each has its rule. Nothing is said about which slots are taken or dropped.
-/

namespace Ece552.Library

/-- The contents of the slots, of the store below them and of the plain store, and the number of
writes so far. -/
structure WriteBackStore (π β V : Type*) where
  copies : π → V
  below : β → V
  plain : β → V
  writes : Nat

namespace WriteBackStore

variable {π β V : Type*} [DecidableEq π] [DecidableEq β]

/-- At first the plain store is the one below. -/
def start (contents : β → V) (empty : π → V) : WriteBackStore π β V where
  copies := empty
  below := contents
  plain := contents
  writes := 0

/-- A slot gets the contents of a block. -/
def fetch (m : WriteBackStore π β V) (p : π) (b : β) : WriteBackStore π β V :=
  { m with copies := Function.update m.copies p (m.below b) }

/-- A write changes the contents of a slot, and of the block in the plain store. -/
def write (store : Nat → V → V) (m : WriteBackStore π β V) (p : π) (b : β) :
    WriteBackStore π β V :=
  { m with
    copies := Function.update m.copies p (store m.writes (m.copies p))
    plain := Function.update m.plain b (store m.writes (m.plain b))
    writes := m.writes + 1 }

/-- A block gets the contents of a slot. -/
def writeBack (m : WriteBackStore π β V) (p : π) (b : β) : WriteBackStore π β V :=
  { m with below := Function.update m.below b (m.copies p) }

/-- Whoever reads through the slots reads what the plain store has: a slot that holds a block has
its contents, and so has the store below for the blocks that no slot holds or only clean ones do. -/
structure Transparent (m : WriteBackStore π β V) (held : π → Option β) (dirty : π → Bool) :
    Prop where
  unique : ∀ p q b, held p = some b → held q = some b → p = q
  copies : ∀ p b, held p = some b → m.copies p = m.plain b
  clean : ∀ p b, held p = some b → dirty p = false → m.below b = m.plain b
  below : ∀ b, (∀ p, held p ≠ some b) → m.below b = m.plain b

variable {m : WriteBackStore π β V} {held : π → Option β} {dirty : π → Bool} {p : π} {b : β}

omit [DecidableEq π] [DecidableEq β] in
theorem transparent_start (contents : β → V) (empty : π → V) (hheld : ∀ p, held p = none) :
    (start contents empty).Transparent held dirty := by
  have hnone : ∀ p b, held p ≠ some b := by
    intro p b hp
    rw [hheld p] at hp
    exact Option.some_ne_none b hp.symm
  exact ⟨fun p _ b hp => absurd hp (hnone p b), fun p b hp => absurd hp (hnone p b),
    fun p b hp => absurd hp (hnone p b), fun _ _ => rfl⟩

omit [DecidableEq π] [DecidableEq β] in
/-- Another slot holds another block. -/
theorem Transparent.block_ne {q : π} {c : β} (h : m.Transparent held dirty) (hp : held p = some b)
    (hq : held q = some c) (hqp : q ≠ p) : c ≠ b := by
  rintro rfl
  exact hqp (h.unique q p c hq hp)

/-- A write to a slot that holds the block makes it dirty. -/
theorem Transparent.write (h : m.Transparent held dirty) (hp : held p = some b)
    (store : Nat → V → V) :
    (m.write store p b).Transparent held (Function.update dirty p true) := by
  refine ⟨h.unique, fun q c hq => ?_, fun q c hq hclean => ?_, fun c hc => ?_⟩
  · by_cases hqp : q = p
    · subst hqp
      obtain rfl : b = c := Option.some.inj (hp.symm.trans hq)
      show Function.update m.copies q _ q = Function.update m.plain b _ b
      rw [Function.update_self, Function.update_self, h.copies q b hp]
    · have hcb := h.block_ne hp hq hqp
      show Function.update m.copies p _ q = Function.update m.plain b _ c
      rw [Function.update_of_ne hqp, Function.update_of_ne hcb]
      exact h.copies q c hq
  · have hqp : q ≠ p := by
      intro heq
      rw [heq, Function.update_self] at hclean
      exact Bool.false_ne_true hclean.symm
    have hcb := h.block_ne hp hq hqp
    rw [Function.update_of_ne hqp] at hclean
    show m.below c = Function.update m.plain b _ c
    rw [Function.update_of_ne hcb]
    exact h.clean q c hq hclean
  · have hcb : c ≠ b := fun heq => hc p (heq ▸ hp)
    show m.below c = Function.update m.plain b _ c
    rw [Function.update_of_ne hcb]
    exact h.below c hc

/-- A slot that is dropped is written back first, if it is dirty. -/
theorem Transparent.drop (h : m.Transparent held dirty) (hp : held p = some b) :
    (if dirty p then m.writeBack p b else m).Transparent (Function.update held p none) dirty := by
  have hkept : ∀ {q c}, Function.update held p none q = some c → q ≠ p ∧ held q = some c := by
    intro q c hq
    by_cases hqp : q = p
    · rw [hqp, Function.update_self] at hq
      exact absurd hq.symm (Option.some_ne_none c)
    · rw [Function.update_of_ne hqp] at hq
      exact ⟨hqp, hq⟩
  -- the store below is right about the block of the slot, and stays so about all others
  obtain ⟨hcopies, hplain, hblock, hothers⟩ :
      (if dirty p then m.writeBack p b else m).copies = m.copies ∧
      (if dirty p then m.writeBack p b else m).plain = m.plain ∧
      (if dirty p then m.writeBack p b else m).below b = m.plain b ∧
      ∀ c, c ≠ b → (if dirty p then m.writeBack p b else m).below c = m.below c := by
    cases hdirty : dirty p with
    | true =>
        refine ⟨rfl, rfl, ?_, fun c hc => Function.update_of_ne hc ..⟩
        show Function.update m.below b (m.copies p) b = m.plain b
        rw [Function.update_self]
        exact h.copies p b hp
    | false => exact ⟨rfl, rfl, h.clean p b hp hdirty, fun _ _ => rfl⟩
  refine ⟨fun q r c hq hr => h.unique q r c (hkept hq).2 (hkept hr).2, fun q c hq => ?_,
    fun q c hq hclean => ?_, fun c hc => ?_⟩
  · rw [hcopies, hplain]
    exact h.copies q c (hkept hq).2
  · obtain ⟨hqp, hq⟩ := hkept hq
    have hcb := h.block_ne hp hq hqp
    rw [hothers c hcb, hplain]
    exact h.clean q c hq hclean
  · by_cases hcb : c = b
    · rw [hcb, hblock, hplain]
    · rw [hothers c hcb, hplain]
      refine h.below c fun q hq => ?_
      have hqp : q ≠ p := fun heq => hcb (Option.some.inj ((heq ▸ hq).symm.trans hp))
      exact hc q (by rwa [Function.update_of_ne hqp])

omit [DecidableEq β] in
/-- A slot that holds nothing gets a block that no slot holds. -/
theorem Transparent.fetch (h : m.Transparent held dirty) (hp : held p = none)
    (hb : ∀ q, held q ≠ some b) :
    (m.fetch p b).Transparent (Function.update held p (some b))
      (Function.update dirty p false) := by
  have hplain : m.below b = m.plain b := h.below b hb
  have hother : ∀ {q c}, q ≠ p → Function.update held p (some b) q = some c → held q = some c := by
    intro q c hqp hq
    rwa [Function.update_of_ne hqp] at hq
  have hself : ∀ {c}, Function.update held p (some b) p = some c → c = b := by
    intro c hc
    rw [Function.update_self] at hc
    exact (Option.some.inj hc).symm
  refine ⟨fun q r c hq hr => ?_, fun q c hq => ?_, fun q c hq hclean => ?_, fun c hc => ?_⟩
  · by_cases hqp : q = p
    · by_cases hrp : r = p
      · rw [hqp, hrp]
      · rw [hqp] at hq
        exact absurd (hother hrp hr) (hself hq ▸ hb r)
    · by_cases hrp : r = p
      · rw [hrp] at hr
        exact absurd (hother hqp hq) (hself hr ▸ hb q)
      · exact h.unique q r c (hother hqp hq) (hother hrp hr)
  · show Function.update m.copies p (m.below b) q = m.plain c
    by_cases hqp : q = p
    · rw [hqp] at hq ⊢
      rw [Function.update_self, hself hq, hplain]
    · rw [Function.update_of_ne hqp]
      exact h.copies q c (hother hqp hq)
  · show m.below c = m.plain c
    by_cases hqp : q = p
    · rw [hqp] at hq
      rw [hself hq, hplain]
    · rw [Function.update_of_ne hqp] at hclean
      exact h.clean q c (hother hqp hq) hclean
  · show m.below c = m.plain c
    refine h.below c fun q hq => ?_
    have hqp : q ≠ p := by
      intro heq
      rw [heq, hp] at hq
      exact Option.some_ne_none c hq.symm
    exact hc q (by rwa [Function.update_of_ne hqp])

end WriteBackStore

end Ece552.Library
