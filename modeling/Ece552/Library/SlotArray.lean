import Mathlib.Data.Fintype.Card
import Mathlib.Data.List.FinRange
import Mathlib.Logic.Function.Iterate
import Mathlib.Order.Basic

/-!
# Arrays of slots

A fixed number of slots, each empty or with an element. An element is put in the first empty slot
and taken out of the first slot that has it, so for an array without duplicates both are the
operations on sets: `mem_insert` and `mem_erase`. `oldest` is the least element that passes a test.
-/

namespace Ece552.Library

/-- A fixed number of slots, each empty or with an element. -/
abbrev SlotArray (n : Nat) (α : Type*) := Fin n → Option α

namespace SlotArray

variable {n : Nat} {α : Type*}

/-- No slot is taken. -/
def empty : SlotArray n α := fun _ => none

/-- The array has the element in some slot. -/
def Has (f : SlotArray n α) (a : α) : Prop := ∃ i, f i = some a

/-- No element is in two slots. -/
def Distinct (f : SlotArray n α) : Prop := ∀ i j a, f i = some a → f j = some a → i = j

/-- Every slot is empty. -/
def isEmpty (f : SlotArray n α) : Bool := (List.finRange n).all fun i => (f i).isNone

/-- Every slot is taken. -/
def isFull (f : SlotArray n α) : Bool := (List.finRange n).all fun i => (f i).isSome

/-- Put an element in the first empty slot; a full array stays as it is. -/
def insert (a : α) (f : SlotArray n α) : SlotArray n α :=
  match (List.finRange n).find? fun i => (f i).isNone with
  | some i => Function.update f i (some a)
  | none => f

/-- Empty the first slot that has the element. -/
def erase [DecidableEq α] (a : α) (f : SlotArray n α) : SlotArray n α :=
  match (List.finRange n).find? fun i => decide (f i = some a) with
  | some i => Function.update f i none
  | none => f

variable {f : SlotArray n α} {a b : α} {i : Fin n}

@[simp] theorem empty_apply : (empty : SlotArray n α) i = none := rfl

@[simp] theorem not_has_empty : ¬ (empty : SlotArray n α).Has a := by
  rintro ⟨i, hi⟩
  exact nomatch hi

theorem has_of_apply (h : f i = some a) : f.Has a := ⟨i, h⟩

theorem distinct_empty : (empty : SlotArray n α).Distinct := fun _ _ _ h => nomatch h

@[simp] theorem is_empty_iff : f.isEmpty = true ↔ ∀ a, ¬ f.Has a := by
  simp only [isEmpty, List.all_eq_true, Option.isNone_iff_eq_none, Has, not_exists]
  constructor
  · intro h a i hi
    rw [h i (List.mem_finRange i)] at hi
    exact nomatch hi
  · intro h i _
    exact Option.eq_none_iff_forall_ne_some.mpr fun a => h a i

@[simp] theorem is_full_iff : f.isFull = true ↔ ∀ i, f i ≠ none := by
  simp [isFull, Option.isSome_iff_ne_none]

/-- An array that is not full has a first empty slot, where an insertion goes. -/
theorem insert_of_not_full (h : f.isFull = false) :
    ∃ i, f i = none ∧ insert a f = Function.update f i (some a) := by
  have hsome : ((List.finRange n).find? fun i => (f i).isNone).isSome = true := by
    rw [List.find?_isSome]
    by_contra hnone
    have hfull : f.isFull = true := by
      rw [is_full_iff]
      intro i hi
      exact hnone ⟨i, List.mem_finRange i, by simp [hi]⟩
    rw [hfull] at h
    exact nomatch h
  obtain ⟨i, hi⟩ := Option.isSome_iff_exists.mp hsome
  have hempty := List.find?_some hi
  refine ⟨i, by simpa using hempty, ?_⟩
  rw [insert, hi]

/-- An insertion into an array that is not full adds the element. -/
theorem has_insert (h : f.isFull = false) : (insert a f).Has b ↔ b = a ∨ f.Has b := by
  obtain ⟨i, hi, hinsert⟩ := insert_of_not_full (a := a) h
  rw [hinsert]
  constructor
  · rintro ⟨k, hk⟩
    by_cases hki : k = i
    · subst hki
      rw [Function.update_self] at hk
      exact Or.inl (Option.some.inj hk).symm
    · rw [Function.update_of_ne hki] at hk
      exact Or.inr ⟨k, hk⟩
  · rintro (rfl | ⟨k, hk⟩)
    · exact ⟨i, Function.update_self ..⟩
    · refine ⟨k, ?_⟩
      have hki : k ≠ i := fun h => by simp [h, hi] at hk
      rwa [Function.update_of_ne hki]

/-- An insertion of a new element keeps the elements distinct. -/
theorem Distinct.insert (hf : f.Distinct) (ha : ¬ f.Has a) : (insert a f).Distinct := by
  by_cases hfull : f.isFull = false
  · obtain ⟨i, hi, hinsert⟩ := insert_of_not_full (a := a) hfull
    rw [hinsert]
    intro j k b hj hk
    by_cases hji : j = i <;> by_cases hki : k = i
    · rw [hji, hki]
    · subst hji
      rw [Function.update_self] at hj
      rw [Function.update_of_ne hki, ← hj] at hk
      exact absurd (has_of_apply hk) ha
    · subst hki
      rw [Function.update_self] at hk
      rw [Function.update_of_ne hji, ← hk] at hj
      exact absurd (has_of_apply hj) ha
    · rw [Function.update_of_ne hji] at hj
      rw [Function.update_of_ne hki] at hk
      exact hf j k b hj hk
  · have hnone : ((List.finRange n).find? fun i => (f i).isNone) = none := by
      rw [List.find?_eq_none]
      intro i _
      have hi := is_full_iff.mp (Bool.not_eq_false _ ▸ hfull) i
      simpa using hi
    rw [SlotArray.insert, hnone]
    exact hf

/-- The number of empty slots. -/
def free (f : SlotArray n α) : Nat := (Finset.univ.filter fun i => (f i).isNone = true).card

theorem free_le : f.free ≤ n := (Finset.card_le_univ _).trans_eq (Fintype.card_fin n)

theorem is_full_of_free (h : f.free = 0) : f.isFull = true := by
  rw [is_full_iff]
  intro i hi
  have hmem : i ∈ Finset.univ.filter fun i => (f i).isNone = true := by simp [hi]
  rw [Finset.card_eq_zero.mp h] at hmem
  simp at hmem

/-- An insertion takes an empty slot. -/
theorem free_insert (h : f.isFull = false) : (insert a f).free + 1 = f.free := by
  obtain ⟨i, hi, hinsert⟩ := insert_of_not_full (a := a) h
  have hmem : i ∈ Finset.univ.filter fun i => (f i).isNone = true := by simp [hi]
  have hset : (Finset.univ.filter fun k => (insert a f k).isNone = true) =
      (Finset.univ.filter fun k => (f k).isNone = true).erase i := by
    ext k
    by_cases hki : k = i <;> simp [hinsert, hki, Function.update_self, Function.update_of_ne]
  rw [free, hset, Finset.card_erase_of_mem hmem]
  exact Nat.sub_add_cancel (Finset.card_pos.mpr ⟨i, hmem⟩)

section Erase

variable [DecidableEq α]

/-- An element that is in the array is erased at its first slot. -/
theorem erase_of_has (h : f.Has a) : ∃ i, f i = some a ∧ erase a f = Function.update f i none := by
  have hsome : ((List.finRange n).find? fun i => decide (f i = some a)).isSome = true := by
    obtain ⟨i, hi⟩ := h
    rw [List.find?_isSome]
    exact ⟨i, List.mem_finRange i, by simpa using hi⟩
  obtain ⟨i, hi⟩ := Option.isSome_iff_exists.mp hsome
  have hfound := List.find?_some hi
  refine ⟨i, by simpa using hfound, ?_⟩
  rw [erase, hi]

/-- Erasing an element that is not in the array changes nothing. -/
theorem erase_of_not_has (h : ¬ f.Has a) : erase a f = f := by
  have hnone : ((List.finRange n).find? fun i => decide (f i = some a)) = none := by
    rw [List.find?_eq_none]
    intro i _ hi
    exact h ⟨i, by simpa using hi⟩
  rw [erase, hnone]

/-- Erasing empties slots of the element only. -/
theorem erase_apply_of_ne (h : f i ≠ some a) : erase a f i = f i := by
  by_cases ha : f.Has a
  · obtain ⟨j, hj, herase⟩ := erase_of_has ha
    have hij : i ≠ j := fun hij => h (hij ▸ hj)
    rw [herase, Function.update_of_ne hij]
  · rw [erase_of_not_has ha]

/-- Where erasing leaves an element, it was before. -/
theorem apply_of_erase (h : erase a f i = some b) : f i = some b := by
  by_cases ha : f.Has a
  · obtain ⟨j, hj, herase⟩ := erase_of_has ha
    rw [herase] at h
    by_cases hij : i = j
    · subst hij
      rw [Function.update_self] at h
      exact nomatch h
    · rwa [Function.update_of_ne hij] at h
  · rwa [erase_of_not_has ha] at h

/-- Erasing from an array without duplicates removes the element. -/
theorem Distinct.has_erase (hf : f.Distinct) : (erase a f).Has b ↔ b ≠ a ∧ f.Has b := by
  by_cases ha : f.Has a
  · obtain ⟨i, hi, herase⟩ := erase_of_has ha
    constructor
    · rintro ⟨k, hk⟩
      have hold := apply_of_erase hk
      refine ⟨fun hba => ?_, has_of_apply hold⟩
      rw [hba] at hold
      rw [herase, hf i k a hi hold, Function.update_self] at hk
      exact nomatch hk
    · rintro ⟨hba, k, hk⟩
      refine ⟨k, ?_⟩
      rwa [erase_apply_of_ne]
      rw [hk]
      exact fun h => hba (Option.some.inj h)
  · rw [erase_of_not_has ha]
    exact ⟨fun hb => ⟨fun hba => ha (hba ▸ hb), hb⟩, fun h => h.2⟩

theorem Distinct.erase (hf : f.Distinct) : (erase a f).Distinct := fun i j b hi hj =>
  hf i j b (apply_of_erase hi) (apply_of_erase hj)

/-- The number of slots that have the element. -/
def occurrences (a : α) (f : SlotArray n α) : Nat :=
  (Finset.univ.filter fun i => f i = some a).card

/-- Erasing an element as often as it occurs empties all its slots and no other. -/
theorem iterate_erase {k : Nat} (h : f.occurrences a ≤ k) :
    (SlotArray.erase a)^[k] f i = if f i = some a then none else f i := by
  induction k generalizing f with
  | zero =>
      have hnone : f i ≠ some a := by
        have hcard := Finset.card_eq_zero.mp (Nat.le_zero.mp h)
        intro hi
        have hmem : i ∈ Finset.univ.filter fun i => f i = some a := by simp [hi]
        simp [hcard] at hmem
      simp [hnone]
  | succ k ih =>
      rw [Function.iterate_succ_apply]
      by_cases ha : f.Has a
      · obtain ⟨j, hj, herase⟩ := erase_of_has ha
        have hmem : j ∈ Finset.univ.filter fun i => f i = some a := by simp [hj]
        have hset : (Finset.univ.filter fun i => SlotArray.erase a f i = some a) =
            (Finset.univ.filter fun i => f i = some a).erase j := by
          ext m
          by_cases hmj : m = j <;> simp [herase, hmj, Function.update_self]
        have hcount : (SlotArray.erase a f).occurrences a ≤ k := by
          rw [occurrences, hset, Finset.card_erase_of_mem hmem]
          exact Nat.sub_le_iff_le_add.mpr h
        rw [ih hcount]
        by_cases hij : i = j
        · simp [hij, herase, hj]
        · simp [herase, Function.update_of_ne hij]
      · have hzero : f.occurrences a ≤ k := by
          have hnone : (Finset.univ.filter fun i => f i = some a) = ∅ := by
            refine Finset.filter_eq_empty_iff.mpr fun m _ hm => ha (has_of_apply hm)
          simp [occurrences, hnone]
        rw [erase_of_not_has ha, ih hzero]

theorem occurrences_le : f.occurrences a ≤ n :=
  (Finset.card_le_univ _).trans_eq (Fintype.card_fin n)

/-- Erasing an element once for every slot leaves none. -/
theorem iterate_erase_all : (SlotArray.erase a)^[n] f i = if f i = some a then none else f i :=
  iterate_erase occurrences_le

/-- Empty the first slot of every element of another array. -/
def eraseAll {m : Nat} (g : SlotArray m α) (f : SlotArray n α) : SlotArray n α :=
  (List.finRange m).foldl (fun f k =>
    match g k with
    | none => f
    | some a => SlotArray.erase a f) f

/-- Erasing another array from one without duplicates leaves their difference. -/
theorem Distinct.erase_all {m : Nat} {g : SlotArray m α} (hf : f.Distinct) :
    (eraseAll g f).Distinct ∧ ∀ b, (eraseAll g f).Has b ↔ f.Has b ∧ ¬ g.Has b := by
  have hfold : ∀ (slots : List (Fin m)) {f : SlotArray n α}, f.Distinct →
      (slots.foldl (fun f k =>
        match g k with
        | none => f
        | some a => SlotArray.erase a f) f).Distinct ∧
      ∀ b, (slots.foldl (fun f k =>
          match g k with
          | none => f
          | some a => SlotArray.erase a f) f).Has b ↔ f.Has b ∧ ∀ k ∈ slots, g k ≠ some b := by
    intro slots
    induction slots with
    | nil => exact fun hf => ⟨hf, fun b => by simp⟩
    | cons k slots ih =>
        intro f hf
        rw [List.foldl_cons]
        cases hk : g k with
        | none =>
            refine ⟨(ih hf).1, fun b => ?_⟩
            rw [(ih hf).2]
            simp [hk]
        | some a =>
            refine ⟨(ih hf.erase).1, fun b => ?_⟩
            rw [(ih hf.erase).2, hf.has_erase]
            simp only [List.mem_cons, forall_eq_or_imp, hk, ne_eq, Option.some.injEq]
            tauto
  refine ⟨(hfold _ hf).1, fun b => ((hfold _ hf).2 b).trans (and_congr_right fun _ => ?_)⟩
  simp [Has]

end Erase

/-! ## The oldest element -/

section Oldest

variable [LinearOrder α] {ready : α → Bool}

/-- The older of the oldest element so far and another one, if that passes the test. -/
def older (ready : α → Bool) (oldest : Option α) : Option α → Option α
  | none => oldest
  | some a =>
      if ready a then
        match oldest with
        | none => some a
        | some b => if a < b then some a else some b
      else oldest

/-- The least of the elements that pass the test. -/
def oldest (ready : α → Bool) (f : SlotArray n α) : Option α :=
  (List.finRange n).foldl (fun oldest i => older ready oldest (f i)) none

/-- The oldest element so far is the least one seen that passes the test. -/
theorem foldl_older (ready : α → Bool) (slots : List (Option α)) (start : Option α) (P : α → Prop)
    (hstart : match start with
      | none => ∀ a, ¬ P a
      | some b => P b ∧ ∀ a, P a → b ≤ a) :
    match slots.foldl (older ready) start with
    | none => ∀ a, ¬ (P a ∨ (some a ∈ slots ∧ ready a = true))
    | some b => (P b ∨ (some b ∈ slots ∧ ready b = true)) ∧
        ∀ a, P a ∨ (some a ∈ slots ∧ ready a = true) → b ≤ a := by
  induction slots generalizing start P with
  | nil => simpa using hstart
  | cons slot slots ih =>
      rw [List.foldl_cons]
      have hnext := ih (older ready start slot)
        (fun a => P a ∨ (some a = slot ∧ ready a = true)) (by
          cases slot with
          | none => simpa [older] using hstart
          | some c =>
              by_cases hc : ready c = true
              · cases start with
                | none => simp_all [older]
                | some b =>
                    obtain ⟨hb, hleast⟩ := hstart
                    by_cases hcb : c < b
                    · simp only [older, hc, hcb, if_true]
                      refine ⟨Or.inr (by simp), ?_⟩
                      rintro a (ha | ⟨ha, -⟩)
                      · exact hcb.le.trans (hleast a ha)
                      · exact (Option.some.inj ha).ge
                    · simp only [older, hc, hcb, if_true, if_false]
                      refine ⟨Or.inl hb, ?_⟩
                      rintro a (ha | ⟨ha, -⟩)
                      · exact hleast a ha
                      · exact (Option.some.inj ha) ▸ not_lt.mp hcb
              · have hne : ∀ a, ¬ (a = c ∧ ready a = true) := fun a ⟨h, h'⟩ => hc (h ▸ h')
                simpa [older, hc, hne] using hstart)
      have hiff : ∀ a, ((P a ∨ (some a = slot ∧ ready a = true)) ∨
          (some a ∈ slots ∧ ready a = true)) ↔
          (P a ∨ (some a ∈ slot :: slots ∧ ready a = true)) := by
        intro a
        rw [List.mem_cons]
        tauto
      simpa only [hiff] using hnext

/-- What the oldest element is. -/
theorem oldest_spec :
    match oldest ready f with
    | none => ∀ a, f.Has a → ready a = false
    | some b => f.Has b ∧ ready b = true ∧ ∀ a, f.Has a → ready a = true → b ≤ a := by
  have hfold := foldl_older ready ((List.finRange n).map f) none (fun _ => False) (fun _ => id)
  have hmem : ∀ a, some a ∈ (List.finRange n).map f ↔ f.Has a := fun a => by
    simp [Has, List.mem_map]
  simp only [List.foldl_map, hmem, false_or] at hfold
  unfold oldest
  split at hfold
  · intro a ha
    by_contra hready
    exact hfold a ⟨ha, by simpa using hready⟩
  · exact ⟨hfold.1.1, hfold.1.2, fun a ha hready => hfold.2 a ⟨ha, hready⟩⟩

theorem not_ready_of_oldest (h : oldest ready f = none) (ha : f.Has a) : ready a = false := by
  have hspec := @oldest_spec _ _ f _ ready
  rw [h] at hspec
  exact hspec a ha

theorem has_of_oldest (h : oldest ready f = some a) : f.Has a ∧ ready a = true := by
  have hspec := @oldest_spec _ _ f _ ready
  rw [h] at hspec
  exact ⟨hspec.1, hspec.2.1⟩

theorem le_of_oldest (h : oldest ready f = some a) (hb : f.Has b) (hready : ready b = true) :
    a ≤ b := by
  have hspec := @oldest_spec _ _ f _ ready
  rw [h] at hspec
  exact hspec.2.2 b hb hready

end Oldest

end SlotArray

end Ece552.Library
