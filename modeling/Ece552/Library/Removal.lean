import Mathlib.Data.List.Basic
import Mathlib.Algebra.BigOperators.Group.List.Basic
import Mathlib.Algebra.Ring.Int.Defs

/-!
# Taking one element out of a list

`Removed l x rest` says that `rest` is `l` without one occurrence of `x`, and `Popped l x rest`
that moreover nothing before that occurrence has the same key, as when the oldest message for a
destination is taken out of a list of messages in the order of sending. `tally` counts the
messages of a key that satisfy a predicate, `mentions` the keys a message is for, and `messagesOf`
lists the messages of a key. The lemmas say what sending and removing do to each of them.
-/

namespace Ece552.Library

variable {α β κ μ : Type*}

/-- `rest` is `l` without one occurrence of `x`. -/
def Removed (l : List α) (x : α) (rest : List α) : Prop :=
  ∃ before after, l = before ++ x :: after ∧ rest = before ++ after

/-- `rest` is `l` without `x`, and nothing before `x` has its key. -/
def Popped (l : List (κ × μ)) (x : κ × μ) (rest : List (κ × μ)) : Prop :=
  ∃ before after, l = before ++ x :: after ∧ rest = before ++ after ∧ ∀ y ∈ before, y.1 ≠ x.1

/-! ## The messages of one key -/

section MessagesOf

variable [DecidableEq κ] {l : List (κ × μ)}

/-- The messages of one key, in order. -/
def messagesOf (k : κ) (l : List (κ × μ)) : List μ :=
  l.filterMap fun y => if y.1 = k then some y.2 else none

@[simp] theorem messages_of_nil {k : κ} : messagesOf k ([] : List (κ × μ)) = [] := rfl

/-- The messages of both parts. -/
@[simp] theorem messages_of_append {k : κ} {l l' : List (κ × μ)} :
    messagesOf k (l ++ l') = messagesOf k l ++ messagesOf k l' := by
  simp [messagesOf]

/-- The first message is of the key, or not. -/
@[simp] theorem messages_of_cons {k : κ} {z : κ × μ} :
    messagesOf k (z :: l) = (if z.1 = k then [z.2] else []) ++ messagesOf k l := by
  by_cases hz : z.1 = k <;> simp [messagesOf, hz]

/-- The messages of a key are those that come with it. -/
@[simp] theorem mem_messages_of {k : κ} {m : μ} : m ∈ messagesOf k l ↔ (k, m) ∈ l := by
  simp only [messagesOf, List.mem_filterMap, Option.ite_none_right_eq_some, Option.some.injEq]
  constructor
  · rintro ⟨⟨k', m'⟩, hmem, rfl, rfl⟩
    exact hmem
  · exact fun h => ⟨(k, m), h, rfl, rfl⟩

end MessagesOf

namespace Removed

variable {l rest : List α} {x y : α}

/-- What is removed was there. -/
theorem mem (h : Removed l x rest) : x ∈ l := by
  obtain ⟨before, after, rfl, -⟩ := h
  simp

/-- What was there was removed, or is left. -/
theorem mem_iff (h : Removed l x rest) : y ∈ l ↔ y = x ∨ y ∈ rest := by
  obtain ⟨before, after, rfl, rfl⟩ := h
  simp only [List.mem_append, List.mem_cons]
  tauto

/-- What is left was there. -/
theorem mem_of_rest (h : Removed l x rest) (hy : y ∈ rest) : y ∈ l :=
  h.mem_iff.mpr (Or.inr hy)

/-- What was there and is not removed is left. -/
theorem rest_of_mem (h : Removed l x rest) (hy : y ∈ l) (hne : y ≠ x) : y ∈ rest :=
  (h.mem_iff.mp hy).resolve_left hne

/-- One is missing from a count, if it was counted. -/
theorem countP (h : Removed l x rest) (p : α → Bool) :
    l.countP p = rest.countP p + if p x then 1 else 0 := by
  obtain ⟨before, after, rfl, rfl⟩ := h
  simp only [List.countP_append, List.countP_cons]
  omega

/-- One is missing. -/
theorem length (h : Removed l x rest) : l.length = rest.length + 1 := by
  obtain ⟨before, after, rfl, rfl⟩ := h
  simp only [List.length_append, List.length_cons]
  omega

/-- One is missing from a sum. -/
theorem sum_map [AddCommMonoid β] (h : Removed l x rest) (f : α → β) :
    (l.map f).sum = (rest.map f).sum + f x := by
  obtain ⟨before, after, rfl, rfl⟩ := h
  simp only [List.map_append, List.map_cons, List.sum_append, List.sum_cons]
  rw [add_assoc, add_comm (f x)]

/-- The only element of a singleton is removed. -/
theorem of_singleton (h : Removed [y] x rest) : x = y ∧ rest = [] := by
  obtain ⟨before, after, hl, rfl⟩ := h
  cases before with
  | nil => simp_all
  | cons z zs => simp at hl

/-- What is left keeps its order. -/
theorem sublist (h : Removed l x rest) : rest.Sublist l := by
  obtain ⟨before, after, rfl, rfl⟩ := h
  exact (List.Sublist.refl before).append (List.sublist_cons_self x after)

/-- Removing an element whose image is dropped leaves the images alone. -/
theorem filter_map_none {f : α → Option β} (h : Removed l x rest) (hx : f x = none) :
    rest.filterMap f = l.filterMap f := by
  obtain ⟨before, after, rfl, rfl⟩ := h
  simp [List.filterMap_append, hx]

/-- Removing an element removes its image. -/
theorem filter_map_some {f : α → Option β} {z : β} (h : Removed l x rest) (hx : f x = some z) :
    Removed (l.filterMap f) z (rest.filterMap f) := by
  obtain ⟨before, after, rfl, rfl⟩ := h
  exact ⟨before.filterMap f, after.filterMap f, by simp [List.filterMap_append, hx],
    by simp [List.filterMap_append]⟩

/-- Erasing by index removes the element at the index. -/
theorem eraseIdx {n : Nat} (h : l[n]? = some x) : Removed l x (l.eraseIdx n) := by
  induction l generalizing n with
  | nil => simp at h
  | cons z zs ih =>
      cases n with
      | zero =>
          obtain rfl : z = x := by simpa using h
          exact ⟨[], zs, rfl, rfl⟩
      | succ n =>
          obtain ⟨before, after, hl, hrest⟩ := ih (by simpa using h)
          exact ⟨z :: before, after, by simp [hl], by simp [hrest]⟩

end Removed

/-! ## Counting messages -/

/-- The number of messages for the key that satisfy the predicate. -/
def tally [DecidableEq κ] (p : μ → Bool) (k : κ) (l : List (κ × μ)) : Nat :=
  l.countP fun y => decide (y.1 = k) && p y.2

/-- The number of messages for any key that satisfy the predicate. -/
def tallyAll (p : μ → Bool) (l : List (κ × μ)) : Nat :=
  l.countP fun y => p y.2

/-- The number of keys that the message is for, with repetitions. -/
def mentions [DecidableEq μ] (m : μ) (l : List (κ × μ)) : Nat :=
  l.countP fun y => decide (y.2 = m)

/-- The sum of a quantity over the messages for the key. -/
def total [DecidableEq κ] (f : μ → Int) (k : κ) (l : List (κ × μ)) : Int :=
  (l.map fun y => if y.1 = k then f y.2 else 0).sum

section Counting

variable [DecidableEq κ] [DecidableEq μ] {l l' rest : List (κ × μ)} {x : κ × μ}

omit [DecidableEq μ] in
@[simp] theorem tally_nil (p : μ → Bool) (k : κ) : tally p k ([] : List (κ × μ)) = 0 := rfl

omit [DecidableEq μ] in
/-- Both parts are counted. -/
@[simp, grind =] theorem tally_append (p : μ → Bool) (k : κ) :
    tally p k (l ++ l') = tally p k l + tally p k l' := by
  simp [tally]

omit [DecidableEq μ] in
/-- One message is counted, or not. -/
@[simp, grind =] theorem tally_singleton (p : μ → Bool) (k : κ) :
    tally p k [x] = if x.1 = k ∧ p x.2 = true then 1 else 0 := by
  simp [tally, List.countP_cons]

omit [DecidableEq μ] in
/-- A positive tally is a message. -/
theorem tally_pos {p : μ → Bool} {k : κ} : 0 < tally p k l ↔ ∃ m, (k, m) ∈ l ∧ p m = true := by
  simp only [tally, List.countP_pos_iff, Bool.and_eq_true, decide_eq_true_eq, Prod.exists]
  constructor
  · rintro ⟨k', m, hmem, rfl, hm⟩
    exact ⟨m, hmem, hm⟩
  · rintro ⟨m, hmem, hm⟩
    exact ⟨k, m, hmem, rfl, hm⟩

omit [DecidableEq κ] [DecidableEq μ] in
@[simp] theorem tally_all_nil (p : μ → Bool) : tallyAll p ([] : List (κ × μ)) = 0 := rfl

omit [DecidableEq κ] [DecidableEq μ] in
/-- Both parts are counted. -/
@[simp, grind =] theorem tally_all_append (p : μ → Bool) :
    tallyAll p (l ++ l') = tallyAll p l + tallyAll p l' := by
  simp [tallyAll]

omit [DecidableEq κ] [DecidableEq μ] in
/-- One message is counted, or not. -/
@[simp, grind =] theorem tally_all_singleton (p : μ → Bool) :
    tallyAll p [x] = if p x.2 = true then 1 else 0 := by
  simp [tallyAll, List.countP_cons]

omit [DecidableEq κ] [DecidableEq μ] in
/-- A positive tally over all keys is a message. -/
theorem tally_all_pos {p : μ → Bool} : 0 < tallyAll p l ↔ ∃ k m, (k, m) ∈ l ∧ p m = true := by
  simp [tallyAll, List.countP_pos_iff]

omit [DecidableEq κ] [DecidableEq μ] in
/-- A multicast counts once for every destination. -/
theorem tally_all_map (p : μ → Bool) (keys : List κ) (m : μ) :
    tallyAll p (keys.map (·, m)) = if p m = true then keys.length else 0 := by
  simp only [tallyAll, List.countP_map, Function.comp_def]
  by_cases hm : p m = true <;> simp [hm]

omit [DecidableEq μ] in
@[simp] theorem total_nil (f : μ → Int) (k : κ) : total f k ([] : List (κ × μ)) = 0 := rfl

omit [DecidableEq μ] in
/-- Both parts are added up. -/
@[simp, grind =] theorem total_append (f : μ → Int) (k : κ) :
    total f k (l ++ l') = total f k l + total f k l' := by
  simp [total]

omit [DecidableEq μ] in
/-- One message is added, or not. -/
@[simp, grind =] theorem total_singleton (f : μ → Int) (k : κ) :
    total f k [x] = if x.1 = k then f x.2 else 0 := by
  simp [total]

omit [DecidableEq μ] in
/-- A sum over no message that counts is zero. -/
theorem total_eq_zero {f : μ → Int} {k : κ} (h : ∀ m, (k, m) ∈ l → f m = 0) : total f k l = 0 := by
  apply List.sum_eq_zero
  intro z hz
  obtain ⟨⟨k', m⟩, hmem, rfl⟩ := List.mem_map.mp hz
  split
  · next heq => exact h m (heq ▸ hmem)
  · rfl

omit [DecidableEq κ] in
@[simp] theorem mentions_nil (m : μ) : mentions m ([] : List (κ × μ)) = 0 := rfl

omit [DecidableEq κ] in
/-- Both parts are counted. -/
@[simp, grind =] theorem mentions_append (m : μ) :
    mentions m (l ++ l') = mentions m l + mentions m l' := by
  simp [mentions]

omit [DecidableEq κ] in
/-- One message is counted, or not. -/
@[simp, grind =] theorem mentions_singleton (m : μ) :
    mentions m [x] = if x.2 = m then 1 else 0 := by
  simp [mentions, List.countP_cons]

omit [DecidableEq κ] in
/-- A positive number of mentions is a message. -/
theorem mentions_pos {m : μ} : 0 < mentions m l ↔ ∃ k, (k, m) ∈ l := by
  simp [mentions, List.countP_pos_iff]

omit [DecidableEq κ] in
/-- A multicast mentions its message once for every destination. -/
@[simp] theorem mentions_map (keys : List κ) (m m' : μ) :
    mentions m (keys.map (·, m')) = if m' = m then keys.length else 0 := by
  induction keys with
  | nil => simp
  | cons k ks ih =>
      rw [List.map_cons, List.length_cons, ← List.singleton_append, mentions_append, ih]
      split <;> simp [*, Nat.add_comm]

omit [DecidableEq μ] in
/-- Removing a message lowers the tallies that count it. -/
theorem Removed.tally (h : Removed l x rest) (p : μ → Bool) (k : κ) :
    tally p k l = tally p k rest + if x.1 = k ∧ p x.2 = true then 1 else 0 := by
  simp [Library.tally, h.countP]

omit [DecidableEq μ] in
/-- Removing a message takes its quantity out of the sum. -/
theorem Removed.total (h : Removed l x rest) (f : μ → Int) (k : κ) :
    total f k l = total f k rest + if x.1 = k then f x.2 else 0 :=
  h.sum_map _

omit [DecidableEq κ] [DecidableEq μ] in
/-- Removing a message lowers the tallies over all keys that count it. -/
theorem Removed.tallyAll (h : Removed l x rest) (p : μ → Bool) :
    tallyAll p l = tallyAll p rest + if p x.2 = true then 1 else 0 :=
  h.countP _

omit [DecidableEq κ] in
/-- Removing a message lowers its mentions. -/
theorem Removed.mentions (h : Removed l x rest) (m : μ) :
    mentions m l = mentions m rest + if x.2 = m then 1 else 0 := by
  simp [Library.mentions, h.countP]

/-! ### Counting decoded messages -/

variable {χ : Type*} {f : χ → Option (κ × μ)} {source : List χ} {q : χ → Bool}

omit [DecidableEq μ] in
/-- Counting what a list decodes to is counting the elements that decode to it. -/
theorem tally_filterMap {p : μ → Bool} {k : κ}
    (h : ∀ a ∈ source, q a = true ↔ ∃ m, f a = some (k, m) ∧ p m = true) :
    tally p k (source.filterMap f) = source.countP q := by
  rw [Library.tally, List.countP_filterMap]
  refine List.countP_congr fun a ha => ?_
  rw [h a ha]
  cases f a with
  | none => simp
  | some y => obtain ⟨k', m⟩ := y; simp

omit [DecidableEq κ] [DecidableEq μ] in
/-- The messages that a source stands for are counted at the source. -/
theorem tally_all_filterMap {p : μ → Bool}
    (h : ∀ a ∈ source, q a = true ↔ ∃ k m, f a = some (k, m) ∧ p m = true) :
    tallyAll p (source.filterMap f) = source.countP q := by
  rw [Library.tallyAll, List.countP_filterMap]
  refine List.countP_congr fun a ha => ?_
  rw [h a ha]
  cases f a with
  | none => simp
  | some y => obtain ⟨k', m⟩ := y; simp

omit [DecidableEq κ] in
/-- The messages that mention a key are counted at the source. -/
theorem mentions_filterMap {m : μ}
    (h : ∀ a ∈ source, q a = true ↔ ∃ k, f a = some (k, m)) :
    mentions m (source.filterMap f) = source.countP q := by
  rw [Library.mentions, List.countP_filterMap]
  refine List.countP_congr fun a ha => ?_
  rw [h a ha]
  cases f a with
  | none => simp
  | some y => obtain ⟨k', m'⟩ := y; simp

end Counting

namespace Popped

variable {l rest : List (κ × μ)} {x y : κ × μ}

/-- To take the first message of a key is to remove it. -/
theorem removed (h : Popped l x rest) : Removed l x rest := by
  obtain ⟨before, after, hl, hrest, -⟩ := h
  exact ⟨before, after, hl, hrest⟩

/-- What is taken was there. -/
theorem mem (h : Popped l x rest) : x ∈ l := h.removed.mem

/-- What was there was taken, or is left. -/
theorem mem_iff (h : Popped l x rest) : y ∈ l ↔ y = x ∨ y ∈ rest := h.removed.mem_iff

section Key

variable [DecidableEq κ]

/-- The popped message is the first one of its key. -/
theorem messages_of_self (h : Popped l x rest) :
    messagesOf x.1 l = x.2 :: messagesOf x.1 rest := by
  obtain ⟨before, after, rfl, rfl, hbefore⟩ := h
  have hnone : messagesOf x.1 before = [] := by
    simp only [messagesOf, List.filterMap_eq_nil_iff, ite_eq_right_iff]
    exact fun y hy heq => absurd heq (hbefore y hy)
  simp [hnone]

/-- Popping keeps the order of the messages left. -/
theorem messages_of_sublist {k : κ} (h : Popped l x rest) :
    (messagesOf k rest).Sublist (messagesOf k l) := by
  obtain ⟨before, after, rfl, rfl, -⟩ := h
  exact List.Sublist.filterMap _
    ((List.Sublist.refl before).append (List.sublist_cons_self x after))

end Key

end Popped

end Ece552.Library
