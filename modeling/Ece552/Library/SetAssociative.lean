import Ece552.Library.SlotArray
import Mathlib.Data.Fintype.Option

/-!
# Set-associative stores

The elements of a store stand in the ways of its sets. A key belongs to one set, and an index gives
the way of each key that is stored. The index and the ways agree by `index_iff`, which a store
carries with it, so that `find` is a partial map from keys: `find_put` and `find_remove` say how it
changes. `room_iff` relates the number of stored keys of a set to its free ways.
-/

namespace Ece552.Library

/-- Sets of `n` ways, and the way of every key that is stored in its set. -/
structure SetAssociative {κ σ α : Type*} (place : κ → σ) (key : α → κ) (n : Nat) where
  ways : σ → SlotArray n α
  index : κ → Option (Fin n)
  index_iff : ∀ k way, index k = some way ↔ ∃ a, ways (place k) way = some a ∧ key a = k
  placed : ∀ s way a, ways s way = some a → place (key a) = s

namespace SetAssociative

variable {κ σ α : Type*} {place : κ → σ} {key : α → κ} {n : Nat}

/-- Nothing is stored. -/
def empty : SetAssociative place key n where
  ways := fun _ => SlotArray.empty
  index := fun _ => none
  index_iff := fun _ _ => ⟨(nomatch ·), fun ⟨_, h, _⟩ => nomatch h⟩
  placed := fun _ _ _ h => nomatch h

/-- The element of a key. -/
def find (t : SetAssociative place key n) (k : κ) : Option α :=
  (t.index k).bind (t.ways (place k))

variable {t : SetAssociative place key n} {s : σ} {k : κ} {way : Fin n} {a : α}

@[simp] theorem find_empty : (empty : SetAssociative place key n).find k = none := rfl

theorem index_of_ways (h : t.ways s way = some a) : t.index (key a) = some way := by
  obtain rfl := t.placed s way a h
  exact (t.index_iff _ _).mpr ⟨a, h, rfl⟩

theorem find_of_ways (h : t.ways s way = some a) : t.find (key a) = some a := by
  rw [find, index_of_ways h, Option.bind_some, t.placed s way a h, h]

/-- A key whose element is found is in the index. -/
theorem ways_of_find (h : t.find k = some a) :
    key a = k ∧ ∃ way, t.index k = some way ∧ t.ways (place k) way = some a := by
  obtain ⟨way, hindex, hway⟩ := Option.bind_eq_some_iff.mp h
  obtain ⟨b, hb, hkey⟩ := (t.index_iff k way).mp hindex
  obtain rfl := Option.some.inj (hway.symm.trans hb)
  exact ⟨hkey, way, hindex, hway⟩

theorem find_isSome : (t.find k).isSome = (t.index k).isSome := by
  cases hindex : t.index k with
  | none => rw [find, hindex, Option.bind_none, Option.isSome_none, Option.isSome_none]
  | some way =>
      obtain ⟨a, ha, -⟩ := (t.index_iff k way).mp hindex
      rw [find, hindex, Option.bind_some, ha, Option.isSome_some, Option.isSome_some]

/-- Two keys of a set are not in one way. -/
theorem index_injective {k' : κ} (h : t.index k = some way) (h' : t.index k' = some way)
    (hplace : place k = place k') : k = k' := by
  obtain ⟨a, ha, rfl⟩ := (t.index_iff k way).mp h
  obtain ⟨b, hb, rfl⟩ := (t.index_iff k' way).mp h'
  rw [hplace, hb] at ha
  rw [Option.some.inj ha]

/-! ## Writing a way -/

section Write

variable [DecidableEq κ] [DecidableEq σ]

/-- Write one way of one set. -/
def updateWay (ways : σ → SlotArray n α) (s : σ) (way : Fin n) (slot : Option α) :
    σ → SlotArray n α :=
  Function.update ways s (Function.update (ways s) way slot)

omit [DecidableEq κ] in
theorem update_way_apply (ways : σ → SlotArray n α) (s s' : σ) (way way' : Fin n)
    (slot : Option α) : updateWay ways s way slot s' way' =
      if s' = s ∧ way' = way then slot else ways s' way' := by
  rw [updateWay, Function.update_apply]
  split
  · next hs =>
      rw [Function.update_apply, hs]
      simp only [true_and]
  · next hs => rw [if_neg fun h => hs h.1]

/-- The way is free or has the element of the key already, and the key is in no other way. -/
structure Fits (t : SetAssociative place key n) (way : Fin n) (a : α) : Prop where
  slot : ∀ b, t.ways (place (key a)) way = some b → key b = key a
  index : ∀ way', t.index (key a) = some way' → way' = way

/-- Put an element in a way. -/
def put (t : SetAssociative place key n) (way : Fin n) (a : α) (h : t.Fits way a) :
    SetAssociative place key n where
  ways := updateWay t.ways (place (key a)) way (some a)
  index := Function.update t.index (key a) (some way)
  index_iff := by
    intro k way'
    simp only [update_way_apply, Function.update_apply]
    by_cases hk : k = key a
    · subst hk
      by_cases hway : way' = way
      · simp [hway]
      · have hslot : ¬ ∃ b, t.ways (place (key a)) way' = some b ∧ key b = key a :=
          fun hb => hway (h.index way' ((t.index_iff _ _).mpr hb))
        simpa [hway, Ne.symm hway] using hslot
    · rw [if_neg hk, t.index_iff]
      by_cases hslot : place k = place (key a) ∧ way' = way
      · rw [if_pos hslot, hslot.1, hslot.2]
        constructor
        · rintro ⟨b, hb, rfl⟩
          exact absurd (h.slot b hb) hk
        · rintro ⟨b, hb, rfl⟩
          exact absurd (congrArg key (Option.some.inj hb)).symm hk
      · rw [if_neg hslot]
  placed := by
    intro s way' b hb
    rw [update_way_apply] at hb
    split at hb
    · next hs => rw [← Option.some.inj hb, hs.1]
    · exact t.placed s way' b hb

/-- Empty the way that the index gives for a key. -/
def clear (t : SetAssociative place key n) (k : κ) (way : Fin n) (h : t.index k = some way) :
    SetAssociative place key n where
  ways := updateWay t.ways (place k) way none
  index := Function.update t.index k none
  index_iff := by
    intro k' way'
    simp only [update_way_apply, Function.update_apply]
    by_cases hk : k' = k
    · subst hk
      have hslot : ¬ ∃ a, (if place k' = place k' ∧ way' = way then none
          else t.ways (place k') way') = some a ∧ key a = k' := by
        rintro ⟨a, ha, hkey⟩
        split at ha
        · exact nomatch ha
        · next hway =>
            have hindex := (t.index_iff k' way').mpr ⟨a, ha, hkey⟩
            exact hway ⟨rfl, Option.some.inj (hindex.symm.trans h)⟩
      simpa using hslot
    · rw [if_neg hk, t.index_iff]
      by_cases hslot : place k' = place k ∧ way' = way
      · rw [if_pos hslot]
        refine iff_of_false (fun hindex => hk ?_) fun ⟨_, h, _⟩ => nomatch h
        rw [← t.index_iff, hslot.2] at hindex
        exact index_injective hindex h hslot.1
      · rw [if_neg hslot]
  placed := by
    intro s way' b hb
    rw [update_way_apply] at hb
    split at hb
    · exact nomatch hb
    · exact t.placed s way' b hb

/-- Remove the element of a key, if it is stored. -/
def remove (t : SetAssociative place key n) (k : κ) : SetAssociative place key n :=
  match h : t.index k with
  | none => t
  | some way => t.clear k way h

theorem put_ways (h : t.Fits way a) (s : σ) (way' : Fin n) : (t.put way a h).ways s way' =
    if s = place (key a) ∧ way' = way then some a else t.ways s way' :=
  update_way_apply ..

/-- An element that is put replaces the one of its key. -/
theorem find_put (h : t.Fits way a) :
    (t.put way a h).find = Function.update t.find (key a) (some a) := by
  funext k
  by_cases hk : k = key a
  · subst hk
    rw [Function.update_self]
    exact find_of_ways ((put_ways h _ _).trans (if_pos ⟨rfl, rfl⟩))
  · rw [Function.update_of_ne hk]
    show (Function.update t.index (key a) (some way) k).bind _ = (t.index k).bind _
    rw [Function.update_of_ne hk]
    cases hindex : t.index k with
    | none => rfl
    | some way' =>
        rw [Option.bind_some, Option.bind_some, put_ways, if_neg]
        rintro ⟨hplace, rfl⟩
        obtain ⟨b, hb, rfl⟩ := (t.index_iff k way').mp hindex
        rw [hplace] at hb
        exact hk (h.slot b hb)

theorem clear_ways (h : t.index k = some way) (s : σ) (way' : Fin n) :
    (t.clear k way h).ways s way' =
      if s = place k ∧ way' = way then none else t.ways s way' :=
  update_way_apply ..

theorem find_clear (h : t.index k = some way) :
    (t.clear k way h).find = Function.update t.find k none := by
  funext k'
  show (Function.update t.index k none k').bind _ = _
  by_cases hk : k' = k
  · subst hk
    rw [Function.update_self, Function.update_self, Option.bind_none]
  · rw [Function.update_of_ne hk, Function.update_of_ne hk, find]
    cases hindex : t.index k' with
    | none => rfl
    | some way' =>
        rw [Option.bind_some, Option.bind_some, clear_ways, if_neg]
        rintro ⟨hplace, rfl⟩
        exact hk (index_injective hindex h hplace)

/-- Only the element of the key is removed. -/
theorem find_remove : (t.remove k).find = Function.update t.find k none := by
  rw [remove]
  split
  · next hnone =>
      have hfind : t.find k = none := by rw [find, hnone, Option.bind_none]
      rw [← hfind, Function.update_eq_self]
  · exact find_clear _

/-- What is stored after a removal was stored before. -/
theorem ways_of_remove (h : (t.remove k).ways s way = some a) : t.ways s way = some a := by
  rw [remove] at h
  split at h
  · exact h
  · rw [clear_ways] at h
    split at h
    · exact nomatch h
    · exact h

/-- A removal frees the way of its key. -/
theorem free_of_remove (h : t.index k = some way) : (t.remove k).ways (place k) way = none := by
  rw [remove]
  split
  · next hnone => exact nomatch hnone.symm.trans h
  · next way' hway' =>
      obtain rfl := Option.some.inj (hway'.symm.trans h)
      rw [clear_ways, if_pos ⟨rfl, rfl⟩]

end Write

/-! ## Room in a set -/

section Room

variable {keys : List κ} (hnodup : keys.Nodup)
  (hkeys : ∀ k, k ∈ keys ↔ place k = s ∧ (t.find k).isSome = true)

include hnodup hkeys

/-- The ways of the keys of a set are distinct. -/
theorem nodup_index : (none :: keys.map t.index).Nodup := by
  refine List.nodup_cons.mpr ⟨fun hnone => ?_, hnodup.map_on fun k hk k' hk' heq => ?_⟩
  · obtain ⟨k, hk, hindex⟩ := List.mem_map.mp hnone
    have hfound := ((hkeys k).mp hk).2
    rw [find_isSome, hindex] at hfound
    exact nomatch hfound
  · obtain ⟨hplace, hfound⟩ := (hkeys k).mp hk
    obtain ⟨hplace', -⟩ := (hkeys k').mp hk'
    rw [find_isSome] at hfound
    obtain ⟨way, hindex⟩ := Option.isSome_iff_exists.mp hfound
    exact index_injective hindex (heq ▸ hindex) (hplace.trans hplace'.symm)

/-- A set has no more keys than ways. -/
theorem length_le : keys.length ≤ n := by
  have hcard := (nodup_index hnodup hkeys).length_le_card
  simpa using hcard

/-- A set with fewer keys than ways has a free way. -/
theorem room_iff : keys.length < n ↔ ∃ way, t.ways s way = none := by
  constructor
  · intro hlt
    by_contra hfull
    have hslots : ∀ way, ∃ a, t.ways s way = some a := fun way =>
      Option.ne_none_iff_exists'.mp fun hnone => hfull ⟨way, hnone⟩
    choose slot hslot using hslots
    have hdistinct : ((List.finRange n).map fun way => key (slot way)).Nodup := by
      refine (List.nodup_finRange n).map fun way way' heq => ?_
      have hindex := index_of_ways (hslot way)
      have hindex' := index_of_ways (hslot way')
      rw [← show key (slot way) = key (slot way') from heq, hindex] at hindex'
      exact Option.some.inj hindex'
    have hsubset : ((List.finRange n).map fun way => key (slot way)) ⊆ keys := by
      intro k hk
      obtain ⟨way, -, rfl⟩ := List.mem_map.mp hk
      exact (hkeys _).mpr ⟨t.placed s way _ (hslot way), by rw [find_of_ways (hslot way)]; rfl⟩
    have hle := (hdistinct.subperm hsubset).length_le
    rw [List.length_map, List.length_finRange] at hle
    exact absurd hlt (not_lt.mpr hle)
  · rintro ⟨way, hway⟩
    have hfree : some way ∉ keys.map t.index := by
      intro hmem
      obtain ⟨k, hk, hindex⟩ := List.mem_map.mp hmem
      obtain ⟨a, ha, -⟩ := (t.index_iff k way).mp hindex
      rw [((hkeys k).mp hk).1, hway] at ha
      exact nomatch ha
    have hindex := nodup_index hnodup hkeys
    have hcard : (some way :: none :: keys.map t.index).length ≤ Fintype.card (Option (Fin n)) := by
      refine List.Nodup.length_le_card (List.nodup_cons.mpr ⟨fun hmem => ?_, hindex⟩)
      exact (List.mem_cons.mp hmem).elim (nomatch ·) hfree
    have hle : keys.length + 1 ≤ n := by simpa using hcard
    exact hle

end Room

end SetAssociative

end Ece552.Library
