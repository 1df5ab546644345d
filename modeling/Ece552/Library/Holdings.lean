import Mathlib.Algebra.BigOperators.Group.Finset.Piecewise

/-!
# What places hold

Things are held in places, and each counts for something that may depend on the place. When a thing
leaves a place and others enter different places, the sums before and after differ by what the
things count: `Moved.amount`. A sum may be a multiset of copies, a number of steps still to go, or a
mere number of things.
-/

namespace Ece552.Library

variable {P M A : Type*} {held held' : P → List M} {source place : P} {m : M}
  {outs : List (P × M)}

/-- One thing leaves a place and others enter different ones. -/
structure Moved (held held' : P → List M) (source : P) (m : M) (outs : List (P × M)) : Prop where
  head : held source = m :: held' source
  entered : ∀ out ∈ outs, (held' out.1).Perm (out.2 :: held out.1)
  frame : ∀ p, (∀ out ∈ outs, p ≠ out.1) → p ≠ source → held' p = held p
  nodup : (outs.map Prod.fst).Nodup
  ne : ∀ out ∈ outs, out.1 ≠ source

/-- A place that nothing enters holds no more than before. -/
theorem Moved.not_entered (h : Moved held held' source m outs) {p : P}
    (hp : ∀ out ∈ outs, p ≠ out.1) {x : M} (hx : x ∈ held' p) : x ∈ held p := by
  by_cases hsource : p = source
  · subst hsource
    rw [h.head]
    exact List.mem_cons_of_mem _ hx
  · rwa [h.frame p hp hsource] at hx

/-- A place that nothing enters stays empty. -/
theorem Moved.stays_empty (h : Moved held held' source m outs) {p : P} (hp : held p = [])
    (hnot : ∀ out ∈ outs, p ≠ out.1) : held' p = [] := by
  rw [List.eq_nil_iff_forall_not_mem]
  intro x hx
  exact absurd (hp ▸ h.not_entered hnot hx) List.not_mem_nil

section Sum

variable [AddCommMonoid A]

/-- What everything in some of the places counts. -/
def amount (places : Finset P) (w : P → M → A) (held : P → List M) : A :=
  ∑ p ∈ places, ((held p).map (w p)).sum

variable {places : Finset P} {w : P → M → A}

theorem amount_congr (h : ∀ p ∈ places, held' p = held p) :
    amount places w held' = amount places w held :=
  Finset.sum_congr rfl fun p hp => by rw [h p hp]

theorem amount_eq_zero (h : ∀ p ∈ places, held p = []) : amount places w held = 0 :=
  Finset.sum_eq_zero fun p hp => by rw [h p hp, List.map_nil, List.sum_nil]

variable [DecidableEq P]

/-- One more thing in a place. -/
theorem amount_add (hplace : place ∈ places) (hadd : (held' place).Perm (m :: held place))
    (hframe : ∀ p, p ≠ place → held' p = held p) :
    amount places w held' = amount places w held + w place m := by
  have heach : ∀ p ∈ places, ((held' p).map (w p)).sum =
      ((held p).map (w p)).sum + if p = place then w place m else 0 := by
    intro p _
    by_cases hp : p = place
    · rw [hp, if_pos rfl, (hadd.map _).sum_eq, List.map_cons, List.sum_cons, add_comm]
    · rw [if_neg hp, add_zero, hframe p hp]
  unfold amount
  rw [Finset.sum_congr rfl heach, Finset.sum_add_distrib, Finset.sum_ite_eq', if_pos hplace]

/-- One thing less in a place. -/
theorem amount_remove (hplace : place ∈ places) (hremove : held place = m :: held' place)
    (hframe : ∀ p, p ≠ place → held' p = held p) :
    amount places w held = amount places w held' + w place m :=
  amount_add hplace (by rw [hremove]) fun p hp => (hframe p hp).symm

/-- What enters one of the places when things enter different ones. -/
theorem sum_entered (hnodup : (outs.map Prod.fst).Nodup) {out : P × M} (hout : out ∈ outs) :
    (outs.map fun o => if out.1 = o.1 then w o.1 o.2 else 0).sum = w out.1 out.2 := by
  induction outs with
  | nil => exact absurd hout List.not_mem_nil
  | cons o outs ih =>
      obtain ⟨hnot, hnodup⟩ := List.nodup_cons.mp hnodup
      rw [List.map_cons, List.sum_cons]
      rcases List.mem_cons.mp hout with rfl | hout
      · have hrest : (outs.map fun o => if out.1 = o.1 then w o.1 o.2 else 0).sum = 0 := by
          refine List.sum_eq_zero fun x hx => ?_
          obtain ⟨o, ho, rfl⟩ := List.mem_map.mp hx
          exact if_neg fun heq => hnot (List.mem_map.mpr ⟨o, ho, heq.symm⟩)
        rw [if_pos rfl, hrest, add_zero]
      · have hne : out.1 ≠ o.1 := fun heq => hnot (List.mem_map.mpr ⟨out, hout, heq⟩)
        rw [if_neg hne, zero_add, ih hnodup hout]

/-- What leaves and what enters each of the places. -/
theorem Moved.each (h : Moved held held' source m outs) (p : P) :
    ((held' p).map (w p)).sum + (if p = source then w source m else 0) =
      ((held p).map (w p)).sum + (outs.map fun o => if p = o.1 then w o.1 o.2 else 0).sum := by
  have hnone : (∀ out ∈ outs, p ≠ out.1) →
      (outs.map fun o => if p = o.1 then w o.1 o.2 else 0).sum = 0 := by
    intro hne
    refine List.sum_eq_zero fun x hx => ?_
    obtain ⟨o, ho, rfl⟩ := List.mem_map.mp hx
    exact if_neg (hne o ho)
  by_cases hsource : p = source
  · subst hsource
    rw [if_pos rfl, hnone fun out hout => (h.ne out hout).symm, add_zero, h.head, List.map_cons,
      List.sum_cons, add_comm]
  rw [if_neg hsource, add_zero]
  by_cases hentered : ∃ out ∈ outs, p = out.1
  · obtain ⟨out, hout, rfl⟩ := hentered
    rw [sum_entered h.nodup hout, ((h.entered out hout).map _).sum_eq, List.map_cons,
      List.sum_cons, add_comm]
  · have hne : ∀ out ∈ outs, p ≠ out.1 := fun out hout heq => hentered ⟨out, hout, heq⟩
    rw [hnone hne, add_zero, h.frame p hne hsource]

/-- What a move takes away and what it brings. -/
theorem Moved.amount (h : Moved held held' source m outs) (hsource : source ∈ places)
    (houts : ∀ out ∈ outs, out.1 ∈ places) :
    amount places w held' + w source m =
      amount places w held + (outs.map fun o => w o.1 o.2).sum := by
  have hleft : ∑ p ∈ places, (if p = source then w source m else 0) = w source m := by
    rw [Finset.sum_ite_eq' places source, if_pos hsource]
  have hright : ∑ p ∈ places, (outs.map fun o => if p = o.1 then w o.1 o.2 else 0).sum =
      (outs.map fun o => w o.1 o.2).sum := by
    clear h
    induction outs with
    | nil => simp
    | cons o outs ih =>
        simp only [List.map_cons, List.sum_cons, Finset.sum_add_distrib]
        rw [ih fun out hout => houts out (List.mem_cons_of_mem _ hout),
          Finset.sum_ite_eq' places o.1, if_pos (houts o List.mem_cons_self)]
  have hall := Finset.sum_congr rfl fun p (_ : p ∈ places) => h.each (w := w) p
  rwa [Finset.sum_add_distrib, Finset.sum_add_distrib, hleft, hright] at hall

end Sum

end Ece552.Library
