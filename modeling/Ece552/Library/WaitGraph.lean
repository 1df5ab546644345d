import Mathlib.Data.Finite.Prod
import Mathlib.Data.Set.Finite.Basic
import Mathlib.Order.WellFounded

/-!
# Waiting in circles

A relation says who waits for whom. Where everyone of a finite group waits for someone of it, some
wait for each other in a circle, and a number given to each of them cannot go down at every link of
the circle. Read `exists_circle` first: it finds the link at which the number does not go down.
-/

namespace Ece552.Library

open Relation

variable {α : Type*} {waits : α → α → Prop} {a b : α}

/-- Whoever waits in a finite group for another one of the group waits for itself in the end, or
for someone who does. -/
theorem exists_waits_for_itself {group : Set α} (hfinite : group.Finite) (hgroup : group.Nonempty)
    (hwaits : ∀ a ∈ group, ∃ b ∈ group, waits a b) : ∃ a ∈ group, TransGen waits a a := by
  by_contra hnone
  -- without a circle one of the group is waited for by no one who is left
  have hfin : Finite group := hfinite
  let later : group → group → Prop := fun b a => TransGen waits a.1 b.1
  have : IsTrans group later := ⟨fun _ _ _ hcb hba => hba.trans hcb⟩
  have : Std.Irrefl later := ⟨fun a ha => hnone ⟨a.1, a.2, ha⟩⟩
  have hwf : WellFounded later := Finite.wellFounded_of_trans_of_irrefl later
  obtain ⟨a, ha⟩ := hgroup
  obtain ⟨last, -, hlast⟩ := hwf.has_min Set.univ ⟨⟨a, ha⟩, trivial⟩
  obtain ⟨b, hb, hwait⟩ := hwaits last.1 last.2
  exact hlast ⟨b, hb⟩ trivial (.single hwait)

/-- A number that goes down at every link is smaller at the end, unless some link is no such. -/
theorem exists_link_or_lt (number : α → Nat) (h : TransGen waits a b) :
    (∃ c d, ReflTransGen waits a c ∧ waits c d ∧ ReflTransGen waits d b ∧
      number c ≤ number d) ∨ number b < number a := by
  induction h with
  | @single b hab =>
      by_cases hle : number a ≤ number b
      · exact Or.inl ⟨a, b, .refl, hab, .refl, hle⟩
      · exact Or.inr (Nat.not_le.mp hle)
  | @tail b c hab hbc ih =>
      rcases ih with ⟨x, y, hax, hxy, hyb, hle⟩ | hlt
      · exact Or.inl ⟨x, y, hax, hxy, hyb.tail hbc, hle⟩
      · by_cases hle : number b ≤ number c
        · exact Or.inl ⟨b, c, hab.to_reflTransGen, hbc, .refl, hle⟩
        · exact Or.inr ((Nat.not_le.mp hle).trans hlt)

/-- Some of a finite group in which everyone waits for someone wait for each other in a circle, and
at one of its links the number does not go down. -/
theorem exists_circle {group : Set α} (number : α → Nat) (hfinite : group.Finite)
    (hgroup : group.Nonempty) (hwaits : ∀ a ∈ group, ∃ b ∈ group, waits a b) :
    ∃ a b, waits a b ∧ ReflTransGen waits b a ∧ number a ≤ number b := by
  obtain ⟨a, -, ha⟩ := exists_waits_for_itself hfinite hgroup hwaits
  rcases exists_link_or_lt number ha with ⟨c, d, hac, hcd, hda, hle⟩ | hlt
  · exact ⟨c, d, hcd, hda.trans hac, hle⟩
  · exact absurd hlt (Nat.lt_irrefl _)

end Ece552.Library
