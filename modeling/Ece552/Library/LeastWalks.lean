import Mathlib.Algebra.Order.Monoid.Defs
import Mathlib.Data.Set.Basic
import Mathlib.Order.Bounds.Basic

/-!
# Least walks of a cost matrix

`Walk edge i j m` says that one gets from `i` to `j` over edges that cost `m` together. Costs may be
pairs or tuples, so that one walk accounts for several measures at once. The steps `Within V cost`
are those between the nodes of `V`, at the costs of a matrix. A table that lies below the costs,
meets the triangle inequality and has every entry from a walk is the table of the least costs
(`LeastWalks.isLeast`). Whoever follows it needs no more than its next step:
`LeastWalks.exists_next` finds one that is tight, away from where one is.
-/

namespace Ece552.Library

variable {ι M N : Type*} {V : Set ι} {i j k : ι}

/-- A walk over edges, at what they cost together. -/
inductive Walk [Add M] (edge : ι → ι → M → Prop) : ι → ι → M → Prop where
  | edge {i j : ι} {c : M} : edge i j c → Walk edge i j c
  | step {i k j : ι} {c m : M} : edge i k c → Walk edge k j m → Walk edge i j (c + m)

/-- Two walks one after the other. -/
theorem Walk.append [AddSemigroup M] {edge : ι → ι → M → Prop} {a b : M}
    (hfirst : Walk edge i k a) (hsecond : Walk edge k j b) : Walk edge i j (a + b) := by
  induction hfirst with
  | edge hedge => exact .step hedge hsecond
  | step hedge _ ih =>
      rw [add_assoc]
      exact .step hedge (ih hsecond)

/-- A walk costs in each measure what its edges cost in that measure. -/
theorem Walk.map [Add M] [Add N] {edge : ι → ι → M → Prop} {edge' : ι → ι → N → Prop} {f : M → N}
    {m : M} (hf : ∀ a b, f (a + b) = f a + f b) (hedge : ∀ i j c, edge i j c → edge' i j (f c))
    (h : Walk edge i j m) : Walk edge' i j (f m) := by
  induction h with
  | edge hstep => exact .edge (hedge _ _ _ hstep)
  | step hstep _ ih =>
      rw [hf]
      exact .step (hedge _ _ _ hstep) ih

/-- The steps between the nodes of a set, at the costs of a matrix. -/
def Within (V : Set ι) (cost : ι → ι → M) (i j : ι) (m : M) : Prop :=
  i ∈ V ∧ j ∈ V ∧ m = cost i j

/-- A table below the costs, with the triangle inequality, every entry of which a walk costs. -/
structure LeastWalks [Add M] [LE M] (V : Set ι) (cost dist : ι → ι → M) : Prop where
  realised : ∀ i ∈ V, ∀ j ∈ V, Walk (Within V cost) i j (dist i j)
  le_cost : ∀ i ∈ V, ∀ j ∈ V, dist i j ≤ cost i j
  triangle : ∀ i ∈ V, ∀ j ∈ V, ∀ k ∈ V, dist i j ≤ dist i k + dist k j

namespace LeastWalks

variable [AddCommMonoid M] [PartialOrder M] [IsOrderedAddMonoid M] {cost dist : ι → ι → M} {m : M}

/-- No walk is cheaper than the table says. -/
theorem le_walk (h : LeastWalks V cost dist) (hwalk : Walk (Within V cost) i j m) :
    i ∈ V ∧ j ∈ V ∧ dist i j ≤ m := by
  induction hwalk with
  | edge hedge =>
      obtain ⟨hi, hj, rfl⟩ := hedge
      exact ⟨hi, hj, h.le_cost _ hi _ hj⟩
  | @step i k j _ m hedge _ ih =>
      obtain ⟨hi, hk, rfl⟩ := hedge
      obtain ⟨-, hj, hle⟩ := ih
      refine ⟨hi, hj, ?_⟩
      calc dist i j ≤ dist i k + dist k j := h.triangle i hi j hj k hk
        _ ≤ cost i k + m := add_le_add (h.le_cost i hi k hk) hle

/-- The table holds the least costs of all walks. -/
theorem isLeast (h : LeastWalks V cost dist) (hi : i ∈ V) (hj : j ∈ V) :
    IsLeast {m | Walk (Within V cost) i j m} (dist i j) :=
  ⟨h.realised i hi j hj, fun _ hwalk => (h.le_walk hwalk).2.2⟩

/-- A walk leaves its start by a step after which the table promises no more than its cost. -/
theorem exists_first_step (h : LeastWalks V cost dist) (hself : ∀ i ∈ V, 0 ≤ cost i i)
    (hend : dist j j ≤ 0) (hne : i ≠ j) (hwalk : Walk (Within V cost) i j m) :
    ∃ k ∈ V, k ≠ i ∧ cost i k + dist k j ≤ m := by
  induction hwalk with
  | @edge i j _ hedge =>
      obtain ⟨-, hj, rfl⟩ := hedge
      refine ⟨j, hj, hne.symm, ?_⟩
      calc cost i j + dist j j ≤ cost i j + 0 := add_le_add le_rfl hend
        _ = cost i j := add_zero _
  | @step i k j _ m hedge hrest ih =>
      obtain ⟨-, hk, rfl⟩ := hedge
      by_cases hki : k = i
      · subst hki
        obtain ⟨next, hnext, hne', hle⟩ := ih hend hne
        refine ⟨next, hnext, hne', hle.trans ?_⟩
        calc m = 0 + m := (zero_add m).symm
          _ ≤ cost k k + m := add_le_add (hself k hk) le_rfl
      · exact ⟨k, hk, hki, add_le_add le_rfl (h.le_walk hrest).2.2⟩

/-- Away from the destination there is a tight step to some other node. -/
theorem exists_next (h : LeastWalks V cost dist) (hself : ∀ i ∈ V, 0 ≤ cost i i)
    (hend : dist j j ≤ 0) (hi : i ∈ V) (hj : j ∈ V) (hne : i ≠ j) :
    ∃ k ∈ V, k ≠ i ∧ cost i k + dist k j = dist i j := by
  obtain ⟨k, hk, hki, hle⟩ :=
    h.exists_first_step hself hend hne (h.realised i hi j hj)
  refine ⟨k, hk, hki, le_antisymm hle ?_⟩
  exact (h.triangle i hi j hj k hk).trans (add_le_add (h.le_cost i hi k hk) le_rfl)

end LeastWalks

end Ece552.Library
