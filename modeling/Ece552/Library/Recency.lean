import Mathlib.Data.Finset.Card
import Mathlib.Data.List.TakeWhile

/-!
# Recency

The order of last use. `recent` lists the elements of a history, which begins with the latest one,
each once and in the order of their last uses. An element is among the first ones of that list if
few distinct elements were used after it, and using an element moves it to the front.
-/

namespace Ece552.Library

variable {α : Type*} [DecidableEq α] {l m : List α} {a b c : α} {n k : Nat}

/-- The elements of a history in the order of their last uses. -/
def recent : List α → List α
  | [] => []
  | b :: older => b :: (recent older).filter (· != b)

@[simp] theorem recent_cons (b : α) (older : List α) :
    recent (b :: older) = b :: (recent older).filter (· != b) := rfl

@[simp] theorem mem_recent : a ∈ recent l ↔ a ∈ l := by
  induction l with
  | nil => rfl
  | cons b l ih =>
      rw [recent_cons, List.mem_cons, List.mem_cons, List.mem_filter, ih, bne_iff_ne]
      tauto

theorem nodup_recent (l : List α) : (recent l).Nodup := by
  induction l with
  | nil => exact List.nodup_nil
  | cons b l ih =>
      refine List.nodup_cons.mpr ⟨fun hmem => ?_, ih.filter _⟩
      simp at hmem

/-- What was used before comes behind, as far as it was not used again. -/
theorem recent_append (l m : List α) :
    recent (l ++ m) = recent l ++ (recent m).filter (· ∉ l) := by
  induction l with
  | nil => simp [recent]
  | cons b l ih =>
      rw [List.cons_append, recent_cons, ih, recent_cons, List.filter_append, List.filter_filter,
        List.cons_append]
      simp [not_or, bne, BEq.beq]

theorem card_recent (l : List α) : l.toFinset.card = (recent l).length := by
  rw [← List.toFinset_card_of_nodup (nodup_recent l)]
  refine congrArg Finset.card (Finset.ext fun a => ?_)
  rw [List.mem_toFinset, List.mem_toFinset, mem_recent]

/-- The elements that were used after an element are before it. -/
theorem mem_take_recent_iff : b ∈ (recent l).take n ↔
    b ∈ l ∧ (l.takeWhile (· != b)).toFinset.card < n := by
  by_cases hb : b ∈ l
  · obtain ⟨newer, older, rfl, hnewer⟩ := List.eq_append_cons_of_mem hb
    have htake : (newer ++ b :: older).takeWhile (· != b) = newer := by
      rw [List.takeWhile_append_of_pos fun a ha => bne_iff_ne.mpr (ne_of_mem_of_not_mem ha hnewer)]
      simp
    have hrecent : recent (newer ++ b :: older) =
        recent newer ++ b :: ((recent older).filter (· != b)).filter (· ∉ newer) := by
      rw [recent_append, recent_cons, List.filter_cons_of_pos (by simpa using hnewer)]
    have hnotin : b ∉ recent newer := fun hmem => hnewer (mem_recent.mp hmem)
    rw [htake, hrecent, card_recent, List.take_append, List.mem_append]
    constructor
    · rintro (hmem | hmem)
      · exact absurd (List.mem_of_mem_take hmem) hnotin
      · refine ⟨hb, ?_⟩
        by_contra hle
        rw [Nat.sub_eq_zero_of_le (not_lt.mp hle)] at hmem
        exact absurd hmem (by simp)
    · rintro ⟨-, hlt⟩
      obtain ⟨k, hk⟩ := Nat.exists_eq_add_of_lt hlt
      refine Or.inr ?_
      rw [show n - (recent newer).length = k + 1 by omega, List.take_succ_cons]
      exact List.mem_cons_self
  · refine iff_of_false (fun hmem => hb ?_) fun hboth => hb hboth.1
    exact mem_recent.mp (List.mem_of_mem_take hmem)

/-- What was used after an element, among the elements of a kind. -/
theorem take_while_filter {p : α → Bool} (hp : p b = true) :
    (l.filter p).takeWhile (· != b) = (l.takeWhile (· != b)).filter p := by
  induction l with
  | nil => rfl
  | cons a l ih =>
      by_cases hab : a = b
      · subst hab
        simp [hp]
      · have hne : (a != b) = true := bne_iff_ne.mpr hab
        by_cases ha : p a = true
        · simp [ha, hne, ih]
        · simp [ha, hne, ih]

/-! ## Using an element -/

/-- An element is erased from a list whose images are distinct, as its image from theirs. -/
theorem map_erase_of_nodup {β : Type*} [DecidableEq β] {f : α → β} (h : (l.map f).Nodup)
    (ha : a ∈ l) : (l.erase a).map f = (l.map f).erase (f a) := by
  induction l with
  | nil => exact absurd ha List.not_mem_nil
  | cons b l ih =>
      by_cases hba : b = a
      · subst hba
        rw [List.erase_cons_head, List.map_cons, List.erase_cons_head]
      · have hmem : a ∈ l := (List.mem_cons.mp ha).resolve_left (Ne.symm hba)
        obtain ⟨hnotin, hnodup⟩ := List.nodup_cons.mp h
        have hne : f b ≠ f a := fun heq => hnotin (heq ▸ List.mem_map_of_mem hmem)
        rw [List.erase_cons_tail (by simpa using hba), List.map_cons, List.map_cons,
          List.erase_cons_tail (by simpa using hne), ih hnodup hmem]

theorem take_erase_of_mem (h : b ∈ l.take (k + 1)) :
    (l.erase b).take k = (l.take (k + 1)).erase b := by
  induction l generalizing k with
  | nil => simp
  | cons a l ih =>
      by_cases hab : a = b
      · subst hab
        simp
      · rw [List.take_succ_cons, List.mem_cons] at h
        have hmem : b ∈ l.take k := h.resolve_left (Ne.symm hab)
        cases k with
        | zero => exact absurd hmem (by simp)
        | succ k => simp [List.erase_cons_tail, hab, ih hmem]

theorem take_erase_of_not_mem (h : b ∉ l.take (k + 1)) : (l.erase b).take k = l.take k := by
  induction l generalizing k with
  | nil => simp
  | cons a l ih =>
      rw [List.take_succ_cons, List.mem_cons, not_or] at h
      cases k with
      | zero => simp
      | succ k => simp [List.erase_cons_tail, Ne.symm h.1, ih h.2]

/-- Using an element that is among the first ones moves it to the front. -/
theorem take_recent_of_mem (h : b ∈ (recent l).take (k + 1)) :
    (recent (b :: l)).take (k + 1) = b :: ((recent l).take (k + 1)).erase b := by
  rw [recent_cons, List.take_succ_cons, ← (nodup_recent l).erase_eq_filter, take_erase_of_mem h]

/-- Using another element drops the last of the first ones. -/
theorem take_recent_of_not_mem (h : b ∉ (recent l).take (k + 1)) :
    (recent (b :: l)).take (k + 1) = b :: (recent l).take k := by
  rw [recent_cons, List.take_succ_cons, ← (nodup_recent l).erase_eq_filter,
    take_erase_of_not_mem h]

/-! ## Ordered lists -/

/-- A list stays ordered if an element that belongs before all others moves to the front. -/
theorem pairwise_cons_erase {R R' : α → α → Prop} (hnodup : l.Nodup) (h : l.Pairwise R)
    (hrest : ∀ a b, a ≠ c → b ≠ c → R a b → R' a b) (hfront : ∀ b, b ≠ c → R' c b) :
    (c :: l.erase c).Pairwise R' := by
  have hne : ∀ a ∈ l.erase c, a ≠ c := by
    rintro a ha rfl
    exact hnodup.not_mem_erase ha
  refine List.pairwise_cons.mpr ⟨fun b hb => hfront b (hne b hb), ?_⟩
  exact (h.sublist List.erase_sublist).imp_of_mem fun ha hb => hrest _ _ (hne _ ha) (hne _ hb)

omit [DecidableEq α] in
/-- If an element that satisfies `p` is behind others that do, the list begins with those that do
and ends with those that do not. -/
theorem exists_split_of_pairwise {p : α → Bool}
    (h : l.Pairwise fun a b => p b = true → p a = true) :
    ∃ front back, l = front ++ back ∧ (∀ a ∈ front, p a = true) ∧ ∀ a ∈ back, p a = false := by
  induction l with
  | nil => exact ⟨[], [], rfl, by simp, by simp⟩
  | cons a l ih =>
      obtain ⟨ha, hl⟩ := List.pairwise_cons.mp h
      cases hp : p a with
      | true =>
          obtain ⟨front, back, rfl, hfront, hback⟩ := ih hl
          exact ⟨a :: front, back, rfl, List.forall_mem_cons.mpr ⟨hp, hfront⟩, hback⟩
      | false =>
          refine ⟨[], a :: l, rfl, by simp, List.forall_mem_cons.mpr ⟨hp, fun b hb => ?_⟩⟩
          exact Bool.eq_false_iff.mpr fun hb' => Bool.false_ne_true (hp.symm.trans (ha b hb hb'))

end Ece552.Library
