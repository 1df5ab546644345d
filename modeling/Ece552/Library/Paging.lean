import Mathlib.Algebra.BigOperators.Ring.Finset
import Mathlib.Algebra.Order.BigOperators.Group.Finset
import Mathlib.Tactic.Ring

/-!
# Paging against a rival

A rival serves the same requests from sets of its own, which it may fill and empty as it likes, with
fewer slots. `debt` measures how far a list of pages is from what the rival holds: the slots at the
front, which are emptied last, count most. A miss pays off part of the debt, a hit makes none, and
what the rival fetches or drops makes no more of it than the rival has to pay for. So lists that
keep the pages that were used last (LRU) or fetched last (FIFO) miss not much more often than any
rival fetches. Read `Charged` and its rules first.
-/

namespace Ece552.Library

variable {α : Type*} [DecidableEq α] {S T : Finset α} {l : List α} {a : α} {w : Nat}

/-- The weights of the slots, from `w` down to 1, whose pages are not held by the rival. -/
def debt (S : Finset α) : Nat → List α → Nat
  | 0, _ => 0
  | w + 1, [] => w + 1 + debt S w []
  | w + 1, a :: l => (if a ∈ S then 0 else w + 1) + debt S w l

@[simp] theorem debt_zero (S : Finset α) (l : List α) : debt S 0 l = 0 := by
  unfold debt
  rfl

theorem debt_cons (S : Finset α) (w : Nat) (a : α) (l : List α) :
    debt S (w + 1) (a :: l) = (if a ∈ S then 0 else w + 1) + debt S w l := rfl

theorem debt_cons_of_mem (h : a ∈ S) (w : Nat) (l : List α) :
    debt S (w + 1) (a :: l) = debt S w l := by
  rw [debt_cons, if_pos h, Nat.zero_add]

/-- Without pages, every slot counts. -/
theorem debt_nil (S : Finset α) (w : Nat) : debt S w [] = w * (w + 1) / 2 := by
  have htwice : debt S w [] * 2 = w * (w + 1) := by
    induction w with
    | zero => rfl
    | succ w ih =>
        show (w + 1 + debt S w []) * 2 = _
        rw [Nat.add_mul, ih]
        ring
  omega

/-- Pages behind the last slot do not count. -/
theorem debt_take (S : Finset α) (w : Nat) (l : List α) : debt S w (l.take w) = debt S w l := by
  induction w generalizing l with
  | zero => rw [debt_zero, debt_zero]
  | succ w ih =>
      cases l with
      | nil => rfl
      | cons a l => rw [List.take_succ_cons, debt_cons, debt_cons, ih]

/-- A page that the rival holds moves to the front. -/
theorem debt_erase (h : a ∈ S) (w : Nat) (l : List α) :
    debt S w (l.erase a) ≤ debt S (w + 1) l := by
  induction l generalizing w with
  | nil =>
      show debt S w [] ≤ w + 1 + debt S w []
      omega
  | cons b l ih =>
      by_cases hb : b = a
      · subst hb
        rw [List.erase_cons_head, debt_cons_of_mem h]
      · rw [List.erase_cons_tail (by simpa using hb), debt_cons]
        cases w with
        | zero =>
            rw [debt_zero]
            exact Nat.zero_le _
        | succ w =>
            have hrest := ih w
            rw [debt_cons]
            split <;> omega

/-- Each slot whose page the rival does not hold gets cheaper by one. -/
theorem debt_succ (S : Finset α) (w : Nat) (l : List α) :
    debt S w l + (w + 1) ≤ debt S (w + 1) l + l.countP (· ∈ S) := by
  induction w generalizing l with
  | zero =>
      cases l with
      | nil => exact Nat.le_refl 1
      | cons a l =>
          rw [debt_zero, debt_cons, debt_zero, List.countP_cons]
          by_cases ha : a ∈ S
          · simp only [ha, decide_true, if_true]
            omega
          · simp only [ha, if_false]
            omega
  | succ w ih =>
      cases l with
      | nil =>
          show debt S (w + 1) [] + (w + 2) ≤ w + 2 + debt S (w + 1) [] + 0
          omega
      | cons a l =>
          have hrest := ih l
          rw [debt_cons, debt_cons, List.countP_cons]
          by_cases ha : a ∈ S
          · simp only [ha, decide_true, if_true]
            omega
          · simp only [ha, decide_false, if_false, Bool.false_eq_true]
            omega

theorem debt_le_succ (S : Finset α) (w : Nat) (l : List α) : debt S w l ≤ debt S (w + 1) l := by
  have hstep := debt_succ S w (l.take (w + 1))
  have hcount : (l.take (w + 1)).countP (· ∈ S) ≤ w + 1 :=
    List.countP_le_length.trans (List.length_take_le _ _)
  have hshort : debt S w (l.take (w + 1)) = debt S w l := by
    rw [← debt_take, List.take_take, Nat.min_eq_left (Nat.le_succ w), debt_take]
  rw [hshort, debt_take] at hstep
  omega

/-- What the rival drops counts, as far as it is in a slot. -/
theorem debt_drop (S T : Finset α) (w : Nat) (l : List α) :
    debt T w l ≤ debt S w l + w * l.countP (fun a => a ∈ S \ T) := by
  induction w generalizing l with
  | zero =>
      rw [debt_zero]
      exact Nat.zero_le _
  | succ w ih =>
      cases l with
      | nil =>
          rw [debt_nil, debt_nil]
          exact Nat.le_add_right _ _
      | cons a l =>
          have hrest := ih l
          have hgrow : w * l.countP (fun a => a ∈ S \ T) ≤
              (w + 1) * l.countP (fun a => a ∈ S \ T) :=
            Nat.mul_le_mul_right _ (Nat.le_succ w)
          rw [debt_cons, debt_cons, List.countP_cons, Nat.mul_add]
          by_cases hT : a ∈ T
          · rw [if_pos hT]
            omega
          · by_cases hS : a ∈ S
            · have hdrop : a ∈ S \ T := Finset.mem_sdiff.mpr ⟨hS, hT⟩
              simp only [hT, hdrop, decide_true, if_true, if_false]
              omega
            · rw [if_neg hT, if_neg hS]
              omega

/-- Distinct pages of a set are no more than it has. -/
theorem count_le_card (hl : l.Nodup) (S : Finset α) : l.countP (fun a => a ∈ S) ≤ S.card := by
  rw [List.countP_eq_length_filter, ← List.toFinset_card_of_nodup (hl.filter _)]
  refine Finset.card_le_card fun a ha => ?_
  rw [List.mem_toFinset, List.mem_filter, decide_eq_true_eq] at ha
  exact ha.2

/-- A page that is not in the list leaves room for one less. -/
theorem count_lt_card (hl : l.Nodup) (ha : a ∈ S) (hnotin : a ∉ l) :
    l.countP (fun b => b ∈ S) < S.card := by
  have hle := count_le_card (List.nodup_cons.mpr ⟨hnotin, hl⟩) S
  rw [List.countP_cons, if_pos (decide_eq_true ha)] at hle
  exact hle

/-! ## Many sets of pages -/

section Sets

variable {κ : Type*} [Fintype κ]

/-- How many pages were fetched, by a history of what was held that begins with the latest. -/
def fetched : List (κ → Finset α) → Nat
  | [] => 0
  | held :: older =>
      fetched older + ∑ i, (held i \ (older.headD fun _ => ∅) i).card

/-- The misses of the lists, each of up to `k` pages, are accounted for by the fetches of a rival
that holds at most `h` pages of each set. -/
structure Charged (k h : Nat) (lists : κ → List α) (held : κ → Finset α) (missed fetched : Nat) :
    Prop where
  nodup : ∀ i, (lists i).Nodup
  room : ∀ i, (held i).card ≤ h
  account : (k + 1 - h) * missed + ∑ i, (debt (held i) k (lists i) + k * (held i).card) ≤
    k * fetched + Fintype.card κ * (k * (k + 1) / 2)

variable {k h missed : Nat} {lists : κ → List α} {held held' : κ → Finset α} {fetched : Nat}

/-- At first there are no pages. -/
theorem Charged.start (k h : Nat) :
    Charged k h (fun _ : κ => ([] : List α)) (fun _ => ∅) 0 0 := by
  refine ⟨fun _ => List.nodup_nil, fun _ => Nat.zero_le _, ?_⟩
  simp [debt_nil]

/-- The rival fetches and drops pages. -/
theorem Charged.fetch (hc : Charged k h lists held missed fetched)
    (hroom : ∀ i, (held' i).card ≤ h) :
    Charged k h lists held' missed (fetched + ∑ i, (held' i \ held i).card) := by
  refine ⟨hc.nodup, hroom, ?_⟩
  have hone : ∀ i, debt (held' i) k (lists i) + k * (held' i).card ≤
      debt (held i) k (lists i) + k * (held i).card + k * (held' i \ held i).card := by
    intro i
    have hdebt := debt_drop (held i) (held' i) k (lists i)
    have hcount := Nat.mul_le_mul_left k (count_le_card (hc.nodup i) (held i \ held' i))
    have hcard : (held' i).card + (held i \ held' i).card =
        (held i).card + (held' i \ held i).card := by
      have hunion := Finset.card_sdiff_add_card (held i) (held' i)
      rw [Finset.union_comm, ← Finset.card_sdiff_add_card (held' i)] at hunion
      omega
    have hscaled := congrArg (k * ·) hcard
    simp only [Nat.mul_add] at hscaled
    omega
  have hall := Finset.sum_le_sum fun i (_ : i ∈ Finset.univ) => hone i
  rw [Finset.sum_add_distrib (g := fun i => k * (held' i \ held i).card), ← Finset.mul_sum] at hall
  have hold := hc.account
  rw [Nat.mul_add]
  omega

variable [DecidableEq κ] {i : κ}

/-- Only the debt of one list changes. -/
theorem sum_debt_update (k : Nat) (lists : κ → List α) (held : κ → Finset α) (i : κ) (l : List α) :
    ∑ j, (debt (held j) k (Function.update lists i l j) + k * (held j).card) +
        debt (held i) k (lists i) =
      ∑ j, (debt (held j) k (lists j) + k * (held j).card) + debt (held i) k l := by
  have hother := Finset.add_sum_erase Finset.univ
    (fun j => debt (held j) k (lists j) + k * (held j).card) (Finset.mem_univ i)
  rw [← Finset.add_sum_erase _ _ (Finset.mem_univ i), Function.update_self, ← hother]
  have hothers : ∑ j ∈ Finset.univ.erase i,
      (debt (held j) k (Function.update lists i l j) + k * (held j).card) =
        ∑ j ∈ Finset.univ.erase i, (debt (held j) k (lists j) + k * (held j).card) := by
    refine Finset.sum_congr rfl fun j hj => ?_
    rw [Function.update_of_ne (Finset.ne_of_mem_erase hj)]
  rw [hothers]
  omega

omit [DecidableEq α] [Fintype κ] in
theorem nodup_update {l : List α} (hlists : ∀ j, (lists j).Nodup) (hl : l.Nodup) (j : κ) :
    (Function.update lists i l j).Nodup := by
  by_cases hj : j = i
  · rw [hj, Function.update_self]
    exact hl
  · rw [Function.update_of_ne hj]
    exact hlists j

/-- A page of a list, which the rival holds too, moves to its front. -/
theorem Charged.use (hc : Charged k h lists held missed fetched) (hk : 0 < k) (ha : a ∈ held i) :
    Charged k h (Function.update lists i (a :: (lists i).erase a)) held missed fetched := by
  obtain ⟨k, rfl⟩ : ∃ n, k = n + 1 := ⟨k - 1, by omega⟩
  have hnodup : (a :: (lists i).erase a).Nodup :=
    List.nodup_cons.mpr ⟨(hc.nodup i).not_mem_erase, (hc.nodup i).erase a⟩
  refine ⟨nodup_update hc.nodup hnodup, hc.room, ?_⟩
  have hsum := sum_debt_update (k + 1) lists held i (a :: (lists i).erase a)
  have hfront := debt_erase ha k (lists i)
  rw [debt_cons_of_mem ha] at hsum
  have hold := hc.account
  omega

/-- A page that is on no list but that the rival holds is put in front of its list, which drops the
page in the last slot. -/
theorem Charged.miss (hc : Charged k h lists held missed fetched) (hk : 0 < k) (ha : a ∈ held i)
    (hnotin : a ∉ lists i) :
    Charged k h (Function.update lists i (a :: (lists i).take (k - 1))) held (missed + 1)
      fetched := by
  obtain ⟨k, rfl⟩ : ∃ n, k = n + 1 := ⟨k - 1, by omega⟩
  rw [Nat.add_sub_cancel]
  have hnodup : (a :: (lists i).take k).Nodup :=
    List.nodup_cons.mpr ⟨fun hin => hnotin (List.mem_of_mem_take hin),
      (hc.nodup i).sublist (List.take_sublist _ _)⟩
  refine ⟨nodup_update hc.nodup hnodup, hc.room, ?_⟩
  have hsum := sum_debt_update (k + 1) lists held i (a :: (lists i).take k)
  -- the rival holds one page that is on no list, so fewer of them count nothing
  have hcheaper := debt_succ (held i) k (lists i)
  have hcount := count_lt_card (hc.nodup i) ha hnotin
  have hroom := hc.room i
  have hnever := debt_le_succ (held i) k (lists i)
  rw [debt_cons_of_mem ha, debt_take] at hsum
  have hold := hc.account
  rw [Nat.mul_add]
  omega

omit [DecidableEq κ] in
/-- The misses are at most as many as the rival's fetches are worth, and what empty lists cost. -/
theorem Charged.missed_le (hc : Charged k h lists held missed fetched) :
    (k + 1 - h) * missed ≤ k * fetched + Fintype.card κ * (k * (k + 1) / 2) :=
  (Nat.le_add_right _ _).trans hc.account

end Sets

end Ece552.Library
