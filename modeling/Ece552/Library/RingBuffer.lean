import Mathlib.Data.List.Basic
import Mathlib.Data.Nat.ModEq
import Mathlib.Logic.Function.Basic

/-!
# Ring buffers

A queue in an array of `n` slots, from `head` on and around its end. `Holds` says which list the
buffer stands for: its slots hold the list in order and nothing else. The operations then act on
the list, by `Holds.dequeue` and `Holds.enqueue`. Index arithmetic stays in this file.
-/

namespace Ece552.Library

/-- A queue in an array of `n` slots. -/
structure RingBuffer (n : Nat) (α : Type*) where
  slots : Nat → Option α
  head : Nat
  size : Nat

namespace RingBuffer

variable {n : Nat} {α : Type*}

/-- The buffer that nothing was put in. -/
def empty : RingBuffer n α := ⟨fun _ => none, 0, 0⟩

/-- Nothing is queued. -/
def isEmpty (q : RingBuffer n α) : Bool := decide (q.size = 0)

/-- Nothing more can be queued. -/
def isFull (q : RingBuffer n α) : Bool := decide (q.size = n)

/-- The slot at the head. -/
def peek (q : RingBuffer n α) : Option α := q.slots q.head

/-- The slot at the tail. In an empty buffer this is the slot before the head; with the head at 0
the index is -1, and what lies before the array is read as an empty slot. -/
def peekTail (q : RingBuffer n α) : Option α :=
  if q.head + q.size = 0 then none else q.slots ((q.head + q.size - 1) % n)

/-- Take what is at the head, which is asserted to be there. -/
def dequeue (q : RingBuffer n α) : Option (Option α × RingBuffer n α) :=
  if q.size ≠ 0 then
    some (q.slots q.head,
      ⟨Function.update q.slots q.head none, (q.head + 1) % n, q.size - 1⟩)
  else none

/-- Put an element behind the tail, where a slot is asserted to be left. -/
def enqueue (q : RingBuffer n α) (a : α) : Option (RingBuffer n α) :=
  if q.size < n then
    some { q with
      slots := Function.update q.slots ((q.head + q.size) % n) (some a)
      size := q.size + 1 }
  else none

/-- The slots hold the list in order, from the head on, and nothing else. -/
structure Holds (q : RingBuffer n α) (l : List α) : Prop where
  size : q.size = l.length
  le : l.length ≤ n
  head : q.head < n
  slot : ∀ k, k < n → q.slots ((q.head + k) % n) = l[k]?

variable {q q' : RingBuffer n α} {l : List α} {a : α}

theorem holds_empty (hn : 0 < n) : (empty : RingBuffer n α).Holds [] :=
  ⟨rfl, Nat.zero_le n, hn, fun _ _ => rfl⟩

/-- Slots at different distances from the head are different. -/
theorem slot_ne (q : RingBuffer n α) {j k : Nat} (hj : j < n) (hk : k < n) (hjk : j ≠ k) :
    (q.head + j) % n ≠ (q.head + k) % n := by
  intro heq
  have hmod : j ≡ k [MOD n] := Nat.ModEq.add_left_cancel' q.head heq
  rw [Nat.ModEq, Nat.mod_eq_of_lt hj, Nat.mod_eq_of_lt hk] at hmod
  exact hjk hmod

/-- Taking what is at the head leaves the end of the queue where it is. -/
theorem tail_of_dequeue {b : Option α} (h : q.dequeue = some (b, q')) :
    (q'.head + q'.size) % n = (q.head + q.size) % n := by
  rw [dequeue] at h
  split at h
  · next hne =>
      obtain ⟨-, rfl⟩ := Prod.mk.inj (Option.some.inj h)
      rw [Nat.mod_add_mod, show q.head + 1 + (q.size - 1) = q.head + q.size by omega]
  · exact nomatch h

/-- Putting an element behind the tail moves the end of the queue by one. -/
theorem tail_of_enqueue (h : q.enqueue a = some q') : q'.head + q'.size = q.head + q.size + 1 := by
  rw [enqueue] at h
  split at h
  · obtain rfl := Option.some.inj h
    rfl
  · exact nomatch h

namespace Holds

/-- A buffer stands for one list. -/
theorem unique {l' : List α} (h : q.Holds l) (h' : q.Holds l') : l = l' := by
  refine List.ext_getElem? fun k => ?_
  by_cases hk : k < n
  · rw [← h.slot k hk, h'.slot k hk]
  · have hle := h.le
    have hle' := h'.le
    rw [List.getElem?_eq_none (by omega), List.getElem?_eq_none (by omega)]

theorem is_empty (h : q.Holds l) : q.isEmpty = true ↔ l = [] := by
  simp [RingBuffer.isEmpty, h.size]

theorem is_full (h : q.Holds l) : q.isFull = true ↔ l.length = n := by
  simp [RingBuffer.isFull, h.size]

theorem peek (h : q.Holds l) : q.peek = l.head? := by
  have hslot := h.slot 0 (Nat.zero_lt_of_lt h.head)
  rw [Nat.add_zero, Nat.mod_eq_of_lt h.head] at hslot
  rw [RingBuffer.peek, hslot, List.head?_eq_getElem?]

theorem peek_tail (h : q.Holds l) : q.peekTail = l.getLast? := by
  have hsize := h.size
  have hle := h.le
  have hhead := h.head
  rw [RingBuffer.peekTail]
  split
  · next hzero =>
      have hnil : l = [] := List.length_eq_zero_iff.mp (by omega)
      simp [hnil]
  · next hne =>
      rcases Nat.eq_zero_or_pos l.length with hlen | hlen
      · -- the slot before the head is the last one behind it
        have hslot := h.slot (n - 1) (by omega)
        have hindex : q.head + (n - 1) = q.head + q.size - 1 + n := by omega
        rw [hindex, Nat.add_mod_right] at hslot
        simp [hslot, List.length_eq_zero_iff.mp hlen]
      · have hslot := h.slot (l.length - 1) (by omega)
        have hindex : q.head + q.size - 1 = q.head + (l.length - 1) := by omega
        rw [hindex, hslot, List.getLast?_eq_getElem?]

/-- Taking what is at the head removes the head of the list. -/
theorem dequeue (h : q.Holds (a :: l)) :
    ∃ q', q.dequeue = some (some a, q') ∧ q'.Holds l := by
  have hsize := h.size
  have hle := h.le
  have hhead := h.head
  simp only [List.length_cons] at hsize hle
  have hpeek := h.peek
  rw [RingBuffer.peek, List.head?_cons] at hpeek
  refine ⟨⟨Function.update q.slots q.head none, (q.head + 1) % n, q.size - 1⟩, ?_, ?_⟩
  · rw [RingBuffer.dequeue, if_pos (by omega), hpeek]
  · refine ⟨by simp [hsize], by omega, Nat.mod_lt _ (by omega), fun k hk => ?_⟩
    have hindex : ((q.head + 1) % n + k) % n = (q.head + (k + 1)) % n := by
      rw [Nat.mod_add_mod, Nat.add_assoc, Nat.add_comm 1 k]
    simp only [hindex]
    by_cases hlast : k + 1 = n
    · -- around the end of the array is the slot just emptied
      have hself : (q.head + (k + 1)) % n = q.head := by
        rw [hlast, Nat.add_mod_right, Nat.mod_eq_of_lt hhead]
      rw [hself, Function.update_self, List.getElem?_eq_none (by omega)]
    · have hne := slot_ne q (j := k + 1) (k := 0) (by omega) (by omega) (by omega)
      have hself : (q.head + 0) % n = q.head := Nat.mod_eq_of_lt hhead
      rw [hself] at hne
      rw [Function.update_of_ne hne, h.slot (k + 1) (by omega), List.getElem?_cons_succ]

/-- Putting an element behind the tail appends it to the list. -/
theorem enqueue (h : q.Holds l) (hroom : l.length < n) :
    ∃ q', q.enqueue a = some q' ∧ q'.Holds (l ++ [a]) := by
  have hsize := h.size
  refine ⟨⟨Function.update q.slots ((q.head + q.size) % n) (some a), q.head, q.size + 1⟩, ?_, ?_⟩
  · rw [RingBuffer.enqueue, if_pos (by omega)]
  · refine ⟨by simp [hsize], by simpa using Nat.succ_le_of_lt hroom, h.head, fun k hk => ?_⟩
    simp only [hsize]
    by_cases hkl : k = l.length
    · simp [hkl]
    · have hne := slot_ne q (j := k) (k := l.length) hk hroom hkl
      rw [Function.update_of_ne hne, h.slot k hk]
      rcases Nat.lt_or_gt_of_ne hkl with hlt | hgt
      · rw [List.getElem?_append_left hlt]
      · rw [List.getElem?_eq_none (by omega), List.getElem?_eq_none (by simp; omega)]

/-- Every slot has some distance from the head. -/
theorem exists_offset (h : q.Holds l) {i : Nat} (hi : i < n) :
    ∃ k, k < n ∧ (q.head + k) % n = i := by
  have hhead := h.head
  by_cases hle : q.head ≤ i
  · refine ⟨i - q.head, by omega, ?_⟩
    rw [Nat.add_sub_cancel' hle, Nat.mod_eq_of_lt hi]
  · refine ⟨i + n - q.head, by omega, ?_⟩
    rw [Nat.add_sub_cancel' (by omega), Nat.add_mod_right, Nat.mod_eq_of_lt hi]

/-- The elements in the slots are those of the list. -/
theorem mem_iff (h : q.Holds l) : (∃ i, i < n ∧ q.slots i = some a) ↔ a ∈ l := by
  rw [List.mem_iff_getElem?]
  constructor
  · rintro ⟨i, hi, ha⟩
    obtain ⟨k, hk, rfl⟩ := h.exists_offset hi
    exact ⟨k, (h.slot k hk).symm.trans ha⟩
  · rintro ⟨k, hk⟩
    have hlt := (List.getElem?_eq_some_iff.mp hk).1.trans_le h.le
    exact ⟨(q.head + k) % n, Nat.mod_lt _ (Nat.zero_lt_of_lt h.head), (h.slot k hlt).trans hk⟩

/-- An element that the list has once is in one slot. -/
theorem slot_unique (h : q.Holds l) (hnodup : l.Nodup) {i j : Nat} (hi : i < n) (hj : j < n)
    (ha : q.slots i = some a) (hb : q.slots j = some a) : i = j := by
  obtain ⟨k, hk, rfl⟩ := h.exists_offset hi
  obtain ⟨k', hk', rfl⟩ := h.exists_offset hj
  rw [h.slot k hk] at ha
  rw [h.slot k' hk'] at hb
  have hlt := (List.getElem?_eq_some_iff.mp ha).1
  rw [(List.getElem?_inj hlt hnodup).mp (ha.trans hb.symm)]

end Holds

end RingBuffer

end Ece552.Library
