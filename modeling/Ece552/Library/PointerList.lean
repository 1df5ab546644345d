import Mathlib.Data.List.Nodup
import Mathlib.Logic.Function.Basic

/-!
# Lists kept in pointers

Nodes that point to their successors, and in a doubly linked list to their predecessors too. `Chain`
says which list the pointers stand for; `Linked` says it of both directions. The operations write
single pointers, and each has a lemma that says what it does to the list. A loop over a list takes
its number of rounds as a bound, which is enough if the list is no longer than that.
-/

namespace Ece552.Library

variable {α : Type*}

/-- Following `next` goes through the nodes of a list and ends at `stop`. -/
def Path (next : α → Option α) : Option α → List α → Option α → Prop
  | start, [], stop => start = stop
  | start, a :: l, stop => start = some a ∧ Path next (next a) l stop

/-- Following `next` goes through the nodes of a list to the end. -/
abbrev Chain (next : α → Option α) (start : Option α) (l : List α) : Prop := Path next start l none

section Chain

variable {next next' : α → Option α} {start stop : Option α} {l l' : List α} {a b : α}

/-- An empty path stays where it is. -/
@[simp] theorem path_nil : Path next start [] stop ↔ start = stop := Iff.rfl

/-- A path starts at its first node. -/
@[simp] theorem path_cons :
    Path next start (a :: l) stop ↔ start = some a ∧ Path next (next a) l stop := Iff.rfl

/-- A path is cut in two. -/
theorem path_append :
    Path next start (l ++ l') stop ↔ ∃ mid, Path next start l mid ∧ Path next mid l' stop := by
  induction l generalizing start with
  | nil => simp
  | cons a l ih => simp [ih, and_assoc]

/-- The last node points to where the path stops. -/
theorem path_concat :
    Path next start (l ++ [a]) stop ↔ Path next start l (some a) ∧ next a = stop := by
  rw [path_append]
  constructor
  · rintro ⟨mid, hl, rfl, hstop⟩
    exact ⟨hl, hstop⟩
  · rintro ⟨hl, hstop⟩
    exact ⟨some a, hl, rfl, hstop⟩

/-- Only the pointers of the nodes on the way matter. -/
theorem Path.congr (h : Path next start l stop) (hnext : ∀ a ∈ l, next' a = next a) :
    Path next' start l stop := by
  induction l generalizing start with
  | nil => exact h
  | cons a l ih =>
      refine ⟨h.1, ?_⟩
      rw [hnext a List.mem_cons_self]
      exact ih h.2 fun b hb => hnext b (List.mem_cons_of_mem a hb)

/-- A chain goes through one list. -/
theorem Chain.unique (h : Chain next start l) (h' : Chain next start l') : l = l' := by
  induction l generalizing start l' with
  | nil =>
      cases l' with
      | nil => rfl
      | cons a l' => exact nomatch (h : start = none).symm.trans h'.1
  | cons a l ih =>
      cases l' with
      | nil => exact nomatch (h' : start = none).symm.trans h.1
      | cons b l' =>
          obtain rfl := Option.some.inj (h.1.symm.trans h'.1)
          rw [ih h.2 h'.2]

/-- A chain that ends goes through no node twice. -/
theorem Chain.nodup (h : Chain next start l) : l.Nodup := by
  induction l generalizing start with
  | nil => exact List.nodup_nil
  | cons a l ih =>
      refine List.nodup_cons.mpr ⟨fun hmem => ?_, ih h.2⟩
      -- from the second visit on the chain is the same again, and so it is longer than itself
      obtain ⟨pre, post, rfl⟩ := List.append_of_mem hmem
      obtain ⟨mid, -, hmid, hpost⟩ := path_append.mp h.2
      have hsame := Chain.unique h.2 hpost
      have hlength := congrArg List.length hsame
      simp only [List.length_append, List.length_cons] at hlength
      omega

/-- A chain starts at its first node. -/
theorem Chain.head (h : Chain next start l) : start = l.head? := by
  cases l with
  | nil => exact h
  | cons a l => exact h.1

/-- The nodes that are met on the way, at most as many as the bound. -/
def walk (next : α → Option α) : Nat → Option α → List α
  | 0, _ => []
  | _ + 1, none => []
  | bound + 1, some a => a :: walk next bound (next a)

/-- The walk from the start is the chain, if it may be that long. -/
theorem Chain.walk_eq {bound : Nat} (h : Chain next start l) (hbound : l.length ≤ bound) :
    walk next bound start = l := by
  induction l generalizing start bound with
  | nil =>
      obtain rfl : start = none := h
      cases bound <;> rfl
  | cons a l ih =>
      obtain ⟨rfl, hrest⟩ := h
      cases bound with
      | zero => exact absurd hbound (Nat.not_succ_le_zero _)
      | succ bound => rw [walk, ih hrest (Nat.le_of_succ_le_succ hbound)]

/-- The loop that looks for the first node that passes a test. It does not end within the bound if
there are more nodes. -/
def findNode (next : α → Option α) (test : α → Bool) : Nat → Option α → Option (Option α)
  | _, none => some none
  | 0, some _ => none
  | bound + 1, some a => if test a then some (some a) else findNode next test bound (next a)

/-- The search along a chain is that of the list. -/
theorem Chain.find_node {bound : Nat} (h : Chain next start l) (test : α → Bool)
    (hbound : l.length ≤ bound) : findNode next test bound start = some (l.find? test) := by
  induction l generalizing start bound with
  | nil =>
      obtain rfl : start = none := h
      cases bound <;> rfl
  | cons a l ih =>
      obtain ⟨rfl, hrest⟩ := h
      cases bound with
      | zero => exact absurd hbound (Nat.not_succ_le_zero _)
      | succ bound =>
          rw [findNode, List.find?_cons, ih hrest (Nat.le_of_succ_le_succ hbound)]
          cases test a <;> rfl

variable [DecidableEq α]

/-- A pointer of a node beside the path does not matter. -/
theorem Path.update (h : Path next start l stop) (ha : a ∉ l) (target : Option α) :
    Path (Function.update next a target) start l stop := by
  refine h.congr fun b hb => Function.update_of_ne ?_ _ _
  rintro rfl
  exact ha hb

/-- Writing the last pointer moves the end. -/
theorem Path.update_last (h : Path next start (l ++ [a]) stop) (ha : a ∉ l) (target : Option α) :
    Path (Function.update next a target) start (l ++ [a]) target :=
  path_concat.mpr ⟨(path_concat.mp h).1.update ha target, Function.update_self ..⟩

/-! ## Removing a node from a chain -/

/-- The loop that looks for a node and remembers the one before it. -/
def locate (next : α → Option α) (b : α) : Nat → Option α → Option α →
    Option (Option α × Option α)
  | _, prev, none => some (prev, none)
  | 0, _, some _ => none
  | bound + 1, prev, some a =>
      if a = b then some (prev, some a) else locate next b bound (some a) (next a)

/-- The loop finds a node of the chain and the last one before it. -/
theorem Chain.locate_eq {bound : Nat} {pre post : List α} {prev : Option α}
    (h : Chain next start (pre ++ b :: post)) (hbound : pre.length < bound) :
    locate next b bound prev start = some (pre.getLast?.or prev, some b) := by
  induction pre generalizing start bound prev with
  | nil =>
      obtain ⟨rfl, -⟩ := h
      cases bound with
      | zero => exact absurd hbound (Nat.not_lt_zero _)
      | succ bound => simp [locate]
  | cons a pre ih =>
      have hnodup := h.nodup
      obtain ⟨rfl, hrest⟩ := h
      have hab : a ≠ b := by
        rintro rfl
        simp at hnodup
      cases bound with
      | zero => exact absurd hbound (Nat.not_lt_zero _)
      | succ bound =>
          rw [locate, if_neg hab, ih hrest (Nat.lt_of_succ_lt_succ hbound)]
          cases pre <;> simp [List.getLast?_cons]

/-- The pointers without a node: its predecessor is made to point behind it. -/
def unlinkNext (next : α → Option α) (prev : Option α) (b : α) : α → Option α :=
  Function.update
    (match prev with
      | none => next
      | some p => Function.update next p (next b)) b none

/-- The start without a node. -/
def unlinkStart (next : α → Option α) (start prev : Option α) (b : α) : Option α :=
  match prev with
  | none => next b
  | some _ => start

/-- Removing a node from its chain. -/
theorem Chain.unlink {pre post : List α} (h : Chain next start (pre ++ b :: post)) :
    Chain (unlinkNext next pre.getLast? b) (unlinkStart next start pre.getLast? b)
      (pre ++ post) := by
  have hnodup := h.nodup
  obtain ⟨mid, hpre, hmid, hpost⟩ := path_append.mp h
  obtain ⟨-, hcons, hdisjoint⟩ := List.nodup_append.mp hnodup
  have hb : b ∉ post := (List.nodup_cons.mp hcons).1
  have hb' : b ∉ pre := fun hin => hdisjoint b hin b List.mem_cons_self rfl
  rcases List.eq_nil_or_concat pre with rfl | ⟨pre, p, rfl⟩
  · exact hpost.update hb none
  · have hp : p ∉ post := fun hin =>
      hdisjoint p (by simp) p (List.mem_cons_of_mem b hin) rfl
    have hp' : p ∉ pre := by
      have hnodup' := (List.nodup_append.mp hnodup).1
      rw [List.concat_eq_append] at hnodup'
      intro hin
      exact (List.nodup_append.mp hnodup').2.2 p hin p (by simp) rfl
    rw [List.concat_eq_append] at hpre hb' ⊢
    rw [List.getLast?_concat]
    refine path_append.mpr ⟨next b, ?_, ?_⟩
    · exact (hpre.update_last hp' (next b)).update hb' none
    · exact (hpost.update hp (next b)).update hb none

/-- Removing a node leaves a chain alone that has neither it nor its predecessor. -/
theorem Path.unlink_of_not_mem {prev : Option α} (h : Path next start l stop) (hb : b ∉ l)
    (hprev : ∀ p, prev = some p → p ∉ l) : Path (unlinkNext next prev b) start l stop := by
  cases prev with
  | none => exact h.update hb none
  | some p => exact (h.update (hprev p rfl) (next b)).update hb none

/-- Putting a node in front of a chain. -/
theorem Chain.push (h : Chain next start l) (hb : b ∉ l) :
    Chain (Function.update next b start) (some b) (b :: l) :=
  ⟨rfl, by rw [Function.update_self]; exact h.update hb start⟩

end Chain

/-! ## Doubly linked lists -/

/-- The pointers of a doubly linked list. -/
structure Links (α : Type*) where
  head : Option α
  tail : Option α
  next : α → Option α
  prev : α → Option α

namespace Links

/-- No node is linked. -/
def empty : Links α := ⟨none, none, fun _ => none, fun _ => none⟩

/-- The pointers are those of a list, in both directions. -/
structure Linked (k : Links α) (l : List α) : Prop where
  forward : Chain k.next k.head l
  backward : Chain k.prev k.tail l.reverse

/-- The list read from its other end. -/
def swap (k : Links α) : Links α := ⟨k.tail, k.head, k.prev, k.next⟩

variable {k : Links α} {l : List α} {a b c : α}

/-- Both directions are swapped. -/
theorem Linked.swap (h : k.Linked l) : k.swap.Linked l.reverse :=
  ⟨h.backward, by rw [List.reverse_reverse]; exact h.forward⟩

/-- The empty list is linked. -/
theorem linked_empty : (empty : Links α).Linked [] := ⟨rfl, rfl⟩

/-- No node is in the list twice. -/
theorem Linked.nodup (h : k.Linked l) : l.Nodup := h.forward.nodup

/-- The head is the first node. -/
theorem Linked.head_eq (h : k.Linked l) : k.head = l.head? := h.forward.head

/-- The tail is the last node. -/
theorem Linked.tail_eq (h : k.Linked l) : k.tail = l.getLast? := by
  rw [h.backward.head, List.head?_reverse]

/-- A node that is not in the first part is not the head. -/
theorem Linked.head_ne {pre post : List α} (h : k.Linked (pre ++ post)) (hpre : pre ≠ [])
    (hb : b ∉ pre) : k.head ≠ some b := by
  obtain ⟨a, pre, rfl⟩ := List.exists_cons_of_ne_nil hpre
  rw [h.head_eq]
  intro heq
  exact hb (List.mem_of_head? heq)

/-- A node that is not in the last part is not the tail. -/
theorem Linked.tail_ne {pre post : List α} (h : k.Linked (pre ++ post)) (hpost : post ≠ [])
    (hb : b ∉ post) : k.tail ≠ some b := by
  have hswap := h.swap
  rw [List.reverse_append] at hswap
  exact hswap.head_ne (by simpa using hpost) (by simpa using hb)

/-- The successor of a node. -/
theorem Linked.next_eq {pre post : List α} (h : k.Linked (pre ++ b :: post)) :
    k.next b = post.head? := by
  obtain ⟨mid, -, -, hpost⟩ := path_append.mp h.forward
  exact Chain.head hpost

/-- The predecessor of a node. -/
theorem Linked.prev_eq {pre post : List α} (h : k.Linked (pre ++ b :: post)) :
    k.prev b = pre.getLast? := by
  have hswap := h.swap
  have hlist : (pre ++ b :: post).reverse = post.reverse ++ b :: pre.reverse := by simp
  rw [hlist] at hswap
  rw [← List.head?_reverse]
  exact hswap.next_eq

variable [DecidableEq α]

/-- The second node becomes the head. -/
def dropHead (k : Links α) (second : α) : Links α :=
  { k with head := some second, prev := Function.update k.prev second none }

/-- The last node but one becomes the tail. -/
def dropTail (k : Links α) (second : α) : Links α :=
  { k with tail := some second, next := Function.update k.next second none }

/-- The neighbours of a node are made to point to one another. -/
def dropMiddle (k : Links α) (before after : α) : Links α :=
  { k with
    next := Function.update k.next before (some after)
    prev := Function.update k.prev after (some before) }

/-- A node is put in front of the head. -/
def pushHead (k : Links α) (b first : α) : Links α :=
  { k with
    next := Function.update k.next b k.head
    prev := Function.update (Function.update k.prev b none) first (some b)
    head := some b }

/-- A node is put behind the tail. -/
def pushTail (k : Links α) (b last : α) : Links α :=
  { k with
    prev := Function.update k.prev b k.tail
    next := Function.update (Function.update k.next b none) last (some b)
    tail := some b }

/-- A list without its first node. -/
theorem Linked.drop_head (h : k.Linked (b :: c :: l)) : (k.dropHead c).Linked (c :: l) := by
  have hnodup := (List.nodup_cons.mp (List.nodup_cons.mp h.nodup).2).1
  refine ⟨⟨rfl, h.forward.2.2⟩, ?_⟩
  have hback := h.backward
  rw [List.reverse_cons, List.reverse_cons] at hback
  rw [List.reverse_cons]
  exact (path_concat.mp hback).1.update_last (by rwa [List.mem_reverse]) none

/-- A list without its last node. -/
theorem Linked.drop_tail (h : k.Linked (l ++ [c, b])) : (k.dropTail c).Linked (l ++ [c]) := by
  have hswap := h.swap
  have hlist : (l ++ [c, b]).reverse = b :: c :: l.reverse := by simp
  rw [hlist] at hswap
  have hdrop := hswap.drop_head.swap
  rw [List.reverse_cons, List.reverse_reverse] at hdrop
  exact hdrop

/-- A list without a node between two others. -/
theorem Linked.drop_middle {pre post : List α} (h : k.Linked (pre ++ a :: b :: c :: post)) :
    (k.dropMiddle a c).Linked (pre ++ a :: c :: post) := by
  have hnodup := h.nodup
  obtain ⟨-, hcons, hdisjoint⟩ := List.nodup_append.mp hnodup
  have ha : a ∉ pre := fun hin => hdisjoint a hin a List.mem_cons_self rfl
  have hc : c ∉ pre := fun hin => hdisjoint c hin c (by simp) rfl
  obtain ⟨ha', hcons'⟩ := List.nodup_cons.mp hcons
  obtain ⟨-, hcons''⟩ := List.nodup_cons.mp hcons'
  have hc' : c ∉ post := (List.nodup_cons.mp hcons'').1
  have hac : a ≠ c := fun hac => ha' (by simp [hac])
  have hapost : a ∉ c :: post := fun hin => ha' (List.mem_cons_of_mem b hin)
  refine ⟨?_, ?_⟩
  · obtain ⟨mid, hpre, rfl, -, hpost⟩ := path_append.mp h.forward
    refine path_append.mpr ⟨some a, hpre.update ha _, rfl, ?_⟩
    show Path (Function.update k.next a (some c)) (Function.update k.next a (some c) a) _ _
    rw [Function.update_self]
    have hstart : Path k.next (some c) (c :: post) none := ⟨rfl, hpost.2⟩
    exact hstart.update hapost (some c)
  · have hback := h.backward
    have hlist : (pre ++ a :: b :: c :: post).reverse =
        (post.reverse ++ [c]) ++ b :: a :: pre.reverse := by simp
    have hlist' : (pre ++ a :: c :: post).reverse = (post.reverse ++ [c]) ++ a :: pre.reverse := by
      simp
    rw [hlist] at hback
    rw [hlist']
    obtain ⟨mid, hpost, rfl, hb, hrest⟩ := path_append.mp hback
    refine path_append.mpr ⟨some a, ?_, rfl, ?_⟩
    · exact hpost.update_last (by rwa [List.mem_reverse]) (some a)
    · have hca : c ≠ a := Ne.symm hac
      show Path (Function.update k.prev c (some a)) (Function.update k.prev c (some a) a) _ _
      rw [Function.update_of_ne hac]
      exact hrest.update (by rwa [List.mem_reverse]) _

/-- A node in front of the others. -/
theorem Linked.push_head (h : k.Linked (a :: l)) (hb : b ∉ a :: l) :
    (k.pushHead b a).Linked (b :: a :: l) := by
  have hba : b ≠ a := fun hba => hb (hba ▸ List.mem_cons_self)
  have ha : a ∉ l := (List.nodup_cons.mp h.nodup).1
  refine ⟨h.forward.push hb, ?_⟩
  have hback := h.backward
  rw [List.reverse_cons] at hback
  rw [List.reverse_cons, List.reverse_cons]
  have hb' : b ∉ l.reverse ++ [a] := by simpa [and_comm] using hb
  refine path_concat.mpr ⟨?_, ?_⟩
  · exact (hback.update hb' none).update_last (by rwa [List.mem_reverse]) (some b)
  · show Function.update (Function.update k.prev b none) a (some b) b = none
    rw [Function.update_of_ne hba, Function.update_self]

/-- A node behind the others. -/
theorem Linked.push_tail (h : k.Linked (l ++ [a])) (hb : b ∉ l ++ [a]) :
    (k.pushTail b a).Linked (l ++ [a, b]) := by
  have hswap := h.swap
  have hlist : (l ++ [a]).reverse = a :: l.reverse := by simp
  rw [hlist] at hswap
  have hb' : b ∉ a :: l.reverse := by
    rw [← hlist, List.mem_reverse]
    exact hb
  have hpush := (hswap.push_head hb').swap
  have hlist' : (b :: a :: l.reverse).reverse = l ++ [a, b] := by simp
  rw [hlist'] at hpush
  exact hpush

end Links

end Ece552.Library
