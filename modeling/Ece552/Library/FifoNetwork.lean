import Mathlib.Data.List.Basic

/-!
# A network of first-in first-out channels

Messages between nodes of a virtual network that keeps the order from one source to one
destination and nothing else. `inFlight` holds every message that was sent and not yet
consumed, in the order of sending; `arrived` holds those that have reached the input buffer of
their destination, in the order of arrival. Delivering a message changes only `arrived`, so
whoever reasons about messages in flight never sees a delivery. Read `pop_spec` first: a
consumed message has no earlier one on its channel.
-/

namespace Ece552.Library

/-- A message on its way from one node to another. -/
structure Packet (N M : Type*) where
  src : N
  dst : N
  msg : M
  deriving DecidableEq

namespace Packet

variable {N M : Type*} [DecidableEq N]

/-- The packet travels from `src` to `dst`. -/
def onChannel (src dst : N) (p : Packet N M) : Bool :=
  decide (p.src = src ∧ p.dst = dst)

/-- The packet travels to `dst`. -/
def isFor (dst : N) (p : Packet N M) : Bool :=
  decide (p.dst = dst)

@[simp] theorem on_channel_iff {src dst : N} {p : Packet N M} :
    p.onChannel src dst = true ↔ p.src = src ∧ p.dst = dst := by
  simp [onChannel]

@[simp] theorem is_for_iff {dst : N} {p : Packet N M} : p.isFor dst = true ↔ p.dst = dst := by
  simp [isFor]

end Packet

/-! ## Removing the first match from a list -/

section EraseP

variable {α : Type*} {p q : α → Bool} {l : List α}

/-- The first match splits the list, and erasing it joins the two parts. -/
theorem erase_first_split {a : α} (h : l.find? p = some a) :
    ∃ before after, l = before ++ a :: after ∧ l.eraseP p = before ++ after ∧
      p a = true ∧ ∀ x ∈ before, p x = false := by
  rw [List.find?_eq_some_iff_append] at h
  obtain ⟨ha, before, after, rfl, hbefore⟩ := h
  refine ⟨before, after, rfl, ?_, ha, fun x hx => by simpa using hbefore x hx⟩
  rw [List.eraseP_append_right _ (fun x hx => by simpa using hbefore x hx)]
  simp [ha]

/-- Erasing the first match drops the head of the matches. -/
theorem filter_erase_same : (l.eraseP p).filter p = (l.filter p).tail := by
  induction l with
  | nil => rfl
  | cons x xs ih =>
      by_cases hx : p x = true
      · simp [hx]
      · simp [hx, ih]

/-- Erasing a match of one predicate keeps all matches of a disjoint one. -/
theorem filter_erase_disjoint (h : ∀ x, q x = true → p x = false) :
    (l.eraseP p).filter q = l.filter q := by
  induction l with
  | nil => rfl
  | cons x xs ih =>
      by_cases hx : p x = true
      · have hq : q x = false := by
          by_contra hq
          simp [h x (by simpa using hq)] at hx
        simp [hx, hq]
      · by_cases hq : q x = true
        · simp [hx, hq, ih]
        · simp [hx, hq, ih]

end EraseP

/-- A virtual network: the packets in flight in the order of sending, and those of them that
have arrived in the order of arrival. On each channel the arrived packets are the oldest. -/
structure Network (N M : Type*) [DecidableEq N] where
  inFlight : List (Packet N M)
  arrived : List (Packet N M)
  fifo : ∀ src dst, arrived.filter (Packet.onChannel src dst) <+:
    inFlight.filter (Packet.onChannel src dst)

namespace Network

variable {N M : Type*} [DecidableEq N]

/-- The network with nothing in flight. -/
def empty : Network N M where
  inFlight := []
  arrived := []
  fifo := fun _ _ => List.prefix_rfl

/-- Send packets, the first of the list first. -/
def send (n : Network N M) (packets : List (Packet N M)) : Network N M where
  inFlight := n.inFlight ++ packets
  arrived := n.arrived
  fifo := fun src dst => by
    rw [List.filter_append]
    exact (n.fifo src dst).trans (List.prefix_append _ _)

/-- The oldest packet of a channel that has not arrived yet. -/
def nextArrival (n : Network N M) (src dst : N) : Option (Packet N M) :=
  (n.inFlight.filter (Packet.onChannel src dst))[
    (n.arrived.filter (Packet.onChannel src dst)).length]?

/-- The next arrival of a channel is a packet of that channel. -/
theorem next_arrival_channel {n : Network N M} {src dst : N} {p : Packet N M}
    (h : n.nextArrival src dst = some p) : p ∈ n.inFlight ∧ p.src = src ∧ p.dst = dst := by
  have hmem := List.mem_of_getElem? h
  simpa using hmem

/-- A packet that follows the matched part of a list extends the matched part. -/
theorem append_next_isPrefix {α : Type*} {before all : List α} {a : α} (h : before <+: all)
    (hnext : all[before.length]? = some a) : before ++ [a] <+: all := by
  obtain ⟨rest, rfl⟩ := h
  rw [List.getElem?_append_right (Nat.le_refl _), Nat.sub_self] at hnext
  cases rest with
  | nil => simp at hnext
  | cons x xs =>
      obtain rfl : x = a := by simpa using hnext
      exact ⟨xs, by simp⟩

/-- Let the oldest packet of a channel that has not arrived reach its input buffer. -/
def deliver (n : Network N M) (src dst : N) : Option (Network N M) :=
  match h : n.nextArrival src dst with
  | none => none
  | some p => some
      { inFlight := n.inFlight
        arrived := n.arrived ++ [p]
        fifo := fun src' dst' => by
          obtain ⟨-, rfl, rfl⟩ := next_arrival_channel h
          rw [List.filter_append]
          by_cases hc : p.onChannel src' dst' = true
          · obtain ⟨rfl, rfl⟩ := Packet.on_channel_iff.mp hc
            simpa [hc] using append_next_isPrefix (n.fifo p.src p.dst) h
          · simpa [hc] using n.fifo src' dst' }

/-- The message at the head of the input buffer of a node. -/
def head (n : Network N M) (dst : N) : Option (Packet N M) :=
  n.arrived.find? (Packet.isFor dst)

/-- The head of an input buffer is the oldest packet in flight on its channel. -/
theorem head_channel {n : Network N M} {dst : N} {p : Packet N M} (h : n.head dst = some p) :
    p.dst = dst ∧ n.inFlight.find? (Packet.onChannel p.src dst) = some p := by
  obtain ⟨before, after, hsplit, -, hdst, hbefore⟩ := erase_first_split h
  have hdst : p.dst = dst := by simpa using hdst
  refine ⟨hdst, ?_⟩
  have hfilter : n.arrived.filter (Packet.onChannel p.src dst) =
      p :: after.filter (Packet.onChannel p.src dst) := by
    rw [hsplit, List.filter_append, List.filter_eq_nil_iff.mpr]
    · simp [hdst]
    · intro x hx hc
      have := hbefore x hx
      simp [Packet.isFor, (Packet.on_channel_iff.mp hc).2] at this
  obtain ⟨rest, hrest⟩ := hfilter ▸ n.fifo p.src dst
  rw [← List.head?_filter, ← hrest]
  rfl

/-- Consume the message at the head of the input buffer of a node. -/
def pop (n : Network N M) (dst : N) : Network N M :=
  match h : n.head dst with
  | none => n
  | some p =>
      { inFlight := n.inFlight.eraseP (Packet.onChannel p.src dst)
        arrived := n.arrived.eraseP (Packet.isFor dst)
        fifo := fun src' dst' => by
          obtain ⟨before, after, hsplit, herase, hdst, hbefore⟩ := erase_first_split h
          have hdst : p.dst = dst := by simpa using hdst
          have hbefore' : dst' = dst → before.filter (Packet.onChannel src' dst') = [] := by
            rintro rfl
            rw [List.filter_eq_nil_iff]
            intro x hx hc
            have := hbefore x hx
            simp [Packet.isFor, (Packet.on_channel_iff.mp hc).2] at this
          have hold := n.fifo src' dst'
          rw [hsplit, List.filter_append, List.filter_cons] at hold
          rw [herase, List.filter_append]
          by_cases hc : p.onChannel src' dst' = true
          · obtain ⟨rfl, hd⟩ := Packet.on_channel_iff.mp hc
            obtain rfl : dst' = dst := hd.symm.trans hdst
            rw [filter_erase_same]
            rw [hbefore' rfl, if_pos hc] at hold
            rw [hbefore' rfl]
            obtain ⟨rest, hrest⟩ := hold
            rw [← hrest]
            exact List.prefix_append _ _
          · rw [if_neg hc] at hold
            rw [filter_erase_disjoint]
            · exact hold
            · intro x hx
              by_contra hcon
              have hx' : x.src = p.src ∧ x.dst = dst := by simpa using hcon
              have hx : x.src = src' ∧ x.dst = dst' := by simpa using hx
              exact hc (Packet.on_channel_iff.mpr ⟨hx'.1 ▸ hx.1, hdst.trans (hx'.2 ▸ hx.2)⟩) }

variable {n n' : Network N M} {src dst : N} {p : Packet N M}

@[simp] theorem empty_in_flight : (empty : Network N M).inFlight = [] := rfl

@[simp] theorem empty_arrived : (empty : Network N M).arrived = [] := rfl

@[simp] theorem send_in_flight (packets : List (Packet N M)) :
    (n.send packets).inFlight = n.inFlight ++ packets := rfl

@[simp] theorem send_arrived (packets : List (Packet N M)) :
    (n.send packets).arrived = n.arrived := rfl

/-- A delivery leaves the packets in flight alone. -/
theorem deliver_in_flight (h : n.deliver src dst = some n') : n'.inFlight = n.inFlight := by
  unfold deliver at h
  split at h
  · cases h
  · cases h
    rfl

/-- Every arrived packet is in flight. -/
theorem mem_in_flight_of_arrived (h : p ∈ n.arrived) : p ∈ n.inFlight := by
  have hmem : p ∈ n.arrived.filter (Packet.onChannel p.src p.dst) := by simp [h]
  exact (List.mem_filter.mp ((n.fifo p.src p.dst).subset hmem)).1

/-- What cannot be delivered has arrived. -/
theorem arrived_of_no_delivery (h : n.deliver p.src p.dst = none) (hp : p ∈ n.inFlight) :
    p ∈ n.arrived := by
  have hnone : n.nextArrival p.src p.dst = none := by
    unfold deliver at h
    split at h
    · assumption
    · cases h
  have hlength := List.getElem?_eq_none_iff.mp hnone
  have hall := (n.fifo p.src p.dst).eq_of_length_le hlength
  have hmem : p ∈ n.arrived.filter (Packet.onChannel p.src p.dst) := by
    rw [hall]
    simp [hp]
  exact (List.mem_filter.mp hmem).1

/-- With nothing in flight nothing has arrived. -/
theorem arrived_eq_nil (h : n.inFlight = []) : n.arrived = [] := by
  refine List.eq_nil_iff_forall_not_mem.mpr fun p hp => ?_
  rw [← List.mem_nil_iff p, ← h]
  exact mem_in_flight_of_arrived hp

/-- When all has arrived nothing is delivered. -/
theorem no_delivery_of_arrived (h : n.inFlight.Perm n.arrived) : n.deliver src dst = none := by
  have hnone : n.nextArrival src dst = none :=
    List.getElem?_eq_none_iff.mpr (Nat.le_of_eq (h.filter (Packet.onChannel src dst)).length_eq)
  unfold deliver
  split
  · rfl
  · next hsome => exact nomatch hnone.symm.trans hsome

/-- The head of a buffer has arrived there. -/
theorem arrived_of_head (h : n.head dst = some p) : p ∈ n.arrived ∧ p.dst = dst :=
  ⟨List.mem_of_find?_eq_some h, by simpa using List.find?_some h⟩

/-- The place in the order of sending of the oldest packet on the channel of a packet. -/
def place (n : Network N M) (p : Packet N M) : Nat :=
  n.inFlight.findIdx (Packet.onChannel p.src p.dst)

/-- The oldest packet of a channel is behind the channels of the packets sent before it. -/
theorem place_lt {before after : List (Packet N M)} {q w : Packet N M}
    (hsplit : n.inFlight = before ++ p :: after)
    (hfirst : ∀ x ∈ before, ¬ (x.src = p.src ∧ x.dst = p.dst)) (hw : w ∈ before)
    (hsrc : w.src = q.src) (hdst : w.dst = q.dst) : n.place q < n.place p := by
  have hself : p.onChannel p.src p.dst = true := Packet.on_channel_iff.mpr ⟨rfl, rfl⟩
  have hnone : before.findIdx (Packet.onChannel p.src p.dst) = before.length :=
    List.findIdx_eq_length.mpr fun x hx =>
      Bool.eq_false_iff.mpr fun hc => hfirst x hx (Packet.on_channel_iff.mp hc)
  have hp : n.place p = before.length := by
    rw [place, hsplit, List.findIdx_append, hnone]
    simp [List.findIdx_cons, hself]
  have hq : before.findIdx (Packet.onChannel q.src q.dst) < before.length :=
    List.findIdx_lt_length_of_exists ⟨w, hw, by simp [hsrc, hdst]⟩
  rw [hp, place, hsplit, List.findIdx_append, if_pos hq]
  exact hq

/-- A buffer with a message has a head. -/
theorem exists_head (hp : p ∈ n.arrived) : ∃ q, n.head p.dst = some q := by
  have hsome : (n.arrived.find? (Packet.isFor p.dst)).isSome = true :=
    List.find?_isSome.mpr ⟨p, hp, by simp⟩
  exact Option.isSome_iff_exists.mp hsome

/-- Without a message at the head nothing is consumed. -/
theorem pop_of_head_none (h : n.head dst = none) : n.pop dst = n := by
  unfold pop
  split
  · rfl
  · next hp => simp [h] at hp

/-- Consuming the head of a buffer takes one packet out of the packets in flight, and no earlier
packet in flight is on the same channel. -/
theorem pop_spec (h : n.head dst = some p) :
    p.dst = dst ∧ ∃ before after, n.inFlight = before ++ p :: after ∧
      (n.pop dst).inFlight = before ++ after ∧
      ∀ q ∈ before, ¬ (q.src = p.src ∧ q.dst = dst) := by
  obtain ⟨hdst, hfirst⟩ := head_channel h
  obtain ⟨before, after, hsplit, herase, -, hbefore⟩ := erase_first_split hfirst
  refine ⟨hdst, before, after, hsplit, ?_, ?_⟩
  · unfold pop
    split
    · next hnone => simp [hnone] at h
    · next q hq =>
        obtain rfl : q = p := Option.some.inj (hq.symm.trans h)
        exact herase
  · intro q hq hc
    simpa [Packet.onChannel, hc] using hbefore q hq

end Network

end Ece552.Library
