import Ece552.Library.HopNetwork
import Mathlib.Logic.Function.Basic

/-!
# Networks whose nodes and messages go by other names

A network with other names for its nodes does the same: sends, deliveries and the heads of the input
buffers are those of the original network. Read `delivers_network` first: whatever the renamed
network delivers, the original one can deliver.
-/

namespace Ece552.Library

/-- Networks with the same packets are equal. -/
theorem Network.eq_of_lists {N M : Type*} [DecidableEq N] {n n' : Network N M}
    (hflight : n.inFlight = n'.inFlight) (harrived : n.arrived = n'.arrived) : n = n' := by
  cases n
  cases n'
  cases hflight
  cases harrived
  rfl

/-- New names for the nodes, which differ where the old ones do, and for the messages of a node. -/
structure Renaming (N N' M M' : Type*) where
  node : N → N'
  msg : N → M → M'
  inj : Function.Injective node

namespace Renaming

variable {N N' M M' : Type*} [DecidableEq N] [DecidableEq N'] (f : Renaming N N' M M')

/-- A packet with new names. -/
def packet (p : Packet N M) : Packet N' M' := ⟨f.node p.src, f.node p.dst, f.msg p.src p.msg⟩

/-- A packet is on the renamed channel if it was on the channel. -/
@[simp] theorem on_channel_packet (src dst : N) (p : Packet N M) :
    (f.packet p).onChannel (f.node src) (f.node dst) = p.onChannel src dst := by
  simp [packet, Packet.onChannel, f.inj.eq_iff]

/-- A packet is for the renamed node if it was for the node. -/
@[simp] theorem is_for_packet (dst : N) (p : Packet N M) :
    (f.packet p).isFor (f.node dst) = p.isFor dst := by
  simp [packet, Packet.isFor, f.inj.eq_iff]

/-- The packets of a channel between old nodes. -/
theorem filter_channel (l : List (Packet N M)) (src dst : N) :
    (l.map f.packet).filter (Packet.onChannel (f.node src) (f.node dst)) =
      (l.filter (Packet.onChannel src dst)).map f.packet := by
  rw [List.filter_map]
  congr 1
  exact List.filter_congr fun p _ => f.on_channel_packet src dst p

omit [DecidableEq N] in
/-- A channel with packets is one between old nodes. -/
theorem channel_of_mem {l : List (Packet N M)} {src dst : N'} {x : Packet N' M'}
    (h : x ∈ (l.map f.packet).filter (Packet.onChannel src dst)) :
    ∃ p ∈ l, f.node p.src = src ∧ f.node p.dst = dst ∧ x = f.packet p := by
  obtain ⟨hmem, hchannel⟩ := List.mem_filter.mp h
  obtain ⟨p, hp, rfl⟩ := List.mem_map.mp hmem
  obtain ⟨hsrc, hdst⟩ := Packet.on_channel_iff.mp hchannel
  exact ⟨p, hp, hsrc, hdst, rfl⟩

/-- The network with new names. -/
def network (n : Network N M) : Network N' M' where
  inFlight := n.inFlight.map f.packet
  arrived := n.arrived.map f.packet
  fifo := by
    intro src dst
    cases harrived : (n.arrived.map f.packet).filter (Packet.onChannel src dst) with
    | nil => exact List.nil_prefix
    | cons x rest =>
        have hx : x ∈ (n.arrived.map f.packet).filter (Packet.onChannel src dst) :=
          harrived ▸ List.mem_cons_self
        obtain ⟨p, -, rfl, rfl, -⟩ := f.channel_of_mem hx
        rw [← harrived, f.filter_channel, f.filter_channel]
        exact (n.fifo p.src p.dst).map f.packet

variable {f} {n : Network N M}

@[simp] theorem network_empty : f.network (.empty : Network N M) = .empty := rfl

@[simp] theorem network_in_flight : (f.network n).inFlight = n.inFlight.map f.packet := rfl

@[simp] theorem network_arrived : (f.network n).arrived = n.arrived.map f.packet := rfl

/-- What is sent is renamed. -/
theorem network_send (packets : List (Packet N M)) :
    f.network (n.send packets) = (f.network n).send (packets.map f.packet) :=
  Network.eq_of_lists (by simp) rfl

/-- The heads of the input buffers. -/
theorem head_network (dst : N) : (f.network n).head (f.node dst) = (n.head dst).map f.packet := by
  show (n.arrived.map f.packet).find? _ = (n.arrived.find? _).map f.packet
  rw [List.find?_map]
  congr 2
  funext p
  exact f.is_for_packet dst p

/-- The next arrival is renamed. -/
theorem next_arrival_network (src dst : N) :
    (f.network n).nextArrival (f.node src) (f.node dst) = (n.nextArrival src dst).map f.packet := by
  unfold Network.nextArrival
  rw [network_in_flight, network_arrived, f.filter_channel, f.filter_channel, List.length_map,
    List.getElem?_map]

/-- Every delivery is one between old nodes. -/
theorem deliver_network {src dst : N'} {net : Network N' M'}
    (h : (f.network n).deliver src dst = some net) :
    ∃ s d n', n.deliver s d = some n' ∧ net = f.network n' := by
  unfold Network.deliver at h
  split at h
  · cases h
  · next x hx =>
    cases h
    obtain ⟨p, -, rfl, rfl, -⟩ := f.channel_of_mem (List.mem_of_getElem? hx)
    rw [next_arrival_network] at hx
    obtain ⟨q, hq, rfl⟩ := Option.map_eq_some_iff.mp hx
    unfold Network.deliver
    refine ⟨p.src, p.dst, ?_⟩
    split
    · next hnone => exact absurd (hnone.symm.trans hq) (Option.some_ne_none q).symm
    · next q' hq' =>
      obtain rfl : q' = q := Option.some.inj (hq'.symm.trans hq)
      exact ⟨_, rfl, Network.eq_of_lists rfl (by simp)⟩

/-- Whatever the renamed network delivers, the original one can deliver. -/
theorem delivers_network {net net' : Network N' M'} (h : Network.Delivers net net')
    (hnet : net = f.network n) : ∃ n', Network.Delivers n n' ∧ net' = f.network n' := by
  induction h with
  | none => exact ⟨n, .none, hnet⟩
  | more _ hdeliver ih =>
      obtain ⟨n₁, hdelivers, rfl⟩ := ih
      obtain ⟨s, d, n₂, hnext, rfl⟩ := deliver_network hdeliver
      exact ⟨n₂, hdelivers.more hnext, rfl⟩

/-- Taking the head of an input buffer. -/
theorem network_pop {dst : N} {p : Packet N M} (h : n.head dst = some p) :
    f.network (n.pop dst) = (f.network n).pop (f.node dst) := by
  have hhead : (f.network n).head (f.node dst) = some (f.packet p) := by
    rw [head_network, h]
    rfl
  obtain ⟨hflight, harrived⟩ := Network.pop_lists h
  obtain ⟨hflight', harrived'⟩ := Network.pop_lists hhead
  refine Network.eq_of_lists ?_ ?_
  · rw [hflight', network_in_flight, network_in_flight, hflight, List.eraseP_map]
    congr 2
    funext q
    exact (f.on_channel_packet p.src dst q).symm
  · rw [harrived', network_arrived, network_arrived, harrived, List.eraseP_map]
    congr 2
    funext q
    exact (f.is_for_packet dst q).symm

end Renaming

namespace Network

variable {N M : Type*} [DecidableEq N] {n : Network N M}

/-- To send nothing changes nothing. -/
theorem send_nil : n.send [] = n := eq_of_lists (List.append_nil _) rfl

/-- Sending and taking the head of an input buffer may change places. -/
theorem send_pop {dst : N} {p : Packet N M} (h : n.head dst = some p)
    (packets : List (Packet N M)) : (n.send packets).pop dst = (n.pop dst).send packets := by
  obtain ⟨hflight, harrived⟩ := pop_lists h
  have hhead : (n.send packets).head dst = some p := h
  obtain ⟨hflight', harrived'⟩ := pop_lists hhead
  obtain ⟨-, hfirst⟩ := head_channel h
  refine eq_of_lists ?_ (harrived'.trans harrived.symm)
  rw [hflight', send_in_flight, send_in_flight, hflight]
  exact List.eraseP_append_left (List.find?_some hfirst) _ (List.mem_of_find?_eq_some hfirst)

end Network

end Ece552.Library
