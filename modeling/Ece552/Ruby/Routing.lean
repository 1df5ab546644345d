import Ece552.Ruby.Moves

/-!
# Routing through the simple network

What the proofs about the network need of its links (`Wired`), why the links that `createLinks`
makes have it (`wired_of_createLinks`), and the hop that the copy of a message for a node takes from
each buffer when the routing tables are looked at in the order of the out-ports. `hops` puts these
together as a network of queues with fixed hops.
-/

namespace Ece552.Ruby

open Library

namespace SimpleNetwork

/-- What the links of a network have to be like. A link that takes a message for a node gets it
closer to that node. -/
structure Wired (N : SimpleNetwork) (rank : Nat → Nat → Nat) : Prop where
  keys : (N.links.map fun l => (l.src, l.dest)).Nodup
  kinds : ∀ l ∈ N.links, l.src < N.m_nodes ∧ 2 * N.m_nodes ≤ l.dest ∨
    2 * N.m_nodes ≤ l.src ∧ N.m_nodes ≤ l.dest
  one_in : ∀ l ∈ N.links, ∀ l' ∈ N.links, l.src < N.m_nodes → l'.src = l.src → l'.dest = l.dest
  closer : ∀ l ∈ N.links, ∀ d ∈ l.routing_table_entry, rank d l.dest < rank d l.src
  own : ∀ l ∈ N.links, l.dest < 2 * N.m_nodes → ∀ d ∈ l.routing_table_entry, l.dest = d + N.m_nodes

variable {N : SimpleNetwork} {rank : Nat → Nat → Nat} {sw incoming : Nat} {v : Nat}
  {d : Nat} {l l' : MadeLink} {q q' : Queue}

/-- The links that lead into a switch. -/
theorem mem_switched : l ∈ N.switched ↔ l ∈ N.links ∧ 2 * N.m_nodes ≤ l.dest := by
  simp [switched]

/-- The in-ports are the links into the switch, by where they come from. -/
theorem mem_in_ports :
    incoming ∈ N.inPorts sw ↔ ∃ l ∈ N.switched, l.dest = sw ∧ l.src = incoming := by
  simp [inPorts, and_assoc]

/-- The links out of a switch. -/
theorem mem_out_links : l ∈ N.outLinks sw ↔ l ∈ N.links ∧ l.src = sw := by
  simp [outLinks]

/-- The links that come from a switch have a throttle. -/
theorem mem_throttled : l ∈ N.throttled ↔ l ∈ N.links ∧ N.m_nodes ≤ l.src := by
  simp [throttled]

/-- The links out of a switch have throttles. -/
theorem throttled_of_in_port (hin : incoming ∈ N.inPorts sw)
    (hl : l ∈ N.links) (hsrc : l.src = sw) : l ∈ N.throttled := by
  obtain ⟨l', hl', hdest, -⟩ := mem_in_ports.mp hin
  have hswitch := (mem_switched.mp hl').2
  exact mem_throttled.mpr ⟨hl, by omega⟩

/-- A link is known by its ends. -/
theorem Wired.unique (h : Wired N rank) (hl : l ∈ N.links) (hl' : l' ∈ N.links)
    (hsrc : l.src = l'.src) (hdest : l.dest = l'.dest) : l = l' :=
  List.inj_on_of_nodup_map h.keys hl hl' (Prod.ext hsrc hdest)

/-- The links out of a switch lead to different places. -/
theorem Wired.out_nodup (h : Wired N rank) (sw : Nat) :
    ((N.outLinks sw).map (·.dest)).Nodup := by
  have hnodup : (N.outLinks sw).Nodup := (List.Nodup.of_map _ h.keys).filter _
  refine (List.nodup_map_iff_inj_on hnodup).mpr fun l hl l' hl' hdest => ?_
  rw [mem_out_links] at hl hl'
  exact h.unique hl.1 hl'.1 (hl.2.trans hl'.2.symm) hdest

/-- How far it is from a switch to a node. -/
def distTo (n : Nat) (dist : Matrix) (d sw : Nat) : Nat := (dist sw (d + n)).toNat

/-- The links that `createLinks` makes. -/
theorem wired_of_createLinks {map : LinkMap} {p : Paths} (hmap : MapValid N.m_nodes map)
    (hp : Finished (num_switches map) (IsLink map) (topology_weights map) p)
    (hlinks : N.links = linksToMake N.m_nodes map p.current_dist) :
    Wired N (distTo N.m_nodes p.current_dist) where
  keys := hlinks ▸ links_to_make_nodup N.m_nodes map p.current_dist
  kinds := fun l hl => by
    obtain ⟨hlink, -⟩ := (mem_links_to_make hmap).mp (hlinks ▸ hl)
    exact hmap.kinds _ (mem_of_lookup hlink)
  one_in := fun l hl l' hl' hnode hsrc => by
    obtain ⟨hlink, -⟩ := (mem_links_to_make hmap).mp (hlinks ▸ hl)
    obtain ⟨hlink', -⟩ := (mem_links_to_make hmap).mp (hlinks ▸ hl')
    exact hmap.one_in _ (mem_of_lookup hlink) _ (mem_of_lookup hlink') hnode hsrc
  closer := fun l hl d hd => by
    obtain ⟨-, -, hnonneg, hcloser⟩ := closer_of_entry hmap hp (hlinks ▸ hl) hd
    unfold distTo
    omega
  own := fun l hl hout d hd => own_of_entry hmap hp (hlinks ▸ hl) hout hd

/-- The network has the links that are made for a valid topology. -/
structure Built (N : SimpleNetwork) (t : Topology) : Prop where
  valid : t.Valid
  nodes : N.m_nodes = t.m_nodes
  links : ∃ map fuel, t.linkMap = .ok map ∧
    createLinks t.m_nodes fuel map = .ok (some N.links)

/-- What is made for a valid topology is wired as it should be. -/
theorem Built.wired {t : Topology} (h : Built N t) : ∃ rank, Wired N rank := by
  obtain ⟨map, fuel, hmap, hmade⟩ := h.links
  rw [← h.nodes] at hmade
  have hvalid := h.nodes ▸ h.valid.mapValid hmap
  obtain ⟨p, hp, hlinks⟩ := create_links_ok hvalid hmade
  exact ⟨_, wired_of_createLinks hvalid hp hlinks⟩

/-- The smallest network. -/
def crossbarNetwork : SimpleNetwork where
  m_nodes := 2
  m_virtual_networks := 1
  links := crossbarLinks
  m_ordered := fun _ => true
  listens := fun _ _ => true
  sort := id
  sort_perm := fun _ => .rfl

/-- The smallest network has the links made for it. -/
theorem crossbar_built : Built crossbarNetwork crossbar where
  valid := crossbar_valid
  nodes := rfl
  links := ⟨_, _, crossbar_link_map, crossbar_made⟩

/-- A message from the first node gets to the second one. -/
def crossbarRun : List (NetworkSystem.Label (Nat × Nat)) :=
  [.send 0 0 { m_Destination := {1}, m_MessageSize := .Control, body := (0, 7) } 1, .tick,
    .wakeup (.perfectSwitch 4), .tick, .wakeup (.throttle 4 3), .tick, .wakeup (.controller 1),
    .receive 1 0]

/-- The smallest network after the first steps of its run. -/
def crossbarState (n : Nat) : NetworkSystem (Nat × Nat) :=
  (NetworkSystem.steps crossbarNetwork Prod.fst (crossbarRun.take n)
    { state := crossbarNetwork.initial }).getD { state := crossbarNetwork.initial }

/-- The states of the example are reached. -/
theorem crossbar_state_run
    {allowed : NetworkSystem (Nat × Nat) → NetworkSystem.Label (Nat × Nat) → Prop}
    (h : ∀ label ∈ crossbarRun, ∀ st, allowed st label) (n : Nat) :
    (simpleNetwork crossbarNetwork Prod.fst).Run allowed (crossbarState n) := by
  unfold crossbarState
  cases hsteps : NetworkSystem.steps crossbarNetwork Prod.fst (crossbarRun.take n)
      { state := crossbarNetwork.initial } with
  | none => exact .init rfl
  | some st =>
      exact NetworkSystem.steps_run (.init rfl)
        (fun label hlabel => h label (List.mem_of_mem_take hlabel)) hsteps

example : ((crossbarState 8).log 0).filterMap (NetEvent.receivedOn 0 1) = [(0, 7)] := by
  decide +kernel

/-! ## Hops -/

/-- The link that takes a message for a node, looked at in the order of the out-ports. -/
def nextLink (N : SimpleNetwork) (sw : Nat) (d : Nat) : Option MadeLink :=
  (N.outLinks sw).find? fun l => decide (d ∈ l.routing_table_entry)

/-- The switch that takes the messages of a node. -/
def nodeSwitch (N : SimpleNetwork) (node : Nat) : Option Nat :=
  (N.links.find? fun l => l.src = node).map (·.dest)

/-- The hop from an in-port of a switch. -/
def switchHop (N : SimpleNetwork) (sw : Nat) (v : Nat) (d : Nat) : Option Queue :=
  (N.nextLink sw d).map fun l => .intermediate sw l.dest v

/-- The hop that the copy of a message for a node takes from a buffer of a virtual network. -/
def hop (N : SimpleNetwork) (v : Nat) : Queue → Nat → Option Queue
  | .toNet node v', d => if v' = v then (N.nodeSwitch node).bind (N.switchHop · v d) else none
  | .link _ dest v', d => if v' = v then N.switchHop dest v d else none
  | .intermediate src dest v', d =>
      if v' = v ∧ ∃ l ∈ N.links, l.src = src ∧ l.dest = dest ∧ d ∈ l.routing_table_entry then
        some (N.outQueue src dest v)
      else none
  | .fromNet _ _, _ => none

/-- How many hops it is at most from a buffer to a node. -/
def hopRank (N : SimpleNetwork) (rank : Nat → Nat → Nat) (d : Nat) : Queue → Nat
  | .toNet node _ => match N.nodeSwitch node with
    | some sw => 2 * rank d sw + 1
    | none => 0
  | .link _ dest _ => 2 * rank d dest + 1
  | .intermediate src _ _ => 2 * rank d src
  | .fromNet _ _ => 0

/-- The next link is one of the switch that takes messages for the node. -/
theorem next_link_spec (h : N.nextLink sw d = some l) :
    l ∈ N.links ∧ l.src = sw ∧ d ∈ l.routing_table_entry := by
  have hmem := List.mem_of_find?_eq_some h
  have hd := List.find?_some h
  rw [mem_out_links] at hmem
  exact ⟨hmem.1, hmem.2, of_decide_eq_true hd⟩

/-- So is the one behind which a message waits. -/
theorem switch_hop_spec (h : N.switchHop sw v d = some q) :
    ∃ l ∈ N.links, l.src = sw ∧ d ∈ l.routing_table_entry ∧ q = .intermediate sw l.dest v := by
  obtain ⟨l, hl, rfl⟩ := Option.map_eq_some_iff.mp h
  obtain ⟨hmem, hsrc, hd⟩ := next_link_spec hl
  exact ⟨l, hmem, hsrc, hd, rfl⟩

/-- Every hop gets closer to the node. -/
theorem Wired.hop_rank (hN : Wired N rank) (h : N.hop v q d = some q') :
    N.hopRank rank d q' < N.hopRank rank d q := by
  cases q with
  | toNet node v' =>
      simp only [hop] at h
      split at h
      · obtain ⟨sw, hsw, hhop⟩ := Option.bind_eq_some_iff.mp h
        obtain ⟨l, -, -, -, rfl⟩ := switch_hop_spec hhop
        simp [hopRank, hsw]
      · cases h
  | fromNet node v' => cases h
  | link src dest v' =>
      simp only [hop] at h
      split at h
      · obtain ⟨l, -, -, -, rfl⟩ := switch_hop_spec h
        simp [hopRank]
      · cases h
  | intermediate src dest v' =>
      simp only [hop] at h
      split at h
      · next hl =>
        obtain ⟨-, l, hmem, rfl, rfl, hd⟩ := hl
        obtain rfl := Option.some.inj h
        have hcloser := hN.closer l hmem d hd
        unfold outQueue
        split
        · simp only [hopRank]
          omega
        · simp only [hopRank]
          omega
      · cases h

/-- Only a message for a node gets to the node. -/
theorem Wired.exit_own (hN : Wired N rank) {node : Nat}
    (h : N.hop v q d = some (.fromNet node v)) : d = node := by
  cases q with
  | toNet node v' =>
      simp only [hop] at h
      split at h
      · obtain ⟨sw, hsw, hhop⟩ := Option.bind_eq_some_iff.mp h
        obtain ⟨l, -, -, -, hq⟩ := switch_hop_spec hhop
        cases hq
      · cases h
  | fromNet node v' => cases h
  | link src dest v' =>
      simp only [hop] at h
      split at h
      · obtain ⟨l, -, -, -, hq⟩ := switch_hop_spec h
        cases hq
      · cases h
  | intermediate src dest v' =>
      simp only [hop] at h
      split at h
      · next hl =>
        obtain ⟨-, l, hmem, rfl, rfl, hd⟩ := hl
        have hq := Option.some.inj h
        unfold outQueue at hq
        split at hq
        · next hout =>
          have hown := hN.own l hmem hout d hd
          injection hq with hnode
          rw [← hnode, hown, Nat.add_sub_cancel]
        · cases hq
      · cases h

/-- The buffers of a virtual network as queues with fixed hops. -/
def hops (hN : Wired N rank) (v : Nat) : Hops Queue Nat where
  entry := fun node => .toNet node v
  exit := fun node => .fromNet node v
  hop := N.hop v
  rank := N.hopRank rank
  hop_rank := hN.hop_rank
  hop_exit := fun _ _ => rfl
  exit_own := fun h => (hN.exit_own h)
  exit_inj := fun h => by injection h
  entry_ne_exit := fun _ _ h => by cases h

/-- The hops of the network are those of its queues. -/
theorem hops_hop (hN : Wired N rank) (v : Nat) : (hops hN v).hop = N.hop v := rfl

/-- The hop from an in-port. -/
theorem Wired.hop_in_queue (hN : Wired N rank) (hin : incoming ∈ N.inPorts sw) :
    N.hop v (N.inQueue incoming sw v) d = N.switchHop sw v d := by
  obtain ⟨l, hl, rfl, rfl⟩ := mem_in_ports.mp hin
  replace hl := (mem_switched.mp hl).1
  unfold inQueue
  split
  · next hnode =>
    have hswitch : N.nodeSwitch l.src = some l.dest := by
      unfold nodeSwitch
      cases hfind : N.links.find? fun l' => l'.src = l.src with
      | none => simpa using List.find?_eq_none.mp hfind l hl
      | some l' =>
          have hsrc : l'.src = l.src := by simpa using List.find?_some hfind
          rw [Option.map_some, hN.one_in l hl l' (List.mem_of_find?_eq_some hfind) hnode hsrc]
    simp [hop, hswitch]
  · simp [hop]

end SimpleNetwork

end Ece552.Ruby
