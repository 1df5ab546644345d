import Ece552.Ruby.ShortestPaths

/-!
# The topology of a Ruby network

The links of the configuration and the routing table entries made from the shortest paths. The
first `m_nodes` switch identifiers are the links into the network, the next `m_nodes` its output
queues, and the routers follow. A link map whose links have positive weights below the "infinite"
one leads to routing tables that bring every message closer to its destinations
(`closer_of_entry`), and on which every switch that is linked to a node at all finds a way to it
(`exists_link_to`).
-/

namespace Ece552.Ruby

open Library

/-- A set of machines, by their node numbers. -/
abbrev NetDest := Finset Nat

/-- What the two networks take from a link of the configuration. -/
structure BasicLink where
  m_latency : Nat := 1
  m_weight : Int := 1
  m_bw_multiplier : Nat := 16
  deriving DecidableEq

/-- A link between a controller and a router. -/
structure ExtLink extends BasicLink where
  /-- `cntrl_id` -/
  ext_node : Nat
  /-- `router_id` -/
  int_node : Nat

/-- A link between two routers. -/
structure IntLink extends BasicLink where
  node_a : Nat
  node_b : Nat

/-- The links of the configuration, with the number of controllers and routers. -/
structure Topology where
  m_nodes : Nat
  m_number_of_switches : Nat
  ext_links : List ExtLink
  int_links : List IntLink

/-- The links in one direction, by their ends. A later one takes the place of an earlier one. -/
abbrev LinkMap := List ((Nat × Nat) × BasicLink)

namespace Topology

variable (t : Topology)

/-- Add a link from one switch to another one. -/
def addLink (map : LinkMap) (src dest : Nat) (link : BasicLink) : Except Fault LinkMap := do
  assertThat "src <= m_number_of_switches+m_nodes+m_nodes"
    (src ≤ t.m_number_of_switches + t.m_nodes + t.m_nodes)
  assertThat "dest <= m_number_of_switches+m_nodes+m_nodes"
    (dest ≤ t.m_number_of_switches + t.m_nodes + t.m_nodes)
  pure (((src, dest), link) :: map)

/-- Both directions of a link. -/
def addBoth (map : LinkMap) (a b a' : Nat) (link : BasicLink) : Except Fault LinkMap := do
  let map ← t.addLink map a b link
  t.addLink map b a' link

/-- The link map that the constructor of `Topology` fills. -/
def linkMap : Except Fault LinkMap := do
  assertThat "m_nodes > 1" (1 < t.m_nodes)
  panicUnless "m_nodes != ext_links vector length" (t.m_nodes = t.ext_links.length)
  let map ← t.ext_links.foldlM (fun map l =>
    t.addBoth map l.ext_node (l.int_node + 2 * t.m_nodes) (l.ext_node + t.m_nodes)
      l.toBasicLink) []
  t.int_links.foldlM (fun map l =>
    t.addBoth map (l.node_a + 2 * t.m_nodes) (l.node_b + 2 * t.m_nodes)
      (l.node_a + 2 * t.m_nodes) l.toBasicLink) map

end Topology

/-- The highest switch identifier. -/
def max_switch_id (map : LinkMap) : Nat :=
  map.foldl (fun m entry => max (max m entry.1.1) entry.1.2) 0

/-- The switches are numbered from 0 on. -/
def num_switches (map : LinkMap) : Nat := max_switch_id map + 1

/-- 0 from a switch to itself, and the "infinite" weight where there is no link. -/
def topology_weights (map : LinkMap) : Matrix := fun i j =>
  match map.lookup (i, j) with
  | some link => link.m_weight
  | none => if i = j then 0 else INFINITE_LATENCY

/-- -1 where there is no link. -/
def link_latencies (map : LinkMap) : Matrix := fun i j =>
  match map.lookup (i, j) with
  | some link => link.m_latency
  | none => -1

/-- Is the link the beginning of a shortest path? -/
def link_is_shortest_path_to_node (src next final : Nat) (weights dist : Matrix) : Bool :=
  decide (weights src next + dist next final = dist src final)

/-- The nodes to which the link from `src` to `next` is on a shortest path. -/
def shortest_path_to_node (m_nodes : Nat) (src next : Nat) (weights dist : Matrix) : NetDest :=
  (Finset.range m_nodes).filter fun d =>
    link_is_shortest_path_to_node src next (d + m_nodes) weights dist

/-- A link as the network gets it. -/
structure MadeLink where
  src : Nat
  dest : Nat
  link : BasicLink
  routing_table_entry : NetDest
  deriving DecidableEq

/-- A call of `makeLink`, which hands the link to the network. -/
def makeLink (m_nodes : Nat) (made : MadeLink) : Except Fault MadeLink := do
  assertThat "src >= 2 * m_nodes || dest >= 2 * m_nodes"
    (2 * m_nodes ≤ made.src ∨ 2 * m_nodes ≤ made.dest)
  if made.src < m_nodes then
    pure made
  else if made.dest < 2 * m_nodes then do
    assertThat "dest >= m_nodes" (m_nodes ≤ made.dest)
    pure made
  else do
    assertThat "(src >= 2 * m_nodes) && (dest >= 2 * m_nodes)"
      (2 * m_nodes ≤ made.src ∧ 2 * m_nodes ≤ made.dest)
    pure made

/-- The links that `createLinks` makes once the distances are known. -/
def linksToMake (m_nodes : Nat) (map : LinkMap) (dist : Matrix) : List MadeLink :=
  (allPairs (num_switches map)).filterMap fun (i, j) =>
    if 0 < topology_weights map i j ∧ topology_weights map i j ≠ INFINITE_LATENCY then
      (map.lookup (i, j)).map fun link =>
        ⟨i, j, link, shortest_path_to_node m_nodes i j (topology_weights map) dist⟩
    else none

/-- The links of a topology, if the search for shortest paths ends within this many rounds. -/
def createLinks (m_nodes fuel : Nat) (map : LinkMap) : Except Fault (Option (List MadeLink)) := do
  match ← shortest_path (num_switches map) fuel (topology_weights map) (link_latencies map)
      (fun _ _ => 0) with
  | none => pure none
  | some p => some <$> (linksToMake m_nodes map p.current_dist).mapM (makeLink m_nodes)

/-! ## The link map -/

namespace Topology

variable {t : Topology} {map map' : LinkMap}

/-- What the configuration scripts see to: a controller has one link, and a weight is neither zero
nor as large as the "infinite" one. -/
structure Valid (t : Topology) : Prop where
  ext_lt : ∀ l ∈ t.ext_links, l.ext_node < t.m_nodes
  ext_nodup : (t.ext_links.map (·.ext_node)).Nodup
  ext_weight : ∀ l ∈ t.ext_links, 0 < l.m_weight ∧ l.m_weight < INFINITE_LATENCY
  int_weight : ∀ l ∈ t.int_links, 0 < l.m_weight ∧ l.m_weight < INFINITE_LATENCY

/-- The entries that an external link adds. -/
def extEntries (t : Topology) (l : ExtLink) : LinkMap :=
  [((l.int_node + 2 * t.m_nodes, l.ext_node + t.m_nodes), l.toBasicLink),
    ((l.ext_node, l.int_node + 2 * t.m_nodes), l.toBasicLink)]

/-- The entries that an internal link adds. -/
def intEntries (t : Topology) (l : IntLink) : LinkMap :=
  [((l.node_b + 2 * t.m_nodes, l.node_a + 2 * t.m_nodes), l.toBasicLink),
    ((l.node_a + 2 * t.m_nodes, l.node_b + 2 * t.m_nodes), l.toBasicLink)]

/-- What is added for both directions of a link. -/
theorem add_both_ok {a b a' : Nat} {link : BasicLink}
    (h : t.addBoth map a b a' link = .ok map') :
    map' = [((b, a'), link), ((a, b), link)] ++ map := by
  unfold addBoth addLink at h
  simp only [bind_eq_ok, assert_that_ok, exists_and_left, exists_const] at h
  obtain ⟨-, -, map₁, rfl, -, -, rfl⟩ := by simpa [pure, Except.pure, eq_comm] using h
  rfl

/-- A loop that adds the entries of one link after the other. -/
theorem fold_entries {α : Type} {f : LinkMap → α → Except Fault LinkMap} (entries : α → LinkMap)
    (hf : ∀ map map' l, f map l = .ok map' → map' = entries l ++ map) (ls : List α)
    (h : ls.foldlM f map = .ok map') : map' = (ls.reverse.flatMap entries) ++ map := by
  induction ls generalizing map with
  | nil =>
      obtain rfl := Except.ok.inj h
      rfl
  | cons l ls ih =>
      rw [List.foldlM_cons] at h
      obtain ⟨map₁, hone, hrest⟩ := bind_eq_ok.mp h
      rw [ih hrest, hf map map₁ l hone]
      simp

/-- The entries of the link map. -/
theorem link_map_ok (h : t.linkMap = .ok map) :
    map = t.int_links.reverse.flatMap t.intEntries ++ t.ext_links.reverse.flatMap t.extEntries := by
  unfold linkMap at h
  simp only [bind_eq_ok, assert_that_ok, panic_unless_ok, exists_and_left, exists_const] at h
  obtain ⟨-, -, map₁, hext, hint⟩ := h
  have hmap₁ := fold_entries t.extEntries
    (fun _ _ l hl => by rw [add_both_ok hl]; rfl) _ hext
  have hmap := fold_entries t.intEntries
    (fun _ _ l hl => by rw [add_both_ok hl]; rfl) _ hint
  rw [hmap, hmap₁, List.append_nil]

end Topology

/-- What a valid topology says about its link map. -/
structure MapValid (m_nodes : Nat) (map : LinkMap) : Prop where
  weight : ∀ e ∈ map, 0 < e.2.m_weight ∧ e.2.m_weight < INFINITE_LATENCY
  kinds : ∀ e ∈ map, e.1.1 < m_nodes ∧ 2 * m_nodes ≤ e.1.2 ∨
    2 * m_nodes ≤ e.1.1 ∧ m_nodes ≤ e.1.2
  one_in : ∀ e ∈ map, ∀ e' ∈ map, e.1.1 < m_nodes → e'.1.1 = e.1.1 → e'.1.2 = e.1.2
  one_out : ∀ e ∈ map, ∀ e' ∈ map, e.1.2 < 2 * m_nodes → e'.1.2 = e.1.2 → e'.1.1 = e.1.1

namespace Topology

variable {t : Topology} {map : LinkMap} {e : (Nat × Nat) × BasicLink}

/-- An entry of the link map is one of the two of an internal or of an external link. -/
theorem link_map_cases (h : t.linkMap = .ok map) (he : e ∈ map) :
    (∃ l ∈ t.int_links,
      e = ((l.node_b + 2 * t.m_nodes, l.node_a + 2 * t.m_nodes), l.toBasicLink) ∨
      e = ((l.node_a + 2 * t.m_nodes, l.node_b + 2 * t.m_nodes), l.toBasicLink)) ∨
    ∃ l ∈ t.ext_links,
      e = ((l.int_node + 2 * t.m_nodes, l.ext_node + t.m_nodes), l.toBasicLink) ∨
      e = ((l.ext_node, l.int_node + 2 * t.m_nodes), l.toBasicLink) := by
  rw [link_map_ok h] at he
  simpa only [List.mem_append, List.mem_flatMap, List.mem_reverse, intEntries, extEntries,
    List.mem_cons, List.not_mem_nil, or_false] using he

/-- The only entry from a node is that of its external link. -/
theorem entry_from_node (h : t.linkMap = .ok map) (he : e ∈ map) (hlt : e.1.1 < t.m_nodes) :
    ∃ l ∈ t.ext_links, e.1.1 = l.ext_node ∧ e.1.2 = l.int_node + 2 * t.m_nodes := by
  obtain ⟨l, hl, rfl | rfl⟩ | ⟨l, hl, rfl | rfl⟩ := link_map_cases h he
  · have hlt : l.node_b + 2 * t.m_nodes < t.m_nodes := hlt
    omega
  · have hlt : l.node_a + 2 * t.m_nodes < t.m_nodes := hlt
    omega
  · have hlt : l.int_node + 2 * t.m_nodes < t.m_nodes := hlt
    omega
  · exact ⟨l, hl, rfl, rfl⟩

/-- And so is the only entry to its output queue. -/
theorem entry_to_out_queue (h : t.linkMap = .ok map) (he : e ∈ map)
    (hlt : e.1.2 < 2 * t.m_nodes) :
    ∃ l ∈ t.ext_links, e.1.2 = l.ext_node + t.m_nodes ∧ e.1.1 = l.int_node + 2 * t.m_nodes := by
  obtain ⟨l, hl, rfl | rfl⟩ | ⟨l, hl, rfl | rfl⟩ := link_map_cases h he
  · have hlt : l.node_a + 2 * t.m_nodes < 2 * t.m_nodes := hlt
    omega
  · have hlt : l.node_b + 2 * t.m_nodes < 2 * t.m_nodes := hlt
    omega
  · exact ⟨l, hl, rfl, rfl⟩
  · have hlt : l.int_node + 2 * t.m_nodes < 2 * t.m_nodes := hlt
    omega

/-- The link map of a valid topology. -/
theorem Valid.mapValid (ht : t.Valid) (h : t.linkMap = .ok map) : MapValid t.m_nodes map := by
  refine ⟨fun e he => ?_, fun e he => ?_, fun e he e' he' hlt hsame => ?_,
    fun e he e' he' hlt hsame => ?_⟩
  · obtain ⟨l, hl, rfl | rfl⟩ | ⟨l, hl, rfl | rfl⟩ := link_map_cases h he
    · exact ht.int_weight l hl
    · exact ht.int_weight l hl
    · exact ht.ext_weight l hl
    · exact ht.ext_weight l hl
  · obtain ⟨l, hl, rfl | rfl⟩ | ⟨l, hl, rfl | rfl⟩ := link_map_cases h he
    · exact .inr ⟨by simp, by simp; omega⟩
    · exact .inr ⟨by simp, by simp; omega⟩
    · exact .inr ⟨by simp, by simp⟩
    · exact .inl ⟨ht.ext_lt l hl, by simp⟩
  · obtain ⟨l, hl, hsrc, hdest⟩ := entry_from_node h he hlt
    obtain ⟨l', hl', hsrc', hdest'⟩ := entry_from_node h he' (hsame ▸ hlt)
    have hnodes : l'.ext_node = l.ext_node := hsrc'.symm.trans (hsame.trans hsrc)
    obtain rfl := List.inj_on_of_nodup_map ht.ext_nodup hl' hl hnodes
    exact hdest'.trans hdest.symm
  · obtain ⟨l, hl, hdest, hsrc⟩ := entry_to_out_queue h he hlt
    obtain ⟨l', hl', hdest', hsrc'⟩ := entry_to_out_queue h he' (hsame ▸ hlt)
    have hnodes : l'.ext_node = l.ext_node := by omega
    obtain rfl := List.inj_on_of_nodup_map ht.ext_nodup hl' hl hnodes
    exact hsrc'.trans hsrc.symm

end Topology

/-! ## The links that are made -/

section Made

variable {n fuel : Nat} {map : LinkMap} {links : List MadeLink} {i j : Nat} {d : Nat}
  {l : MadeLink} {p : Paths}

/-- A link is made as it is. -/
theorem make_link_eq {made made' : MadeLink} (h : makeLink n made = .ok made') : made' = made := by
  unfold makeLink at h
  obtain ⟨-, -, h⟩ := bind_eq_ok.mp h
  split at h
  · exact (Except.ok.inj h).symm
  · split at h
    · obtain ⟨-, -, h⟩ := bind_eq_ok.mp h
      exact (Except.ok.inj h).symm
    · obtain ⟨-, -, h⟩ := bind_eq_ok.mp h
      exact (Except.ok.inj h).symm

/-- All links are made as they are. -/
theorem make_links_eq {made made' : List MadeLink} (h : made.mapM (makeLink n) = .ok made') :
    made' = made := by
  induction made generalizing made' with
  | nil => exact (Except.ok.inj h).symm
  | cons l made ih =>
      rw [List.mapM_cons] at h
      obtain ⟨l', hl', h⟩ := bind_eq_ok.mp h
      obtain ⟨rest, hrest, h⟩ := bind_eq_ok.mp h
      obtain rfl := Except.ok.inj h
      rw [make_link_eq hl', ih hrest]

/-- An entry of the map has its weight in the matrix. -/
theorem weights_of_lookup {link : BasicLink} (h : map.lookup (i, j) = some link) :
    topology_weights map i j = link.m_weight := by
  simp [topology_weights, h]

/-- A link that is found is one of the map. -/
theorem mem_of_lookup {link : BasicLink} (h : map.lookup (i, j) = some link) :
    ((i, j), link) ∈ map := by
  obtain ⟨before, after, rfl, -⟩ := List.lookup_eq_some_iff.mp h
  simp

/-- No weight is negative. -/
theorem MapValid.weights_nonneg (h : MapValid n map) (i j : Nat) :
    0 ≤ topology_weights map i j := by
  unfold topology_weights
  split
  · next link hlink => exact (h.weight _ (mem_of_lookup hlink)).1.le
  · split
    · exact le_rfl
    · decide

/-- No weight is higher than the "infinite" one. -/
theorem MapValid.weights_le (h : MapValid n map) (i j : Nat) :
    topology_weights map i j ≤ INFINITE_LATENCY := by
  unfold topology_weights
  split
  · next link hlink => exact (h.weight _ (mem_of_lookup hlink)).2.le
  · split
    · decide
    · exact le_rfl

/-- A switch that is no end of a link is no switch. -/
theorem lt_num_switches {e : (Nat × Nat) × BasicLink} (he : e ∈ map) :
    e.1.1 < num_switches map ∧ e.1.2 < num_switches map := by
  have hfold : ∀ (l : LinkMap) (m : Nat),
      let f : Nat → (Nat × Nat) × BasicLink → Nat :=
        fun m entry => max (max m entry.1.1) entry.1.2
      m ≤ l.foldl f m ∧ ∀ e ∈ l, e.1.1 ≤ l.foldl f m ∧ e.1.2 ≤ l.foldl f m := by
    intro l
    induction l with
    | nil => exact fun m => ⟨le_rfl, fun e he => absurd he List.not_mem_nil⟩
    | cons x l ih =>
        intro m
        obtain ⟨hle, hl⟩ := ih (max (max m x.1.1) x.1.2)
        refine ⟨((le_max_left _ _).trans (le_max_left _ _)).trans hle, fun e he => ?_⟩
        rcases List.mem_cons.mp he with rfl | he
        · exact ⟨((le_max_right _ _).trans (le_max_left _ _)).trans hle,
            (le_max_right _ _).trans hle⟩
        · exact hl e he
  obtain ⟨h1, h2⟩ := (hfold map 0).2 e he
  exact ⟨Nat.lt_succ_of_le h1, Nat.lt_succ_of_le h2⟩

/-- Which links are made, with which routing table entries. -/
theorem mem_links_to_make (hmap : MapValid n map) {dist : Matrix} :
    l ∈ linksToMake n map dist ↔ map.lookup (l.src, l.dest) = some l.link ∧
      l.routing_table_entry =
        shortest_path_to_node n l.src l.dest (topology_weights map) dist := by
  unfold linksToMake
  rw [List.mem_filterMap]
  constructor
  · rintro ⟨⟨i, j⟩, -, h⟩
    simp only at h
    split at h
    · obtain ⟨link, hlink, rfl⟩ := Option.map_eq_some_iff.mp h
      exact ⟨hlink, rfl⟩
    · cases h
  · rintro ⟨hlink, hentry⟩
    have hmem := mem_of_lookup hlink
    have hweight := hmap.weight _ hmem
    refine ⟨(l.src, l.dest), mem_all_pairs.mpr (lt_num_switches hmem), ?_⟩
    simp only
    rw [if_pos ⟨by rw [weights_of_lookup hlink]; exact hweight.1,
      by rw [weights_of_lookup hlink]; exact hweight.2.ne⟩, hlink, Option.map_some, ← hentry]

/-- A link of the map, with its weight, its latency and 1 for itself. -/
def IsLink (map : LinkMap) (i j : Nat) (cost : Int × Int × Int) : Prop :=
  ∃ link, map.lookup (i, j) = some link ∧ cost = (link.m_weight, (link.m_latency : Int), 1)

/-- An entry below the "infinite" one is that of a link, or the zero of a switch itself. -/
theorem way_start (map : LinkMap) (i j : Nat) :
    IsWay (IsLink map) i j (topology_weights map i j) (link_latencies map i j) 0 := by
  intro hnear
  cases hlink : map.lookup (i, j) with
  | some link =>
      refine .inr (.edge ⟨link, hlink, ?_⟩)
      simp [topology_weights, link_latencies, hlink]
  | none =>
      have hweight : topology_weights map i j = if i = j then 0 else INFINITE_LATENCY := by
        simp [topology_weights, hlink]
      by_cases heq : i = j
      · rw [if_pos heq] at hweight
        exact .inl ⟨heq, hweight⟩
      · rw [if_neg heq] at hweight
        exact absurd hnear (hweight ▸ lt_irrefl _)

/-- The start of the search is sound. -/
theorem sound_start (map : LinkMap) : Sound (num_switches map) (IsLink map) (topology_weights map)
    ⟨topology_weights map, link_latencies map, fun _ _ => 0⟩ where
  walk := fun _ hi _ hj => .edge ⟨hi, hj, rfl⟩
  way := fun i _ j _ => way_start map i j
  le_weight := fun _ _ _ _ => le_rfl

/-- A search that ends leaves finished matrices. -/
theorem shortest_path_finished (hmap : MapValid n map)
    (h : shortest_path (num_switches map) fuel (topology_weights map) (link_latencies map)
      (fun _ _ => 0) = .ok (some p)) :
    Finished (num_switches map) (IsLink map) (topology_weights map) p :=
  extend_shortest_path_finished (fun i _ j _ => hmap.weights_nonneg i j) (sound_start map) h

/-- The links that are made are those of the link map, once the distances are known. -/
theorem create_links_ok (hmap : MapValid n map)
    (h : createLinks n fuel map = .ok (some links)) :
    ∃ p, Finished (num_switches map) (IsLink map) (topology_weights map) p ∧
      links = linksToMake n map p.current_dist := by
  unfold createLinks at h
  obtain ⟨r, hr, h⟩ := bind_eq_ok.mp h
  cases r with
  | none => cases h
  | some p =>
      refine ⟨p, shortest_path_finished hmap hr, ?_⟩
      cases hmake : (linksToMake n map p.current_dist).mapM (makeLink n) with
      | error e => simp [hmake] at h
      | ok made =>
          simp only [hmake, Functor.map, Except.map, Except.ok.injEq, Option.some.injEq] at h
          rw [← h]
          exact make_links_eq hmake

/-- The links come in the order of their ends, one for each. -/
theorem links_to_make_nodup (n : Nat) (map : LinkMap) (dist : Matrix) :
    ((linksToMake n map dist).map fun l => (l.src, l.dest)).Nodup := by
  have hsub : ∀ pairs : List (Nat × Nat), ((pairs.filterMap fun (i, j) =>
      if 0 < topology_weights map i j ∧ topology_weights map i j ≠ INFINITE_LATENCY then
        (map.lookup (i, j)).map fun link => (⟨i, j, link,
          shortest_path_to_node n i j (topology_weights map) dist⟩ : MadeLink)
      else none).map fun l => (l.src, l.dest)).Sublist pairs := by
    intro pairs
    induction pairs with
    | nil => exact .slnil
    | cons pair pairs ih =>
        obtain ⟨i, j⟩ := pair
        rw [List.filterMap_cons]
        simp only
        split
        · exact ih.cons _
        · next l hl =>
          have hkey : (l.src, l.dest) = (i, j) := by
            split at hl
            · obtain ⟨link, -, rfl⟩ := Option.map_eq_some_iff.mp hl
              rfl
            · cases hl
          rw [List.map_cons, hkey]
          exact ih.cons_cons _
  exact (List.Nodup.product List.nodup_range List.nodup_range).sublist (hsub _)

/-- The weight of a path over links is that of a walk. -/
theorem walk_of_path {weight latency inter : Int}
    (h : IsPath (IsLink map) i j weight latency inter) :
    Walk (Within {k | k < num_switches map} (topology_weights map)) i j weight := by
  refine Walk.map (f := Prod.fst) (fun _ _ => rfl) ?_ h
  rintro i j cost ⟨link, hlink, rfl⟩
  obtain ⟨hi, hj⟩ := lt_num_switches (mem_of_lookup hlink)
  exact ⟨hi, hj, (weights_of_lookup hlink).symm⟩

section Dist

variable (hmap : MapValid n map)
  (hp : Finished (num_switches map) (IsLink map) (topology_weights map) p)
include hmap hp

/-- No distance is longer than the "infinite" one. -/
theorem dist_le_infinite (hi : i < num_switches map) (hj : j < num_switches map) :
    p.current_dist i j ≤ INFINITE_LATENCY :=
  (hp.le_weight i hi j hj).trans (hmap.weights_le i j)

/-- No distance is negative. -/
theorem dist_nonneg (hi : i < num_switches map) (hj : j < num_switches map) :
    0 ≤ p.current_dist i j :=
  hp.dist_nonneg (fun i _ j _ => hmap.weights_nonneg i j) hi hj

/-- A link that takes messages for a node gets them closer to the node. -/
theorem closer_of_entry (hl : l ∈ linksToMake n map p.current_dist)
    (hd : d ∈ l.routing_table_entry) :
    d < n ∧ d + n < num_switches map ∧ 0 ≤ p.current_dist l.dest (d + n) ∧
      p.current_dist l.dest (d + n) < p.current_dist l.src (d + n) := by
  obtain ⟨hlink, hentry⟩ := (mem_links_to_make hmap).mp hl
  have hmem := mem_of_lookup hlink
  rw [hentry] at hd
  obtain ⟨hdn, hshortest⟩ := Finset.mem_filter.mp hd
  have hshortest := of_decide_eq_true hshortest
  rw [weights_of_lookup hlink] at hshortest
  have hlt := lt_num_switches hmem
  have hdn : d < n := Finset.mem_range.mp hdn
  have hfinal : d + n < num_switches map := by
    rcases hmap.kinds _ hmem with ⟨-, hdest⟩ | ⟨hsrc, -⟩
    · have h1 : 2 * n ≤ l.dest := hdest
      have h2 : l.dest < num_switches map := hlt.2
      omega
    · have h1 : 2 * n ≤ l.src := hsrc
      have h2 : l.src < num_switches map := hlt.1
      omega
  have hweight := (hmap.weight _ hmem).1
  simp only at hweight
  exact ⟨hdn, hfinal, dist_nonneg hmap hp hlt.2 hfinal, by omega⟩

omit hp in
/-- No link leaves the output queue of a node. -/
theorem no_link_from_output (hi : n ≤ i) (hi' : i < 2 * n) : map.lookup (i, j) = none := by
  cases hlink : map.lookup (i, j) with
  | none => rfl
  | some link =>
      rcases hmap.kinds _ (mem_of_lookup hlink) with ⟨hsrc, -⟩ | ⟨hsrc, -⟩
      · exact absurd hsrc (not_lt.mpr hi)
      · exact absurd hi' (not_lt.mpr hsrc)

/-- The output queue of a node is at itself. -/
theorem dist_output_self (hi : n ≤ i) (hi' : i < 2 * n) (hin : i < num_switches map) :
    p.current_dist i i = 0 := by
  have hweight : topology_weights map i i = 0 := by
    simp [topology_weights, no_link_from_output hmap hi hi']
  have hle := hp.le_weight i hin i hin
  have hnonneg := dist_nonneg hmap hp hin hin
  omega

/-- From the output queue of a node there is no way to another one. -/
theorem dist_from_output (hi : n ≤ i) (hi' : i < 2 * n) (hin : i < num_switches map)
    (hj : n ≤ j) (hj' : j < 2 * n) (hjn : j < num_switches map) (hne : i ≠ j) :
    INFINITE_LATENCY ≤ p.current_dist i j := by
  -- the first step away from the queue is already that long
  obtain ⟨k, hk, hki, hstep⟩ := hp.leastWalks.exists_next
    (fun k _ => hmap.weights_nonneg k k) (dist_output_self hmap hp hj hj' hjn).le hin hjn hne
  have hweight : topology_weights map i k = INFINITE_LATENCY := by
    simp [topology_weights, no_link_from_output hmap hi hi', Ne.symm hki]
  rw [hweight] at hstep
  have hrest := dist_nonneg hmap hp hk hjn
  omega

/-- The link to a node takes messages for this node only. -/
theorem own_of_entry (hl : l ∈ linksToMake n map p.current_dist) (hout : l.dest < 2 * n)
    (hd : d ∈ l.routing_table_entry) : l.dest = d + n := by
  obtain ⟨hdn, hfinal, -, hcloser⟩ := closer_of_entry hmap hp hl hd
  obtain ⟨hlink, -⟩ := (mem_links_to_make hmap).mp hl
  have hmem := mem_of_lookup hlink
  have hlt := lt_num_switches hmem
  by_contra hne
  have hdest : n ≤ l.dest := by
    rcases hmap.kinds _ hmem with ⟨-, hdest⟩ | ⟨-, hdest⟩
    · exact absurd hout (not_lt.mpr hdest)
    · exact hdest
  have hfar := dist_from_output hmap hp hdest hout hlt.2 (Nat.le_add_left n d) (by omega) hfinal hne
  have hnear : p.current_dist l.src (d + n) ≤ INFINITE_LATENCY :=
    dist_le_infinite hmap hp hlt.1 hfinal
  omega

end Dist

end Made

/-! ## The smallest network -/

/-- Two controllers and a router. -/
def crossbar : Topology where
  m_nodes := 2
  m_number_of_switches := 1
  ext_links := [{ ext_node := 0, int_node := 0 }, { ext_node := 1, int_node := 0 }]
  int_links := []

/-- It is valid. -/
theorem crossbar_valid : crossbar.Valid where
  ext_lt := by decide
  ext_nodup := by decide
  ext_weight := by decide
  int_weight := by decide

/-- Its link map. -/
def crossbarMap : LinkMap :=
  [((4, 3), {}), ((1, 4), {}), ((4, 2), {}), ((0, 4), {})]

/-- The constructor fills the link map. -/
theorem crossbar_link_map : crossbar.linkMap = .ok crossbarMap := rfl

/-- What the search for its shortest paths finds. -/
def crossbarPaths : Paths :=
  match shortest_path 5 3 (topology_weights crossbarMap) (link_latencies crossbarMap)
      (fun _ _ => 0) with
  | .ok (some p) => p
  | _ => ⟨topology_weights crossbarMap, link_latencies crossbarMap, fun _ _ => 0⟩

/-- The search ends in the third round. -/
theorem crossbar_search :
    shortest_path 5 3 (topology_weights crossbarMap) (link_latencies crossbarMap)
      (fun _ _ => 0) = .ok (some crossbarPaths) := rfl

/-- Its links, with their routing table entries. -/
def crossbarLinks : List MadeLink :=
  [⟨0, 4, {}, {0, 1}⟩, ⟨1, 4, {}, {0, 1}⟩, ⟨4, 2, {}, {0}⟩, ⟨4, 3, {}, {1}⟩]

/-- The links are made. -/
theorem crossbar_made : createLinks crossbar.m_nodes 3 crossbarMap = .ok (some crossbarLinks) := rfl

/-! ## What the tables are good for -/

variable {fuel : Nat} {map : LinkMap} {links : List MadeLink} {i d : Nat}

/-- The search for shortest paths over the links of a valid topology ends. The distances are the
least weights of walks, no path over links is shorter, and a distance below the "infinite" one is
that of a path over links which has the latency and the number of switches between as well. -/
theorem shortest_paths_found {t : Topology} (ht : t.Valid) (hlinks : t.linkMap = .ok map) :
    (∃ fuel p, shortest_path (num_switches map) fuel (topology_weights map) (link_latencies map)
      (fun _ _ => 0) = .ok (some p)) ∧
    ∀ fuel p, shortest_path (num_switches map) fuel (topology_weights map) (link_latencies map)
        (fun _ _ => 0) = .ok (some p) →
      ∀ i < num_switches map, ∀ j < num_switches map,
        IsLeast {m | Walk (Within {k | k < num_switches map} (topology_weights map)) i j m}
          (p.current_dist i j) ∧
        (∀ weight latency inter, IsPath (IsLink map) i j weight latency inter →
          p.current_dist i j ≤ weight) ∧
        (p.current_dist i j < INFINITE_LATENCY → i = j ∧ p.current_dist i j = 0 ∨
          IsPath (IsLink map) i j (p.current_dist i j) (p.latencies i j)
            (p.inter_switches i j)) := by
  have hmap := ht.mapValid hlinks
  refine ⟨?_, fun fuel p hp i hi j hj => ?_⟩
  · obtain ⟨p, hp⟩ := extend_shortest_path_ends (fun i _ j _ => hmap.weights_nonneg i j)
      (sound_start map) (Nat.lt_succ_self _)
    exact ⟨_, p, hp⟩
  · have hfinished := shortest_path_finished hmap hp
    have hleast := hfinished.leastWalks.isLeast hi hj
    exact ⟨hleast, fun weight latency inter hpath => hleast.2 (walk_of_path hpath),
      hfinished.way i hi j hj⟩

/-- The distance from the first controller to the second one is 2, with one switch between. -/
theorem crossbar_shortest_paths :
    (∃ fuel p, shortest_path 5 fuel (topology_weights crossbarMap) (link_latencies crossbarMap)
      (fun _ _ => 0) = .ok (some p)) ∧
    IsLeast {m | Walk (Within {k | k < 5} (topology_weights crossbarMap)) 0 3 m} 2 ∧
    IsPath (IsLink crossbarMap) 0 3 2 2 1 := by
  obtain ⟨hends, hfound⟩ := shortest_paths_found crossbar_valid crossbar_link_map
  obtain ⟨hleast, -, hpath⟩ := hfound 3 crossbarPaths crossbar_search 0 (by decide) 3 (by decide)
  refine ⟨hends, hleast, ?_⟩
  rcases hpath (by decide) with ⟨heq, -⟩ | hpath
  · cases heq
  · exact hpath

end Ece552.Ruby
