import Ece552.Library.LeastWalks
import Ece552.Library.Outcome
import Mathlib.Algebra.Order.BigOperators.Group.Finset
import Mathlib.Algebra.Order.Group.Int
import Mathlib.Algebra.Order.Ring.Int
import Mathlib.Data.Finset.Card
import Mathlib.Data.List.ProdSigma
import Mathlib.Tactic.Ring

/-!
# Shortest paths between switches

The search for the shortest paths between all pairs of switches that a Ruby topology runs before the
network starts. `extend_shortest_path_ends` says that its loop ends, and `Finished` what the three
matrices then hold: the distances are the least weights of walks, and the entries for a distance
below the "infinite" one are those of one and the same path over links.
-/

namespace Ece552.Ruby

open Library

/-- Why the simulation stops. -/
inductive Fault where
  /-- A failed assertion. -/
  | assertion (condition : String)
  /-- A call of `panic` or `fatal`. -/
  | panic (text : String)
  deriving DecidableEq, Repr

/-- Check an assertion. -/
def assertThat (condition : String) (holds : Prop) [Decidable holds] : Except Fault Unit :=
  if holds then .ok () else .error (.assertion condition)

/-- An assertion that does not fail holds. -/
@[simp] theorem assert_that_ok {condition : String} {holds : Prop} [Decidable holds] {u : Unit} :
    assertThat condition holds = .ok u ↔ holds := by
  by_cases h : holds <;> simp [assertThat, h]

/-- Panic unless all is well. -/
def panicUnless (text : String) (holds : Prop) [Decidable holds] : Except Fault Unit :=
  if holds then .ok () else .error (.panic text)

/-- Where there is no panic, all is well. -/
@[simp] theorem panic_unless_ok {text : String} {holds : Prop} [Decidable holds] {u : Unit} :
    panicUnless text holds = .ok u ↔ holds := by
  by_cases h : holds <;> simp [panicUnless, h]

/-- A matrix over the switches. -/
abbrev Matrix := Nat → Nat → Int

/-- `m[i][j] = v`. -/
def Matrix.set (m : Matrix) (i j : Nat) (v : Int) : Matrix :=
  fun a b => if a = i ∧ b = j then v else m a b

/-- The entry that is set. -/
@[simp] theorem Matrix.set_same (m : Matrix) (i j : Nat) (v : Int) : m.set i j v i j = v := by
  simp [Matrix.set]

/-- The other entries stay as they are. -/
theorem Matrix.set_other (m : Matrix) {i j a b : Nat} (v : Int) (h : ¬ (a = i ∧ b = j)) :
    m.set i j v a b = m a b := by
  simp [Matrix.set, h]

/-- The weight of a link that there is not. -/
def INFINITE_LATENCY : Int := 10000

/-! ## All-pairs shortest paths -/

/-- The three matrices that the search for shortest paths works on. -/
structure Paths where
  current_dist : Matrix
  latencies : Matrix
  inter_switches : Matrix

/-- The variables of the innermost loop. -/
structure Scan where
  minimum : Int
  intermediate_switch : Option Nat
  inter_switches : Matrix

/-- One round of the loop over `k`: is the way from `i` to `j` through `k` shorter? -/
def tryIntermediate (p : Paths) (i j : Nat) (s : Scan) (k : Nat) : Scan :=
  let minimum := min s.minimum (p.current_dist i k + p.current_dist k j)
  if s.minimum ≠ minimum then
    { minimum := minimum
      intermediate_switch := some k
      inter_switches :=
        s.inter_switches.set i j (s.inter_switches i k + s.inter_switches k j + 1) }
  else s

/-- The loop over `k`. -/
def scanIntermediates (nodes : Nat) (p : Paths) (i j : Nat) : Scan :=
  (List.range nodes).foldl (tryIntermediate p i j) ⟨p.current_dist i j, none, p.inter_switches⟩

/-- One round of the loops over `i` and `j`, with the flag `change`. -/
def relaxPair (nodes : Nat) (state : Paths × Bool) (pair : Nat × Nat) :
    Except Fault (Paths × Bool) :=
  let (p, change) := state
  let (i, j) := pair
  let scan := scanIntermediates nodes p i j
  if p.current_dist i j ≠ scan.minimum then
    match scan.intermediate_switch with
    | none => .error (.assertion "intermediate_switch >= 0")
    | some k =>
        if k < nodes then
          .ok ({ current_dist := p.current_dist.set i j scan.minimum
                 latencies := p.latencies.set i j (p.latencies i k + p.latencies k j)
                 inter_switches := scan.inter_switches }, true)
        else .error (.assertion "intermediate_switch < latencies[i].size()")
  else .ok ({ p with inter_switches := scan.inter_switches }, change)

/-- All pairs in the order of the loops. -/
def allPairs (nodes : Nat) : List (Nat × Nat) :=
  List.range nodes ×ˢ List.range nodes

/-- `while (change)`, for at most this many rounds. -/
def extend_shortest_path (nodes : Nat) : Nat → Paths → Except Fault (Option Paths)
  | 0, _ => .ok none
  | fuel + 1, p => do
      let (p, change) ← (allPairs nodes).foldlM (relaxPair nodes) (p, false)
      if change then extend_shortest_path nodes fuel p else pure (some p)

/-- The search starts from the weights of the single links. -/
def shortest_path (nodes fuel : Nat) (weights latencies inter_switches : Matrix) :
    Except Fault (Option Paths) :=
  extend_shortest_path nodes fuel ⟨weights, latencies, inter_switches⟩

/-- The loops run over all pairs. -/
@[simp] theorem mem_all_pairs {nodes : Nat} {pair : Nat × Nat} :
    pair ∈ allPairs nodes ↔ pair.1 < nodes ∧ pair.2 < nodes := by
  obtain ⟨i, j⟩ := pair
  simp [allPairs]

/-! ## What the search computes -/

section Search

variable {nodes : Nat} {link : Nat → Nat → Int × Int × Int → Prop} {weights : Matrix}
  {p p' : Paths} {i j k : Nat}

/-- A path over links, with its weight, its latency and the switches between. A link comes with its
weight, its latency and 1 for itself. -/
def IsPath (link : Nat → Nat → Int × Int × Int → Prop) (i j : Nat)
    (dist latency inter : Int) : Prop :=
  Walk link i j (dist, latency, inter + 1)

/-- Two paths share the switch between them. -/
theorem IsPath.append {d l c d' l' c' : Int} (h : IsPath link i k d l c)
    (h' : IsPath link k j d' l' c') : IsPath link i j (d + d') (l + l') (c + c' + 1) := by
  have hcost : ((d + d', l + l', c + c' + 1 + 1) : Int × Int × Int) =
      (d, l, c + 1) + (d', l', c' + 1) := by
    simp only [Prod.mk_add_mk, Prod.mk.injEq, true_and]
    ring
  unfold IsPath
  rw [hcost]
  exact Walk.append h h'

/-- Walks over entries that are not negative have no negative weight. -/
theorem walk_nonneg (hweights : ∀ i < nodes, ∀ j < nodes, 0 ≤ weights i j) {d : Int}
    (h : Walk (Within {k | k < nodes} weights) i j d) : 0 ≤ d := by
  induction h with
  | edge hedge =>
      obtain ⟨hi, hj, rfl⟩ := hedge
      exact hweights _ hi _ hj
  | step hedge _ ih =>
      obtain ⟨hi, hk, rfl⟩ := hedge
      exact add_nonneg (hweights _ hi _ hk) ih

/-- The entries for two switches, unless they are too far from each other, are those of a path, or
say that a switch is at itself. -/
def IsWay (link : Nat → Nat → Int × Int × Int → Prop) (i j : Nat)
    (dist latency inter : Int) : Prop :=
  dist < INFINITE_LATENCY → i = j ∧ dist = 0 ∨ IsPath link i j dist latency inter

/-- Every distance is that of a walk and no longer than the link, and the entries for two switches
are those of a way. -/
structure Sound (nodes : Nat) (link : Nat → Nat → Int × Int × Int → Prop) (weights : Matrix)
    (p : Paths) : Prop where
  walk : ∀ i < nodes, ∀ j < nodes, Walk (Within {k | k < nodes} weights) i j (p.current_dist i j)
  way : ∀ i < nodes, ∀ j < nodes, IsWay link i j (p.current_dist i j) (p.latencies i j)
    (p.inter_switches i j)
  le_weight : ∀ i < nodes, ∀ j < nodes, p.current_dist i j ≤ weights i j

/-- No distance is negative. -/
theorem Sound.dist_nonneg (h : Sound nodes link weights p)
    (hweights : ∀ i < nodes, ∀ j < nodes, 0 ≤ weights i j) (hi : i < nodes) (hj : j < nodes) :
    0 ≤ p.current_dist i j :=
  walk_nonneg hweights (h.walk i hi j hj)

/-- Two ways make a way through the switch between them. -/
theorem Sound.way_append (h : Sound nodes link weights p)
    (hweights : ∀ i < nodes, ∀ j < nodes, 0 ≤ weights i j) (hi : i < nodes) (hj : j < nodes)
    (hk : k < nodes) (hki : k ≠ i) (hkj : k ≠ j) :
    IsWay link i j (p.current_dist i k + p.current_dist k j) (p.latencies i k + p.latencies k j)
      (p.inter_switches i k + p.inter_switches k j + 1) := by
  intro hnear
  have hleft := h.dist_nonneg hweights hi hk
  have hright := h.dist_nonneg hweights hk hj
  rcases h.way i hi k hk (by omega) with ⟨heq, -⟩ | hfirst
  · exact absurd heq.symm hki
  · rcases h.way k hk j hj (by omega) with ⟨heq, -⟩ | hsecond
    · exact absurd heq hkj
    · exact .inr (hfirst.append hsecond)

/-- The latency of the way that the loop over `k` has chosen. -/
def Scan.latency (p : Paths) (i j : Nat) (s : Scan) : Int :=
  match s.intermediate_switch with
  | none => p.latencies i j
  | some k => p.latencies i k + p.latencies k j

/-- What holds after each round of the loop over `k`, when `seen` are the rounds so far. -/
structure ScanOk (nodes : Nat) (link : Nat → Nat → Int × Int × Int → Prop) (weights : Matrix)
    (p : Paths) (i j : Nat) (seen : List Nat) (s : Scan) : Prop where
  walk : Walk (Within {k | k < nodes} weights) i j s.minimum
  way : IsWay link i j s.minimum (s.latency p i j) (s.inter_switches i j)
  frame : ∀ a b, ¬ (a = i ∧ b = j) → s.inter_switches a b = p.inter_switches a b
  le_dist : s.minimum ≤ p.current_dist i j
  le_seen : ∀ k ∈ seen, s.minimum ≤ p.current_dist i k + p.current_dist k j
  chosen : ∀ k, s.intermediate_switch = some k → k < nodes
  unchanged : s.intermediate_switch = none →
    s.minimum = p.current_dist i j ∧ s.inter_switches i j = p.inter_switches i j
  changed : s.intermediate_switch ≠ none → s.minimum < p.current_dist i j

/-- Before the loop over `k`. -/
theorem scan_start (hp : Sound nodes link weights p) (hi : i < nodes) (hj : j < nodes) :
    ScanOk nodes link weights p i j [] ⟨p.current_dist i j, none, p.inter_switches⟩ where
  walk := hp.walk i hi j hj
  way := hp.way i hi j hj
  frame := fun _ _ _ => rfl
  le_dist := le_rfl
  le_seen := fun _ hk => absurd hk List.not_mem_nil
  chosen := fun _ hk => absurd hk.symm (Option.some_ne_none _)
  unchanged := fun _ => ⟨rfl, rfl⟩
  changed := fun h => absurd rfl h

/-- Step lemma of the loop over `k`. -/
theorem scan_step (hp : Sound nodes link weights p)
    (hweights : ∀ i < nodes, ∀ j < nodes, 0 ≤ weights i j) (hi : i < nodes) (hj : j < nodes)
    (hk : k < nodes) {seen : List Nat} {s : Scan}
    (h : ScanOk nodes link weights p i j seen s) :
    ScanOk nodes link weights p i j (seen ++ [k]) (tryIntermediate p i j s k) := by
  unfold tryIntermediate
  by_cases hle : s.minimum ≤ p.current_dist i k + p.current_dist k j
  · simp only [min_eq_left hle, ne_eq, not_true_eq_false, if_false]
    refine { h with le_seen := fun k' hk' => ?_ }
    rcases List.mem_append.mp hk' with hseen | hlast
    · exact h.le_seen k' hseen
    · rw [List.mem_singleton.mp hlast]
      exact hle
  · have hlt : p.current_dist i k + p.current_dist k j < s.minimum := not_le.mp hle
    have hdist : p.current_dist i k + p.current_dist k j < p.current_dist i j :=
      lt_of_lt_of_le hlt h.le_dist
    -- a shorter way through `k` needs both its parts, as no distance is negative
    have hkj : k ≠ j := by
      rintro rfl
      have := hp.dist_nonneg hweights hk hk
      omega
    have hki : k ≠ i := by
      rintro rfl
      have := hp.dist_nonneg hweights hk hk
      omega
    simp only [min_eq_right hlt.le, ne_eq, hlt.ne', not_false_eq_true, if_true]
    have hik : s.inter_switches i k = p.inter_switches i k := h.frame i k fun hc => hkj hc.2
    have hkj' : s.inter_switches k j = p.inter_switches k j := h.frame k j fun hc => hki hc.1
    constructor
    · exact (hp.walk i hi k hk).append (hp.walk k hk j hj)
    · simp only [Scan.latency, Matrix.set_same, hik, hkj']
      exact hp.way_append hweights hi hj hk hki hkj
    · intro a b hab
      simp only [Matrix.set_other _ _ hab]
      exact h.frame a b hab
    · exact hdist.le
    · intro k' hk'
      rcases List.mem_append.mp hk' with hseen | hlast
      · exact hlt.le.trans (h.le_seen k' hseen)
      · rw [List.mem_singleton.mp hlast]
    · intro k' hk'
      cases hk'
      exact hk
    · intro hnone
      cases hnone
    · intro _
      exact hdist

/-- What the loop over `k` has found when it ends. -/
theorem scan_ok (hp : Sound nodes link weights p)
    (hweights : ∀ i < nodes, ∀ j < nodes, 0 ≤ weights i j) (hi : i < nodes) (hj : j < nodes) :
    ScanOk nodes link weights p i j (List.range nodes) (scanIntermediates nodes p i j) := by
  have hfold : ∀ seen rest, seen ++ rest = List.range nodes → ∀ s,
      ScanOk nodes link weights p i j seen s → ScanOk nodes link weights p i j
        (List.range nodes) (rest.foldl (tryIntermediate p i j) s) := by
    intro seen rest
    induction rest generalizing seen with
    | nil =>
        intro hall s h
        rw [List.append_nil] at hall
        rwa [← hall]
    | cons k rest ih =>
        intro hall s h
        have hk : k < nodes := List.mem_range.mp (hall ▸ by simp)
        refine ih (seen ++ [k]) ?_ _ (scan_step hp hweights hi hj hk h)
        rw [List.append_assoc, List.singleton_append, hall]
  exact hfold [] _ rfl _ (scan_start hp hi hj)

/-- A shorter way that the loop over `k` has found keeps the matrices sound. -/
theorem ScanOk.sound_set {seen : List Nat} {s : Scan} (h : ScanOk nodes link weights p i j seen s)
    (hp : Sound nodes link weights p) (hk : s.intermediate_switch = some k) :
    Sound nodes link weights
      { current_dist := p.current_dist.set i j s.minimum
        latencies := p.latencies.set i j (p.latencies i k + p.latencies k j)
        inter_switches := s.inter_switches } := by
  have hlatency : s.latency p i j = p.latencies i k + p.latencies k j := by
    simp [Scan.latency, hk]
  have hlt : s.minimum < p.current_dist i j := h.changed (by simp [hk])
  refine ⟨fun a ha b hb => ?_, fun a ha b hb => ?_, fun a ha b hb => ?_⟩
  · by_cases hab : a = i ∧ b = j
    · obtain ⟨rfl, rfl⟩ := hab
      simp only [Matrix.set_same]
      exact h.walk
    · simp only [Matrix.set_other _ _ hab]
      exact hp.walk a ha b hb
  · by_cases hab : a = i ∧ b = j
    · obtain ⟨rfl, rfl⟩ := hab
      simp only [Matrix.set_same]
      rw [← hlatency]
      exact h.way
    · simp only [Matrix.set_other _ _ hab, h.frame a b hab]
      exact hp.way a ha b hb
  · by_cases hab : a = i ∧ b = j
    · obtain ⟨rfl, rfl⟩ := hab
      simp only [Matrix.set_same]
      exact hlt.le.trans (hp.le_weight a ha b hb)
    · simp only [Matrix.set_other _ _ hab]
      exact hp.le_weight a ha b hb

/-- If the loop over `k` has found nothing shorter, it has changed nothing. -/
theorem ScanOk.inter_switches_eq {seen : List Nat} {s : Scan}
    (h : ScanOk nodes link weights p i j seen s) (hsame : p.current_dist i j = s.minimum) :
    s.inter_switches = p.inter_switches := by
  have hnone : s.intermediate_switch = none := by
    by_contra hc
    exact absurd (h.changed hc) (by omega)
  funext a b
  by_cases hab : a = i ∧ b = j
  · obtain ⟨rfl, rfl⟩ := hab
    exact (h.unchanged hnone).2
  · exact h.frame a b hab

/-- What the lengths of all the shortest paths known so far add up to. -/
def totalDist (nodes : Nat) (m : Matrix) : Nat :=
  ∑ i ∈ Finset.range nodes, ∑ j ∈ Finset.range nodes, (m i j).toNat

/-- A shorter distance lowers the total. -/
theorem total_dist_set {m : Matrix} {v : Int} (hi : i < nodes) (hj : j < nodes)
    (hv : 0 ≤ v) (hlt : v < m i j) : totalDist nodes (m.set i j v) < totalDist nodes m := by
  have hle : ∀ a b, ((m.set i j v) a b).toNat ≤ (m a b).toNat := by
    intro a b
    by_cases hab : a = i ∧ b = j
    · obtain ⟨rfl, rfl⟩ := hab
      rw [Matrix.set_same]
      omega
    · rw [Matrix.set_other _ _ hab]
  refine Finset.sum_lt_sum (fun a _ => Finset.sum_le_sum fun b _ => hle a b)
    ⟨i, Finset.mem_range.mpr hi, ?_⟩
  refine Finset.sum_lt_sum (fun b _ => hle i b) ⟨j, Finset.mem_range.mpr hj, ?_⟩
  rw [Matrix.set_same]
  omega

/-- What one pass over the pairs has done, when `seen` are the pairs so far: nothing but look, or
the total distance went down. -/
structure PassOk (nodes : Nat) (link : Nat → Nat → Int × Int × Int → Prop) (weights : Matrix)
    (start : Paths) (seen : List (Nat × Nat)) (state : Paths × Bool) : Prop where
  sound : Sound nodes link weights state.1
  idle : state.2 = false → state.1.current_dist = start.current_dist ∧
    ∀ pair ∈ seen, ∀ k < nodes, start.current_dist pair.1 pair.2 ≤
      start.current_dist pair.1 k + start.current_dist k pair.2
  total : totalDist nodes state.1.current_dist ≤ totalDist nodes start.current_dist
  total_lt : state.2 = true →
    totalDist nodes state.1.current_dist < totalDist nodes start.current_dist

/-- Step lemma of the loops over `i` and `j`. -/
theorem relax_pair_ok (hweights : ∀ i < nodes, ∀ j < nodes, 0 ≤ weights i j) {start : Paths}
    {seen : List (Nat × Nat)} {state : Paths × Bool} {pair : Nat × Nat}
    (h : PassOk nodes link weights start seen state) (hpair : pair ∈ allPairs nodes) :
    Ensures (fun _ => False) (PassOk nodes link weights start (seen ++ [pair]))
      (relaxPair nodes state pair) := by
  obtain ⟨p, change⟩ := state
  obtain ⟨i, j⟩ := pair
  obtain ⟨hi, hj⟩ : i < nodes ∧ j < nodes := mem_all_pairs.mp hpair
  have hp : Sound nodes link weights p := h.sound
  have hscan := scan_ok hp hweights hi hj
  unfold relaxPair
  simp only
  generalize scanIntermediates nodes p i j = s at hscan
  split
  · next hne =>
    split
    · next hnone => exact hne (hscan.unchanged hnone).1.symm
    · next k hk =>
      have hlt : s.minimum < p.current_dist i j := hscan.changed (by simp [hk])
      rw [if_pos (hscan.chosen k hk)]
      have hmin : 0 ≤ s.minimum := walk_nonneg hweights hscan.walk
      have htotal := total_dist_set hi hj hmin hlt
      refine ⟨hscan.sound_set hp hk, fun hc => ?_, ?_, fun _ => ?_⟩
      · cases hc
      · exact htotal.le.trans h.total
      · exact lt_of_lt_of_le htotal h.total
  · next heq =>
    have heq : p.current_dist i j = s.minimum := not_not.mp heq
    rw [hscan.inter_switches_eq heq]
    refine ⟨hp, fun hc => ?_, h.total, h.total_lt⟩
    obtain ⟨hsame, hseen⟩ := h.idle hc
    refine ⟨hsame, fun pair hpair k hk => ?_⟩
    rcases List.mem_append.mp hpair with hbefore | hlast
    · exact hseen pair hbefore k hk
    · rw [List.mem_singleton.mp hlast, ← hsame]
      show p.current_dist i j ≤ p.current_dist i k + p.current_dist k j
      rw [heq]
      exact hscan.le_seen k (List.mem_range.mpr hk)

/-- One pass over all pairs of switches. -/
theorem pass_ok (hweights : ∀ i < nodes, ∀ j < nodes, 0 ≤ weights i j)
    (hp : Sound nodes link weights p) :
    Ensures (fun _ => False) (PassOk nodes link weights p (allPairs nodes))
      ((allPairs nodes).foldlM (relaxPair nodes) (p, false)) := by
  have hfold : ∀ seen rest, seen ++ rest = allPairs nodes → ∀ state,
      PassOk nodes link weights p seen state → Ensures (fun _ => False)
        (PassOk nodes link weights p (allPairs nodes))
        (rest.foldlM (relaxPair nodes) state) := by
    intro seen rest
    induction rest generalizing seen with
    | nil =>
        intro hall state h
        rw [List.append_nil] at hall
        rwa [← hall]
    | cons pair rest ih =>
        intro hall state h
        have hpair : pair ∈ allPairs nodes := hall ▸ by simp
        rw [List.foldlM_cons]
        refine (relax_pair_ok hweights h hpair).bind fun state' h' => ih (seen ++ [pair]) ?_ _ h'
        rw [List.append_assoc, List.singleton_append, hall]
  refine hfold [] _ rfl _ ⟨hp, fun _ => ⟨rfl, fun pair hpair => ?_⟩, le_rfl, fun hc => ?_⟩
  · exact absurd hpair List.not_mem_nil
  · cases hc

/-- The matrices are sound, and no way through another switch is shorter. -/
structure Finished (nodes : Nat) (link : Nat → Nat → Int × Int × Int → Prop) (weights : Matrix)
    (p : Paths) : Prop extends Sound nodes link weights p where
  triangle : ∀ i < nodes, ∀ j < nodes, ∀ k < nodes,
    p.current_dist i j ≤ p.current_dist i k + p.current_dist k j

/-- Whenever the search ends, it is finished. -/
theorem extend_shortest_path_finished (hweights : ∀ i < nodes, ∀ j < nodes, 0 ≤ weights i j)
    {fuel : Nat} (hp : Sound nodes link weights p)
    (h : extend_shortest_path nodes fuel p = .ok (some p')) :
    Finished nodes link weights p' := by
  induction fuel generalizing p with
  | zero => cases h
  | succ fuel ih =>
      unfold extend_shortest_path at h
      obtain ⟨⟨q, change⟩, hpass, h⟩ := bind_eq_ok.mp h
      have hok := (pass_ok hweights hp).of_ok hpass
      cases change with
      | true => exact ih hok.sound h
      | false =>
          obtain ⟨hsame, htriangle⟩ := hok.idle rfl
          obtain rfl := Option.some.inj (Except.ok.inj h)
          refine { hok.sound with triangle := fun i hi j hj k hk => ?_ }
          simp only at hsame
          rw [hsame]
          exact htriangle (i, j) (mem_all_pairs.mpr ⟨hi, hj⟩) k hk

/-- The search ends as soon as there are more rounds than the distances add up to. -/
theorem extend_shortest_path_ends (hweights : ∀ i < nodes, ∀ j < nodes, 0 ≤ weights i j)
    {fuel : Nat} (hp : Sound nodes link weights p)
    (hfuel : totalDist nodes p.current_dist < fuel) :
    ∃ p', extend_shortest_path nodes fuel p = .ok (some p') := by
  induction fuel generalizing p with
  | zero => exact absurd hfuel (Nat.not_lt_zero _)
  | succ fuel ih =>
      obtain ⟨⟨p', change⟩, hpass, hok⟩ := (pass_ok hweights hp).exists_ok fun _ h => h
      unfold extend_shortest_path
      rw [hpass]
      cases change with
      | true =>
          have hlt : totalDist nodes p'.current_dist < totalDist nodes p.current_dist :=
            hok.total_lt rfl
          exact ih hok.sound (by omega)
      | false => exact ⟨p', rfl⟩

/-- The distances of a finished search are the least weights of all walks. -/
theorem Finished.leastWalks (h : Finished nodes link weights p) :
    LeastWalks {k | k < nodes} weights p.current_dist where
  realised := h.walk
  le_cost := h.le_weight
  triangle := h.triangle

end Search

end Ece552.Ruby
