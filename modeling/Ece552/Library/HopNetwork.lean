import Ece552.Library.FifoNetwork
import Mathlib.Data.Finset.Basic
import Mathlib.Data.List.Nodup

/-!
# Networks of queues with fixed hops

Messages for several nodes travel through queues; the copy for a node takes, in each queue, the one
hop that is fixed for that node, and on the way a message splits into parcels for fewer nodes. As a
queue is first-in first-out and no path returns to a queue, such a network is a network of
first-in first-out channels: `HopLog.refines` gives for every history of sends and receives of the
queues the same history of a `Network`. `FifoLog.channel` says what such a history looks like on one
channel.
-/

namespace Ece552.Library

variable {β N M : Type*}

/-- A message on its way to the nodes that this copy is for. -/
structure Parcel (N M : Type*) where
  src : N
  dests : Finset N
  msg : M

/-- What the nodes see of a network. -/
inductive NetEvent (N M : Type*) where
  | sent (src : N) (dests : Finset N) (msg : M)
  | received (dst src : N) (msg : M)

/-! ## Histories of a network of channels -/

section Fifo

variable [DecidableEq N]

/-- The histories of a first-in first-out network. A message for several nodes is sent to one after
the other, in any order. -/
inductive FifoLog : List (NetEvent N M) → Network N M → Prop where
  | empty : FifoLog [] .empty
  | send {log : List (NetEvent N M)} {net : Network N M} (src : N) (dsts : List N) (msg : M) :
      FifoLog log net → dsts.Nodup →
      FifoLog (log ++ [.sent src dsts.toFinset msg]) (net.send (dsts.map fun d => ⟨src, d, msg⟩))
  | deliver {log : List (NetEvent N M)} {net net' : Network N M} {src dst : N} :
      FifoLog log net → net.deliver src dst = some net' → FifoLog log net'
  | receive {log : List (NetEvent N M)} {net : Network N M} {dst : N} {p : Packet N M} :
      FifoLog log net → net.head dst = some p →
      FifoLog (log ++ [.received dst p.src p.msg]) (net.pop dst)

/-- The message that an event sends on a channel. -/
def NetEvent.sentOn (src dst : N) : NetEvent N M → Option M
  | .sent s dests msg => if s = src ∧ dst ∈ dests then some msg else none
  | .received _ _ _ => none

/-- The message that an event receives from a channel. -/
def NetEvent.receivedOn (src dst : N) : NetEvent N M → Option M
  | .sent _ _ _ => none
  | .received d s msg => if s = src ∧ d = dst then some msg else none

namespace Network

variable {net net' : Network N M} {src dst : N} {p : Packet N M}

/-- A packet that is next on its channel can be delivered. -/
theorem deliver_of_next (h : net.nextArrival src dst = some p) :
    ∃ net', net.deliver src dst = some net' ∧ net'.inFlight = net.inFlight ∧
      net'.arrived = net.arrived ++ [p] := by
  unfold deliver
  split
  · next hnone => exact absurd (hnone.symm.trans h) (Option.some_ne_none p).symm
  · next q hq =>
      obtain rfl : q = p := Option.some.inj (hq.symm.trans h)
      exact ⟨_, rfl, rfl, rfl⟩

/-- What consuming the head of a buffer does to the two lists. -/
theorem pop_lists (h : net.head dst = some p) :
    (net.pop dst).inFlight = net.inFlight.eraseP (Packet.onChannel p.src dst) ∧
      (net.pop dst).arrived = net.arrived.eraseP (Packet.isFor dst) := by
  unfold pop
  split
  · next hnone => exact absurd (hnone.symm.trans h) (Option.some_ne_none p).symm
  · next q hq =>
      obtain rfl : q = p := Option.some.inj (hq.symm.trans h)
      exact ⟨rfl, rfl⟩

/-- Two channels that differ share no packet. -/
theorem on_channel_disjoint {src' dst' : N} (hne : ¬ (src' = src ∧ dst' = dst)) (x : Packet N M)
    (hx : x.onChannel src' dst' = true) : x.onChannel src dst = false := by
  rw [Bool.eq_false_iff]
  intro hx'
  obtain ⟨rfl, rfl⟩ := Packet.on_channel_iff.mp hx
  exact hne (Packet.on_channel_iff.mp hx')

end Network

/-- The packets of a multicast that travel on one channel. -/
theorem multicast_on_channel {src s d : N} {dsts : List N} {msg : M} (hnodup : dsts.Nodup) :
    ((dsts.map fun d => (⟨src, d, msg⟩ : Packet N M)).filter (Packet.onChannel s d)).map (·.msg) =
      if src = s ∧ d ∈ dsts then [msg] else [] := by
  induction dsts with
  | nil => simp
  | cons x dsts ih =>
      obtain ⟨hx, hnodup⟩ := List.nodup_cons.mp hnodup
      rw [List.map_cons, List.filter_cons]
      by_cases hsrc : src = s
      · by_cases hdst : x = d
        · have hrest : ¬ (src = s ∧ d ∈ dsts) := fun h => hx (hdst ▸ h.2)
          rw [if_pos (Packet.on_channel_iff.mpr ⟨hsrc, hdst⟩), List.map_cons, ih hnodup,
            if_neg hrest, if_pos ⟨hsrc, by simp [hdst]⟩]
        · have hother : ¬ (Packet.onChannel s d (⟨src, x, msg⟩ : Packet N M) = true) :=
            fun h => hdst (Packet.on_channel_iff.mp h).2
          rw [if_neg hother, ih hnodup]
          simp [Ne.symm hdst]
      · have hother : ¬ (Packet.onChannel s d (⟨src, x, msg⟩ : Packet N M) = true) :=
          fun h => hsrc (Packet.on_channel_iff.mp h).1
        rw [if_neg hother, ih hnodup]
        simp [hsrc]

/-- On every channel the messages received so far are the first ones sent, in the order of sending,
and the others are in flight. -/
theorem FifoLog.channel {log : List (NetEvent N M)} {net : Network N M} (h : FifoLog log net)
    (src dst : N) : log.filterMap (NetEvent.sentOn src dst) =
      log.filterMap (NetEvent.receivedOn src dst) ++
        (net.inFlight.filter (Packet.onChannel src dst)).map (·.msg) := by
  induction h with
  | empty => rfl
  | send s dsts msg _ hnodup ih =>
      rw [List.filterMap_append, List.filterMap_append, ih, Network.send_in_flight,
        List.filter_append, List.map_append, multicast_on_channel hnodup]
      by_cases hon : s = src ∧ dst ∈ dsts
      · simp [NetEvent.sentOn, NetEvent.receivedOn, hon]
      · simp [NetEvent.sentOn, NetEvent.receivedOn, hon]
  | deliver _ hdeliver ih => rw [ih, Network.deliver_in_flight hdeliver]
  | @receive log net d p _ hhead ih =>
      obtain ⟨hdst, hfirst⟩ := Network.head_channel hhead
      rw [List.filterMap_append, List.filterMap_append, ih, (Network.pop_lists hhead).1]
      by_cases hon : p.src = src ∧ d = dst
      · obtain ⟨rfl, rfl⟩ := hon
        rw [filter_erase_same]
        rw [← List.head?_filter, List.head?_eq_some_iff] at hfirst
        obtain ⟨rest, hrest⟩ := hfirst
        simp [NetEvent.sentOn, NetEvent.receivedOn, hrest]
      · rw [filter_erase_disjoint (Network.on_channel_disjoint fun h => hon ⟨h.1.symm, h.2.symm⟩)]
        simp [NetEvent.sentOn, NetEvent.receivedOn, hon]

end Fifo

/-! ## Paths -/

/-- Where messages enter and leave the queues, and the hop that the copy for a node takes from a
queue. The rank of a queue bounds the hops from it. -/
structure Hops (β N : Type*) where
  entry : N → β
  exit : N → β
  hop : β → N → Option β
  rank : N → β → Nat
  hop_rank : ∀ {b b' d}, hop b d = some b' → rank d b' < rank d b
  hop_exit : ∀ d d', hop (exit d) d' = none
  exit_own : ∀ {b d d'}, hop b d' = some (exit d) → d' = d
  exit_inj : ∀ {d d'}, exit d = exit d' → d = d'
  entry_ne_exit : ∀ s d, entry s ≠ exit d

namespace Hops

variable {H : Hops β N} {d : N} {b b' c : β}

/-- The queues that the copy for a node takes from a queue on. -/
def path (H : Hops β N) (d : N) (b : β) : List β :=
  match _hop : H.hop b d with
  | none => [b]
  | some b' => b :: H.path d b'
termination_by H.rank d b
decreasing_by exact H.hop_rank _hop

theorem path_of_none (h : H.hop b d = none) : H.path d b = [b] := by
  rw [path]
  split
  · rfl
  · next hsome => exact absurd (h.symm.trans hsome) (Option.some_ne_none _).symm

theorem path_of_some (h : H.hop b d = some b') : H.path d b = b :: H.path d b' := by
  rw [path]
  split
  · next hnone => exact absurd (hnone.symm.trans h) (Option.some_ne_none _).symm
  · next hsome => rw [Option.some.inj (hsome.symm.trans h)]

/-- A path starts with its queue. -/
theorem mem_path_self : b ∈ H.path d b := by
  cases h : H.hop b d with
  | none => simp [path_of_none h]
  | some b' => simp [path_of_some h]

/-- No queue of a path has a higher rank than the first. -/
theorem rank_le_of_mem (h : c ∈ H.path d b) : H.rank d c ≤ H.rank d b := by
  induction hr : H.rank d b using Nat.strong_induction_on generalizing b with
  | _ r ih =>
      subst hr
      cases hop : H.hop b d with
      | none =>
          rw [path_of_none hop, List.mem_singleton] at h
          rw [h]
      | some b' =>
          rw [path_of_some hop, List.mem_cons] at h
          rcases h with rfl | h
          · exact le_rfl
          · exact (ih _ (H.hop_rank hop) h rfl).trans (H.hop_rank hop).le

/-- A queue of a path splits it into queues of higher rank and its own path. -/
theorem path_split (h : c ∈ H.path d b) :
    ∃ before, H.path d b = before ++ H.path d c ∧ ∀ x ∈ before, H.rank d c < H.rank d x := by
  induction hr : H.rank d b using Nat.strong_induction_on generalizing b with
  | _ r ih =>
      subst hr
      by_cases hcb : c = b
      · exact ⟨[], by simp [hcb], by simp⟩
      cases hop : H.hop b d with
      | none =>
          rw [path_of_none hop, List.mem_singleton] at h
          exact absurd h hcb
      | some b' =>
          rw [path_of_some hop, List.mem_cons] at h
          have hrest : c ∈ H.path d b' := h.resolve_left hcb
          obtain ⟨before, hpath, hbefore⟩ := ih _ (H.hop_rank hop) hrest rfl
          refine ⟨b :: before, by rw [path_of_some hop, hpath, List.cons_append], ?_⟩
          intro x hx
          rcases List.mem_cons.mp hx with rfl | hx
          · exact (rank_le_of_mem hrest).trans_lt (H.hop_rank hop)
          · exact hbefore x hx

/-- A path does not return to its first queue. -/
theorem path_head : ∃ rest, H.path d b = b :: rest ∧ b ∉ rest := by
  cases hop : H.hop b d with
  | none => exact ⟨[], path_of_none hop, List.not_mem_nil⟩
  | some b' =>
      refine ⟨_, path_of_some hop, fun hmem => ?_⟩
      exact absurd (rank_le_of_mem hmem) (not_le.mpr (H.hop_rank hop))

/-- A path goes on with the hop of each of its queues. -/
theorem mem_path_hop (hb : b ∈ H.path d c) (hop : H.hop b d = some b') : b' ∈ H.path d c := by
  obtain ⟨before, hpath, -⟩ := path_split hb
  rw [hpath, path_of_some hop]
  exact List.mem_append_right _ (List.mem_cons_of_mem _ mem_path_self)

end Hops

/-! ## Messages along a path -/

section Flow

variable [DecidableEq N] {H : Hops β N} {q q' : β → List (Parcel N M)} {src dst : N} {b b' : β}
  {p : Parcel N M}

/-- The messages of a queue that go from one node to another. -/
def flow (src dst : N) (parcels : List (Parcel N M)) : List M :=
  (parcels.filter fun p => decide (p.src = src ∧ dst ∈ p.dests)).map (·.msg)

@[simp] theorem flow_nil : flow src dst ([] : List (Parcel N M)) = [] := rfl

@[simp] theorem flow_append (l l' : List (Parcel N M)) :
    flow src dst (l ++ l') = flow src dst l ++ flow src dst l' := by
  simp [flow]

theorem flow_cons (l : List (Parcel N M)) :
    flow src dst (p :: l) = (if p.src = src ∧ dst ∈ p.dests then [p.msg] else []) ++
      flow src dst l := by
  by_cases h : p.src = src ∧ dst ∈ p.dests <;> simp [flow, h]

/-- The messages on the way from one node to another, the oldest first. -/
def transit (H : Hops β N) (q : β → List (Parcel N M)) (src dst : N) : List M :=
  (H.path dst (H.entry src)).reverse.flatMap fun b => flow src dst (q b)

/-- What lies on no queue of the path does not count. -/
theorem transit_congr (h : ∀ b ∈ H.path dst (H.entry src),
    flow src dst (q' b) = flow src dst (q b)) : transit H q' src dst = transit H q src dst := by
  unfold transit
  refine List.flatMap_congr fun b hb => ?_
  exact h b (List.mem_reverse.mp hb)

/-- A message that takes its hop is still on the way, at the same place. -/
theorem transit_hop (hb : b ∈ H.path dst (H.entry src)) (hop : H.hop b dst = some b')
    {m : List M} (hfrom : flow src dst (q b) = m ++ flow src dst (q' b))
    (hto : flow src dst (q' b') = flow src dst (q b') ++ m)
    (hframe : ∀ c, c ≠ b → c ≠ b' → flow src dst (q' c) = flow src dst (q c)) :
    transit H q' src dst = transit H q src dst := by
  obtain ⟨before, hpath, hbefore⟩ := Hops.path_split hb
  have hrank := H.hop_rank hop
  -- neither queue occurs twice on the path
  have hpre : before.reverse.flatMap (fun c => flow src dst (q' c)) =
      before.reverse.flatMap fun c => flow src dst (q c) := by
    refine List.flatMap_congr fun c hc => hframe c ?_ ?_
    · rintro rfl
      exact absurd (hbefore c (List.mem_reverse.mp hc)) (lt_irrefl _)
    · rintro rfl
      exact absurd (hbefore c (List.mem_reverse.mp hc)) (not_lt.mpr hrank.le)
  have hpost : ∀ b₁, H.hop b' dst = some b₁ →
      (H.path dst b₁).reverse.flatMap (fun c => flow src dst (q' c)) =
        (H.path dst b₁).reverse.flatMap fun c => flow src dst (q c) := by
    intro b₁ hop'
    refine List.flatMap_congr fun c hc => ?_
    have hle := Hops.rank_le_of_mem (List.mem_reverse.mp hc)
    have hlt := H.hop_rank hop'
    refine hframe c ?_ ?_
    · rintro rfl
      omega
    · rintro rfl
      omega
  unfold transit
  rw [hpath, Hops.path_of_some hop]
  cases hop' : H.hop b' dst with
  | none =>
      rw [Hops.path_of_none hop']
      simp only [List.reverse_append, List.reverse_cons, List.reverse_nil, List.nil_append,
        List.flatMap_append, List.flatMap_cons, List.flatMap_nil, List.append_nil, hpre, hto, hfrom,
        List.append_assoc]
  | some b₁ =>
      rw [Hops.path_of_some hop']
      simp only [List.reverse_append, List.reverse_cons, List.flatMap_append, List.flatMap_cons,
        List.flatMap_nil, List.append_nil, hpre, hpost b₁ hop', hto, hfrom, List.append_assoc]

/-- The exit of a path holds the oldest messages. -/
theorem transit_exit (hexit : H.exit dst ∈ H.path dst (H.entry src)) :
    ∃ before, H.path dst (H.entry src) = before ++ [H.exit dst] ∧ H.exit dst ∉ before ∧
      ∀ q : β → List (Parcel N M), transit H q src dst = flow src dst (q (H.exit dst)) ++
        before.reverse.flatMap fun b => flow src dst (q b) := by
  obtain ⟨before, hpath, hbefore⟩ := Hops.path_split hexit
  rw [Hops.path_of_none (H.hop_exit dst dst)] at hpath
  refine ⟨before, hpath, fun hmem => lt_irrefl _ (hbefore _ hmem), fun q => ?_⟩
  unfold transit
  rw [hpath]
  simp

end Flow

/-! ## Steps -/

section Steps

variable [DecidableEq N] {H : Hops β N} {q q' : β → List (Parcel N M)}

/-- A message enters at its source. -/
structure Inject (H : Hops β N) (q q' : β → List (Parcel N M)) (src : N) (dests : Finset N)
    (msg : M) : Prop where
  entered : q' (H.entry src) = q (H.entry src) ++ [⟨src, dests, msg⟩]
  frame : ∀ c, c ≠ H.entry src → q' c = q c

/-- The head of a queue splits into parcels for disjoint sets of nodes, each of which takes the hop
of its nodes to a queue of its own. -/
structure Pass (H : Hops β N) (q q' : β → List (Parcel N M)) (b : β) (p : Parcel N M)
    (rest : List (Parcel N M)) (outs : List (β × Finset N)) : Prop where
  head : q b = p :: rest
  left : q' b = rest
  hop : ∀ out ∈ outs, ∀ d ∈ out.2, d ∈ p.dests ∧ H.hop b d = some out.1
  cover : ∀ d ∈ p.dests, ∃ out ∈ outs, d ∈ out.2
  ne : ∀ out ∈ outs, out.1 ≠ b
  entered : ∀ out ∈ outs, q' out.1 = q out.1 ++ [⟨p.src, out.2, p.msg⟩]
  frame : ∀ c, c ≠ b → (∀ out ∈ outs, c ≠ out.1) → q' c = q c

/-- A node takes the head of its exit queue. -/
structure Eject (H : Hops β N) (q q' : β → List (Parcel N M)) (d : N) (p : Parcel N M)
    (rest : List (Parcel N M)) : Prop where
  head : q (H.exit d) = p :: rest
  left : q' (H.exit d) = rest
  frame : ∀ c, c ≠ H.exit d → q' c = q c

/-- The histories of the queues. Only a parcel that does not split gets to an exit. -/
inductive HopLog (H : Hops β N) : List (NetEvent N M) → (β → List (Parcel N M)) → Prop where
  | empty : HopLog H [] fun _ => []
  | inject {log : List (NetEvent N M)} {q q' : β → List (Parcel N M)} {src : N}
      {dests : Finset N} {msg : M} :
      HopLog H log q → Inject H q q' src dests msg → HopLog H (log ++ [.sent src dests msg]) q'
  | fork {log : List (NetEvent N M)} {q q' : β → List (Parcel N M)} {b : β} {p : Parcel N M}
      {rest : List (Parcel N M)} {outs : List (β × Finset N)} :
      HopLog H log q → Pass H q q' b p rest outs → (∀ out ∈ outs, ∀ d, out.1 ≠ H.exit d) →
      HopLog H log q'
  | move {log : List (NetEvent N M)} {q q' : β → List (Parcel N M)} {b b' : β} {p : Parcel N M}
      {rest : List (Parcel N M)} :
      HopLog H log q → Pass H q q' b p rest [(b', p.dests)] →
      (∀ d, b' = H.exit d → d ∈ p.dests) → HopLog H log q'
  | eject {log : List (NetEvent N M)} {q q' : β → List (Parcel N M)} {d : N} {p : Parcel N M}
      {rest : List (Parcel N M)} :
      HopLog H log q → Eject H q q' d p rest → HopLog H (log ++ [.received d p.src p.msg]) q'

/-- What holds of the queues whatever passes from one of them to the next. -/
structure Hops.Stable (H : Hops β N) (K : (β → List (Parcel N M)) → Prop) : Prop where
  fork : ∀ {q q' : β → List (Parcel N M)} {b : β} {p : Parcel N M} {rest : List (Parcel N M)}
    {outs : List (β × Finset N)}, K q → Pass H q q' b p rest outs →
    (∀ out ∈ outs, ∀ d, out.1 ≠ H.exit d) → K q'
  move : ∀ {q q' : β → List (Parcel N M)} {b b' : β} {p : Parcel N M}
    {rest : List (Parcel N M)}, K q → Pass H q q' b p rest [(b', p.dests)] →
    (∀ d, b' = H.exit d → d ∈ p.dests) → K q'

omit [DecidableEq N] in
theorem Hops.Stable.hopLog {log : List (NetEvent N M)} : H.Stable (HopLog H log) where
  fork := .fork
  move := .move

/-- The queues hold what the channels hold. -/
structure Follows (H : Hops β N) (q : β → List (Parcel N M)) (net : Network N M) : Prop where
  flows : ∀ s d, (net.inFlight.filter (Packet.onChannel s d)).map (·.msg) = transit H q s d
  arrivals : ∀ d, net.arrived.filter (Packet.isFor d) =
    (q (H.exit d)).map fun p => ⟨p.src, d, p.msg⟩
  on_path : ∀ b, ∀ p ∈ q b, ∀ d ∈ p.dests, b ∈ H.path d (H.entry p.src)
  at_exit : ∀ d, ∀ p ∈ q (H.exit d), p.dests = {d}

theorem follows_empty : Follows H (fun _ => []) (Network.empty : Network N M) where
  flows := fun s d => by simp [transit]
  arrivals := fun d => rfl
  on_path := fun _ _ h => absurd h List.not_mem_nil
  at_exit := fun _ _ h => absurd h List.not_mem_nil

variable {net : Network N M} {src d : N} {dests : Finset N} {msg : M} {b b' : β} {p : Parcel N M}
  {rest : List (Parcel N M)} {outs : List (β × Finset N)}

/-- A send on all channels of a message. -/
theorem Follows.inject (h : Follows H q net) (hstep : Inject H q q' src dests msg) {dsts : List N}
    (hnodup : dsts.Nodup) (hdests : dsts.toFinset = dests) :
    Follows H q' (net.send (dsts.map fun d => ⟨src, d, msg⟩)) := by
  have hmem : ∀ d, d ∈ dsts ↔ d ∈ dests := fun d => by rw [← hdests, List.mem_toFinset]
  have hcases : ∀ b, ∀ p ∈ q' b, p ∈ q b ∨ b = H.entry src ∧ p = ⟨src, dests, msg⟩ := by
    intro b p hp
    by_cases hb : b = H.entry src
    · rw [hb, hstep.entered, List.mem_append, List.mem_singleton] at hp
      rw [hb]
      exact hp.imp_right fun h => ⟨rfl, h⟩
    · rw [hstep.frame b hb] at hp
      exact .inl hp
  have hexit : ∀ d, q' (H.exit d) = q (H.exit d) := fun d =>
    hstep.frame _ (H.entry_ne_exit src d).symm
  refine ⟨fun s d => ?_, fun d => ?_, fun b p hp d hd => ?_, fun d p hp => ?_⟩
  · rw [Network.send_in_flight, List.filter_append, List.map_append, h.flows,
      multicast_on_channel hnodup]
    by_cases hon : src = s ∧ d ∈ dests
    · obtain ⟨rfl, hd⟩ := hon
      rw [if_pos ⟨rfl, (hmem d).mpr hd⟩]
      obtain ⟨rest, hpath, hrest⟩ := Hops.path_head (H := H) (d := d) (b := H.entry src)
      have hsame : rest.reverse.flatMap (fun c => flow src d (q' c)) =
          rest.reverse.flatMap fun c => flow src d (q c) := by
        refine List.flatMap_congr fun c hc => ?_
        rw [hstep.frame c fun hce => hrest (hce ▸ List.mem_reverse.mp hc)]
      unfold transit
      rw [hpath]
      simp only [List.reverse_cons, List.flatMap_append, List.flatMap_cons, List.flatMap_nil,
        List.append_nil, hsame, hstep.entered, flow_append, List.append_assoc]
      simp [flow, hd]
    · rw [if_neg fun hc => hon ⟨hc.1, (hmem d).mp hc.2⟩, List.append_nil]
      refine (transit_congr fun b _ => ?_).symm
      by_cases hb : b = H.entry src
      · rw [hb, hstep.entered, flow_append, flow_cons, if_neg hon]
        simp
      · rw [hstep.frame b hb]
  · rw [Network.send_arrived, h.arrivals, hexit]
  · rcases hcases b p hp with hold | ⟨rfl, rfl⟩
    · exact h.on_path b p hold d hd
    · exact Hops.mem_path_self
  · rw [hexit] at hp
    exact h.at_exit d p hp

omit [DecidableEq N] in
theorem Pass.mem (hstep : Pass H q q' b p rest outs) {c : β} {p' : Parcel N M}
    (hp' : p' ∈ q' c) : p' ∈ q c ∨ ∃ out ∈ outs, c = out.1 ∧ p' = ⟨p.src, out.2, p.msg⟩ := by
  by_cases hc : c = b
  · rw [hc, hstep.left] at hp'
    rw [hc, hstep.head]
    exact .inl (List.mem_cons_of_mem _ hp')
  by_cases hout : ∃ out ∈ outs, c = out.1
  · obtain ⟨out, hout, rfl⟩ := hout
    rw [hstep.entered out hout, List.mem_append, List.mem_singleton] at hp'
    exact hp'.imp_right fun h => ⟨out, hout, rfl, h⟩
  · rw [hstep.frame c hc fun out hmem heq => hout ⟨out, hmem, heq⟩] at hp'
    exact .inl hp'

/-- A parcel that takes its hops stays on the way to each of its nodes. -/
theorem Pass.transit (hstep : Pass H q q' b p rest outs)
    (hpath : ∀ d ∈ p.dests, b ∈ H.path d (H.entry p.src)) (s d : N) :
    transit H q' s d = transit H q s d := by
  have hother : ∀ out ∈ outs, ¬ (p.src = s ∧ d ∈ out.2) →
      flow s d (q' out.1) = flow s d (q out.1) := by
    intro out hout hno
    rw [hstep.entered out hout, flow_append, flow_cons, if_neg hno]
    simp
  by_cases hon : p.src = s ∧ d ∈ p.dests
  · obtain ⟨rfl, hd⟩ := hon
    obtain ⟨out, hout, hdout⟩ := hstep.cover d hd
    refine transit_hop (m := [p.msg]) (hpath d hd) (hstep.hop out hout d hdout).2 ?_ ?_ ?_
    · rw [hstep.head, hstep.left, flow_cons, if_pos ⟨rfl, hd⟩]
    · rw [hstep.entered out hout, flow_append, flow_cons, if_pos ⟨rfl, hdout⟩]
      simp
    · intro c hcb hcout
      by_cases hc : ∃ out' ∈ outs, c = out'.1
      · obtain ⟨out', hout', rfl⟩ := hc
        refine hother out' hout' fun hd' => hcout ?_
        exact Option.some.inj
          ((hstep.hop out' hout' d hd'.2).2.symm.trans (hstep.hop out hout d hdout).2)
      · rw [hstep.frame c hcb fun out' hmem heq => hc ⟨out', hmem, heq⟩]
  · refine transit_congr fun c _ => ?_
    by_cases hcb : c = b
    · rw [hcb, hstep.left, hstep.head, flow_cons, if_neg hon, List.nil_append]
    by_cases hc : ∃ out ∈ outs, c = out.1
    · obtain ⟨out, hout, rfl⟩ := hc
      exact hother out hout fun hd => hon ⟨hd.1, (hstep.hop out hout d hd.2).1⟩
    · rw [hstep.frame c hcb fun out hmem heq => hc ⟨out, hmem, heq⟩]

/-- The queue that a parcel leaves by a hop is no exit. -/
theorem Follows.pass_from (h : Follows H q net) (hstep : Pass H q q' b p rest outs) (d : N) :
    H.exit d ≠ b := by
  rintro rfl
  have hdests := h.at_exit d p (hstep.head ▸ List.mem_cons_self)
  have hd : d ∈ p.dests := hdests ▸ Finset.mem_singleton_self d
  obtain ⟨out, hout, hdout⟩ := hstep.cover d hd
  exact absurd ((H.hop_exit d d).symm.trans (hstep.hop out hout d hdout).2)
    (Option.some_ne_none _).symm

theorem Follows.pass_on_path (h : Follows H q net) (hstep : Pass H q q' b p rest outs) :
    ∀ c, ∀ p' ∈ q' c, ∀ d ∈ p'.dests, c ∈ H.path d (H.entry p'.src) := by
  intro c p' hp' d hd
  rcases hstep.mem hp' with hold | ⟨out, hout, rfl, rfl⟩
  · exact h.on_path c p' hold d hd
  · obtain ⟨hdp, hop⟩ := hstep.hop out hout d hd
    exact Hops.mem_path_hop (h.on_path b p (hstep.head ▸ List.mem_cons_self) d hdp) hop

/-- What happens inside the network is not seen on the channels. -/
theorem Follows.inside (h : Follows H q net) (hstep : Pass H q q' b p rest outs)
    (hinside : ∀ out ∈ outs, ∀ d, out.1 ≠ H.exit d) : Follows H q' net := by
  have hexit : ∀ d, q' (H.exit d) = q (H.exit d) := fun d =>
    hstep.frame _ (h.pass_from hstep d) fun out hout hc => hinside out hout d hc.symm
  refine ⟨fun s d => ?_, fun d => ?_, h.pass_on_path hstep, fun d p' hp' => ?_⟩
  · rw [hstep.transit fun d hd => h.on_path b p (hstep.head ▸ List.mem_cons_self) d hd]
    exact h.flows s d
  · rw [hexit]
    exact h.arrivals d
  · rw [hexit] at hp'
    exact h.at_exit d p' hp'

/-- What has arrived on a channel is what lies in its exit. -/
theorem Follows.arrived_on (h : Follows H q net) (s d : N) :
    (net.arrived.filter (Packet.onChannel s d)).map (·.msg) = flow s d (q (H.exit d)) := by
  have hsplit : net.arrived.filter (Packet.onChannel s d) =
      (net.arrived.filter (Packet.isFor d)).filter fun x => decide (x.src = s) := by
    rw [List.filter_filter]
    refine List.filter_congr fun x _ => ?_
    simp [Packet.onChannel, Packet.isFor]
  rw [hsplit, h.arrivals, List.filter_map, List.map_map]
  unfold flow
  have hfilter : (q (H.exit d)).filter (fun p => decide (p.src = s ∧ d ∈ p.dests)) =
      (q (H.exit d)).filter fun p => decide (p.src = s) := by
    refine List.filter_congr fun p hp => ?_
    simp [h.at_exit d p hp]
  rw [hfilter]
  rfl

/-- The head of the last queue before an exit is the next arrival. -/
theorem Follows.next_arrival (h : Follows H q net) (hp : q b = p :: rest) (hd : d ∈ p.dests)
    (hop : H.hop b d = some (H.exit d)) :
    net.nextArrival p.src d = some ⟨p.src, d, p.msg⟩ := by
  obtain ⟨before, hpath, -⟩ := Hops.path_split (h.on_path b p (hp ▸ List.mem_cons_self) d hd)
  rw [Hops.path_of_some hop, Hops.path_of_none (H.hop_exit d d)] at hpath
  have hflows : ∃ more, (net.inFlight.filter (Packet.onChannel p.src d)).map (·.msg) =
      flow p.src d (q (H.exit d)) ++ p.msg :: more := by
    refine ⟨flow p.src d rest ++ before.reverse.flatMap fun c => flow p.src d (q c), ?_⟩
    rw [h.flows]
    unfold transit
    rw [hpath]
    simp [hp, flow_cons, hd]
  obtain ⟨more, hmore⟩ := hflows
  have hmsg : (net.nextArrival p.src d).map (·.msg) = some p.msg := by
    unfold Network.nextArrival
    rw [← List.getElem?_map, hmore, ← List.length_map (f := fun x : Packet N M => x.msg),
      h.arrived_on, List.getElem?_append_right le_rfl]
    simp
  cases hnext : net.nextArrival p.src d with
  | none => simp [hnext] at hmsg
  | some x =>
      obtain ⟨-, hsrc, hdst⟩ := Network.next_arrival_channel hnext
      rw [hnext, Option.map_some, Option.some.injEq] at hmsg
      rw [← hsrc, ← hdst, ← hmsg]

/-- A parcel that gets to an exit arrives. -/
theorem Follows.arrive (h : Follows H q net)
    (hstep : Pass H q q' b p rest [(H.exit d, p.dests)]) (hd : d ∈ p.dests) :
    ∃ net', net.deliver p.src d = some net' ∧ Follows H q' net' := by
  have hmem : p ∈ q b := hstep.head ▸ List.mem_cons_self
  have hdests : p.dests = {d} := by
    refine Finset.eq_singleton_iff_unique_mem.mpr ⟨hd, fun d' hd' => ?_⟩
    exact H.exit_own (hstep.hop _ List.mem_cons_self d' hd').2
  have hop : H.hop b d = some (H.exit d) := (hstep.hop _ List.mem_cons_self d hd).2
  obtain ⟨net', hdeliver, hflight, harrived⟩ :=
    Network.deliver_of_next (h.next_arrival hstep.head hd hop)
  have hentered : q' (H.exit d) = q (H.exit d) ++ [p] := hstep.entered _ List.mem_cons_self
  have hother : ∀ d', d' ≠ d → q' (H.exit d') = q (H.exit d') := by
    intro d' hne
    refine hstep.frame _ (h.pass_from hstep d') fun out hout hc => hne (H.exit_inj ?_)
    rw [List.mem_singleton.mp hout] at hc
    exact hc
  refine ⟨net', hdeliver, fun s d' => ?_, fun d' => ?_, h.pass_on_path hstep, fun d' p' hp' => ?_⟩
  · rw [hflight, hstep.transit fun d hd => h.on_path b p hmem d hd]
    exact h.flows s d'
  · rw [harrived, List.filter_append, h.arrivals]
    by_cases hd' : d' = d
    · subst hd'
      rw [hentered, List.map_append]
      simp
    · rw [hother d' hd']
      simp [Ne.symm hd']
  · by_cases hd' : d' = d
    · subst hd'
      rw [hentered, List.mem_append, List.mem_singleton] at hp'
      rcases hp' with hold | rfl
      · exact h.at_exit d' p' hold
      · exact hdests
    · rw [hother d' hd'] at hp'
      exact h.at_exit d' p' hp'

/-- A node that takes the head of its exit takes the head of its buffer. -/
theorem Follows.eject (h : Follows H q net) (hstep : Eject H q q' d p rest) :
    net.head d = some ⟨p.src, d, p.msg⟩ ∧ Follows H q' (net.pop d) := by
  have hmem : p ∈ q (H.exit d) := hstep.head ▸ List.mem_cons_self
  have hdests : p.dests = {d} := h.at_exit d p hmem
  have hhead : net.head d = some ⟨p.src, d, p.msg⟩ := by
    unfold Network.head
    rw [← List.head?_filter, h.arrivals, hstep.head]
    rfl
  obtain ⟨hflight, harrived⟩ := Network.pop_lists hhead
  have hother : ∀ d', d' ≠ d → q' (H.exit d') = q (H.exit d') := fun d' hne =>
    hstep.frame _ fun hc => hne (H.exit_inj hc)
  have hsub : ∀ c, ∀ p' ∈ q' c, p' ∈ q c := by
    intro c p' hp'
    by_cases hc : c = H.exit d
    · rw [hc, hstep.left] at hp'
      rw [hc, hstep.head]
      exact List.mem_cons_of_mem _ hp'
    · rwa [hstep.frame c hc] at hp'
  refine ⟨hhead, fun s d' => ?_, fun d' => ?_, fun c p' hp' d' hd' => ?_, fun d' p' hp' => ?_⟩
  · rw [hflight]
    by_cases hon : s = p.src ∧ d' = d
    · obtain ⟨rfl, rfl⟩ := hon
      obtain ⟨before, -, hbefore, htransit⟩ := transit_exit (M := M)
        (h.on_path _ p hmem d' (hdests ▸ Finset.mem_singleton_self d'))
      have hsame : before.reverse.flatMap (fun c => flow p.src d' (q' c)) =
          before.reverse.flatMap fun c => flow p.src d' (q c) := by
        refine List.flatMap_congr fun c hc => ?_
        rw [hstep.frame c fun hce => hbefore (hce ▸ List.mem_reverse.mp hc)]
      rw [filter_erase_same, List.map_tail, h.flows, htransit, htransit, hsame, hstep.head,
        hstep.left, flow_cons, if_pos ⟨rfl, by simp [hdests]⟩]
      rfl
    · rw [filter_erase_disjoint (Network.on_channel_disjoint hon), h.flows]
      refine (transit_congr fun c _ => ?_).symm
      by_cases hc : c = H.exit d
      · rw [hc, hstep.left, hstep.head, flow_cons, if_neg, List.nil_append]
        rintro ⟨hs, hd'⟩
        rw [hdests, Finset.mem_singleton] at hd'
        exact hon ⟨hs.symm, hd'⟩
      · rw [hstep.frame c hc]
  · rw [harrived]
    by_cases hd' : d' = d
    · subst hd'
      rw [filter_erase_same, h.arrivals, hstep.head, hstep.left]
      rfl
    · rw [filter_erase_disjoint, h.arrivals, hother d' hd']
      intro x hx
      rw [Packet.is_for_iff] at hx
      simpa [Packet.isFor, hx] using hd'
  · exact h.on_path c p' (hsub c p' hp') d' hd'
  · exact h.at_exit d' p' (hsub _ p' hp')

/-- The second network is the first one after some deliveries. -/
inductive Network.Delivers : Network N M → Network N M → Prop where
  | none {net : Network N M} : Network.Delivers net net
  | more {net net' net'' : Network N M} {src dst : N} : Network.Delivers net net' →
      net'.deliver src dst = some net'' → Network.Delivers net net''

/-- A message that moves from queue to queue is delivered when it gets to an exit. -/
theorem Follows.move (h : Follows H q net) (hstep : Pass H q q' b p rest [(b', p.dests)])
    (hexit : ∀ d, b' = H.exit d → d ∈ p.dests) :
    Follows H q' net ∨ ∃ d net', net.deliver p.src d = some net' ∧ Follows H q' net' := by
  by_cases hb' : ∃ d, b' = H.exit d
  · obtain ⟨d, rfl⟩ := hb'
    exact .inr ⟨d, h.arrive hstep (hexit d rfl)⟩
  · refine .inl (h.inside hstep fun out hout d hc => hb' ⟨d, ?_⟩)
    rw [List.mem_singleton.mp hout] at hc
    exact hc

/-- Whatever passes inside the queues, the channels can follow by deliveries. -/
theorem Follows.stable (net : Network N M) :
    H.Stable fun q => ∃ net', Network.Delivers net net' ∧ Follows H q net' where
  fork := by
    rintro q q' b p rest outs ⟨net', hdelivers, hfollows⟩ hstep hinside
    exact ⟨net', hdelivers, hfollows.inside hstep hinside⟩
  move := by
    rintro q q' b b' p rest ⟨net', hdelivers, hfollows⟩ hstep hexit
    rcases hfollows.move hstep hexit with hsame | ⟨d, net'', hdeliver, hfollows'⟩
    · exact ⟨net', hdelivers, hsame⟩
    · exact ⟨net'', hdelivers.more hdeliver, hfollows'⟩

/-- Every history of sends and receives of the queues is one of first-in first-out channels. -/
theorem HopLog.refines {log : List (NetEvent N M)} (h : HopLog H log q) :
    ∃ net, FifoLog log net ∧ Follows H q net := by
  induction h with
  | empty => exact ⟨.empty, .empty, follows_empty⟩
  | @inject log q q' src dests msg _ hstep ih =>
      obtain ⟨net, hlog, hfollows⟩ := ih
      have hdests : dests.toList.toFinset = dests := Finset.toList_toFinset dests
      have hsend := FifoLog.send src dests.toList msg hlog dests.nodup_toList
      rw [hdests] at hsend
      exact ⟨_, hsend, hfollows.inject hstep dests.nodup_toList hdests⟩
  | fork _ hstep hinside ih =>
      obtain ⟨net, hlog, hfollows⟩ := ih
      exact ⟨net, hlog, hfollows.inside hstep hinside⟩
  | move _ hstep hexit ih =>
      obtain ⟨net, hlog, hfollows⟩ := ih
      rcases hfollows.move hstep hexit with hsame | ⟨d, net', hdeliver, hfollows'⟩
      · exact ⟨net, hlog, hsame⟩
      · exact ⟨net', hlog.deliver hdeliver, hfollows'⟩
  | eject _ hstep ih =>
      obtain ⟨net, hlog, hfollows⟩ := ih
      obtain ⟨hhead, hfollows'⟩ := hfollows.eject hstep
      exact ⟨_, hlog.receive hhead, hfollows'⟩

end Steps

end Ece552.Library
