import Ece552.Ruby.Effects

/-!
# Point-to-point order

On an ordered virtual network the buffers, switches and throttles together are a network of
first-in first-out channels, one for each pair of nodes: `simple_network_refines_fifo`. A message at
the head of an in-port forks to the intermediate queues of its links, and a transfer is a move from
an intermediate queue to what is behind the link; everything else goes unnoticed. The order is that
of the buffers, so it lasts until one of their 32-bit message counters wraps around.
-/

namespace Ece552.Ruby

open Library

namespace SimpleNetwork

variable {M : Type} {N : SimpleNetwork} {rank : Nat → Nat → Nat} {s s' : NetworkState M}
  {q : Queue} {sw incoming vnet v : Nat} {l : MadeLink} {source : M → Nat}

/-- A message as a parcel. -/
def parcelOf (source : M → Nat) (m : NetworkMessage M) : Parcel Nat M :=
  ⟨source m.body, m.getInternalDestination, m.body⟩

/-- The parcels in the buffers of one virtual network. -/
def parcels (source : M → Nat) (v : Nat) (s : NetworkState M) (q : Queue) : List (Parcel Nat M) :=
  if vnetOf q = v then (s.buffers q).contents.map (parcelOf source) else []

/-- The parcels in a buffer of the virtual network. -/
theorem parcels_of_vnet (h : vnetOf q = v) :
    parcels source v s q = (s.buffers q).contents.map (parcelOf source) := if_pos h

/-- There are none in the others. -/
theorem parcels_of_other (h : vnetOf q ≠ v) : parcels source v s q = [] := if_neg h

/-- The parcels in front of a throttle. -/
theorem parcels_intermediate {src dest : Nat} :
    parcels source v s (.intermediate src dest v) =
      (s.buffers (.intermediate src dest v)).contents.map (parcelOf source) :=
  parcels_of_vnet rfl

/-- The parcels that a node has sent. -/
theorem parcels_to_net {node : Nat} :
    parcels source v s (.toNet node v) =
      (s.buffers (.toNet node v)).contents.map (parcelOf source) :=
  parcels_of_vnet rfl

/-- The parcels that have arrived at a node. -/
theorem parcels_from_net {node : Nat} :
    parcels source v s (.fromNet node v) =
      (s.buffers (.fromNet node v)).contents.map (parcelOf source) :=
  parcels_of_vnet rfl

/-- No message counter of a virtual network has wrapped around. -/
def CountersFit (N : SimpleNetwork) (v : Nat) (s : NetworkState M) : Prop :=
  ∀ q ∈ N.queues v, (s.buffers q).m_msg_counter < 2 ^ 32

/-- What holds of an ordered virtual network, whose parcels are known to be of some kind. -/
structure Ordered (hN : Wired N rank) (source : M → Nat) (v : Nat)
    (K : (Queue → List (Parcel Nat M)) → Prop) (s : NetworkState M) : Prop where
  history : K (parcels source v s)
  inOrder : ∀ q, vnetOf q = v → (s.buffers q).InOrder
  split : ∀ l ∈ N.links, ∀ m ∈ (s.buffers (.intermediate l.src l.dest v)).contents,
    m.getInternalDestination ≠ ∅ ∧ m.getInternalDestination ⊆ l.routing_table_entry

/-! ## What goes unnoticed -/

/-- Reading sizes keeps a buffer in order. -/
theorem Recached.inOrder (h : Recached s s') (hq : (s.buffers q).InOrder) :
    (s'.buffers q).InOrder := by
  obtain ⟨t, n, hsame⟩ := h.buffers q
  rw [hsame]
  exact ⟨hq.strict, hq.times, hq.counters⟩

/-- Reading sizes keeps the counter. -/
theorem Recached.counter (h : Recached s s') (q : Queue) :
    (s'.buffers q).m_msg_counter = (s.buffers q).m_msg_counter := by
  obtain ⟨t, n, hsame⟩ := h.buffers q
  rw [hsame]

variable {hN : Wired N rank} {K K' : (Queue → List (Parcel Nat M)) → Prop}

/-- What leaves the buffers of a virtual network in order and their messages alone. -/
theorem Ordered.congr (h : Ordered hN source v K s)
    (hinOrder : ∀ q, vnetOf q = v → (s'.buffers q).InOrder)
    (hcontents : ∀ q, vnetOf q = v → (s'.buffers q).contents = (s.buffers q).contents) :
    Ordered hN source v K s' := by
  have hparcels : parcels source v s' = parcels source v s := by
    funext q
    by_cases hq : vnetOf q = v
    · rw [parcels_of_vnet hq, parcels_of_vnet hq, hcontents q hq]
    · rw [parcels_of_other hq, parcels_of_other hq]
  refine ⟨hparcels ▸ h.history, hinOrder, fun l hl m hm => h.split l hl m ?_⟩
  rwa [← hcontents _ rfl]

/-- The buffers of the virtual network stay the same. -/
theorem Ordered.same (h : Ordered hN source v K s)
    (hsame : ∀ q, vnetOf q = v → s'.buffers q = s.buffers q) : Ordered hN source v K s' :=
  h.congr (fun q hq => by rw [hsame q hq]; exact h.inOrder q hq) fun q hq => by rw [hsame q hq]

/-- Reading sizes keeps the order. -/
theorem Ordered.recached (h : Ordered hN source v K s) (hcached : Recached s s') :
    Ordered hN source v K s' :=
  h.congr (fun q hq => hcached.inOrder (h.inOrder q hq)) fun q _ => hcached.contents q

/-! ## What is seen -/

/-- The outputs of a message on an ordered virtual network. -/
structure Forks (N : SimpleNetwork) (s s' : NetworkState M) (incoming sw vnet : Nat)
    (m : NetworkMessage M) (outputs : List (MadeLink × NetDest)) : Prop where
  route : RouteSpec (N.outLinks sw) m.getInternalDestination outputs ∅
  head : (s.buffers (N.inQueue incoming sw vnet)).contents =
    m :: (s'.buffers (N.inQueue incoming sw vnet)).contents
  left : (s'.buffers (N.inQueue incoming sw vnet)).InOrder
  entered : ∀ out ∈ outputs, (s'.buffers (.intermediate sw out.1.dest vnet)).InOrder ∧
    (s'.buffers (.intermediate sw out.1.dest vnet)).contents =
      (s.buffers (.intermediate sw out.1.dest vnet)).contents ++
        [{ m with m_internal_dest := some out.2 }]
  frame : ∀ q, (∀ out ∈ outputs, q ≠ .intermediate sw out.1.dest vnet) →
    q ≠ N.inQueue incoming sw vnet → s'.buffers q = s.buffers q

/-- Moving the message at the head of an in-port on an ordered virtual network. -/
theorem Ordered.forks (h : Ordered hN source vnet K s) (hordered : N.m_ordered vnet = true)
    (hin : incoming ∈ N.inPorts sw) (hmove : N.moveHead s incoming sw vnet = .ok (true, s'))
    (hfit : CountersFit N vnet s') :
    ∃ s₀ m outputs, Recached s s₀ ∧ Forks N s₀ s' incoming sw vnet m outputs := by
  obtain ⟨message, links, ⟨node, rest, hheap, -, hmessage⟩, -, hlinks, hall, s₀, hcached, hout,
    hpop, hframe, -⟩ := move_head_effect hN hmove
  have h₀ := h.recached hcached
  have hroute := route_spec links message.content.getInternalDestination
  rw [hall] at hroute
  rw [hlinks hordered] at hroute hout hframe
  have hused : ∀ out ∈ (route (N.outLinks sw) message.content.getInternalDestination).1,
      Queue.intermediate sw out.1.dest vnet ∈ N.queues vnet := by
    intro out hmem
    obtain ⟨hl, hsrc⟩ :=
      mem_out_links.mp (hroute.sublist.subset (List.mem_map.mpr ⟨out, hmem, rfl⟩))
    exact hsrc ▸ intermediate_mem (throttled_of_in_port hin hl hsrc)
  refine ⟨s₀, message.content, _, hcached, hroute, ?_, ?_, fun out hmem => ?_, hframe⟩
  · exact head_contents (hcached.heap _ ▸ hheap) hmessage hpop
  · exact ((h₀.inOrder _ vnet_of_in_queue).pop hpop).1
  · exact (hout out hmem).inOrder (h₀.inOrder _ rfl) (hfit _ (hused out hmem))

/-- The parcels of a fork. -/
theorem Forks.pass {m : NetworkMessage M} {outputs : List (MadeLink × NetDest)}
    (h : Forks N s s' incoming sw vnet m outputs) (hN : Wired N rank)
    (hin : incoming ∈ N.inPorts sw) :
    Pass (hops hN vnet) (parcels source vnet s) (parcels source vnet s')
      (N.inQueue incoming sw vnet) (parcelOf source m)
      (parcels source vnet s' (N.inQueue incoming sw vnet))
      (outputs.map fun out => (.intermediate sw out.1.dest vnet, out.2)) where
  head := by
    rw [parcels_of_vnet vnet_of_in_queue, parcels_of_vnet vnet_of_in_queue, h.head, List.map_cons]
  left := rfl
  hop := by
    intro out' hout' d hd
    obtain ⟨out, hmem, rfl⟩ := List.mem_map.mp hout'
    refine ⟨(h.route.takes out hmem).1 hd, ?_⟩
    rw [hops_hop, hN.hop_in_queue hin, switchHop, nextLink, h.route.first out hmem d hd]
    rfl
  cover := by
    intro d hd
    rcases h.route.cover d hd with hleft | ⟨out, hmem, hdout⟩
    · exact absurd hleft (Finset.notMem_empty d)
    · exact ⟨_, List.mem_map.mpr ⟨out, hmem, rfl⟩, hdout⟩
  ne := by
    intro out' hout'
    obtain ⟨out, -, rfl⟩ := List.mem_map.mp hout'
    exact intermediate_ne_in_queue
  entered := by
    intro out' hout'
    obtain ⟨out, hmem, rfl⟩ := List.mem_map.mp hout'
    rw [parcels_intermediate, parcels_intermediate, (h.entered out hmem).2, List.map_append]
    rfl
  frame := by
    intro q hq hqout
    by_cases hqv : vnetOf q = vnet
    · rw [parcels_of_vnet hqv, parcels_of_vnet hqv, h.frame q (fun out hmem heq => ?_) hq]
      exact hqout _ (List.mem_map.mpr ⟨out, hmem, rfl⟩) heq
    · rw [parcels_of_other hqv, parcels_of_other hqv]

/-- A fork keeps a virtual network in order. -/
theorem Ordered.fork (hK : (hops hN vnet).Stable K) {m : NetworkMessage M}
    {outputs : List (MadeLink × NetDest)} (h : Ordered hN source vnet K s)
    (hforks : Forks N s s' incoming sw vnet m outputs)
    (hin : incoming ∈ N.inPorts sw) : Ordered hN source vnet K s' := by
  have hmem : ∀ out ∈ outputs, out.1 ∈ N.links ∧ out.1.src = sw := fun out hmem =>
    mem_out_links.mp (hforks.route.sublist.subset (List.mem_map.mpr ⟨out, hmem, rfl⟩))
  refine ⟨hK.fork h.history (hforks.pass hN hin) ?_, fun q hq => ?_, fun l hl m' hm' => ?_⟩
  · intro out' hout' d heq
    obtain ⟨out, -, rfl⟩ := List.mem_map.mp hout'
    cases heq
  · by_cases hqout : ∃ out ∈ outputs, q = .intermediate sw out.1.dest vnet
    · obtain ⟨out, hout, rfl⟩ := hqout
      exact (hforks.entered out hout).1
    by_cases hqin : q = N.inQueue incoming sw vnet
    · rw [hqin]
      exact hforks.left
    · rw [hforks.frame q (fun out hout heq => hqout ⟨out, hout, heq⟩) hqin]
      exact h.inOrder q hq
  · by_cases hlout : ∃ out ∈ outputs,
        Queue.intermediate l.src l.dest vnet = .intermediate sw out.1.dest vnet
    · obtain ⟨out, hout, heq⟩ := hlout
      injection heq with hsrc hdest
      obtain rfl : l = out.1 :=
        hN.unique hl (hmem out hout).1 (hsrc.trans (hmem out hout).2.symm) hdest
      rw [hsrc, (hforks.entered out hout).2, List.mem_append, List.mem_singleton] at hm'
      rcases hm' with hold | rfl
      · exact h.split out.1 hl m' (hsrc ▸ hold)
      · exact ⟨hforks.route.nonempty out hout, (hforks.route.takes out hout).2⟩
    · rw [hforks.frame _ (fun out hout heq => hlout ⟨out, hout, heq⟩)
        intermediate_ne_in_queue] at hm'
      exact h.split l hl m' hm'

/-- Moving the message at the head of an in-port keeps every ordered virtual network in order. -/
theorem Ordered.moveHead (hK : (hops hN v).Stable K) (h : Ordered hN source v K s)
    (hordered : N.m_ordered v = true)
    (hin : incoming ∈ N.inPorts sw) (hmove : N.moveHead s incoming sw vnet = .ok (true, s'))
    (hfit : CountersFit N v s') : Ordered hN source v K s' := by
  by_cases hv : vnet = v
  · subst hv
    obtain ⟨s₀, m, outputs, hcached, hforks⟩ := h.forks hordered hin hmove hfit
    exact .fork hK (h.recached hcached) hforks hin
  · obtain ⟨message, links, -, -, -, -, s₀, hcached, -, -, hframe, -⟩ := move_head_effect hN hmove
    refine (h.recached hcached).same fun q hq => hframe q (fun out _ heq => ?_) fun heq => ?_
    · rw [heq] at hq
      exact hv hq
    · rw [heq, vnet_of_in_queue] at hq
      exact hv hq

/-- Starting a transfer keeps every ordered virtual network in order. -/
theorem Ordered.startTransfer (hK : (hops hN v).Stable K) (h : Ordered hN source v K s)
    (hthrottled : l ∈ N.throttled)
    (hstart : N.startTransfer s l vnet = .ok s') (hfit : CountersFit N v s') :
    Ordered hN source v K s' := by
  obtain ⟨message, ⟨node, rest, hheap, -, hmessage⟩, hentered, hpop, hframe, -⟩ :=
    start_transfer_effect hstart
  by_cases hv : vnet = v
  swap
  · refine h.same fun q hq => hframe q (fun heq => ?_) fun heq => ?_
    · rw [heq, vnet_of_out_queue] at hq
      exact hv hq
    · rw [heq] at hq
      exact hv hq
  subst hv
  have hout : vnetOf (N.outQueue l.src l.dest vnet) = vnet := vnet_of_out_queue
  have hl := (mem_throttled.mp hthrottled).1
  obtain ⟨hinOrder, hcontents⟩ :=
    hentered.inOrder (h.inOrder _ hout) (hfit _ (out_queue_mem hN hthrottled))
  have hhead := head_contents hheap hmessage hpop
  obtain ⟨hnonempty, hentry⟩ := h.split l hl message.content (hhead ▸ List.mem_cons_self)
  have hpass : Pass (hops hN vnet) (parcels source vnet s) (parcels source vnet s')
      (.intermediate l.src l.dest vnet) (parcelOf source message.content)
      (parcels source vnet s' (.intermediate l.src l.dest vnet))
      [(N.outQueue l.src l.dest vnet, message.content.getInternalDestination)] := by
    refine ⟨?_, rfl, ?_, ?_, ?_, ?_, ?_⟩
    · rw [parcels_intermediate, parcels_intermediate, hhead, List.map_cons]
    · intro out hmem d hd
      obtain rfl := List.mem_singleton.mp hmem
      refine ⟨hd, ?_⟩
      rw [hops_hop, hop, if_pos ⟨rfl, l, hl, rfl, rfl, hentry hd⟩]
    · exact fun d hd => ⟨_, List.mem_cons_self, hd⟩
    · intro out hmem
      obtain rfl := List.mem_singleton.mp hmem
      exact out_queue_ne_intermediate
    · intro out hmem
      obtain rfl := List.mem_singleton.mp hmem
      rw [parcels_of_vnet hout, parcels_of_vnet hout, hcontents, List.map_append]
      rfl
    · intro q hq hqout
      by_cases hqv : vnetOf q = vnet
      · rw [parcels_of_vnet hqv, parcels_of_vnet hqv,
          hframe q (hqout _ List.mem_cons_self) hq]
      · rw [parcels_of_other hqv, parcels_of_other hqv]
  refine ⟨hK.move h.history hpass fun d heq => ?_, fun q hq => ?_, fun l' hl' m hm => ?_⟩
  · -- what gets to the queue of a node is for this node
    obtain ⟨d', hd'⟩ := Finset.nonempty_iff_ne_empty.mpr hnonempty
    have hhop := (hpass.hop _ List.mem_cons_self d' hd').2
    simp only at hhop heq
    rw [heq] at hhop
    have hown : d' = d := (hops hN vnet).exit_own hhop
    exact hown ▸ hd'
  · by_cases hqout : q = N.outQueue l.src l.dest vnet
    · rw [hqout]
      exact hinOrder
    by_cases hqin : q = .intermediate l.src l.dest vnet
    · rw [hqin]
      exact ((h.inOrder _ rfl).pop hpop).1
    · rw [hframe q hqout hqin]
      exact h.inOrder q hq
  · have hne' : Queue.intermediate l'.src l'.dest vnet ≠ N.outQueue l.src l.dest vnet := by
      unfold outQueue
      split <;> exact fun heq => by cases heq
    by_cases hsame : Queue.intermediate l'.src l'.dest vnet = .intermediate l.src l.dest vnet
    · refine h.split l' hl' m ?_
      rw [hsame] at hm ⊢
      rw [hhead]
      exact List.mem_cons_of_mem _ hm
    · rw [hframe _ hne' hsame] at hm
      exact h.split l' hl' m hm

/-! ## Wakeups -/

/-- The message counters only go up. -/
def CountersLe (s s' : NetworkState M) : Prop :=
  ∀ q, (s.buffers q).m_msg_counter ≤ (s'.buffers q).m_msg_counter

/-- A counter that fits has always fitted. -/
theorem CountersLe.fit (h : CountersLe s s') (hfit : CountersFit N v s') : CountersFit N v s :=
  fun q hq => (h q).trans_lt (hfit q hq)

/-- Reading sizes counts nothing. -/
theorem Recached.countersLe (h : Recached s s') : CountersLe s s' := fun q => (h.counter q).ge

/-- Taking a message counts nothing. -/
theorem pop_counter {b b' : MessageBuffer (NetworkMessage M)} {now : Nat}
    (h : b.pop now = .ok b') : b'.m_msg_counter = b.m_msg_counter := by
  obtain ⟨-, -, -, -, hcounter, -⟩ := MessageBuffer.pop_ok h
  exact hcounter

/-- A message that moves is counted. -/
theorem move_head_counters (hN : Wired N rank) {moved : Bool}
    (h : N.moveHead s incoming sw vnet = .ok (moved, s')) : CountersLe s s' := by
  cases moved with
  | false =>
      obtain ⟨message, links, s₀, hmoves, hcases⟩ := move_head_ok h
      rcases hcases with ⟨⟨htrue, -⟩, -⟩ | ⟨-, rfl⟩
      · cases htrue
      · exact hmoves.recached.countersLe
  | true =>
      obtain ⟨message, links, -, -, -, -, s₀, hcached, hout, hpop, hframe, -⟩ :=
        move_head_effect hN h
      intro q
      rw [← hcached.counter q]
      by_cases hqin : q = N.inQueue incoming sw vnet
      · rw [hqin, pop_counter hpop]
      by_cases hq : ∃ out ∈ (route links message.content.getInternalDestination).1,
          q = .intermediate sw out.1.dest vnet
      · obtain ⟨out, hmem, rfl⟩ := hq
        rw [(hout out hmem).counter]
        exact Nat.le_succ _
      · rw [hframe q (fun out hmem heq => hq ⟨out, hmem, heq⟩) hqin]

/-- A transfer that starts is counted. -/
theorem start_transfer_counters (h : N.startTransfer s l vnet = .ok s') : CountersLe s s' := by
  obtain ⟨message, -, hentered, hpop, hframe, -⟩ := start_transfer_effect h
  intro q
  by_cases hqout : q = N.outQueue l.src l.dest vnet
  · rw [hqout, hentered.counter]
    exact Nat.le_succ _
  by_cases hqin : q = .intermediate l.src l.dest vnet
  · rw [hqin, pop_counter hpop]
  · rw [hframe q hqout hqin]

/-- A wakeup keeps an ordered virtual network in order. -/
theorem Ordered.process (hK : (hops hN v).Stable K) {c : Consumer}
    (h : CountersFit N v s → Ordered hN source v K s)
    (hordered : N.m_ordered v = true) (hprocess : N.process s c = .ok s') :
    CountersFit N v s' → Ordered hN source v K s' := by
  unfold SimpleNetwork.process at hprocess
  obtain ⟨s₁, hwakeup, hs'⟩ := bind_eq_ok.mp hprocess
  obtain rfl := Except.ok.inj hs'
  let J : NetworkState M → Prop := fun s => CountersFit N v s → Ordered hN source v K s
  have hsame : ∀ s s' : NetworkState M, s'.buffers = s.buffers → J s → J s' := by
    intro s s' hb hs hfit
    exact (hs fun q hq => hb ▸ hfit q hq).same fun q _ => congrFun hb q
  refine hsame s₁ _ rfl ?_
  have hmove : ∀ vnet sw, ∀ incoming ∈ N.inPorts sw, ∀ s, J s →
      Ensures (fun _ : Fault => True) (fun r => J r.2) (N.moveHead s incoming sw vnet) := by
    intro vnet sw incoming hin s h
    refine ensures_of_ok fun r hr hfit => ?_
    obtain ⟨moved, s'⟩ := r
    have hs := h ((move_head_counters hN hr).fit hfit)
    cases moved with
    | true => exact .moveHead hK hs hordered hin hr hfit
    | false =>
        obtain ⟨message, links, s₀, hmoves, hcases⟩ := move_head_ok hr
        rcases hcases with ⟨⟨htrue, -⟩, -⟩ | ⟨-, rfl⟩
        · cases htrue
        · exact (hs.recached hmoves.recached).same fun _ _ => rfl
  cases c with
  | perfectSwitch sw =>
      exact (switch_wakeup_ensures (J := J) (F := fun _ => True)
        (fun s _ => hsame s _ rfl) (fun s _ => hsame s _ rfl)
        (fun vnet _ incoming hin s hs _ => hmove vnet sw incoming hin s hs) h).of_ok hwakeup
  | throttle src dest =>
      simp only [wakeup] at hwakeup
      split at hwakeup
      · next l hl =>
        have hmem := List.mem_of_find?_eq_some hl
        refine (throttle_wakeup_ensures (J := J) (F := fun _ => True)
          (fun s _ => hsame s _ rfl) (fun _ _ s _ => hsame s _ rfl) (fun s => hsame s _ rfl)
          (fun _ => trivial) (fun vnet _ s hs _ _ => ensures_of_ok fun s' hs' hfit => ?_) h).of_ok
          hwakeup
        exact .startTransfer hK (hs ((start_transfer_counters hs').fit hfit)) hmem hs' hfit
      · obtain rfl := Except.ok.inj hwakeup
        exact h
  | controller node =>
      obtain rfl := Except.ok.inj hwakeup
      exact h

/-! ## The system -/

/-- The initial network is in order. -/
theorem ordered_initial (hordered : N.m_ordered v = true) (hK : K fun _ => []) :
    Ordered hN source v K (N.initial : NetworkState M) := by
  have hempty : ∀ q, (N.initialBuffer q : MessageBuffer (NetworkMessage M)).m_prio_heap = [] := by
    intro q
    cases q <;> rfl
  have hparcels : parcels source v (N.initial : NetworkState M) = fun _ => [] := by
    funext q
    unfold parcels MessageBuffer.contents initial
    simp [hempty q]
  refine ⟨hparcels ▸ hK, fun q hq => ⟨?_, ?_, ?_⟩, fun l _ m hm => ?_⟩
  · cases q with
    | toNet node v' | fromNet node v' =>
        obtain rfl : v' = v := hq
        exact hordered
    | link | intermediate => rfl
  · intro node hnode
    rw [initial, hempty] at hnode
    exact absurd hnode List.not_mem_nil
  · intro node hnode
    rw [initial, hempty] at hnode
    exact absurd hnode List.not_mem_nil
  · unfold MessageBuffer.contents initial at hm
    rw [hempty] at hm
    exact absurd hm List.not_mem_nil

/-- A message that is sent enters at its node. -/
theorem Ordered.send (h : Ordered hN source v K s) {node : Nat} {message : NetworkMessage M}
    {delta : Nat} (hK : ∀ q q', K q →
      Inject (hops hN v) q q' node message.m_Destination message.body → K' q')
    (hnode : node < N.m_nodes) (hinternal : message.m_internal_dest = none)
    (hsource : source message.body = node)
    (hsend : N.enqueueAt s (.toNet node v) ⟨message, s.now, 0⟩ delta = .ok s')
    (hfit : CountersFit N v s') : Ordered hN source v K' s' := by
  obtain ⟨hentered, hframe, -⟩ := enqueue_at_effect hsend
  obtain ⟨e, c, -, hconsumer, -⟩ := enqueue_at_ok.mp hsend
  obtain ⟨hinOrder, hcontents⟩ :=
    hentered.inOrder (h.inOrder _ rfl) (hfit _ (to_net_mem hN hnode hconsumer))
  refine ⟨hK _ _ h.history ⟨?_, fun q hq => ?_⟩, fun q hq => ?_, fun l hl m hm => ?_⟩
  · show parcels source v s' (.toNet node v) = parcels source v s (.toNet node v) ++ _
    rw [parcels_to_net, parcels_to_net, hcontents, List.map_append]
    simp [parcelOf, NetworkMessage.getInternalDestination, hinternal, hsource]
  · unfold parcels
    rw [hframe q hq]
  · by_cases hqn : q = .toNet node v
    · rw [hqn]
      exact hinOrder
    · rw [hframe q hqn]
      exact h.inOrder q hq
  · rw [hframe _ fun heq => by cases heq] at hm
    exact h.split l hl m hm

/-- A message that is received leaves at its node. -/
theorem Ordered.receive (h : Ordered hN source v K s) {node : Nat}
    {message : Message (NetworkMessage M)}
    (hK : ∀ q q' rest, K q →
      Eject (hops hN v) q q' node (parcelOf source message.content) rest → K' q')
    (hpeek : (s.buffers (.fromNet node v)).peekMsgPtr s.now = .ok message)
    (hpop : popAt s (.fromNet node v) = .ok s') : Ordered hN source v K' s' := by
  obtain ⟨node', rest, hheap, -, hmessage⟩ := peek_ok.mp hpeek
  obtain ⟨hpopped, hframe, -⟩ := pop_at_effect hpop
  have hhead := head_contents hheap hmessage hpopped
  refine ⟨hK _ _ (parcels source v s' (.fromNet node v)) h.history ⟨?_, rfl, fun q hq => ?_⟩,
    fun q hq => ?_, fun l hl m hm => ?_⟩
  · show parcels source v s (.fromNet node v) = _
    rw [parcels_from_net, parcels_from_net, hhead, List.map_cons]
  · unfold parcels
    rw [hframe q hq]
  · by_cases hqn : q = .fromNet node v
    · rw [hqn]
      exact ((h.inOrder _ rfl).pop hpopped).1
    · rw [hframe q hqn]
      exact h.inOrder q hq
  · rw [hframe _ fun heq => by cases heq] at hm
    exact h.split l hl m hm

end SimpleNetwork

namespace NetworkSystem

open SimpleNetwork

variable {M : Type} {N : SimpleNetwork} {rank : Nat → Nat → Nat} {hN : Wired N rank}
  {source : M → Nat} {v : Nat} {st st' : NetworkSystem M} {label : Label M}

/-- Every step keeps an ordered virtual network in order. -/
theorem ordered_step (hordered : N.m_ordered v = true)
    (h : CountersFit N v st.state → Ordered hN source v (HopLog (hops hN v) (st.log v)) st.state)
    (hstep : st.step N source label = .ok (some st')) :
    CountersFit N v st'.state → Ordered hN source v (HopLog (hops hN v) (st'.log v)) st'.state := by
  intro hfit
  cases label with
  | send node vnet message delta =>
      obtain ⟨⟨hnode, -, hinternal, hsource⟩, s', hsend, rfl⟩ := send_ok.mp hstep
      obtain ⟨hentered, hframe, -⟩ := enqueue_at_effect hsend
      have hle : CountersLe st.state s' := by
        intro q
        by_cases hq : q = .toNet node vnet
        · rw [hq, hentered.counter]
          exact Nat.le_succ _
        · rw [hframe q hq]
      have hs := h (hle.fit hfit)
      by_cases hv : v = vnet
      · subst hv
        show Ordered hN source v (HopLog (hops hN v) (record st.log v _ v)) s'
        rw [record_same]
        exact hs.send (fun _ _ => .inject) hnode hinternal hsource hsend hfit
      · show Ordered hN source v (HopLog (hops hN v) (record st.log vnet _ v)) s'
        rw [record_other _ _ hv]
        exact hs.same fun q hq => hframe q fun heq => hv (by rw [← hq, heq]; rfl)
  | receive node vnet =>
      obtain ⟨-, message, hpeek, s', hpop, rfl⟩ := receive_ok.mp hstep
      obtain ⟨hpopped, hframe, -⟩ := pop_at_effect hpop
      have hle : CountersLe st.state s' := by
        intro q
        by_cases hq : q = .fromNet node vnet
        · rw [hq, pop_counter hpopped]
        · rw [hframe q hq]
      have hs := h (hle.fit hfit)
      by_cases hv : v = vnet
      · subst hv
        show Ordered hN source v (HopLog (hops hN v) (record st.log v _ v)) s'
        rw [record_same]
        exact hs.receive (fun _ _ _ => .eject) hpeek hpop
      · show Ordered hN source v (HopLog (hops hN v) (record st.log vnet _ v)) s'
        rw [record_other _ _ hv]
        exact hs.same fun q hq => hframe q fun heq => hv (by rw [← hq, heq]; rfl)
  | wakeup c =>
      obtain ⟨-, s', hprocess, rfl⟩ := wakeup_ok.mp hstep
      exact Ordered.process .hopLog h hordered hprocess hfit
  | tick =>
      obtain ⟨-, rfl⟩ := tick_ok.mp hstep
      exact (h hfit).same fun _ _ => rfl

/-- In every reachable state an ordered virtual network is in order. -/
theorem ordered_run (hN : Wired N rank) (hordered : N.m_ordered v = true)
    (h : (simpleNetwork N source).Reachable st) (hfit : CountersFit N v st.state) :
    Ordered hN source v (HopLog (hops hN v) (st.log v)) st.state :=
  h.invariant (I := fun st => CountersFit N v st.state →
      Ordered hN source v (HopLog (hops hN v) (st.log v)) st.state)
    (fun st hst _ => by
      obtain rfl := hst
      exact ordered_initial hordered .empty)
    (fun st label st' _ ih _ hnext => ordered_step hordered ih hnext) hfit

/-- On an ordered virtual network what the controllers send and receive is what they could send and
receive over first-in first-out channels, and each node has in its buffer what has arrived for it.
So what a node has received from another one is the beginning of what the other one has sent. -/
theorem simple_network_refines_fifo {t : Topology} (hN : Built N t)
    (hordered : N.m_ordered v = true) (h : (simpleNetwork N source).Reachable st)
    (hfit : CountersFit N v st.state) :
    (∃ net, FifoLog (st.log v) net ∧ ∀ node,
      net.arrived.filter (Packet.isFor node) =
        (st.state.buffers (.fromNet node v)).contents.map fun m =>
          ⟨source m.body, node, m.body⟩) ∧
    ∀ src dst, (st.log v).filterMap (NetEvent.receivedOn src dst) <+:
      (st.log v).filterMap (NetEvent.sentOn src dst) := by
  obtain ⟨rank, hN⟩ := hN.wired
  obtain ⟨net, hlog, hfollows⟩ := (ordered_run hN hordered h hfit).history.refines
  refine ⟨⟨net, hlog, fun node => ?_⟩, fun src dst => ?_⟩
  · rw [hfollows.arrivals]
    show (parcels source v st.state (.fromNet node v)).map _ = _
    rw [parcels_from_net, List.map_map]
    rfl
  · rw [hlog.channel]
    exact List.prefix_append _ _

/-- The messages of the example arrive in their order. -/
theorem crossbar_refines_fifo :
    CountersFit crossbarNetwork 0 (crossbarState 8).state ∧
    (∃ net, FifoLog ((crossbarState 8).log 0) net ∧ ∀ node,
      net.arrived.filter (Packet.isFor node) =
        ((crossbarState 8).state.buffers (.fromNet node 0)).contents.map fun m =>
          ⟨m.body.1, node, m.body⟩) ∧
    ∀ src dst, ((crossbarState 8).log 0).filterMap (NetEvent.receivedOn src dst) <+:
      ((crossbarState 8).log 0).filterMap (NetEvent.sentOn src dst) :=
  have hfit : CountersFit crossbarNetwork 0 (crossbarState 8).state := by
    unfold CountersFit
    decide +kernel
  ⟨hfit, simple_network_refines_fifo crossbar_built rfl
    (crossbar_state_run (fun _ _ _ => trivial) 8) hfit⟩

end NetworkSystem

end Ece552.Ruby
