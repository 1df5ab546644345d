import Ece552.Ruby.Routing

/-!
# Effects on the buffers

What moving a message at the head of an in-port, and starting a transfer, do to each of the buffers
of the network: `move_head_effect` and `start_transfer_effect`.
-/

namespace Ece552.Ruby

open Library

namespace SimpleNetwork

variable {M : Type} {N : SimpleNetwork} {rank : Nat → Nat → Nat} {s s' : NetworkState M}
  {q : Queue} {c : Consumer} {sw incoming vnet v : Nat} {l : MadeLink}

/-- The sizes seen last are no messages. -/
theorem Recached.contents (h : Recached s s') (q : Queue) :
    (s'.buffers q).contents = (s.buffers q).contents := by
  unfold MessageBuffer.contents
  rw [h.heap]

/-- The buffer into a switch belongs to the virtual network. -/
theorem vnet_of_in_queue : vnetOf (N.inQueue incoming sw vnet) = vnet := by
  unfold inQueue
  split <;> rfl

/-- So does the buffer behind a link. -/
theorem vnet_of_out_queue : vnetOf (N.outQueue sw incoming vnet) = vnet := by
  unfold outQueue
  split <;> rfl

/-- The message that a pop takes away. -/
theorem head_contents {b b' : MessageBuffer (NetworkMessage M)} {now : Nat}
    {message : Message (NetworkMessage M)} {node : MessageBufferNode (NetworkMessage M)}
    {rest : List (MessageBufferNode (NetworkMessage M))} (hheap : b.m_prio_heap = node :: rest)
    (hmessage : message = node.m_msgptr) (hpop : b.pop now = .ok b') :
    b.contents = message.content :: b'.contents := by
  obtain ⟨node', hheap', -⟩ := MessageBuffer.pop_ok hpop
  rw [hheap, List.cons.injEq] at hheap'
  unfold MessageBuffer.contents
  rw [hheap, List.map_cons, hmessage, hheap'.2]

/-- A buffer in front of a throttle leads into no switch. -/
theorem intermediate_ne_in_queue {src dest : Nat} :
    Queue.intermediate src dest v ≠ N.inQueue incoming sw vnet := by
  unfold inQueue
  split <;> exact fun heq => by cases heq

/-- A buffer in front of a throttle is not the one behind the link. -/
theorem out_queue_ne_intermediate {src dest : Nat} :
    N.outQueue src dest v ≠ .intermediate src dest v := by
  unfold outQueue
  split <;> exact fun heq => by cases heq

/-- The second buffer is the first one with one more message. -/
def Enqueues (N : SimpleNetwork) (now : Nat) (message : Message (NetworkMessage M))
    (b b' : MessageBuffer (NetworkMessage M)) : Prop :=
  ∃ random delta e, b.enqueue (N.clock now) random message delta = .ok e ∧ b' = e.buffer

/-- The counter counts the messages that were put into the buffer. -/
theorem Enqueues.counter {now : Nat} {message : Message (NetworkMessage M)}
    {b b' : MessageBuffer (NetworkMessage M)} (h : Enqueues N now message b b') :
    b'.m_msg_counter = b.m_msg_counter + 1 := by
  obtain ⟨random, delta, e, he, rfl⟩ := h
  obtain ⟨-, -, -, -, -, rfl⟩ := MessageBuffer.enqueue_ok.mp he
  rfl

/-- The buffer has the message and what it had before. -/
theorem Enqueues.contents {now : Nat} {message : Message (NetworkMessage M)}
    {b b' : MessageBuffer (NetworkMessage M)} (h : Enqueues N now message b b') :
    b'.contents.Perm (message.content :: b.contents) := by
  obtain ⟨random, delta, e, he, rfl⟩ := h
  exact MessageBuffer.enqueue_contents he

/-- A buffer that is in order stays in order, with the message behind the others, until its counter
wraps around. -/
theorem Enqueues.inOrder {now : Nat} {message : Message (NetworkMessage M)}
    {b b' : MessageBuffer (NetworkMessage M)} (h : Enqueues N now message b b') (hb : b.InOrder)
    (hcount : b'.m_msg_counter < 2 ^ 32) :
    b'.InOrder ∧ b'.contents = b.contents ++ [message.content] := by
  obtain ⟨random, delta, e, he, rfl⟩ := h
  exact hb.enqueue rfl he hcount

/-- What putting a message into a buffer does to the state. -/
theorem enqueue_at_effect {message : Message (NetworkMessage M)} {delta : Nat}
    (h : N.enqueueAt s q message delta = .ok s') :
    Enqueues N s.now message (s.buffers q) (s'.buffers q) ∧
      (∀ q', q' ≠ q → s'.buffers q' = s.buffers q') ∧ s'.now = s.now := by
  obtain ⟨e, c, he, -, rfl⟩ := enqueue_at_ok.mp h
  refine ⟨⟨_, _, e, he, by simp⟩, fun q' hne => ?_, by simp⟩
  simp [set_buffer_other hne]

/-- What taking a message from a buffer does to the state. -/
theorem pop_at_effect (h : popAt s q = .ok s') :
    (s.buffers q).pop s.now = .ok (s'.buffers q) ∧
      (∀ q', q' ≠ q → s'.buffers q' = s.buffers q') ∧ s'.now = s.now := by
  obtain ⟨-, b, hb, rfl⟩ := pop_at_ok.mp h
  refine ⟨by rw [hb, set_buffer_same], fun q' hne => set_buffer_other hne, rfl⟩

/-- The outputs of a message go to different queues, one enqueue each. -/
theorem enqueue_outputs_effect {message : Message (NetworkMessage M)}
    {outputs : List (MadeLink × NetDest)}
    (h : enqueueOutputs N s sw vnet message outputs = .ok s')
    (hnodup : (outputs.map fun out => out.1.dest).Nodup) :
    (∀ out ∈ outputs, Enqueues N s.now (setInternalDestination message out.2)
        (s.buffers (.intermediate sw out.1.dest vnet))
        (s'.buffers (.intermediate sw out.1.dest vnet))) ∧
      (∀ q, (∀ out ∈ outputs, q ≠ .intermediate sw out.1.dest vnet) →
        s'.buffers q = s.buffers q) ∧ s'.now = s.now := by
  induction outputs generalizing s with
  | nil =>
      obtain rfl := Except.ok.inj h
      exact ⟨fun out hout => absurd hout List.not_mem_nil, fun _ _ => rfl, rfl⟩
  | cons out outputs ih =>
      unfold enqueueOutputs at h
      rw [List.foldlM_cons] at h
      obtain ⟨s₁, hone, hrest⟩ := bind_eq_ok.mp h
      obtain ⟨hout, hnodup⟩ := List.nodup_cons.mp hnodup
      obtain ⟨hfirst, hframe, hnow⟩ := enqueue_at_effect hone
      obtain ⟨hothers, hframe', hnow'⟩ := ih hrest hnodup
      have hne : ∀ out' ∈ outputs,
          Queue.intermediate sw out'.1.dest vnet ≠ .intermediate sw out.1.dest vnet := by
        intro out' hout' heq
        injection heq with _ hdest
        exact hout (List.mem_map.mpr ⟨out', hout', hdest⟩)
      refine ⟨fun out' hout' => ?_, fun q hq => ?_, hnow'.trans hnow⟩
      · rcases List.mem_cons.mp hout' with rfl | hout'
        · rw [hframe' _ fun out'' hout'' => (hne out'' hout'').symm]
          exact hfirst
        · rw [← hnow, ← hframe _ (hne out' hout')]
          exact hothers out' hout'
      · rw [hframe' q fun out' hout' => hq out' (List.mem_cons_of_mem _ hout')]
        exact hframe q (hq out List.mem_cons_self)

/-- The outputs of a message lead to different places. -/
theorem HeadMoves.nodup {message : Message (NetworkMessage M)} {links : List MadeLink}
    {s₀ : NetworkState M} (hN : Wired N rank)
    (h : HeadMoves N s incoming sw vnet message links s₀) :
    ((route links message.content.getInternalDestination).1.map fun out => out.1.dest).Nodup := by
  have hsub := (route_spec links message.content.getInternalDestination).sublist.map MadeLink.dest
  rw [List.map_map] at hsub
  exact ((h.perm.map MadeLink.dest).nodup_iff.mpr (hN.out_nodup sw)).sublist hsub

/-- What moving a message at the head of an in-port does to the buffers. -/
theorem move_head_effect (hN : Wired N rank) (h : N.moveHead s incoming sw vnet = .ok (true, s')) :
    ∃ message links, (∃ node rest,
        (s.buffers (N.inQueue incoming sw vnet)).m_prio_heap = node :: rest ∧
        node.m_time ≤ s.now ∧ message = node.m_msgptr) ∧
      links.Perm (N.outLinks sw) ∧ (N.m_ordered vnet = true → links = N.outLinks sw) ∧
      (route links message.content.getInternalDestination).2 = ∅ ∧
      ∃ s₀, Recached s s₀ ∧
        (∀ out ∈ (route links message.content.getInternalDestination).1,
          Enqueues N s.now (setInternalDestination message out.2)
            (s₀.buffers (.intermediate sw out.1.dest vnet))
            (s'.buffers (.intermediate sw out.1.dest vnet))) ∧
        (s₀.buffers (N.inQueue incoming sw vnet)).pop s.now =
          .ok (s'.buffers (N.inQueue incoming sw vnet)) ∧
        (∀ q, (∀ out ∈ (route links message.content.getInternalDestination).1,
          q ≠ .intermediate sw out.1.dest vnet) → q ≠ N.inQueue incoming sw vnet →
          s'.buffers q = s₀.buffers q) ∧ s'.now = s.now := by
  obtain ⟨message, links, s₀, hmoves, hcases⟩ := move_head_ok h
  rcases hcases with ⟨-, s₁, s₂, hout, hpop, rfl⟩ | ⟨hfalse, -⟩
  · obtain ⟨hothers, hframe, hnow⟩ := enqueue_outputs_effect hout (hmoves.nodup hN)
    obtain ⟨hpopped, hframe', hnow'⟩ := pop_at_effect hpop
    have hin : ∀ dest, Queue.intermediate sw dest vnet ≠ N.inQueue incoming sw vnet := by
      intro dest heq
      unfold inQueue at heq
      split at heq <;> cases heq
    have hrec := hmoves.recached
    refine ⟨message, links, hmoves.head, hmoves.perm, hmoves.ordered, hmoves.all, s₀, hrec, ?_, ?_,
      ?_, ?_⟩
    · intro out hmem
      rw [add_pending_buffers, hframe' _ (hin _), ← hrec.now]
      exact hothers out hmem
    · rw [add_pending_buffers, ← hpopped, hnow, hrec.now,
        hframe _ fun out _ => (hin out.1.dest).symm]
    · intro q hq hqin
      rw [add_pending_buffers, hframe' q hqin, hframe q hq]
    · rw [add_pending_now, hnow', hnow, hrec.now]
  · cases hfalse

/-- What the start of a transfer does to the buffers. -/
theorem start_transfer_effect (h : N.startTransfer s l vnet = .ok s') :
    ∃ message, (∃ node rest,
        (s.buffers (.intermediate l.src l.dest vnet)).m_prio_heap = node :: rest ∧
        node.m_time ≤ s.now ∧ message = node.m_msgptr) ∧
      Enqueues N s.now message (s.buffers (N.outQueue l.src l.dest vnet))
        (s'.buffers (N.outQueue l.src l.dest vnet)) ∧
      (s.buffers (.intermediate l.src l.dest vnet)).pop s.now =
        .ok (s'.buffers (.intermediate l.src l.dest vnet)) ∧
      (∀ q, q ≠ N.outQueue l.src l.dest vnet → q ≠ .intermediate l.src l.dest vnet →
        s'.buffers q = s.buffers q) ∧ s'.now = s.now := by
  unfold startTransfer at h
  obtain ⟨message, hpeek, h⟩ := bind_eq_ok.mp h
  obtain ⟨size, -, h⟩ := bind_eq_ok.mp h
  obtain ⟨s₁, henqueue, hpop⟩ := bind_eq_ok.mp h
  obtain ⟨hentered, hframe, hnow⟩ := enqueue_at_effect henqueue
  obtain ⟨hpopped, hframe', hnow'⟩ := pop_at_effect hpop
  have hne : N.outQueue l.src l.dest vnet ≠ .intermediate l.src l.dest vnet :=
    out_queue_ne_intermediate
  simp only [set_units_buffers, set_units_now] at hentered hframe hnow
  refine ⟨message, peek_ok.mp hpeek, ?_, ?_, fun q hq hq' => ?_, hnow'.trans hnow⟩
  · rwa [hframe' _ hne]
  · rw [← hpopped, hframe _ hne.symm, hnow]
  · rw [hframe' q hq', hframe q hq]

/-! ## The buffers that are in use -/

/-- The buffers of a virtual network. -/
def queues (N : SimpleNetwork) (v : Nat) : Finset Queue :=
  (N.switched.map fun l => N.inQueue l.src l.dest v).toFinset ∪
    ((N.throttled.map fun l => .intermediate l.src l.dest v).toFinset ∪
      ((List.range N.m_nodes).map (.fromNet · v)).toFinset)

/-- The buffers of a virtual network that a switch, a throttle or a node takes messages from. -/
theorem mem_queues : q ∈ N.queues v ↔ (∃ l ∈ N.switched, N.inQueue l.src l.dest v = q) ∨
    (∃ l ∈ N.throttled, .intermediate l.src l.dest v = q) ∨
    ∃ node < N.m_nodes, .fromNet node v = q := by
  simp only [queues, Finset.mem_union, List.mem_toFinset, List.mem_map, List.mem_range]

/-- The buffer of a node is one of them. -/
theorem from_net_mem {node : Nat} : .fromNet node v ∈ N.queues v ↔ node < N.m_nodes := by
  rw [mem_queues]
  constructor
  · rintro (⟨l, -, heq⟩ | ⟨l, -, heq⟩ | ⟨node', hnode, heq⟩)
    · unfold inQueue at heq
      split at heq <;> cases heq
    · cases heq
    · injection heq with hsame
      exact hsame ▸ hnode
  · exact fun hnode => .inr (.inr ⟨node, hnode, rfl⟩)

/-- The buffer in front of a throttle is one of them. -/
theorem intermediate_mem (h : l ∈ N.throttled) : .intermediate l.src l.dest v ∈ N.queues v :=
  mem_queues.mpr (.inr (.inl ⟨l, h, rfl⟩))

/-- The buffer of an in-port is one of them. -/
theorem in_queue_mem (h : incoming ∈ N.inPorts sw) : N.inQueue incoming sw v ∈ N.queues v := by
  obtain ⟨l, hl, rfl, rfl⟩ := mem_in_ports.mp h
  exact mem_queues.mpr (.inl ⟨l, hl, rfl⟩)

/-- The buffer behind a link is one of them. -/
theorem out_queue_mem (hN : Wired N rank) (h : l ∈ N.throttled) :
    N.outQueue l.src l.dest v ∈ N.queues v := by
  obtain ⟨hl, hsrc⟩ := mem_throttled.mp h
  unfold outQueue
  split
  · have hkinds := hN.kinds l hl
    exact from_net_mem.mpr (by omega)
  · next hswitch =>
    refine mem_queues.mpr (.inl ⟨l, mem_switched.mpr ⟨hl, not_lt.mp hswitch⟩, ?_⟩)
    rw [inQueue, if_neg (not_lt.mpr hsrc)]

/-- A queue into which a node can put messages leads to a switch. -/
theorem to_net_mem (hN : Wired N rank) {node : Nat} (hnode : node < N.m_nodes)
    (h : N.consumer (.toNet node v) = some c) : .toNet node v ∈ N.queues v := by
  obtain ⟨l, hl, -⟩ := Option.map_eq_some_iff.mp h
  have hsrc : l.src = node := by simpa using List.find?_some hl
  have hmem := List.mem_of_find?_eq_some hl
  have hkinds := hN.kinds l hmem
  refine mem_queues.mpr (.inl ⟨l, mem_switched.mpr ⟨hmem, by omega⟩, ?_⟩)
  rw [inQueue, hsrc, if_pos hnode]

/-- They belong to the virtual network. -/
theorem vnet_of_mem (h : q ∈ N.queues v) : vnetOf q = v := by
  rcases mem_queues.mp h with ⟨l, -, rfl⟩ | ⟨l, -, rfl⟩ | ⟨node, -, rfl⟩
  · exact vnet_of_in_queue
  · rfl
  · rfl

end SimpleNetwork

/-! ## Steps of the system -/

namespace NetworkSystem

open SimpleNetwork

variable {M : Type} {N : SimpleNetwork} {source : M → Nat} {st st' : NetworkSystem M}
  {node vnet v : Nat}

/-- The log of the virtual network on which something happens gets longer, the others stay. -/
theorem record_same (log : Nat → List (NetEvent Nat M)) (e : NetEvent Nat M) :
    record log v e v = log v ++ [e] :=
  Function.update_self ..

/-- An event of one virtual network is none of another. -/
theorem record_other (log : Nat → List (NetEvent Nat M)) {vnet : Nat} (e : NetEvent Nat M)
    (h : v ≠ vnet) : record log vnet e v = log v :=
  Function.update_of_ne h ..

/-- A step that happens met its condition. -/
theorem guarded_ok {α : Type} {p : Prop} [Decidable p] {r : Except Fault (Option α)} {a : α} :
    (if p then r else pure none) = .ok (some a) ↔ p ∧ r = .ok (some a) := by
  by_cases h : p
  · rw [if_pos h]
    exact ⟨fun hr => ⟨h, hr⟩, fun hr => hr.2⟩
  · rw [if_neg h]
    exact ⟨fun hr => absurd (Except.ok.inj hr) (Option.some_ne_none a).symm, fun hr =>
      absurd hr.1 h⟩

/-- A step that ends, ends in the state it says. -/
theorem pure_some_ok {α : Type} {a a' : α} :
    (pure (some a') : Except Fault (Option α)) = .ok (some a) ↔ a = a' :=
  ⟨fun h => (Option.some.inj (Except.ok.inj h)).symm, fun h => by rw [h]; rfl⟩

/-- What it takes to send, and what it does. -/
theorem send_ok {message : NetworkMessage M} {delta : Nat} :
    st.step N source (.send node vnet message delta) = .ok (some st') ↔
      (node < N.m_nodes ∧ vnet < N.m_virtual_networks ∧ message.m_internal_dest = none ∧
        source message.body = node) ∧
      ∃ s, N.enqueueAt st.state (.toNet node vnet) ⟨message, st.state.now, 0⟩ delta = .ok s ∧
        st' = ⟨s, record st.log vnet (.sent node message.m_Destination message.body)⟩ := by
  unfold step
  simp only [guarded_ok, bind_eq_ok, pure_some_ok]

/-- What it takes to receive, and what it does. -/
theorem receive_ok :
    st.step N source (.receive node vnet) = .ok (some st') ↔
      (st.state.buffers (.fromNet node vnet)).isReady st.state.now = true ∧ ∃ message,
      (st.state.buffers (.fromNet node vnet)).peekMsgPtr st.state.now = .ok message ∧ ∃ s,
      popAt st.state (.fromNet node vnet) = .ok s ∧
      st' = ⟨s, record st.log vnet
        (.received node (source message.content.body) message.content.body)⟩ := by
  unfold step
  simp only [guarded_ok, bind_eq_ok, pure_some_ok]

/-- What it takes to wake up, and what it does. -/
theorem wakeup_ok {c : Consumer} :
    st.step N source (.wakeup c) = .ok (some st') ↔ (st.state.now, c) ∈ st.state.scheduled ∧
      ∃ s, N.process st.state c = .ok s ∧ st' = { st with state := s } := by
  unfold step
  simp only [guarded_ok, bind_eq_ok, pure_some_ok]

/-- Time goes on when nobody is scheduled for now. -/
theorem tick_ok :
    st.step N source .tick = .ok (some st') ↔ (∀ c, (st.state.now, c) ∉ st.state.scheduled) ∧
      st' = { st with state := { st.state with now := st.state.now + 1 } } := by
  unfold step
  rw [guarded_ok, pure_some_ok, Finset.filter_eq_empty_iff]
  refine and_congr_left' ⟨fun h c hc => h hc rfl, fun h e he heq => h e.2 ?_⟩
  rwa [← heq]

end NetworkSystem

end Ece552.Ruby
