import Ece552.Ruby.Conservation

/-!
# No wakeup fails

The assertions and panics in the wakeups of switches and throttles are never reached as long as the
controllers send messages of a known size to nodes that listen (`wakeups_never_fail`): every
destination has a link, everything is put into a buffer with the one delay of that buffer, so
nothing overtakes in a strict buffer, and no message is taken out before its time.
-/

namespace Ece552.Ruby

open Library

namespace MessageBuffer

variable {α : Type} {clock : Clock} {b b' : MessageBuffer α} {message : Message α} {delta : Nat}
  {random : Nat → Nat}

/-- What is set up once. -/
def settings (b : MessageBuffer α) : Bool × Bool × Bool × Int :=
  (b.m_ordering_set, b.m_strict_fifo, b.m_randomization, b.m_max_size)

/-- Taking a message keeps the settings of a buffer. -/
theorem pop_settings {now : Nat} (h : b.pop now = .ok b') : b'.settings = b.settings := by
  unfold pop at h
  split at h
  · obtain rfl := Except.ok.inj h
    rfl
  · cases h

/-- A message arrives later than now. -/
theorem arrival_after (h : 0 < delta) : clock.now < (b.arrivalTime clock random delta).1 := by
  have hpos := random_time_pos random
  unfold arrivalTime
  split
  · simp only
    omega
  · simp only
    split
    · simp only
      omega
    · simp only
      omega

/-- A message arrives after the last one if the last one did not take longer. -/
theorem arrival_in_order (hstrict : b.m_strict_fifo = true)
    (h : (!clock.randomization || !b.m_randomization) = true →
      b.m_last_arrival_time ≤ clock.now + delta) :
    (b.arrivalTime clock random delta).2.1 ≤ (b.arrivalTime clock random delta).1 := by
  unfold arrivalTime
  split
  · next hplain => exact h hplain
  · simp

/-- A message is stamped with the time of its arrival. -/
theorem enqueue_stamp {e : Enqueued α} (h : b.enqueue clock random message delta = .ok e) :
    ∀ node ∈ e.buffer.m_prio_heap, node ∈ b.m_prio_heap ∨
      node.m_msgptr.m_LastEnqueueTime = node.m_time := by
  obtain ⟨-, -, -, -, -, rfl⟩ := enqueue_ok.mp h
  intro node hnode
  rcases List.mem_cons.mp ((push_heap_perm _ _).subset hnode) with rfl | hold
  · exact .inr rfl
  · exact .inl hold

/-- Putting a message into a buffer keeps its settings. -/
theorem enqueue_settings {e : Enqueued α} (h : b.enqueue clock random message delta = .ok e) :
    e.buffer.settings = b.settings := by
  obtain ⟨-, -, -, -, -, rfl⟩ := enqueue_ok.mp h
  rfl

/-- The arrival that an enqueue records. -/
theorem enqueue_last {e : Enqueued α} (h : b.enqueue clock random message delta = .ok e)
    (hwarmup : clock.warmup_enabled = false) (hplain : clock.randomization = false) :
    e.buffer.m_last_arrival_time = clock.now + delta := by
  obtain ⟨-, -, -, -, -, rfl⟩ := enqueue_ok.mp h
  simp [insertMessage, arrivalTime, hwarmup, hplain]

end MessageBuffer

namespace SimpleNetwork

variable {M : Type} {N : SimpleNetwork} {rank : Nat → Nat → Nat} {s s' : NetworkState M}
  {q : Queue} {c : Consumer} {sw incoming vnet v d delta : Nat} {l : MadeLink}

/-- What a network has to be like for its wakeups not to fail: its routers lead to every node, and
its links take time and have bandwidth. -/
structure Operable (N : SimpleNetwork) : Prop where
  reach : ∀ l ∈ N.switched, ∀ d < N.m_nodes,
    ∃ l' ∈ N.links, l'.src = l.dest ∧ d ∈ l'.routing_table_entry
  latency : ∀ l ∈ N.throttled, 0 < l.link.m_latency
  bandwidth : ∀ l ∈ N.throttled, 0 < N.getLinkBandwidth l
  one_out : ∀ l ∈ N.links, ∀ l' ∈ N.links, l.dest < 2 * N.m_nodes → l'.dest = l.dest →
    l'.src = l.src

/-- The delay with which switches and throttles put messages into a buffer. -/
def Delay (N : SimpleNetwork) (q : Queue) (delta : Nat) : Prop :=
  (∃ l ∈ N.throttled, ∃ v, q = .intermediate l.src l.dest v ∧ delta = 1) ∨
    ∃ l ∈ N.throttled, ∃ v, q = N.outQueue l.src l.dest v ∧ delta = l.link.m_latency

/-- No two links share the buffer behind them. -/
theorem out_queue_inj (hN : Wired N rank) (hop : Operable N) {l l' : MadeLink}
    (hl : l ∈ N.throttled) (hl' : l' ∈ N.throttled)
    (h : N.outQueue l.src l.dest v = N.outQueue l'.src l'.dest vnet) : l = l' := by
  rw [mem_throttled] at hl hl'
  have hkinds := hN.kinds l hl.1
  have hkinds' := hN.kinds l' hl'.1
  unfold outQueue at h
  split at h <;> split at h
  · next hout hout' =>
    injection h with hnode
    have hdest : l'.dest = l.dest := by omega
    exact hN.unique hl.1 hl'.1 (hop.one_out l hl.1 l' hl'.1 hout hdest).symm hdest.symm
  · cases h
  · cases h
  · injection h with hsrc hdest
    exact hN.unique hl.1 hl'.1 hsrc hdest

/-- A buffer has one delay. -/
theorem Delay.unique (hN : Wired N rank) (hop : Operable N) {delta' : Nat} (h : Delay N q delta)
    (h' : Delay N q delta') : delta = delta' := by
  have hne : ∀ (l l' : MadeLink) (v v' : Nat),
      Queue.intermediate l.src l.dest v ≠ N.outQueue l'.src l'.dest v' := by
    intro l l' v v'
    unfold outQueue
    split <;> exact fun heq => by cases heq
  rcases h with ⟨l, -, v, rfl, rfl⟩ | ⟨l, hl, v, rfl, rfl⟩
  · rcases h' with ⟨_, -, _, -, rfl⟩ | ⟨l', -, v', hq, -⟩
    · rfl
    · exact absurd hq (hne l l' v v')
  · rcases h' with ⟨l', -, v', hq, -⟩ | ⟨l', hl', v', hq, rfl⟩
    · exact absurd hq.symm (hne l' l v' v)
    · rw [out_queue_inj hN hop hl hl' hq]

/-- Everything takes time. -/
theorem Delay.pos (hop : Operable N) (h : Delay N q delta) : 0 < delta := by
  rcases h with ⟨-, -, -, -, rfl⟩ | ⟨l, hl, -, -, rfl⟩
  · exact Nat.one_pos
  · exact hop.latency l hl

/-- A message of a known size for nodes that listen. -/
def Known (N : SimpleNetwork) (v : Nat) (m : NetworkMessage M) : Prop :=
  m.m_MessageSize ≠ .Undefined ∧
    ∀ d ∈ m.getInternalDestination, d < N.m_nodes ∧ N.listens d v = true

/-- What keeps the operations on the buffers from failing. -/
structure Healthy (N : SimpleNetwork) (s : NetworkState M) : Prop where
  settings : ∀ q, (s.buffers q).settings =
    (N.initialBuffer q : MessageBuffer (NetworkMessage M)).settings
  stamped : ∀ q, ∀ node ∈ (s.buffers q).m_prio_heap,
    node.m_msgptr.m_LastEnqueueTime ≤ node.m_time
  known : ∀ q, ∀ m ∈ held s q, Known N (vnetOf q) m
  last : N.randomization = false → ∀ q delta, Delay N q delta →
    (s.buffers q).m_last_arrival_time ≤ s.now + delta

/-- The buffers of the network have strict order. -/
theorem initial_strict (q : Queue) :
    (N.initialBuffer q : MessageBuffer (NetworkMessage M)).m_randomization = true := by
  cases q <;> rfl

/-- When an enqueue succeeds. -/
theorem Healthy.enqueue_succeeds (h : Healthy N s) (message : Message (NetworkMessage M))
    (hset : (N.initialBuffer q : MessageBuffer (NetworkMessage M)).m_ordering_set = true)
    (hconsumer : N.consumer q = some c) (hpos : 0 < delta)
    (hlast : N.randomization = false → (s.buffers q).m_last_arrival_time ≤ s.now + delta)
    (hstamp : message.m_LastEnqueueTime ≤ s.now) :
    ∃ s', N.enqueueAt s q message delta = .ok s' := by
  have hsettings := h.settings q
  simp only [MessageBuffer.settings, Prod.mk.injEq, initial_strict] at hsettings
  obtain ⟨hordering, -, hrandom, -⟩ := hsettings
  refine ⟨_, enqueue_at_ok.mpr ⟨_, c, MessageBuffer.enqueue_ok.mpr ⟨hordering.trans hset, hpos,
    MessageBuffer.arrival_after hpos, fun hstrict =>
      MessageBuffer.arrival_in_order hstrict fun hplain => hlast ?_, hstamp, rfl⟩, hconsumer, rfl⟩⟩
  rw [hrandom, Bool.not_true, Bool.or_false, Bool.not_eq_true'] at hplain
  exact hplain

/-- What an enqueue leaves healthy. -/
theorem Healthy.enqueueAt (h : Healthy N s) (message : Message (NetworkMessage M))
    (hdelay : ∀ delta', Delay N q delta' → delta = delta')
    (hknown : Known N (vnetOf q) message.content)
    (henqueue : N.enqueueAt s q message delta = .ok s') : Healthy N s' := by
  obtain ⟨-, hframe, hnow⟩ := enqueue_at_effect henqueue
  obtain ⟨hadd, hother⟩ := enqueue_at_held henqueue
  obtain ⟨e, c, he, -, hs'⟩ := enqueue_at_ok.mp henqueue
  have hbuffer : s'.buffers q = e.buffer := by simp [hs']
  refine ⟨fun q' => ?_, fun q' node hnode => ?_, fun q' m hm => ?_, fun hplain q' delta' hq' => ?_⟩
  · by_cases hq : q' = q
    · rw [hq, hbuffer, MessageBuffer.enqueue_settings he]
      exact h.settings q
    · rw [hframe q' hq]
      exact h.settings q'
  · by_cases hq : q' = q
    · rw [hq, hbuffer] at hnode
      rcases MessageBuffer.enqueue_stamp he node hnode with hold | hnew
      · exact h.stamped q node hold
      · exact hnew.le
    · rw [hframe q' hq] at hnode
      exact h.stamped q' node hnode
  · by_cases hq : q' = q
    · subst hq
      rcases List.mem_cons.mp (hadd.subset hm) with rfl | hold
      · exact hknown
      · exact h.known q' m hold
    · rw [hother q' hq] at hm
      exact h.known q' m hm
  · rw [hnow]
    by_cases hq : q' = q
    · subst hq
      rw [hbuffer, MessageBuffer.enqueue_last he rfl hplain, hdelay delta' hq']
      exact le_rfl
    · rw [hframe q' hq]
      exact h.last hplain q' delta' hq'

/-- Taking a message leaves the buffers healthy. -/
theorem Healthy.popAt (h : Healthy N s) (hpop : popAt s q = .ok s') : Healthy N s' := by
  obtain ⟨hpopped, hframe, hnow⟩ := pop_at_effect hpop
  obtain ⟨⟨m, hremove⟩, hother⟩ := pop_at_held hpop
  obtain ⟨first, hheap, -, -, -, -, -, -, hlast⟩ := MessageBuffer.pop_ok hpopped
  refine ⟨fun q' => ?_, fun q' node hnode => ?_, fun q' m' hm => ?_, fun hplain q' delta' hq' => ?_⟩
  · by_cases hq : q' = q
    · rw [hq, MessageBuffer.pop_settings hpopped]
      exact h.settings q
    · rw [hframe q' hq]
      exact h.settings q'
  · by_cases hq : q' = q
    · rw [hq] at hnode
      exact h.stamped q node (hheap ▸ List.mem_cons_of_mem _ hnode)
    · rw [hframe q' hq] at hnode
      exact h.stamped q' node hnode
  · by_cases hq : q' = q
    · subst hq
      exact h.known q' m' (hremove ▸ List.mem_cons_of_mem _ hm)
    · rw [hother q' hq] at hm
      exact h.known q' m' hm
  · rw [hnow]
    by_cases hq : q' = q
    · rw [hq, hlast]
      exact h.last hplain q delta' (hq ▸ hq')
    · rw [hframe q' hq]
      exact h.last hplain q' delta' hq'

/-- What leaves the buffers alone leaves them healthy. -/
theorem Healthy.same (h : Healthy N s) (hbuffers : s'.buffers = s.buffers)
    (hnow : s.now ≤ s'.now) : Healthy N s' := by
  refine ⟨fun q => ?_, fun q => ?_, fun q => ?_, fun hplain q delta hq => ?_⟩
  · rw [hbuffers]
    exact h.settings q
  · rw [hbuffers]
    exact h.stamped q
  · unfold held
    rw [hbuffers]
    exact h.known q
  · rw [hbuffers]
    exact (h.last hplain q delta hq).trans (Nat.add_le_add_right hnow delta)

/-- Reading sizes leaves the buffers healthy. -/
theorem Healthy.recached (h : Healthy N s) (hcached : Recached s s') : Healthy N s' := by
  refine ⟨fun q => ?_, fun q => ?_, fun q => ?_, fun hplain q delta hq => ?_⟩
  · obtain ⟨t, n, hsame⟩ := hcached.buffers q
    rw [hsame]
    exact h.settings q
  · rw [hcached.heap]
    exact h.stamped q
  · rw [hcached.held]
    exact h.known q
  · obtain ⟨t, n, hsame⟩ := hcached.buffers q
    rw [hsame, hcached.now]
    exact h.last hplain q delta hq

/-- The copies of a message are for nodes that listen. -/
theorem Known.split {m : NetworkMessage M} (h : Known N v m) {dsts : NetDest}
    (hsub : dsts ⊆ m.getInternalDestination) :
    Known N v { m with m_internal_dest := some dsts } :=
  ⟨h.1, fun d hd => h.2 d (hsub hd)⟩

/-- The node at the top of a buffer has a message that is held there. -/
theorem head_held {node : MessageBufferNode (NetworkMessage M)}
    {rest : List (MessageBufferNode (NetworkMessage M))}
    (h : (s.buffers q).m_prio_heap = node :: rest) : node.m_msgptr.content ∈ held s q := by
  unfold held MessageBuffer.contents
  rw [h]
  exact List.mem_cons_self

/-- What is ready can be popped. -/
theorem pop_at_succeeds (h : (s.buffers q).isReady s.now = true) :
    ∃ s', SimpleNetwork.popAt s q = .ok s' := by
  unfold SimpleNetwork.popAt MessageBuffer.pop
  rw [h]
  exact ⟨_, rfl⟩

/-- Every destination of a known message has a link. -/
theorem Operable.nothing_left (hop : Operable N) (hin : incoming ∈ N.inPorts sw)
    {m : NetworkMessage M} (hknown : Known N vnet m) {links : List MadeLink}
    (hperm : links.Perm (N.outLinks sw)) : (route links m.getInternalDestination).2 = ∅ := by
  have hroute := route_spec links m.getInternalDestination
  rw [Finset.eq_empty_iff_forall_notMem]
  intro d hd
  have hdest : d ∈ m.getInternalDestination.val := by
    rw [hroute.split]
    exact Multiset.mem_add.mpr (.inl hd)
  obtain ⟨l, hl, hsw, -⟩ := mem_in_ports.mp hin
  obtain ⟨l', hl', hsrc, hentry⟩ := hop.reach l hl d (hknown.2 d hdest).1
  exact hroute.left d hd l' (hperm.symm.subset (mem_out_links.mpr ⟨hl', hsrc.trans hsw⟩)) hentry

/-- The copies for the links can be enqueued, and the in-port stays as it is. -/
theorem Healthy.outputs_enqueued (h : Healthy N s) (hN : Wired N rank) (hop : Operable N)
    (incoming : Nat) {message : Message (NetworkMessage M)} {outputs : List (MadeLink × NetDest)}
    (hlinked : ∀ out ∈ outputs, out.1 ∈ N.throttled ∧ out.1.src = sw)
    (hknown : ∀ out ∈ outputs,
      Known N vnet { message.content with m_internal_dest := some out.2 })
    (hstamp : message.m_LastEnqueueTime ≤ s.now) :
    Ensures (fun _ : Fault => False)
      (fun s' => (Healthy N s' ∧ s'.now = s.now) ∧
        s'.buffers (N.inQueue incoming sw vnet) = s.buffers (N.inQueue incoming sw vnet))
      (enqueueOutputs N s sw vnet message outputs) := by
  refine enqueue_outputs_ensures (J := fun s' => (Healthy N s' ∧ s'.now = s.now) ∧
    s'.buffers (N.inQueue incoming sw vnet) = s.buffers (N.inQueue incoming sw vnet))
    (fun out hmem s₁ h₁ => ?_) ⟨⟨h, rfl⟩, rfl⟩
  obtain ⟨⟨hhealthy, hnow⟩, hin⟩ := h₁
  obtain ⟨hl, hsrc⟩ := hlinked out hmem
  have hdelay : Delay N (.intermediate sw out.1.dest vnet) 1 :=
    .inl ⟨out.1, hl, vnet, by rw [hsrc], rfl⟩
  obtain ⟨s₂, henqueue⟩ := hhealthy.enqueue_succeeds (q := .intermediate sw out.1.dest vnet)
    (setInternalDestination message out.2) rfl rfl Nat.one_pos
    (fun hplain => hhealthy.last hplain _ _ hdelay) (hnow ▸ hstamp)
  rw [henqueue]
  obtain ⟨-, hframe, hnow'⟩ := enqueue_at_effect henqueue
  refine ⟨⟨hhealthy.enqueueAt (setInternalDestination message out.2)
    (fun delta' hd => hdelay.unique hN hop hd) (hknown out hmem) henqueue,
    hnow'.trans hnow⟩, ?_⟩
  rw [hframe _ intermediate_ne_in_queue.symm]
  exact hin

/-- The message at the head of an in-port can be moved, or waits for a slot. -/
theorem Healthy.moveHead (h : Healthy N s) (hN : Wired N rank) (hop : Operable N)
    (hin : incoming ∈ N.inPorts sw)
    (hready : (s.buffers (N.inQueue incoming sw vnet)).isReady s.now = true) :
    Ensures (fun _ : Fault => False) (fun r => Healthy N r.2)
      (N.moveHead s incoming sw vnet) := by
  obtain ⟨node, rest, hheap, harrived⟩ := MessageBuffer.isReady_iff.mp hready
  have hpeek : (s.buffers (N.inQueue incoming sw vnet)).peekMsgPtr s.now = .ok node.m_msgptr :=
    peek_ok.mpr ⟨node, rest, hheap, harrived, rfl⟩
  obtain ⟨links, s₀, hlinks⟩ : ∃ links s₀, N.linkOrder s sw vnet = (links, s₀) := ⟨_, _, rfl⟩
  obtain ⟨hcached, hperm, -⟩ := link_order_spec hlinks
  have hknown : Known N vnet node.m_msgptr.content := by
    simpa [vnet_of_in_queue] using h.known _ _ (head_held hheap)
  have hroute := route_spec links node.m_msgptr.content.getInternalDestination
  have hlinked : ∀ out ∈ (route links node.m_msgptr.content.getInternalDestination).1,
      out.1 ∈ N.throttled ∧ out.1.src = sw := by
    intro out hmem
    obtain ⟨hl, hsrc⟩ := mem_out_links.mp (hperm.subset
      (hroute.sublist.subset (List.mem_map.mpr ⟨out, hmem, rfl⟩)))
    exact ⟨throttled_of_in_port hin hl hsrc, hsrc⟩
  have hall : (route links node.m_msgptr.content.getInternalDestination).2 = ∅ :=
    hop.nothing_left hin hknown hperm
  simp only [SimpleNetwork.moveHead, hpeek, hlinks]
  refine Ensures.ok_bind ?_
  have hassert : assertThat "msg_dsts.count() == 0"
      ((route links node.m_msgptr.content.getInternalDestination).2.card = 0) = .ok () :=
    if_pos (by rw [hall, Finset.card_empty])
  rw [hassert]
  refine Ensures.ok_bind ?_
  split
  · have hout := (h.recached hcached).outputs_enqueued hN hop incoming hlinked
      (fun out hmem => hknown.split (hroute.takes out hmem).1)
      (hcached.now ▸ (h.stamped _ node (hheap ▸ List.mem_cons_self)).trans harrived)
    refine hout.bind fun s₁ h₁ => ?_
    obtain ⟨⟨hhealthy, hnow⟩, hin'⟩ := h₁
    have hready₁ : (s₁.buffers (N.inQueue incoming sw vnet)).isReady s₁.now = true := by
      rw [hin', hnow, hcached.now]
      exact MessageBuffer.isReady_iff.mpr ⟨node, rest, by rw [hcached.heap, hheap], harrived⟩
    obtain ⟨s₂, hpop⟩ := pop_at_succeeds hready₁
    rw [hpop]
    exact (hhealthy.popAt hpop).same rfl le_rfl
  · exact (h.recached hcached).same rfl le_rfl

/-- Whoever a link leads to listens to the messages that go over it. -/
theorem out_queue_listens (hN : Wired N rank) (hl : l ∈ N.throttled) {m : NetworkMessage M}
    (hknown : Known N vnet m) (hnonempty : m.getInternalDestination ≠ ∅)
    (hentry : m.getInternalDestination ⊆ l.routing_table_entry) :
    (N.initialBuffer (N.outQueue l.src l.dest vnet) :
      MessageBuffer (NetworkMessage M)).m_ordering_set = true ∧
      ∃ c, N.consumer (N.outQueue l.src l.dest vnet) = some c := by
  unfold outQueue
  split
  · next hleads =>
    obtain ⟨d, hd⟩ := Finset.nonempty_iff_ne_empty.mpr hnonempty
    have hdest := hN.own l (mem_throttled.mp hl).1 hleads d (hentry hd)
    have hlistens : N.listens (l.dest - N.m_nodes) vnet = true := by
      rw [hdest, Nat.add_sub_cancel]
      exact (hknown.2 d hd).2
    exact ⟨hlistens, _, if_pos hlistens⟩
  · exact ⟨rfl, _, rfl⟩

/-- The next transfer of a link can start. -/
theorem Healthy.startTransfer (h : Healthy N s) (hN : Wired N rank) (hop : Operable N)
    (hl : l ∈ N.throttled)
    (hsplit : ∀ m ∈ held s (.intermediate l.src l.dest vnet),
      m.getInternalDestination ≠ ∅ ∧ m.getInternalDestination ⊆ l.routing_table_entry)
    (hready : (s.buffers (.intermediate l.src l.dest vnet)).isReady s.now = true) :
    Ensures (fun _ : Fault => False) (Healthy N) (N.startTransfer s l vnet) := by
  obtain ⟨node, rest, hheap, harrived⟩ := MessageBuffer.isReady_iff.mp hready
  have hpeek : (s.buffers (.intermediate l.src l.dest vnet)).peekMsgPtr s.now =
      .ok node.m_msgptr := peek_ok.mpr ⟨node, rest, hheap, harrived, rfl⟩
  have hmem := head_held hheap
  have hknown : Known N vnet node.m_msgptr.content := h.known _ _ hmem
  obtain ⟨hnonempty, hentry⟩ := hsplit _ hmem
  have hsize : ∃ size, N.network_message_to_size node.m_msgptr.content = .ok size := by
    unfold network_message_to_size MessageSizeType_to_int
    cases hkind : node.m_msgptr.content.m_MessageSize with
    | Undefined => exact absurd hkind hknown.1
    | _ => exact ⟨_, rfl⟩
  obtain ⟨size, hsize⟩ := hsize
  obtain ⟨hset, c, hconsumer⟩ := out_queue_listens hN hl hknown hnonempty hentry
  have hdelay : Delay N (N.outQueue l.src l.dest vnet) l.link.m_latency :=
    .inr ⟨l, hl, vnet, rfl, rfl⟩
  have hunits : Healthy N (setUnits s l vnet (s.m_units_remaining l.src l.dest vnet + size)) :=
    h.same rfl le_rfl
  obtain ⟨s₁, henqueue⟩ := hunits.enqueue_succeeds node.m_msgptr hset hconsumer
    (hop.latency l hl) (fun hplain => hunits.last hplain _ _ hdelay)
    ((h.stamped _ node (hheap ▸ List.mem_cons_self)).trans harrived)
  have h₁ : Healthy N s₁ :=
    hunits.enqueueAt node.m_msgptr (fun delta' hd => hdelay.unique hN hop hd)
    (vnet_of_out_queue (N := N) ▸ hknown) henqueue
  obtain ⟨-, hframe, hnow⟩ := enqueue_at_effect henqueue
  have hready₁ : (s₁.buffers (.intermediate l.src l.dest vnet)).isReady s₁.now = true := by
    rw [hframe _ out_queue_ne_intermediate.symm, hnow]
    exact hready
  obtain ⟨s₂, hpop⟩ := pop_at_succeeds hready₁
  simp only [SimpleNetwork.startTransfer, hpeek]
  refine Ensures.ok_bind ?_
  rw [hsize]
  refine Ensures.ok_bind ?_
  rw [henqueue]
  refine Ensures.ok_bind ?_
  rw [hpop]
  exact h₁.popAt hpop

/-! ## Runs -/

/-- Healthy buffers in which every message is where it belongs. -/
structure InService (N : SimpleNetwork) (log : Nat → List (NetEvent Nat M)) (s : NetworkState M) :
    Prop where
  healthy : Healthy N s
  conserves : ∀ v, Conserves N v (log v) s

variable {log : Nat → List (NetEvent Nat M)}

/-- Service goes on if the buffers stay as they are. -/
theorem InService.same (h : InService N log s) (hbuffers : s'.buffers = s.buffers)
    (hnow : s.now ≤ s'.now) : InService N log s' where
  healthy := h.healthy.same hbuffers hnow
  conserves := fun v => (h.conserves v).congr fun q _ =>
    congrArg MessageBuffer.contents (congrFun hbuffers q)

/-- A message that moves hits no fault. -/
theorem InService.moveHead (h : InService N log s) (hN : Wired N rank) (hop : Operable N)
    (hin : incoming ∈ N.inPorts sw)
    (hready : (s.buffers (N.inQueue incoming sw vnet)).isReady s.now = true) :
    Ensures (fun _ : Fault => False) (fun r => InService N log r.2)
      (N.moveHead s incoming sw vnet) := by
  obtain ⟨⟨moved, s'⟩, hmove, hhealthy⟩ :=
    (h.healthy.moveHead hN hop hin hready).exists_ok fun _ hfalse => hfalse
  rw [hmove]
  refine ⟨hhealthy, fun v => ?_⟩
  cases moved with
  | true => exact (h.conserves v).moveHead hN hin hmove
  | false =>
      obtain ⟨message, links, s₀, hmoves, hcases⟩ := move_head_ok hmove
      rcases hcases with ⟨⟨htrue, -⟩, -⟩ | ⟨-, rfl⟩
      · cases htrue
      · exact (h.conserves v).congr fun q _ => hmoves.recached.contents q

/-- A transfer that starts hits no fault. -/
theorem InService.startTransfer (h : InService N log s) (hN : Wired N rank) (hop : Operable N)
    (hl : l ∈ N.throttled)
    (hready : (s.buffers (.intermediate l.src l.dest vnet)).isReady s.now = true) :
    Ensures (fun _ : Fault => False) (InService N log) (N.startTransfer s l vnet) := by
  obtain ⟨s', hstart, hhealthy⟩ := (h.healthy.startTransfer hN hop hl
    ((h.conserves vnet).split l (mem_throttled.mp hl).1) hready).exists_ok fun _ hfalse => hfalse
  rw [hstart]
  exact ⟨hhealthy, fun v => (h.conserves v).startTransfer hN hl hstart⟩

/-- A wakeup has a result. -/
theorem InService.process (h : InService N log s) (hN : Wired N rank) (hop : Operable N)
    (c : Consumer) :
    ∃ s', N.process s c = .ok s' ∧ InService N log s' := by
  have hwakeup : Ensures (fun _ : Fault => False) (InService N log) (N.wakeup s c) := by
    cases c with
    | perfectSwitch sw =>
        exact switch_wakeup_ensures (fun s _ hs => hs.same rfl le_rfl)
          (fun s _ hs => hs.same rfl le_rfl)
          (fun vnet _ incoming hin s hs hready => hs.moveHead hN hop hin hready) h
    | throttle src dest =>
        simp only [wakeup]
        split
        · next l hl =>
          have hmem := List.mem_of_find?_eq_some hl
          exact throttle_wakeup_ensures (fun s _ hs => hs.same rfl le_rfl)
            (fun _ _ s _ hs => hs.same rfl le_rfl) (fun s hs => hs.same rfl le_rfl)
            (fun hnone => hnone (hop.bandwidth l hmem))
            (fun vnet _ s hs hready _ => hs.startTransfer hN hop hmem hready) h
        · exact h
    | controller node => exact h
  obtain ⟨s₁, hs₁, h₁⟩ := hwakeup.exists_ok fun _ hfalse => hfalse
  exact ⟨{ s₁ with scheduled := s₁.scheduled.erase (s.now, c) },
    bind_eq_ok.mpr ⟨s₁, hs₁, rfl⟩, h₁.same rfl le_rfl⟩

end SimpleNetwork

namespace NetworkSystem

open SimpleNetwork

variable {M : Type} {N : SimpleNetwork} {rank : Nat → Nat → Nat} {source : M → Nat} {v : Nat}
  {st st' : NetworkSystem M} {label : Label M}

/-- What the controllers have to see to: messages have a size, and nodes that listen. -/
def WellSent (N : SimpleNetwork) (_ : NetworkSystem M) : Label M → Prop
  | .send _ vnet message _ => Known N vnet message
  | .receive _ _ | .wakeup _ | .tick => True

end NetworkSystem

end Ece552.Ruby
