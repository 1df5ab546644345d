import Ece552.Ruby.PendingCounts

/-!
# Who is awake

Whoever has something to do is scheduled: for now or for the next cycle if a message has already
arrived at one of its queues or a transfer is under way, and for the time of arrival if the message
has yet to arrive (`Awake`). Every operation on a buffer keeps it so.
-/

namespace Ece552.Ruby

open Library

namespace SimpleNetwork

variable {M : Type} {N : SimpleNetwork} {rank : Nat → Nat → Nat} {s s' : NetworkState M}
  {q : Queue} {c : Consumer} {sw incoming vnet v t : Nat} {l : MadeLink}

/-- A wakeup is scheduled for what arrives at this time; for what has arrived it may be in the next
cycle. -/
def Due (s : NetworkState M) (c : Consumer) (time : Nat) : Prop :=
  s.now < time ∧ (time, c) ∈ s.scheduled ∨
    time ≤ s.now ∧ ((s.now, c) ∈ s.scheduled ∨ (s.now + 1, c) ∈ s.scheduled)

/-- Time has not gone on, and no wakeup was taken back. -/
structure Onward (s s' : NetworkState M) : Prop where
  now : s'.now = s.now
  scheduled : s.scheduled ⊆ s'.scheduled

/-- Nothing has to happen. -/
theorem Onward.refl (s : NetworkState M) : Onward s s := ⟨rfl, subset_rfl⟩

/-- One step after another. -/
theorem Onward.trans {s'' : NetworkState M} (h : Onward s s') (h' : Onward s' s'') :
    Onward s s'' :=
  ⟨h'.now.trans h.now, h.scheduled.trans h'.scheduled⟩

/-- Whoever is due stays due. -/
theorem Due.onward (h : Due s c t) (hon : Onward s s') : Due s' c t := by
  unfold Due
  rw [hon.now]
  exact h.imp (.imp_right fun hs => hon.scheduled hs)
    (.imp_right (.imp (fun hs => hon.scheduled hs) fun hs => hon.scheduled hs))

/-- Whoever has something to do is scheduled. -/
structure Awake (N : SimpleNetwork) (s : NetworkState M) : Prop where
  sorted : ∀ q, (s.buffers q).Sorted
  switches : ∀ v < N.m_virtual_networks, ∀ sw, ∀ incoming ∈ N.inPorts sw,
    ∀ node ∈ (s.buffers (N.inQueue incoming sw v)).m_prio_heap,
      Due s (.perfectSwitch sw) node.m_time
  throttles : ∀ v < N.m_virtual_networks, ∀ l ∈ N.throttled,
    ∀ node ∈ (s.buffers (.intermediate l.src l.dest v)).m_prio_heap,
      Due s (.throttle l.src l.dest) node.m_time
  transfers : ∀ v < N.m_virtual_networks, ∀ l ∈ N.throttled,
    0 < s.m_units_remaining l.src l.dest v → Due s (.throttle l.src l.dest) s.now

/-- What is new is due. -/
theorem Awake.onward (h : Awake N s) (hN : Wired N rank) (hon : Onward s s')
    (hsorted : ∀ q, (s'.buffers q).Sorted)
    (hheap : ∀ q, ∀ node ∈ (s'.buffers q).m_prio_heap, node ∈ (s.buffers q).m_prio_heap ∨
      ∀ c, N.consumer q = some c → Due s' c node.m_time)
    (hunits : ∀ l ∈ N.throttled, ∀ v, 0 < s'.m_units_remaining l.src l.dest v →
      0 < s.m_units_remaining l.src l.dest v ∨ Due s' (.throttle l.src l.dest) s.now) :
    Awake N s' := by
  refine ⟨hsorted, fun v hv sw incoming hin node hnode => ?_, fun v hv l hl node hnode => ?_,
    fun v hv l hl hpos => ?_⟩
  · rcases hheap _ node hnode with hold | hnew
    · exact (h.switches v hv sw incoming hin node hold).onward hon
    · exact hnew _ (consumer_in_queue hN hin)
  · rcases hheap _ node hnode with hold | hnew
    · exact (h.throttles v hv l hl node hold).onward hon
    · exact hnew _ rfl
  · rw [hon.now]
    rcases hunits l hl v hpos with hold | hnew
    · exact (h.transfers v hv l hl hold).onward hon
    · exact hnew

/-- Changes that nobody has to be woken up for. -/
theorem Awake.same (h : Awake N s) (hN : Wired N rank) (hon : Onward s s')
    (hheap : ∀ q, (s'.buffers q).m_prio_heap = (s.buffers q).m_prio_heap)
    (hunits : s'.m_units_remaining = s.m_units_remaining) : Awake N s' := by
  refine h.onward hN hon (fun q => ?_) (fun q node hnode => .inl (hheap q ▸ hnode))
    fun l _ v hpos => .inl (hunits ▸ hpos)
  unfold MessageBuffer.Sorted
  rw [hheap q]
  exact h.sorted q

/-- Putting a message into a buffer cancels no wakeup. -/
theorem enqueue_at_onward {message : Message (NetworkMessage M)} {delta : Nat}
    (h : N.enqueueAt s q message delta = .ok s') : Onward s s' := by
  obtain ⟨e, c, -, -, rfl⟩ := enqueue_at_ok.mp h
  exact ⟨by simp, by simp⟩

/-- An enqueue wakes up the consumer when the message arrives. -/
theorem Awake.enqueueAt (h : Awake N s) (hN : Wired N rank)
    {message : Message (NetworkMessage M)} {delta : Nat}
    (henqueue : N.enqueueAt s q message delta = .ok s') : Awake N s' := by
  have hon := enqueue_at_onward henqueue
  obtain ⟨e, c, he, hconsumer, rfl⟩ := enqueue_at_ok.mp henqueue
  obtain ⟨node, htime, hlater, hperm⟩ := MessageBuffer.enqueue_heap he
  refine h.onward hN hon (fun q' => ?_) (fun q' node' hnode' => ?_) fun l _ v hpos => ?_
  · by_cases hq : q' = q
    · subst hq
      simpa using (h.sorted q').enqueue he
    · simpa [set_buffer_other hq] using h.sorted q'
  · by_cases hq : q' = q
    · subst hq
      simp only [store_event_info_buffers, schedule_buffers, set_buffer_same] at hnode'
      rcases List.mem_cons.mp (hperm.subset hnode') with rfl | hold
      · refine .inr fun c' hc' => ?_
        obtain rfl : c = c' := Option.some.inj (hconsumer.symm.trans hc')
        rw [htime]
        have hafter : s.now < e.arrival_time := hlater
        exact .inl ⟨by simpa using hafter, by simp⟩
      · exact .inl hold
    · simp only [store_event_info_buffers, schedule_buffers, set_buffer_other hq] at hnode'
      exact .inl hnode'
  · simp only [store_event_info_units, schedule_units, set_buffer_units] at hpos
    exact .inl hpos

/-- Nor does taking one. -/
theorem pop_at_onward (h : popAt s q = .ok s') : Onward s s' := by
  obtain ⟨-, b, -, rfl⟩ := pop_at_ok.mp h
  exact ⟨rfl, subset_rfl⟩

/-- Taking a message leaves everybody awake. -/
theorem Awake.popAt (h : Awake N s) (hN : Wired N rank) (hpop : popAt s q = .ok s') :
    Awake N s' := by
  have hon := pop_at_onward hpop
  obtain ⟨hpopped, hframe, -⟩ := pop_at_effect hpop
  obtain ⟨first, hheap, -⟩ := MessageBuffer.pop_ok hpopped
  refine h.onward hN hon (fun q' => ?_) (fun q' node hnode => .inl ?_) fun l _ v hpos => .inl ?_
  · by_cases hq : q' = q
    · subst hq
      have hsorted := h.sorted q'
      unfold MessageBuffer.Sorted at hsorted ⊢
      rw [hheap] at hsorted
      exact (List.pairwise_cons.mp hsorted).2
    · rw [hframe q' hq]
      exact h.sorted q'
  · by_cases hq : q' = q
    · subst hq
      rw [hheap]
      exact List.mem_cons_of_mem _ hnode
    · rwa [hframe q' hq] at hnode
  · obtain ⟨-, b, -, rfl⟩ := pop_at_ok.mp hpop
    exact hpos

/-- Nor does reading sizes. -/
theorem Recached.onward (h : Recached s s') : Onward s s' := ⟨h.now, h.scheduled.ge⟩

/-- Nor does putting messages into the out-buffers. -/
theorem enqueue_outputs_onward {message : Message (NetworkMessage M)}
    {outputs : List (MadeLink × NetDest)}
    (h : enqueueOutputs N s sw vnet message outputs = .ok s') : Onward s s' :=
  (enqueue_outputs_ensures (F := fun _ => True) (J := Onward s)
    (fun _ _ _ hs => ensures_of_ok fun _ hs' => hs.trans (enqueue_at_onward hs'))
    (Onward.refl s)).of_ok h

/-- What moving the message at the head of an in-port does to the others. -/
theorem move_head_onward {moved : Bool} (h : N.moveHead s incoming sw vnet = .ok (moved, s')) :
    Onward s s' ∧ (moved = false → (s.now + 1, .perfectSwitch sw) ∈ s'.scheduled) := by
  obtain ⟨message, links, s₀, hmoves, hcases⟩ := move_head_ok h
  have hcached := hmoves.recached.onward
  rcases hcases with ⟨⟨rfl, -⟩, s₁, s₂, hout, hpop, rfl⟩ | ⟨rfl, rfl⟩
  · have hon := (hcached.trans (enqueue_outputs_onward hout)).trans (pop_at_onward hpop)
    exact ⟨⟨hon.now, hon.scheduled⟩, fun hfalse => by cases hfalse⟩
  · refine ⟨hcached.trans ⟨rfl, by simp⟩, fun _ => ?_⟩
    simp [hcached.now]

/-- The messages in the in-ports become fewer. -/
theorem move_head_heaps (hN : Wired N rank) {moved : Bool}
    (h : N.moveHead s incoming sw vnet = .ok (moved, s')) :
    (∀ incoming' sw' v, ∀ node ∈ (s'.buffers (N.inQueue incoming' sw' v)).m_prio_heap,
      node ∈ (s.buffers (N.inQueue incoming' sw' v)).m_prio_heap) ∧
    (moved = true → (s.buffers (N.inQueue incoming sw vnet)).m_prio_heap.length =
      (s'.buffers (N.inQueue incoming sw vnet)).m_prio_heap.length + 1) := by
  cases moved with
  | false =>
      obtain ⟨message, links, s₀, hmoves, hcases⟩ := move_head_ok h
      rcases hcases with ⟨⟨htrue, -⟩, -⟩ | ⟨-, rfl⟩
      · cases htrue
      · refine ⟨fun incoming' sw' v node hnode => ?_, fun htrue => by cases htrue⟩
        rwa [schedule_buffers, hmoves.recached.heap] at hnode
  | true =>
      obtain ⟨message, links, -, -, -, -, s₀, hcached, -, hpop, hframe, -⟩ :=
        move_head_effect hN h
      obtain ⟨first, hheap, -⟩ := MessageBuffer.pop_ok hpop
      rw [hcached.heap] at hheap
      refine ⟨fun incoming' sw' v node hnode => ?_, fun _ => by rw [hheap, List.length_cons]⟩
      by_cases hq : N.inQueue incoming' sw' v = N.inQueue incoming sw vnet
      · rw [hq] at hnode ⊢
        rw [hheap]
        exact List.mem_cons_of_mem _ hnode
      · rwa [hframe _ (fun _ _ => intermediate_ne_in_queue.symm) hq, hcached.heap] at hnode

end SimpleNetwork

end Ece552.Ruby
