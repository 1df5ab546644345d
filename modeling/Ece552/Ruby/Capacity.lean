import Ece552.Ruby.Effects

/-!
# No buffer overflows

With a limit on the buffers, no buffer inside the network ever holds more messages than its limit
(`buffers_never_overflow`). A switch looks for a slot in every queue that a message goes to before
it puts the message into the first of them, a throttle does so before each transfer, and
`areNSlotsAvailable` never counts fewer messages than there are: it does not see a pop before the
next cycle, but every enqueue at once.
-/

namespace Ece552.Ruby

open Library

namespace MessageBuffer

variable {α : Type} {clock : Clock} {b b' : MessageBuffer α} {message : Message α}
  {random : Nat → Nat} {delta now : Nat}

/-- The bookkeeping of the size as it has to be at this time, with no more messages than the limit
allows. -/
structure Roomy (b : MessageBuffer α) (now : Nat) : Prop where
  size : b.m_size = b.m_prio_heap.length
  popped : b.m_time_last_time_pop ≤ now
  enqueued : b.m_time_last_time_enqueue ≤ now
  msgs : 0 ≤ b.m_msgs_this_cycle
  hidden : b.m_time_last_time_pop = now → b.m_size ≤
    b.m_size_at_cycle_start + if b.m_time_last_time_enqueue = now then b.m_msgs_this_cycle else 0
  limit : b.m_max_size = -1 ∨ b.m_size ≤ b.m_max_size

/-- A slot that is seen is there. -/
theorem Roomy.slot (h : b.Roomy now) (hslots : b.areNSlotsAvailable now 1 = true) :
    b.m_max_size = -1 ∨ b.m_size + 1 ≤ b.m_max_size := by
  unfold areNSlotsAvailable at hslots
  split at hslots
  · next hmax => exact .inl hmax
  · have hslots := of_decide_eq_true hslots
    refine .inr ?_
    have hhidden := h.hidden
    split at hslots
    · exact hslots
    · next hpop =>
      have hnow := le_antisymm h.popped (not_lt.mp hpop)
      split at hslots
      · next henqueue =>
        rw [if_neg henqueue.ne] at hhidden
        have hsize := hhidden hnow
        omega
      · next henqueue =>
        rw [if_pos (le_antisymm h.enqueued (not_lt.mp henqueue))] at hhidden
        have hsize := hhidden hnow
        omega

/-- A message fits if there was a slot for it. -/
theorem Roomy.enqueue (h : b.Roomy clock.now)
    (hslots : b.areNSlotsAvailable clock.now 1 = true) {e : Enqueued α}
    (he : b.enqueue clock random message delta = .ok e) : e.buffer.Roomy clock.now := by
  have hslot := h.slot hslots
  obtain ⟨-, -, -, -, -, rfl⟩ := enqueue_ok.mp he
  have hlength := (push_heap_perm b.m_prio_heap ⟨(b.arrivalTime clock random delta).1,
    nodeCounter (b.m_msg_counter + 1), { message with
      m_DelayedCycles := clock.now - message.m_LastEnqueueTime + message.m_DelayedCycles
      m_LastEnqueueTime := (b.arrivalTime clock random delta).1 }⟩).length_eq
  rw [List.length_cons] at hlength
  have hmax : max b.m_time_last_time_enqueue clock.now = clock.now := max_eq_right h.enqueued
  have hmsgs := h.msgs
  refine ⟨?_, h.popped, hmax.le, ?_, fun hpop => ?_, hslot⟩
  · show b.m_size + 1 = _
    simp only [insertMessage, hlength, h.size]
    omega
  · simp only [insertMessage]
    split <;> omega
  · have hhidden := h.hidden hpop
    simp only [insertMessage, hmax, if_true]
    split at hhidden
    · next henqueue =>
      rw [if_neg henqueue.not_lt]
      omega
    · next henqueue =>
      rw [if_pos (lt_of_le_of_ne h.enqueued henqueue)]
      omega

/-- A pop makes room. -/
theorem Roomy.pop (h : b.Roomy now) (hb : b.pop now = .ok b') : b'.Roomy now := by
  unfold MessageBuffer.pop at hb
  split at hb
  · next hready =>
    obtain ⟨node, rest, hheap, -⟩ := isReady_iff.mp hready
    obtain rfl := Except.ok.inj hb
    have hsize := h.size
    rw [hheap, List.length_cons] at hsize
    have hmsgs := h.msgs
    refine ⟨?_, (max_eq_right h.popped).le, h.enqueued, h.msgs, fun _ => ?_, ?_⟩
    · simp only [hheap, List.tail_cons]
      omega
    · have hhidden := h.hidden
      simp only
      by_cases hpop : b.m_time_last_time_pop < now
      · rw [if_pos hpop]
        split <;> omega
      · have hsize := hhidden (le_antisymm h.popped (not_lt.mp hpop))
        rw [if_neg hpop]
        omega
    · refine h.limit.imp_right fun hle => ?_
      show b.m_size - 1 ≤ b.m_max_size
      omega
  · cases hb

/-- What was popped and enqueued in a cycle is over in the next one. -/
theorem Roomy.later (h : b.Roomy now) : b.Roomy (now + 1) where
  size := h.size
  popped := Nat.le_succ_of_le h.popped
  enqueued := Nat.le_succ_of_le h.enqueued
  msgs := h.msgs
  hidden := fun hpop => absurd h.popped (by omega)
  limit := h.limit

end MessageBuffer

namespace SimpleNetwork

variable {M : Type} {N : SimpleNetwork} {rank : Nat → Nat → Nat} {s s' : NetworkState M}
  {q : Queue} {c : Consumer} {sw incoming vnet v delta : Nat} {l : MadeLink}

/-- No buffer is over its limit, which is that of the configuration. -/
structure Limited (N : SimpleNetwork) (s : NetworkState M) : Prop where
  roomy : ∀ q, (s.buffers q).Roomy s.now
  limits : ∀ q, (s.buffers q).m_max_size =
    (N.initialBuffer q : MessageBuffer (NetworkMessage M)).m_max_size

/-- Putting a message into a buffer keeps its size. -/
theorem Enqueues.max_size {now : Nat} {message : Message (NetworkMessage M)}
    {b b' : MessageBuffer (NetworkMessage M)} (h : Enqueues N now message b b') :
    b'.m_max_size = b.m_max_size := by
  obtain ⟨random, delta, e, he, rfl⟩ := h
  obtain ⟨-, -, -, -, -, rfl⟩ := MessageBuffer.enqueue_ok.mp he
  rfl

/-- A buffer with a free slot has room for the message. -/
theorem Enqueues.roomy {now : Nat} {message : Message (NetworkMessage M)}
    {b b' : MessageBuffer (NetworkMessage M)} (h : Enqueues N now message b b')
    (hb : b.Roomy now) (hslots : b.areNSlotsAvailable now 1 = true) : b'.Roomy now := by
  obtain ⟨random, delta, e, he, rfl⟩ := h
  have hb : b.Roomy (N.clock now).now := hb
  exact hb.enqueue hslots he

/-- Taking a message from a buffer keeps its size. -/
theorem pop_max_size {b b' : MessageBuffer (NetworkMessage M)} {now : Nat}
    (h : b.pop now = .ok b') : b'.m_max_size = b.m_max_size := by
  unfold MessageBuffer.pop at h
  split at h
  · obtain rfl := Except.ok.inj h
    rfl
  · cases h

/-- Reading sizes keeps the limits. -/
theorem Limited.recached (h : Limited N s) (hcached : Recached s s') : Limited N s' := by
  refine ⟨fun q => ?_, fun q => ?_⟩
  · obtain ⟨t, n, hsame⟩ := hcached.buffers q
    rw [hsame, hcached.now]
    exact ⟨(h.roomy q).size, (h.roomy q).popped, (h.roomy q).enqueued, (h.roomy q).msgs,
      (h.roomy q).hidden, (h.roomy q).limit⟩
  · obtain ⟨t, n, hsame⟩ := hcached.buffers q
    rw [hsame]
    exact h.limits q

/-- A message goes where there is a slot. -/
theorem Limited.enqueueAt (h : Limited N s) {message : Message (NetworkMessage M)}
    (hslots : (s.buffers q).areNSlotsAvailable s.now 1 = true)
    (henqueue : N.enqueueAt s q message delta = .ok s') : Limited N s' := by
  obtain ⟨hentered, hframe, hnow⟩ := enqueue_at_effect henqueue
  refine ⟨fun q' => ?_, fun q' => ?_⟩
  · rw [hnow]
    by_cases hq : q' = q
    · exact hq ▸ hentered.roomy (h.roomy q) hslots
    · exact hframe q' hq ▸ h.roomy q'
  · by_cases hq : q' = q
    · rw [hq, hentered.max_size]
      exact h.limits q
    · exact hframe q' hq ▸ h.limits q'

/-- A message that is taken leaves a slot. -/
theorem Limited.popAt (h : Limited N s) (hpop : popAt s q = .ok s') : Limited N s' := by
  obtain ⟨hpopped, hframe, hnow⟩ := pop_at_effect hpop
  refine ⟨fun q' => ?_, fun q' => ?_⟩
  · rw [hnow]
    by_cases hq : q' = q
    · exact hq ▸ (h.roomy q).pop hpopped
    · exact hframe q' hq ▸ h.roomy q'
  · by_cases hq : q' = q
    · rw [hq, pop_max_size hpopped]
      exact h.limits q
    · exact hframe q' hq ▸ h.limits q'

/-- A switch puts a message into queues with a slot. -/
theorem Limited.moveHead (h : Limited N s) (hN : Wired N rank) {b : Bool}
    (hmove : N.moveHead s incoming sw vnet = .ok (b, s')) : Limited N s' := by
  obtain ⟨message, links, s₀, hmoves, hcases⟩ := move_head_ok hmove
  have h₀ := h.recached hmoves.recached
  rcases hcases with ⟨⟨-, hslots⟩, s₁, s₂, hout, hpop, rfl⟩ | ⟨-, rfl⟩
  · obtain ⟨hentered, hframe, hnow⟩ := enqueue_outputs_effect hout (hmoves.nodup hN)
    have h₁ : Limited N s₁ := by
      refine ⟨fun q => ?_, fun q => ?_⟩
      · rw [hnow]
        by_cases hq : ∃ out ∈ (route links message.content.getInternalDestination).1,
            q = .intermediate sw out.1.dest vnet
        · obtain ⟨out, hmem, rfl⟩ := hq
          exact (hentered out hmem).roomy (h₀.roomy _) (hslots out hmem)
        · rw [hframe q fun out hmem heq => hq ⟨out, hmem, heq⟩]
          exact h₀.roomy q
      · by_cases hq : ∃ out ∈ (route links message.content.getInternalDestination).1,
            q = .intermediate sw out.1.dest vnet
        · obtain ⟨out, hmem, rfl⟩ := hq
          rw [(hentered out hmem).max_size]
          exact h₀.limits _
        · rw [hframe q fun out hmem heq => hq ⟨out, hmem, heq⟩]
          exact h₀.limits q
    exact ⟨(h₁.popAt hpop).roomy, (h₁.popAt hpop).limits⟩
  · exact ⟨h₀.roomy, h₀.limits⟩

/-- So does a throttle. -/
theorem Limited.startTransfer (h : Limited N s) (hfits : N.transferFits s l vnet = true)
    (hstart : N.startTransfer s l vnet = .ok s') : Limited N s' := by
  unfold SimpleNetwork.startTransfer at hstart
  obtain ⟨message, -, hstart⟩ := bind_eq_ok.mp hstart
  obtain ⟨size, -, hstart⟩ := bind_eq_ok.mp hstart
  obtain ⟨s₁, henqueue, hpop⟩ := bind_eq_ok.mp hstart
  have hunits : Limited N
      (setUnits s l vnet (s.m_units_remaining l.src l.dest vnet + size)) := ⟨h.roomy, h.limits⟩
  exact (hunits.enqueueAt hfits henqueue).popAt hpop

/-- A wakeup keeps the limits. -/
theorem Limited.process (h : Limited N s) (hN : Wired N rank)
    (hprocess : N.process s c = .ok s') : Limited N s' := by
  unfold SimpleNetwork.process at hprocess
  obtain ⟨s₁, hwakeup, hs'⟩ := bind_eq_ok.mp hprocess
  obtain rfl := Except.ok.inj hs'
  suffices h₁ : Limited N s₁ from ⟨h₁.roomy, h₁.limits⟩
  cases c with
  | perfectSwitch sw =>
      exact (switch_wakeup_ensures (J := Limited N) (F := fun _ => True)
        (fun s _ hs => ⟨hs.roomy, hs.limits⟩) (fun s _ hs => ⟨hs.roomy, hs.limits⟩)
        (fun vnet _ incoming _ s hs _ => ensures_of_ok fun r hr =>
          hs.moveHead hN (b := r.1) hr) h).of_ok hwakeup
  | throttle src dest =>
      simp only [wakeup] at hwakeup
      split at hwakeup
      · exact (throttle_wakeup_ensures (J := Limited N) (F := fun _ => True)
          (fun s _ hs => ⟨hs.roomy, hs.limits⟩) (fun _ _ s _ hs => ⟨hs.roomy, hs.limits⟩)
          (fun s hs => ⟨hs.roomy, hs.limits⟩) (fun _ => trivial)
          (fun vnet _ s hs _ hfits => ensures_of_ok fun s' hs' =>
            hs.startTransfer hfits hs') h).of_ok hwakeup
      · obtain rfl := Except.ok.inj hwakeup
        exact h
  | controller node =>
      obtain rfl := Except.ok.inj hwakeup
      exact h

/-- The buffers are empty at the start. -/
theorem limited_initial : Limited N (N.initial : NetworkState M) := by
  refine ⟨fun q => ?_, fun q => rfl⟩
  have hlimit : (N.initialBuffer q : MessageBuffer (NetworkMessage M)).m_max_size = -1 ∨
      0 ≤ (N.initialBuffer q : MessageBuffer (NetworkMessage M)).m_max_size := by
    cases q with
    | toNet | fromNet => exact .inl rfl
    | link | intermediate =>
        simp only [initialBuffer]
        split
        · exact .inr (Int.natCast_nonneg _)
        · exact .inl rfl
  cases q <;> exact ⟨rfl, le_rfl, le_rfl, le_rfl, fun _ => le_rfl, hlimit⟩

end SimpleNetwork

namespace NetworkSystem

open SimpleNetwork

variable {M : Type} {N : SimpleNetwork} {rank : Nat → Nat → Nat} {source : M → Nat} {v : Nat}
  {st st' : NetworkSystem M} {label : Label M}

/-- Step lemma. -/
theorem limited_step (hN : Wired N rank) (h : Limited N st.state)
    (hstep : st.step N source label = .ok (some st')) : Limited N st'.state := by
  cases label with
  | send node vnet message delta =>
      obtain ⟨-, s', hsend, rfl⟩ := send_ok.mp hstep
      refine h.enqueueAt ?_ hsend
      -- a queue from a node has no limit
      have hmax : (st.state.buffers (.toNet node vnet)).m_max_size = -1 := h.limits _
      unfold MessageBuffer.areNSlotsAvailable
      rw [if_pos hmax]
  | receive node vnet =>
      obtain ⟨-, message, -, s', hpop, rfl⟩ := receive_ok.mp hstep
      exact h.popAt hpop
  | wakeup c =>
      obtain ⟨-, s', hprocess, rfl⟩ := wakeup_ok.mp hstep
      exact h.process hN hprocess
  | tick =>
      obtain ⟨-, rfl⟩ := tick_ok.mp hstep
      exact ⟨fun q => (h.roomy q).later, h.limits⟩

/-- Run lemma. -/
theorem limited_run (hN : Wired N rank) (h : (simpleNetwork N source).Reachable st) :
    Limited N st.state :=
  h.invariant (I := fun st => Limited N st.state)
    (fun st hst => by
      obtain rfl := hst
      exact limited_initial)
    fun st label st' _ ih _ hnext => limited_step hN ih hnext

/-- With a buffer size no queue between switches, and none in front of a throttle, ever holds more
messages than that. -/
theorem buffers_never_overflow {t : Topology} (hN : Built N t) (hsize : 0 < N.m_buffer_size)
    (h : (simpleNetwork N source).Reachable st) (src dest v : Nat) :
    (st.state.buffers (.link src dest v)).m_prio_heap.length ≤ N.m_buffer_size ∧
      (st.state.buffers (.intermediate src dest v)).m_prio_heap.length ≤ N.m_buffer_size := by
  obtain ⟨rank, hN⟩ := hN.wired
  have hlimited := limited_run hN h
  have hfits : ∀ q, (N.initialBuffer q : MessageBuffer (NetworkMessage M)).m_max_size =
      N.m_buffer_size → (st.state.buffers q).m_prio_heap.length ≤ N.m_buffer_size := by
    intro q hq
    have hlimit := (hlimited.roomy q).limit
    rw [hlimited.limits q, hq, (hlimited.roomy q).size] at hlimit
    omega
  exact ⟨hfits _ (if_pos hsize), hfits _ (if_pos hsize)⟩

/-- The smallest network, with room for one message in each of its buffers. -/
def narrowCrossbar : SimpleNetwork := { crossbarNetwork with m_buffer_size := 1 }

/-- The example is a run. -/
theorem narrow_run_possible : (steps narrowCrossbar Prod.fst (crossbarRun.take 4)
    { state := narrowCrossbar.initial }).isSome = true := by decide +kernel

/-- The second message waits for a slot. -/
theorem narrow_crossbar_fits :
    (((steps narrowCrossbar Prod.fst (crossbarRun.take 4)
      { state := narrowCrossbar.initial }).get narrow_run_possible).state.buffers
        (.link 4 3 0)).m_prio_heap.length ≤ 1 ∧
    (((steps narrowCrossbar Prod.fst (crossbarRun.take 4)
      { state := narrowCrossbar.initial }).get narrow_run_possible).state.buffers
        (.intermediate 4 3 0)).m_prio_heap.length ≤ 1 :=
  buffers_never_overflow (N := narrowCrossbar)
    ⟨crossbar_valid, rfl, _, _, crossbar_link_map, crossbar_made⟩ Nat.one_pos
    (steps_run (.init rfl) (fun _ _ _ => trivial) (Option.some_get _).symm) 4 3 0

end NetworkSystem

end Ece552.Ruby
