import Ece552.Ruby.Topology
import Mathlib.Data.List.TakeWhile

/-!
# Message buffers

The buffers between controllers, switches and links: a heap of messages by arrival time and order
of arrival, and the bookkeeping that hides pops until the next cycle. `enqueue_spec` and `pop_spec`
say what the two operations of a network component do to the messages. A buffer with strict FIFO
ordering keeps its promise as long as its 32-bit message counter has not wrapped around:
`InOrder.enqueue` is the step lemma.
-/

namespace Ece552.Ruby

open Library

/-- A message with the times that every buffer keeps up to date. -/
structure Message (α : Type) where
  content : α
  m_LastEnqueueTime : Nat := 0
  m_DelayedCycles : Int := 0
  deriving DecidableEq

/-- A message in the heap, with the time of its arrival and its number. -/
structure MessageBufferNode (α : Type) where
  m_time : Nat
  m_msg_counter : Nat
  m_msgptr : Message α

/-- The constructor takes the 64-bit counter as an `int` and stores it in 64 bits again. -/
def nodeCounter (counter : Nat) : Nat :=
  ((BitVec.ofNat 32 counter).signExtend 64).toNat

/-- `n2 > n1`: the first node leaves the heap earlier. The assertion that two nodes of one time have
different counters is left out: the counters of a buffer differ until they wrap around. -/
def MessageBufferNode.before {α : Type} (n1 n2 : MessageBufferNode α) : Bool :=
  if n2.m_time = n1.m_time then decide (n1.m_msg_counter < n2.m_msg_counter)
  else decide (n1.m_time < n2.m_time)

/-- A buffer, with the messages that are in it. -/
structure MessageBuffer (α : Type) where
  /-- The heap, in the order in which its nodes would leave it. -/
  m_prio_heap : List (MessageBufferNode α) := []
  /-- -1 for no limit. -/
  m_max_size : Int := -1
  m_size : Int := 0
  m_time_last_time_size_checked : Nat := 0
  m_size_last_time_size_checked : Int := 0
  m_time_last_time_enqueue : Nat := 0
  m_time_last_time_pop : Nat := 0
  m_size_at_cycle_start : Int := 0
  m_msgs_this_cycle : Int := 0
  m_msg_counter : Nat := 0
  m_strict_fifo : Bool := true
  m_ordering_set : Bool := false
  m_randomization : Bool := true
  m_last_arrival_time : Nat := 0

/-- What a buffer reads of the system around it. -/
structure Clock where
  /-- `g_eventQueue_ptr->getTime()` -/
  now : Nat
  /-- `RubySystem::getRandomization()` -/
  randomization : Bool := false
  /-- `g_system_ptr->m_warmup_enabled` -/
  warmup_enabled : Bool := false

namespace MessageBuffer

variable {α : Type} {clock : Clock} {b b' : MessageBuffer α} {message : Message α} {delta : Nat}

/-- What the messages in the buffer say, the next one to leave first. -/
def contents (b : MessageBuffer α) : List α := b.m_prio_heap.map (·.m_msgptr.content)

/-- `push_heap` -/
def pushHeap (heap : List (MessageBufferNode α)) (node : MessageBufferNode α) :
    List (MessageBufferNode α) :=
  heap.takeWhile (·.before node) ++ node :: heap.dropWhile (·.before node)

/-- Is there a message, and has it arrived? -/
def isReady (b : MessageBuffer α) (now : Nat) : Bool :=
  match b.m_prio_heap with
  | [] => false
  | node :: _ => decide (node.m_time ≤ now)

/-- The first message, which has to have arrived. -/
def peekMsgPtr (b : MessageBuffer α) (now : Nat) : Except Fault (Message α) :=
  match b.m_prio_heap with
  | [] => .error (.assertion "isReady()")
  | node :: _ => if node.m_time ≤ now then .ok node.m_msgptr else .error (.assertion "isReady()")

/-- The size seen first in a cycle is seen for the whole cycle. -/
def getSize (b : MessageBuffer α) (now : Nat) : Int × MessageBuffer α :=
  if b.m_time_last_time_size_checked = now then (b.m_size_last_time_size_checked, b)
  else (b.m_size, { b with
    m_time_last_time_size_checked := now
    m_size_last_time_size_checked := b.m_size })

/-- Messages popped in this cycle still take their slots. -/
def areNSlotsAvailable (b : MessageBuffer α) (now : Nat) (n : Int) : Bool :=
  if b.m_max_size = -1 then true
  else
    let current_size :=
      if b.m_time_last_time_pop < now then b.m_size
      else if b.m_time_last_time_enqueue < now then b.m_size_at_cycle_start
      else b.m_size_at_cycle_start + b.m_msgs_this_cycle
    decide (current_size + n ≤ b.m_max_size)

/-- The random delay made of the next values of `random`, and how many values it took. -/
def random_time (random : Nat → Nat) : Nat × Nat :=
  let time := 1 + (random 0 &&& 0x3)
  if random 1 &&& 0x7 = 0 then (time + (100 + random 2 % 0xf), 3) else (time, 2)

/-- What `enqueue` leaves behind: the buffer, when its consumer has to wake up, and how many values
of `random` were drawn. -/
structure Enqueued (α : Type) where
  buffer : MessageBuffer α
  arrival_time : Nat
  draws : Nat

/-- When a message arrives, with the last arrival time that the check compares to. -/
def arrivalTime (b : MessageBuffer α) (clock : Clock) (random : Nat → Nat) (delta : Nat) :
    Nat × Nat × Nat :=
  if !clock.randomization || !b.m_randomization then
    (clock.now + delta, b.m_last_arrival_time, 0)
  else
    let (delay, draws) := random_time random
    if b.m_strict_fifo then
      let last := max b.m_last_arrival_time clock.now
      (last + delay, last, draws)
    else (clock.now + delay, b.m_last_arrival_time, draws)

/-- The buffer with a message that arrives at this time, while the last arrival counts as
`last_arrival_time` should the new one not count. -/
def insertMessage (b : MessageBuffer α) (clock : Clock) (message : Message α)
    (arrival_time last_arrival_time : Nat) : MessageBuffer α :=
  let message := { message with
    m_DelayedCycles := clock.now - message.m_LastEnqueueTime + message.m_DelayedCycles
    m_LastEnqueueTime := arrival_time }
  { b with
    m_msg_counter := b.m_msg_counter + 1
    m_size := b.m_size + 1
    m_msgs_this_cycle :=
      (if b.m_time_last_time_enqueue < clock.now then 0 else b.m_msgs_this_cycle) + 1
    m_time_last_time_enqueue := max b.m_time_last_time_enqueue clock.now
    m_last_arrival_time := if clock.warmup_enabled then last_arrival_time else arrival_time
    m_prio_heap := pushHeap b.m_prio_heap
      ⟨arrival_time, nodeCounter (b.m_msg_counter + 1), message⟩ }

/-- Put a message into the buffer, which arrives after the delay. -/
def enqueue (b : MessageBuffer α) (clock : Clock) (random : Nat → Nat) (message : Message α)
    (delta : Nat := 1) : Except Fault (Enqueued α) := do
  panicUnless "Ordering property has not been set" (b.m_ordering_set = true)
  assertThat "delta>0" (0 < delta)
  let (arrival_time, last_arrival_time, draws) := b.arrivalTime clock random delta
  assertThat "arrival_time > current_time" (clock.now < arrival_time)
  panicUnless "FIFO ordering violated"
    (b.m_strict_fifo = true → last_arrival_time ≤ arrival_time)
  assertThat "ensure we aren't dequeued early" (message.m_LastEnqueueTime ≤ clock.now)
  pure ⟨b.insertMessage clock message arrival_time last_arrival_time, arrival_time, draws⟩

/-- Take the first message of the buffer. -/
def pop (b : MessageBuffer α) (now : Nat) : Except Fault (MessageBuffer α) :=
  if b.isReady now then
    .ok { b with
      m_prio_heap := b.m_prio_heap.tail
      m_size_at_cycle_start :=
        if b.m_time_last_time_pop < now then b.m_size else b.m_size_at_cycle_start
      m_time_last_time_pop := max b.m_time_last_time_pop now
      m_size := b.m_size - 1 }
  else .error (.assertion "isReady()")

/-! ## What the operations do to the messages -/

/-- The first message is ready if its time has come. -/
theorem isReady_iff {now : Nat} : b.isReady now = true ↔
    ∃ node rest, b.m_prio_heap = node :: rest ∧ node.m_time ≤ now := by
  unfold isReady
  cases hheap : b.m_prio_heap with
  | nil => simp
  | cons node rest => simp

/-- A pushed node is in the heap with the others. -/
theorem push_heap_perm (heap : List (MessageBufferNode α)) (node : MessageBufferNode α) :
    (pushHeap heap node).Perm (node :: heap) := by
  unfold pushHeap
  refine List.perm_middle.trans (List.Perm.cons node ?_)
  rw [List.takeWhile_append_dropWhile]

/-- A node that leaves after all others is the last one. -/
theorem push_heap_last {heap : List (MessageBufferNode α)} {node : MessageBufferNode α}
    (h : ∀ n ∈ heap, n.before node = true) : pushHeap heap node = heap ++ [node] := by
  unfold pushHeap
  rw [List.takeWhile_eq_self_iff.mpr h, List.dropWhile_eq_nil_iff.mpr h]

/-- What leaves earlier has arrived earlier, or at the same time. -/
theorem MessageBufferNode.time_le_of_before {n1 n2 : MessageBufferNode α}
    (h : n1.before n2 = true) : n1.m_time ≤ n2.m_time := by
  unfold MessageBufferNode.before at h
  split at h
  · next heq => exact heq.ge
  · exact (of_decide_eq_true h).le

/-- What does not leave earlier has arrived later, or at the same time. -/
theorem MessageBufferNode.time_le_of_not_before {n1 n2 : MessageBufferNode α}
    (h : ¬ n1.before n2 = true) : n2.m_time ≤ n1.m_time := by
  unfold MessageBufferNode.before at h
  split at h
  · next heq => exact heq.le
  · exact not_lt.mp fun hlt => h (decide_eq_true hlt)

/-- The nodes of the heap come in the order of their times. -/
def Sorted (b : MessageBuffer α) : Prop :=
  b.m_prio_heap.Pairwise fun n1 n2 => n1.m_time ≤ n2.m_time

/-- A node goes to its place in the heap. -/
theorem push_heap_sorted {heap : List (MessageBufferNode α)} (node : MessageBufferNode α)
    (h : heap.Pairwise fun n1 n2 => n1.m_time ≤ n2.m_time) :
    (pushHeap heap node).Pairwise fun n1 n2 => n1.m_time ≤ n2.m_time := by
  have hbefore : ∀ n ∈ heap.takeWhile (·.before node), n.m_time ≤ node.m_time := fun n hn =>
    MessageBufferNode.time_le_of_before
      (List.mem_takeWhile_imp (p := fun n : MessageBufferNode α => n.before node) hn)
  have hafter : ∀ n ∈ heap.dropWhile (·.before node), node.m_time ≤ n.m_time := by
    have hdrop := h.sublist (List.dropWhile_sublist (·.before node))
    cases hrest : heap.dropWhile (·.before node) with
    | nil => exact fun n hn => absurd hn List.not_mem_nil
    | cons first rest =>
        have hfirst : node.m_time ≤ first.m_time := by
          refine MessageBufferNode.time_le_of_not_before ?_
          have hne : heap.dropWhile (·.before node) ≠ [] := hrest ▸ List.cons_ne_nil _ _
          have hhead := List.head_dropWhile_not (fun n : MessageBufferNode α => n.before node) hne
          simpa [hrest] using hhead
        rw [hrest] at hdrop
        intro n hn
        rcases List.mem_cons.mp hn with rfl | hn
        · exact hfirst
        · exact hfirst.trans ((List.pairwise_cons.mp hdrop).1 n hn)
  unfold pushHeap
  refine List.pairwise_append.mpr ⟨h.sublist (List.takeWhile_sublist _),
    List.pairwise_cons.mpr ⟨hafter, h.sublist (List.dropWhile_sublist _)⟩, fun a ha b hb => ?_⟩
  rcases List.mem_cons.mp hb with rfl | hb
  · exact hbefore a ha
  · exact (hbefore a ha).trans (hafter b hb)

/-- As long as the first message has not arrived, none has. -/
theorem Sorted.later {now : Nat} (h : b.Sorted) (hready : ¬ b.isReady now = true) :
    ∀ node ∈ b.m_prio_heap, now < node.m_time := by
  rw [isReady_iff] at hready
  unfold Sorted at h
  cases hheap : b.m_prio_heap with
  | nil => exact fun node hnode => absurd hnode List.not_mem_nil
  | cons first rest =>
      rw [hheap] at h
      have hfirst : now < first.m_time := not_le.mp fun hle => hready ⟨first, rest, hheap, hle⟩
      intro node hnode
      rcases List.mem_cons.mp hnode with rfl | hnode
      · exact hfirst
      · exact hfirst.trans_le ((List.pairwise_cons.mp h).1 node hnode)

/-- What a random delay is made of. -/
theorem random_time_pos (random : Nat → Nat) : 0 < (random_time random).1 := by
  unfold random_time
  split <;> simp

/-- When `enqueue` has a result, and which. -/
theorem enqueue_ok {random : Nat → Nat} {e : Enqueued α} :
    b.enqueue clock random message delta = .ok e ↔
      b.m_ordering_set = true ∧ 0 < delta ∧ clock.now < (b.arrivalTime clock random delta).1 ∧
      (b.m_strict_fifo = true →
        (b.arrivalTime clock random delta).2.1 ≤ (b.arrivalTime clock random delta).1) ∧
      message.m_LastEnqueueTime ≤ clock.now ∧
      e = ⟨b.insertMessage clock message (b.arrivalTime clock random delta).1
        (b.arrivalTime clock random delta).2.1, (b.arrivalTime clock random delta).1,
        (b.arrivalTime clock random delta).2.2⟩ := by
  have hpure : ∀ e' : Enqueued α, (pure e' : Except Fault (Enqueued α)) = .ok e ↔ e = e' :=
    fun _ => ⟨fun h => (Except.ok.inj h).symm, fun h => congrArg Except.ok h.symm⟩
  unfold enqueue
  simp only [bind_eq_ok, panic_unless_ok, assert_that_ok, exists_and_left, exists_const, hpure]

/-- The last arrival time that the check compares to is not before the recorded one. -/
theorem last_arrival_le (b : MessageBuffer α) (clock : Clock) (random : Nat → Nat) (delta : Nat) :
    b.m_last_arrival_time ≤ (b.arrivalTime clock random delta).2.1 := by
  unfold arrivalTime
  split
  · exact le_rfl
  · dsimp only
    split
    · exact le_max_left _ _
    · exact le_rfl

/-- A buffer stays sorted when a message is put into it. -/
theorem Sorted.enqueue (h : b.Sorted) {random : Nat → Nat} {e : Enqueued α}
    (he : b.enqueue clock random message delta = .ok e) : e.buffer.Sorted := by
  obtain ⟨-, -, -, -, -, rfl⟩ := enqueue_ok.mp he
  exact push_heap_sorted _ h

/-- The node that an enqueue adds. -/
theorem enqueue_heap {random : Nat → Nat} {e : Enqueued α}
    (h : b.enqueue clock random message delta = .ok e) :
    ∃ node, node.m_time = e.arrival_time ∧ clock.now < e.arrival_time ∧
      e.buffer.m_prio_heap.Perm (node :: b.m_prio_heap) := by
  obtain ⟨-, -, hlater, -, -, rfl⟩ := enqueue_ok.mp h
  exact ⟨_, rfl, hlater, push_heap_perm _ _⟩

/-- When `pop` has a result, and which messages are left. -/
theorem pop_ok {now : Nat} (h : b.pop now = .ok b') :
    ∃ node, b.m_prio_heap = node :: b'.m_prio_heap ∧ node.m_time ≤ now ∧
      b'.m_size = b.m_size - 1 ∧ b'.m_msg_counter = b.m_msg_counter ∧
      b'.m_strict_fifo = b.m_strict_fifo ∧ b'.m_ordering_set = b.m_ordering_set ∧
      b'.m_randomization = b.m_randomization ∧ b'.m_last_arrival_time = b.m_last_arrival_time := by
  unfold pop at h
  split at h
  · next hready =>
    obtain ⟨node, rest, hheap, htime⟩ := isReady_iff.mp hready
    obtain rfl := Except.ok.inj h
    exact ⟨node, by simp [hheap], htime, rfl, rfl, rfl, rfl, rfl, rfl⟩
  · cases h

/-- An enqueue adds one message and takes none away. -/
theorem enqueue_contents {random : Nat → Nat} {e : Enqueued α}
    (h : b.enqueue clock random message delta = .ok e) :
    e.buffer.contents.Perm (message.content :: b.contents) := by
  obtain ⟨-, -, -, -, -, rfl⟩ := enqueue_ok.mp h
  exact (push_heap_perm _ _).map _

/-! ## First-in first-out -/

/-- Until the counter wraps around, a later node has a higher number. -/
theorem node_counter_lt {m n : Nat} (h : m < n) (hn : n < 2 ^ 32) :
    nodeCounter m < nodeCounter n := by
  have hm : m < 2 ^ 32 := h.trans hn
  have hto : ∀ k, k < 2 ^ 32 → (BitVec.ofNat 32 k).toNat = k := fun k hk => by
    rw [BitVec.toNat_ofNat, Nat.mod_eq_of_lt hk]
  unfold nodeCounter
  rw [BitVec.toNat_signExtend, BitVec.toNat_signExtend, BitVec.toNat_setWidth,
    BitVec.toNat_setWidth, hto m hm, hto n hn, BitVec.msb_eq_decide, BitVec.msb_eq_decide, hto m hm,
    hto n hn]
  split <;> split <;> simp_all <;> omega

/-- What keeps a strict buffer first-in first-out. -/
structure InOrder (b : MessageBuffer α) : Prop where
  strict : b.m_strict_fifo = true
  times : ∀ node ∈ b.m_prio_heap, node.m_time ≤ b.m_last_arrival_time
  counters : ∀ node ∈ b.m_prio_heap, ∃ n ≤ b.m_msg_counter, node.m_msg_counter = nodeCounter n

/-- A message goes behind all others. -/
theorem InOrder.enqueue (h : b.InOrder) {random : Nat → Nat} {e : Enqueued α}
    (hwarmup : clock.warmup_enabled = false)
    (he : b.enqueue clock random message delta = .ok e) (hcount : e.buffer.m_msg_counter < 2 ^ 32) :
    e.buffer.InOrder ∧ e.buffer.contents = b.contents ++ [message.content] := by
  obtain ⟨-, -, -, hfifo, -, rfl⟩ := enqueue_ok.mp he
  have hlast := (last_arrival_le b clock random delta).trans (hfifo h.strict)
  simp only [insertMessage] at hcount ⊢
  generalize (b.arrivalTime clock random delta).1 = arrival at hlast
  have hbefore : ∀ m : Message α, ∀ node ∈ b.m_prio_heap,
      node.before ⟨arrival, nodeCounter (b.m_msg_counter + 1), m⟩ = true := by
    intro m node hnode
    obtain ⟨n, hn, hcounter⟩ := h.counters node hnode
    have hle := (h.times node hnode).trans hlast
    unfold MessageBufferNode.before
    split
    · rw [hcounter]
      exact decide_eq_true (node_counter_lt (Nat.lt_succ_of_le hn) hcount)
    · next hne => exact decide_eq_true (lt_of_le_of_ne hle fun heq => hne heq.symm)
  rw [push_heap_last (hbefore _)]
  refine ⟨⟨h.strict, fun node hnode => ?_, fun node hnode => ?_⟩, by simp [contents]⟩
  · simp only [hwarmup, Bool.false_eq_true, if_false]
    rcases List.mem_append.mp hnode with hold | hnew
    · exact (h.times node hold).trans hlast
    · rw [List.mem_singleton.mp hnew]
  · rcases List.mem_append.mp hnode with hold | hnew
    · obtain ⟨n, hn, hcounter⟩ := h.counters node hold
      exact ⟨n, Nat.le_succ_of_le hn, hcounter⟩
    · rw [List.mem_singleton.mp hnew]
      exact ⟨_, le_rfl, rfl⟩

/-- The first message leaves, and the others keep their order. -/
theorem InOrder.pop (h : b.InOrder) {now : Nat} (hb : b.pop now = .ok b') :
    b'.InOrder ∧ ∃ x, b.contents = x :: b'.contents := by
  obtain ⟨node, hheap, -, -, hcounter, hstrict, -, -, hlast⟩ := pop_ok hb
  have hsub : ∀ n ∈ b'.m_prio_heap, n ∈ b.m_prio_heap := fun n hn =>
    hheap ▸ List.mem_cons_of_mem _ hn
  refine ⟨⟨hstrict.trans h.strict, fun n hn => ?_, fun n hn => ?_⟩, _, by
    rw [contents, hheap, List.map_cons]; rfl⟩
  · rw [hlast]
    exact h.times n (hsub n hn)
  · rw [hcounter]
    exact h.counters n (hsub n hn)

end MessageBuffer

end Ece552.Ruby
