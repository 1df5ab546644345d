import Ece552.Tomasulo.Completion
import Mathlib.Data.List.Sort

/-!
# The instruction queue

The queue holds the fetched instructions that `dispatch_To_issue` has not come to, in program order.
Its functions are stated once more with the indices that they compute, which are integers with the
remainder of C. The index of the tail is -1 in an empty queue with its head at slot 0. That state is
left by the next fetch, so it is read in only when nothing is left to fetch. This happens if the
queue is drained after a multiple of ten instructions.
-/

namespace Ece552.Tomasulo

open Library

variable {trace : Trace} {m m' : Machine} {s s' : Sim} {cycle j : Nat} {l : List Nat}

/-! ## Queue functions with their indices -/

/-- The slot of an index, which is outside of the array if it is negative or too large. -/
def queueSlot (index : Int) : Option Nat :=
  if 0 ≤ index ∧ index < INSTR_QUEUE_SIZE then some index.toNat else none

section Checked

variable (queue : RingBuffer INSTR_QUEUE_SIZE Nat)

/-- The instruction at the head. -/
def instrQueuePeek : Option (Option Nat) := do
  let head ← queueSlot queue.head
  some (queue.slots head)

/-- The instruction at the tail. -/
def instrQueuePeekTail : Option (Option Nat) := do
  let tail ← queueSlot (((queue.head : Int) + queue.size - 1).tmod INSTR_QUEUE_SIZE)
  some (queue.slots tail)

/-- Take the instruction at the head. -/
def instrQueueDequeue : Option (Option Nat × RingBuffer INSTR_QUEUE_SIZE Nat) :=
  if queue.size ≠ 0 then do
    let head ← queueSlot queue.head
    let next ← queueSlot (((queue.head : Int) + 1).tmod INSTR_QUEUE_SIZE)
    some (queue.slots head, ⟨Function.update queue.slots head none, next, queue.size - 1⟩)
  else none

/-- Put an instruction behind the tail. -/
def instrQueueEnqueue (insn : Nat) : Option (RingBuffer INSTR_QUEUE_SIZE Nat) :=
  if queue.size < INSTR_QUEUE_SIZE then do
    let tail ← queueSlot (((queue.head : Int) + queue.size).tmod INSTR_QUEUE_SIZE)
    some { queue with
      slots := Function.update queue.slots tail (some insn)
      size := queue.size + 1 }
  else none

variable (trace : Trace) (currentCycle : Nat)

/-- `dispatchToIssue` with the indices of the queue. -/
def dispatchToIssueChecked (s : Sim) : Option Sim :=
  if s.instrQueue.isEmpty then some s
  else do
    match ← instrQueuePeek s.instrQueue with
    | none => some s
    | some insn =>
        if isBranch (opAt trace insn) then do
          let (_, queue) ← instrQueueDequeue s.instrQueue
          some { s with instrQueue := queue }
        else
          match fuClass (opAt trace insn) with
          | some .INT =>
              if s.reservINT.isFull then some s
              else do
                let (_, queue) ← instrQueueDequeue s.instrQueue
                some (Sim.rename trace currentCycle
                  { s with instrQueue := queue, reservINT := s.reservINT.insert insn } insn)
          | some .FP =>
              if s.reservFP.isFull then some s
              else do
                let (_, queue) ← instrQueueDequeue s.instrQueue
                some (Sim.rename trace currentCycle
                  { s with instrQueue := queue, reservFP := s.reservFP.insert insn } insn)
          | none => some s

/-- `fetch` with the indices of the queue. -/
def fetchChecked (s : Sim) : Option Sim :=
  if s.instrQueue.isFull then some s
  else
    match fetchNext (trace.drop s.fetchIndex) s.fetchIndex with
    | (index, none) => some { s with fetchIndex := index }
    | (index, some insn) => do
        let queue ← instrQueueEnqueue s.instrQueue insn
        some { s with instrQueue := queue, fetchIndex := index }

/-- `fetchToDispatch` with the indices of the queue. -/
def fetchToDispatchChecked (s : Sim) : Option Sim := do
  let s ← fetchChecked trace s
  match ← instrQueuePeekTail s.instrQueue with
  | none => some s
  | some insn =>
      if (s.table insn).tomDispatchCycle = 0 then
        some { s with
          table := Function.update s.table insn
            { s.table insn with tomDispatchCycle := currentCycle } }
      else some s

/-- `step` with the indices of the queue. -/
def stepChecked (m : Machine) : Option Machine :=
  match m.stage with
  | .dispatchToIssue =>
      (dispatchToIssueChecked trace m.cycle m.sim).map fun sim => ⟨sim, m.cycle, .fetchToDispatch⟩
  | .fetchToDispatch =>
      (fetchToDispatchChecked trace m.cycle m.sim).map fun sim =>
        ⟨sim, m.cycle + 1,
          if isSimulationDone trace.length sim then .returned else .cdbToRetire⟩
  | _ => step trace m

end Checked

/-- A slot of the array. -/
theorem queueSlot_natCast {i : Nat} (hi : i < INSTR_QUEUE_SIZE) : queueSlot i = some i := by
  rw [queueSlot, if_pos ⟨Int.natCast_nonneg i, by exact_mod_cast hi⟩, Int.toNat_natCast]

/-- The remainder of a number that is not negative is the index of a slot. -/
theorem queueSlot_tmod (i : Nat) : queueSlot ((i : Int).tmod INSTR_QUEUE_SIZE) =
    some (i % INSTR_QUEUE_SIZE) := by
  rw [← Int.ofNat_tmod]
  exact queueSlot_natCast (Nat.mod_lt i (by decide))

section Indices

variable {queue : RingBuffer INSTR_QUEUE_SIZE Nat}

/-- With the head inside of the array, `peek` is that of a ring buffer. -/
theorem instrQueuePeek_eq (hhead : queue.head < INSTR_QUEUE_SIZE) :
    instrQueuePeek queue = some queue.peek := by
  simp [instrQueuePeek, queueSlot_natCast hhead, RingBuffer.peek]

/-- With the head inside of the array, `dequeue` is that of a ring buffer. -/
theorem instrQueueDequeue_eq (hhead : queue.head < INSTR_QUEUE_SIZE) :
    instrQueueDequeue queue = queue.dequeue := by
  have hnext : queueSlot (((queue.head : Int) + 1).tmod INSTR_QUEUE_SIZE) =
      some ((queue.head + 1) % INSTR_QUEUE_SIZE) := queueSlot_tmod (queue.head + 1)
  rw [instrQueueDequeue, RingBuffer.dequeue, queueSlot_natCast hhead, hnext]
  rfl

/-- `enqueue` is that of a ring buffer. -/
theorem instrQueueEnqueue_eq (insn : Nat) : instrQueueEnqueue queue insn = queue.enqueue insn := by
  have htail := queueSlot_tmod (queue.head + queue.size)
  rw [Int.natCast_add] at htail
  rw [instrQueueEnqueue, RingBuffer.enqueue, htail]
  rfl

/-- The index of the tail is in the array, but for an empty queue with its head at slot 0. -/
theorem instrQueuePeekTail_eq : instrQueuePeekTail queue =
    if queue.head + queue.size = 0 then none else some queue.peekTail := by
  rw [instrQueuePeekTail, RingBuffer.peekTail]
  split
  · next hzero =>
      have hindex : (queue.head : Int) + queue.size - 1 = -1 := by omega
      rw [hindex]
      rfl
  · next hne =>
      have htail := queueSlot_tmod (queue.head + queue.size - 1)
      have hindex : ((queue.head + queue.size - 1 : Nat) : Int) = queue.head + queue.size - 1 := by
        omega
      rw [hindex] at htail
      rw [htail]
      rfl

end Indices

/-- The indices of dispatch to issue are in the array. -/
theorem dispatchToIssueChecked_eq (hhead : s.instrQueue.head < INSTR_QUEUE_SIZE) :
    dispatchToIssueChecked trace cycle s = dispatchToIssue trace cycle s := by
  rw [dispatchToIssueChecked, dispatchToIssue, instrQueuePeek_eq hhead]
  simp only [instrQueueDequeue_eq hhead]
  rfl

/-- So are those of the fetch itself. -/
theorem fetchChecked_eq (s : Sim) : fetchChecked trace s = fetch trace s := by
  rw [fetchChecked, fetch]
  by_cases hfull : s.instrQueue.isFull = true
  · rw [if_pos hfull, if_pos hfull]
  · rw [if_neg hfull, if_neg hfull]
    generalize fetchNext (trace.drop s.fetchIndex) s.fetchIndex = next
    obtain ⟨index, fetched⟩ := next
    cases fetched with
    | none => rfl
    | some insn => exact congrArg (Option.bind · _) (instrQueueEnqueue_eq insn)

/-- Fetch to dispatch reads the slot at the tail, if it has one. -/
theorem fetchToDispatchChecked_eq (hfetch : fetch trace s = some s') :
    fetchToDispatchChecked trace cycle s =
      if s'.instrQueue.head + s'.instrQueue.size = 0 then none
      else fetchToDispatch trace cycle s := by
  rw [fetchToDispatchChecked, fetchToDispatch, fetchChecked_eq, hfetch]
  simp only [Option.bind_eq_bind, Option.bind_some, instrQueuePeekTail_eq]
  split <;> rfl

/-! ## What enters and leaves the queue -/

/-- The instructions up to an index that are no traps, in program order. -/
def nonTraps (trace : Trace) (index : Nat) : List Nat :=
  (List.range (index + 1)).filter fun j => decide (Fetchable trace j)

/-- The instruction that the next call puts in the queue, if it puts one there. -/
def enqueues (trace : Trace) (m : Machine) : List Nat :=
  match m.stage with
  | .fetchToDispatch =>
      if m.sim.instrQueue.isFull then []
      else (fetchNext (trace.drop m.sim.fetchIndex) m.sim.fetchIndex).2.toList
  | _ => []

/-- All that a number of calls put in the queue. -/
def enqueueLog (trace : Trace) : Nat → Machine → List Nat
  | 0, _ => []
  | calls + 1, m => enqueues trace m ++
      match step trace m with
      | none => []
      | some m' => enqueueLog trace calls m'

/-- The instructions up to an index that are no traps. -/
theorem mem_nonTraps {index : Nat} : j ∈ nonTraps trace index ↔ Fetchable trace j ∧ j ≤ index := by
  rw [nonTraps, List.mem_filter, List.mem_range, Nat.lt_succ_iff, decide_eq_true_iff, and_comm]

/-- They come in the order of the trace. -/
theorem nonTraps_sorted (index : Nat) : (nonTraps trace index).Pairwise (· < ·) :=
  List.Pairwise.filter _ List.pairwise_lt_range

/-- A sorted list is known from its members. -/
theorem nonTraps_eq {index : Nat} (hsorted : l.Pairwise (· < ·))
    (hmem : ∀ j, j ∈ l ↔ Fetchable trace j ∧ j ≤ index) : nonTraps trace index = l :=
  (nonTraps_sorted index).eq_of_mem_iff hsorted fun j => mem_nonTraps.trans (hmem j).symm

/-- Nothing is before the first instruction. -/
theorem nonTraps_zero : nonTraps trace 0 = [] :=
  nonTraps_eq .nil fun _ => ⟨(nomatch ·), fun ⟨hj, hle⟩ => absurd hle (not_le.mpr hj.1)⟩

/-- The next instruction that is fetched is the next one of them. -/
theorem nonTraps_of_next {index insn : Nat} (h : NextFetchable trace index insn) :
    nonTraps trace insn = nonTraps trace index ++ [insn] := by
  refine nonTraps_eq (List.pairwise_append.mpr ⟨nonTraps_sorted index,
    List.pairwise_singleton _ _, fun j hj i hi => ?_⟩) fun j => ?_
  · rw [List.mem_singleton.mp hi]
    exact (mem_nonTraps.mp hj).2.trans_lt h.lt
  · rw [List.mem_append, mem_nonTraps, List.mem_singleton]
    constructor
    · rintro (⟨hj, hle⟩ | rfl)
      · exact ⟨hj, hle.trans h.lt.le⟩
      · exact ⟨h.fetchable, le_rfl⟩
    · rintro ⟨hj, hle⟩
      exact ((h.le_iff hj).mp hle).symm.imp_left fun hle => ⟨hj, hle⟩

/-- Behind the last one there are no more. -/
theorem nonTraps_of_none {index next : Nat} (hlt : index < next)
    (hnone : ∀ j, index < j → ¬ Fetchable trace j) :
    nonTraps trace next = nonTraps trace index := by
  refine nonTraps_eq (nonTraps_sorted index) fun j => mem_nonTraps.trans ?_
  refine and_congr_right fun hj => ⟨fun hle => hle.trans hlt.le, fun _ => ?_⟩
  by_contra hle
  exact hnone j (not_le.mp hle) hj

/-- A branch of dispatch to issue that removes the head of the queue. -/
theorem queue_of_dequeue {branch : Option Nat × RingBuffer INSTR_QUEUE_SIZE Nat → Option Sim}
    (h : s.instrQueue.dequeue.bind branch = some s')
    (hbranch : ∀ p sim, branch p = some sim →
      sim.fetchIndex = s.fetchIndex ∧ sim.instrQueue = p.2) :
    s'.fetchIndex = s.fetchIndex ∧ (s'.instrQueue = s.instrQueue ∨
      ∃ insn, s.instrQueue.dequeue = some (insn, s'.instrQueue)) := by
  obtain ⟨⟨insn, queue⟩, hdequeue, heq⟩ := Option.bind_eq_some_iff.mp h
  obtain ⟨hindex, hqueue⟩ := hbranch _ _ heq
  exact ⟨hindex, Or.inr ⟨insn, by rw [hqueue, hdequeue]⟩⟩

/-- Dispatch to issue takes at most the head of the queue. -/
theorem queue_of_dispatchToIssue (h : dispatchToIssue trace cycle s = some s') :
    s'.fetchIndex = s.fetchIndex ∧ (s'.instrQueue = s.instrQueue ∨
      ∃ insn, s.instrQueue.dequeue = some (insn, s'.instrQueue)) := by
  rw [dispatchToIssue] at h
  split at h
  · obtain rfl := Option.some.inj h
    exact ⟨rfl, Or.inl rfl⟩
  split at h
  · obtain rfl := Option.some.inj h
    exact ⟨rfl, Or.inl rfl⟩
  split at h
  · exact queue_of_dequeue h fun _ _ heq => Option.some.inj heq ▸ ⟨rfl, rfl⟩
  split at h
  · split at h
    · obtain rfl := Option.some.inj h
      exact ⟨rfl, Or.inl rfl⟩
    · exact queue_of_dequeue h fun _ _ heq => Option.some.inj heq ▸ ⟨rfl, rfl⟩
  · split at h
    · obtain rfl := Option.some.inj h
      exact ⟨rfl, Or.inl rfl⟩
    · exact queue_of_dequeue h fun _ _ heq => Option.some.inj heq ▸ ⟨rfl, rfl⟩
  · obtain rfl := Option.some.inj h
    exact ⟨rfl, Or.inl rfl⟩

/-- After the fetch the queue stays as it is. -/
theorem queue_of_fetchToDispatch (hfetch : fetch trace s = some s') {sim : Sim}
    (h : fetchToDispatch trace cycle s = some sim) :
    sim.fetchIndex = s'.fetchIndex ∧ sim.instrQueue = s'.instrQueue := by
  rw [fetchToDispatch, hfetch] at h
  simp only [Option.bind_eq_bind, Option.bind_some] at h
  split at h
  · obtain rfl := Option.some.inj h
    exact ⟨rfl, rfl⟩
  · split at h <;> obtain rfl := Option.some.inj h <;> exact ⟨rfl, rfl⟩

/-- There is one next instruction. -/
theorem NextFetchable.unique {index insn insn' : Nat} (h : NextFetchable trace index insn)
    (h' : NextFetchable trace index insn') : insn = insn' := by
  rcases Nat.lt_trichotomy insn insn' with hlt | heq | hlt
  · exact absurd h.fetchable (h'.least insn h.lt hlt)
  · exact heq
  · exact absurd h'.fetchable (h.least insn' h'.lt hlt)

/-- What the inner loop of the fetch finds. -/
theorem fetchNext_eq_some {index insn : Nat} :
    (fetchNext (trace.drop index) index).2 = some insn ↔ NextFetchable trace index insn := by
  have hspec := @fetchNext_spec trace _ index rfl
  generalize fetchNext (trace.drop index) index = next at hspec ⊢
  obtain ⟨next, fetched⟩ := next
  cases fetched with
  | none => exact ⟨(nomatch ·), fun h => absurd h.fetchable (hspec.2.2 insn h.lt)⟩
  | some found =>
      obtain ⟨-, hfound⟩ := hspec
      refine ⟨fun h => Option.some.inj h ▸ hfound, fun h => ?_⟩
      rw [hfound.unique h]

/-- What a call does to the queue: it puts the next instruction there, or it takes one away, or
neither. -/
theorem queue_of_step (h : (runTomasulo trace).Reachable m) (hstep : step trace m = some m') :
    (enqueues trace m = [] ∧
      nonTraps trace m'.sim.fetchIndex = nonTraps trace m.sim.fetchIndex ∧
      (m'.sim.instrQueue = m.sim.instrQueue ∨
        ∃ insn, m.sim.instrQueue.dequeue = some (insn, m'.sim.instrQueue))) ∨
    ∃ insn, enqueues trace m = [insn] ∧
      nonTraps trace m'.sim.fetchIndex = nonTraps trace m.sim.fetchIndex ++ [insn] ∧
      m.sim.instrQueue.enqueue insn = some m'.sim.instrQueue := by
  obtain ⟨hcycle, left, htimeline⟩ := timeline_of_run h
  obtain ⟨l, hqueue, -⟩ := htimeline.in_order.queue
  rw [enqueues]
  obtain ⟨hstage, rfl⟩ | ⟨hstage, sim, hsim, rfl⟩ | ⟨hstage, rfl⟩ | ⟨hstage, sim, hsim, rfl⟩ |
    ⟨hstage, sim, hsim, rfl⟩ := step_cases hstep
  all_goals simp only [hstage]
  · have hspec := cdbToRetire_spec htimeline.writes_of_map
    exact Or.inl ⟨trivial, by rw [hspec.fetch], Or.inl hspec.queue⟩
  · obtain ⟨s', chosen, heq, hspec⟩ := executes_of_reachable h hstage
    obtain rfl := Option.some.inj (heq.symm.trans hsim)
    exact Or.inl ⟨trivial, by rw [hspec.fetch], Or.inl hspec.queue⟩
  · obtain ⟨started, hspec⟩ :=
      @issueToExecute_spec m.cycle m.sim htimeline.occupied.distinct htimeline.occupied.class_unique
    exact Or.inl ⟨trivial, by rw [hspec.fetch], Or.inl hspec.queue⟩
  · obtain ⟨hfetch, hqueue'⟩ := queue_of_dispatchToIssue hsim
    exact Or.inl ⟨trivial, by rw [hfetch], hqueue'⟩
  · rcases @fetch_spec trace m.sim l hqueue with
      ⟨hfull, heq⟩ | ⟨hroom, index, hlt, -, hnone, heq⟩ | ⟨insn, queue, hnext, henqueue, -, heq⟩
    · obtain ⟨hindex, hsame⟩ := queue_of_fetchToDispatch heq hsim
      rw [if_pos (hqueue.is_full.mpr hfull)]
      exact Or.inl ⟨rfl, by rw [hindex], Or.inl hsame⟩
    · obtain ⟨hindex, hsame⟩ := queue_of_fetchToDispatch heq hsim
      have hnot : (fetchNext (trace.drop m.sim.fetchIndex) m.sim.fetchIndex).2 = none :=
        Option.eq_none_iff_forall_ne_some.mpr fun insn hinsn =>
          hnone insn (fetchNext_eq_some.mp hinsn).lt (fetchNext_eq_some.mp hinsn).fetchable
      rw [hnot, hindex]
      exact Or.inl ⟨ite_self _, nonTraps_of_none hlt hnone, Or.inl hsame⟩
    · obtain ⟨hindex, hsame⟩ := queue_of_fetchToDispatch heq hsim
      have hroom : ¬ m.sim.instrQueue.isFull = true := by
        intro hfull
        rw [RingBuffer.enqueue, if_neg (of_decide_eq_true hfull).not_lt] at henqueue
        cases henqueue
      rw [if_neg hroom, fetchNext_eq_some.mpr hnext, hindex, hsame]
      exact Or.inr ⟨insn, rfl, nonTraps_of_next hnext, henqueue⟩

/-! ## Runs -/

/-- Every instruction is put in the queue once, and in program order. -/
theorem enqueueLog_of_run {calls : Nat} (h : (runTomasulo trace).Reachable m)
    (hrun : run trace calls m = some m') :
    nonTraps trace m'.sim.fetchIndex =
      nonTraps trace m.sim.fetchIndex ++ enqueueLog trace calls m := by
  induction calls generalizing m with
  | zero =>
      obtain rfl := Option.some.inj hrun
      exact (List.append_nil _).symm
  | succ calls ih =>
      rw [run, Option.bind_eq_some_iff] at hrun
      obtain ⟨m₁, hstep, hrest⟩ := hrun
      rw [enqueueLog, hstep, ih (h.step (l := ()) trivial hstep) hrest, ← List.append_assoc]
      rcases queue_of_step h hstep with ⟨hlog, hindex, -⟩ | ⟨insn, hlog, hindex, -⟩
      · rw [hlog, hindex, List.append_nil]
      · rw [hlog, hindex]

/-- What was put into the queue is what was fetched. -/
theorem enqueueLog_of_initial {calls : Nat} (hrun : run trace calls .initial = some m) :
    enqueueLog trace calls .initial = nonTraps trace m.sim.fetchIndex := by
  have hlog := enqueueLog_of_run (.init rfl) hrun
  rw [show Machine.initial.sim.fetchIndex = 0 from rfl, nonTraps_zero] at hlog
  exact hlog.symm

/-- The end of the queue is as many slots on as instructions were put there. -/
theorem tail_of_reachable (h : (runTomasulo trace).Reachable m) :
    (m.sim.instrQueue.head + m.sim.instrQueue.size) % INSTR_QUEUE_SIZE =
      (nonTraps trace m.sim.fetchIndex).length % INSTR_QUEUE_SIZE := by
  induction h with
  | init hinit =>
      obtain rfl : _ = Machine.initial := hinit
      rw [show Machine.initial.sim.fetchIndex = 0 from rfl, nonTraps_zero]
      rfl
  | step hreach _ hstep ih =>
      rcases queue_of_step hreach hstep with
        ⟨-, hindex, hsame | ⟨insn, hdequeue⟩⟩ | ⟨insn, -, hindex, henqueue⟩
      · rw [hindex, hsame, ih]
      · rw [hindex, RingBuffer.tail_of_dequeue hdequeue, ih]
      · rw [hindex, RingBuffer.tail_of_enqueue henqueue, List.length_append, Nat.add_mod, ih,
          ← Nat.add_mod]
        rfl

/-- The queue holds what was fetched and not dispatched: the rest of the fetched instructions is
before it, and has a station, but for the branches, which need none. -/
structure QueuedRun (trace : Trace) (s : Sim) (dispatched queued : List Nat) : Prop where
  fetched : nonTraps trace s.fetchIndex = dispatched ++ queued
  holds : s.instrQueue.Holds queued
  dispatched : ∀ j ∈ dispatched, isBranch (opAt trace j) = true ∨ (s.table j).tomIssueCycle ≠ 0
  waiting : ∀ j ∈ queued, (s.table j).tomIssueCycle = 0

/-- Run lemma. -/
theorem queued_of_reachable (h : (runTomasulo trace).Reachable m) :
    ∃ dispatched queued, QueuedRun trace m.sim dispatched queued := by
  obtain ⟨-, left, htimeline⟩ := timeline_of_run h
  have horder := htimeline.in_order
  obtain ⟨l, hqueue, hsorted, hmem⟩ := horder.queue
  refine ⟨nonTraps trace left, l, nonTraps_eq ?_ fun j => ?_, hqueue, fun j hj => ?_,
    fun j hj => ?_⟩
  · refine List.pairwise_append.mpr ⟨nonTraps_sorted left, hsorted, fun i hi j hj => ?_⟩
    exact (mem_nonTraps.mp hi).2.trans_lt ((hmem j).mp hj).2.1
  · rw [List.mem_append, mem_nonTraps, hmem, ← and_or_left]
    refine and_congr_right fun _ => ⟨?_, fun hle => ?_⟩
    · rintro (hle | ⟨-, hle⟩)
      · exact hle.trans horder.left_le
      · exact hle
    · exact (Nat.lt_or_ge left j).symm.imp_right fun hlt => ⟨hlt, hle⟩
  · obtain ⟨hfetch, hle⟩ := mem_nonTraps.mp hj
    by_cases hbranch : isBranch (opAt trace j) = true
    · exact Or.inl hbranch
    · exact Or.inr ((horder.issued j).mpr ⟨⟨hfetch, Bool.eq_false_iff.mpr hbranch⟩, hle⟩)
  · by_contra hne
    exact absurd ((horder.issued j).mp hne).2 (not_le.mpr ((hmem j).mp hj).2.1)

/-- Fetch to dispatch is called with nothing in the queue and nothing left to fetch. -/
structure FindsNothing (trace : Trace) (m : Machine) : Prop where
  stage : m.stage = .fetchToDispatch
  queue : m.sim.instrQueue.isEmpty = true
  fetched : ∀ j, m.sim.fetchIndex < j → ¬ Fetchable trace j

/-- The tail is read with the head at slot 0 and nothing queued, if nothing is found after a
multiple of ten instructions. -/
theorem tail_of_fetch (h : (runTomasulo trace).Reachable m) (hstage : m.stage = .fetchToDispatch) :
    ∃ s' queued, fetch trace m.sim = some s' ∧ s'.instrQueue.Holds queued ∧
      (s'.instrQueue.head + s'.instrQueue.size = 0 ↔
        INSTR_QUEUE_SIZE ∣ (nonTraps trace trace.length).length ∧ FindsNothing trace m) := by
  obtain ⟨-, left, htimeline⟩ := timeline_of_run h
  obtain ⟨l, hqueue, -⟩ := htimeline.in_order.queue
  have hempty := hqueue.is_empty
  rcases @fetch_spec trace m.sim l hqueue with
    ⟨hfull, heq⟩ | ⟨-, index, hlt, hlen, hnone, heq⟩ | ⟨insn, queue, hnext, -, hholds, heq⟩
  · refine ⟨_, l, heq, hqueue, fun hzero => ?_, fun ⟨_, hfinds⟩ => ?_⟩
    · rw [hqueue.size, hfull] at hzero
      exact nomatch (Nat.add_eq_zero_iff.mp hzero).2
    · rw [hempty.mp hfinds.queue] at hfull
      exact nomatch hfull
  · -- all instructions are counted
    have hall : nonTraps trace m.sim.fetchIndex = nonTraps trace trace.length := by
      rw [← nonTraps_of_none hlt hnone, ← nonTraps_of_none hlen]
      exact fun j hj hfetch => absurd hfetch.2.1 (not_le.mpr hj)
    have htail := tail_of_reachable h
    rw [hall] at htail
    refine ⟨_, l, heq, hqueue, fun hzero => ?_, fun ⟨hdvd, hfinds⟩ => ?_⟩
    · rw [show m.sim.instrQueue.head + m.sim.instrQueue.size = 0 from hzero] at htail
      refine ⟨Nat.dvd_of_mod_eq_zero htail.symm, hstage, ?_, hnone⟩
      exact decide_eq_true (Nat.add_eq_zero_iff.mp hzero).2
    · have hsize : m.sim.instrQueue.size = 0 := of_decide_eq_true hfinds.queue
      rw [hsize, Nat.add_zero, Nat.mod_eq_of_lt hqueue.head,
        Nat.mod_eq_zero_of_dvd hdvd] at htail
      exact Nat.add_eq_zero_iff.mpr ⟨htail, hsize⟩
  · refine ⟨_, _, heq, hholds, fun hzero => ?_, fun ⟨_, hfinds⟩ => ?_⟩
    · rw [hholds.size, List.length_append] at hzero
      exact nomatch (Nat.add_eq_zero_iff.mp (Nat.add_eq_zero_iff.mp hzero).2).2
    · exact absurd hnext.fetchable (hfinds.fetched insn hnext.lt)

/-- What the instruction queue is for, at any point of the run. -/
structure QueueLaw (trace : Trace) : Prop where
  /-- the queue is the run of instructions fetched and not dispatched, and its other slots are
  empty -/
  content : ∀ m, (runTomasulo trace).Reachable m →
    ∃ dispatched queued, QueuedRun trace m.sim dispatched queued
  /-- what was put in the queue is what was fetched, in program order and once -/
  in_order : ∀ calls m, run trace calls .initial = some m →
    enqueueLog trace calls .initial = nonTraps trace m.sim.fetchIndex
  /-- the run ends, and by then all instructions but the traps were put in the queue -/
  all : ∃ calls m, run trace calls .initial = some m ∧ m.stage = .returned ∧
    enqueueLog trace calls .initial = nonTraps trace trace.length
  /-- after a fetch the newest instruction is read at the tail -/
  newest : ∀ m, (runTomasulo trace).Reachable m → m.stage = .fetchToDispatch →
    ∃ s' queued, fetch trace m.sim = some s' ∧ s'.instrQueue.Holds queued ∧
      instrQueuePeekTail s'.instrQueue = some queued.getLast?
  /-- no call computes an index outside of the array -/
  in_range : ∀ m, (runTomasulo trace).Reachable m → stepChecked trace m = step trace m

/-- The queue law holds if the number of instructions that are no traps is no multiple of the size
of the queue. If it is one, the law holds if no call of fetch to dispatch finds the queue drained
and nothing left to fetch, and fails otherwise. -/
theorem queue_law_iff (trace : Trace) : QueueLaw trace ↔
    (INSTR_QUEUE_SIZE ∣ (nonTraps trace trace.length).length →
      ∀ m, (runTomasulo trace).Reachable m → ¬ FindsNothing trace m) := by
  constructor
  · intro hlaw hdvd m h hfinds
    obtain ⟨s', queued, hfetch, -, hzero⟩ := tail_of_fetch h hfinds.stage
    obtain ⟨s'', queued', hfetch', -, htail⟩ := hlaw.newest m h hfinds.stage
    obtain rfl := Option.some.inj (hfetch.symm.trans hfetch')
    rw [instrQueuePeekTail_eq, if_pos (hzero.mpr ⟨hdvd, hfinds⟩)] at htail
    exact nomatch htail
  · intro hnever
    have htail : ∀ m, (runTomasulo trace).Reachable m → m.stage = .fetchToDispatch →
        ∃ s' queued, fetch trace m.sim = some s' ∧ s'.instrQueue.Holds queued ∧
          s'.instrQueue.head + s'.instrQueue.size ≠ 0 := by
      intro m h hstage
      obtain ⟨s', queued, hfetch, hholds, hzero⟩ := tail_of_fetch h hstage
      exact ⟨s', queued, hfetch, hholds, fun hbad => hnever (hzero.mp hbad).1 m h (hzero.mp hbad).2⟩
    refine ⟨fun m => queued_of_reachable, fun calls m => enqueueLog_of_initial, ?_,
      fun m h hstage => ?_, fun m h => ?_⟩
    · obtain ⟨calls, m, hrun, hreturned⟩ := returns_of_reachable (.init rfl)
      have hindex := (is_simulation_done_iff.mp
        (done_of_returned (reachable_of_run (.init rfl) hrun) hreturned)).1
      refine ⟨calls, m, hrun, hreturned, ?_⟩
      rw [enqueueLog_of_initial hrun]
      exact nonTraps_of_none hindex fun j hj hfetch => absurd hfetch.2.1 (not_le.mpr hj)
    · obtain ⟨s', queued, hfetch, hholds, hne⟩ := htail m h hstage
      refine ⟨s', queued, hfetch, hholds, ?_⟩
      rw [instrQueuePeekTail_eq, if_neg hne, hholds.peek_tail]
    · obtain ⟨-, left, htimeline⟩ := timeline_of_run h
      obtain ⟨l, hqueue, -⟩ := htimeline.in_order.queue
      rw [stepChecked, step]
      split
      · next hstage => rw [hstage, dispatchToIssueChecked_eq hqueue.head]
      · next hstage =>
          obtain ⟨s', queued, hfetch, -, hne⟩ := htail m h hstage
          rw [hstage, fetchToDispatchChecked_eq hfetch, if_neg hne]
      · rfl

set_option maxRecDepth 100000 in
/-- In the eleventh cycle the last of ten branches leaves the queue, and its head is slot 0. -/
theorem peek_tail_before_array : ¬ QueueLaw tenBranches := by
  intro h
  have hrange := h.in_range ((run tenBranches 54 .initial).get (by decide +kernel))
    (reachable_get _)
  exact absurd (congrArg Option.isSome hrange) (by decide +kernel)

end Ece552.Tomasulo
