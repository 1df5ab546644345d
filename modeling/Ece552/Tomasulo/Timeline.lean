import Ece552.Tomasulo.Stages

/-!
# The timeline of a run

The state between two calls is known from the stage cycles: which instructions are queued, in a
reservation station, in a unit and on the bus, and which producers an instruction waits for. The
four parts of `Timeline` say this, and every call preserves them while its clock goes from one cycle
to the next. Read `InOrder`, `Stamped`, `Occupied` and `Depends` first.
-/

namespace Ece552.Tomasulo

open Library

/-- The last cycle in which each of the calls of the main loop was made. -/
structure Clock where
  retire : Nat
  complete : Nat
  execute : Nat
  issue : Nat
  dispatch : Nat

/-- The clocks between two calls of a cycle. -/
def Machine.clock (m : Machine) : Clock :=
  match m.stage with
  | .cdbToRetire | .returned => ⟨m.cycle - 1, m.cycle - 1, m.cycle - 1, m.cycle - 1, m.cycle - 1⟩
  | .executeToCdb => ⟨m.cycle, m.cycle - 1, m.cycle - 1, m.cycle - 1, m.cycle - 1⟩
  | .issueToExecute => ⟨m.cycle, m.cycle, m.cycle - 1, m.cycle - 1, m.cycle - 1⟩
  | .dispatchToIssue => ⟨m.cycle, m.cycle, m.cycle, m.cycle - 1, m.cycle - 1⟩
  | .fetchToDispatch => ⟨m.cycle, m.cycle, m.cycle, m.cycle, m.cycle - 1⟩

/-- The instruction has left its unit: it went on the bus, or it is a store that is complete. -/
def Finished (trace : Trace) (k : Clock) (s : Sim) (j : Nat) : Prop :=
  (s.table j).tomCdbCycle ≠ 0 ∨
    (isStore (opAt trace j) = true ∧ (s.table j).tomExecuteCycle ≠ 0 ∧
      (s.table j).tomExecuteCycle + FU_INT_LATENCY ≤ k.complete)

/-- The result of the instruction has not been broadcast. -/
def Pending (k : Clock) (s : Sim) (p : Nat) : Prop :=
  (s.table p).tomCdbCycle = 0 ∨ k.retire ≤ (s.table p).tomCdbCycle

/-- The front end is in program order: what was fetched and not left behind is queued. The last
instruction left behind is `left`. -/
structure InOrder (trace : Trace) (s : Sim) (left : Nat) : Prop where
  queue : ∃ l, s.instrQueue.Holds l ∧ l.Pairwise (· < ·) ∧
    ∀ j, j ∈ l ↔ Fetchable trace j ∧ left < j ∧ j ≤ s.fetchIndex
  left_le : left ≤ s.fetchIndex
  dispatched : ∀ j, (s.table j).tomDispatchCycle ≠ 0 ↔ Fetchable trace j ∧ j ≤ s.fetchIndex
  issued : ∀ j, (s.table j).tomIssueCycle ≠ 0 ↔ Enters trace j ∧ j ≤ left

/-- The stage cycles are ordered and bounded by the clocks. -/
structure Stamped (trace : Trace) (k : Clock) (s : Sim) : Prop where
  dispatch_le : ∀ j, (s.table j).tomDispatchCycle ≤ k.dispatch
  issue_le : ∀ j, (s.table j).tomIssueCycle ≤ k.issue
  execute_le : ∀ j, (s.table j).tomExecuteCycle ≤ k.execute
  cdb_le : ∀ j, (s.table j).tomCdbCycle ≤ k.complete
  dispatch_lt_issue : ∀ j, (s.table j).tomIssueCycle ≠ 0 →
    (s.table j).tomDispatchCycle < (s.table j).tomIssueCycle
  issue_lt_execute : ∀ j, (s.table j).tomExecuteCycle ≠ 0 →
    (s.table j).tomIssueCycle ≠ 0 ∧ (s.table j).tomIssueCycle < (s.table j).tomExecuteCycle
  execute_add_latency_le : ∀ j, (s.table j).tomCdbCycle ≠ 0 →
    (s.table j).tomExecuteCycle ≠ 0 ∧ isStore (opAt trace j) = false ∧
      (s.table j).tomExecuteCycle + latency (opAt trace j) ≤ (s.table j).tomCdbCycle
  dispatch_strict : ∀ a b, (s.table a).tomDispatchCycle ≠ 0 → (s.table b).tomDispatchCycle ≠ 0 →
    a < b → (s.table a).tomDispatchCycle < (s.table b).tomDispatchCycle
  issue_strict : ∀ a b, (s.table a).tomIssueCycle ≠ 0 → (s.table b).tomIssueCycle ≠ 0 →
    a < b → (s.table a).tomIssueCycle < (s.table b).tomIssueCycle
  cdb_injective : ∀ a b, (s.table a).tomCdbCycle ≠ 0 →
    (s.table a).tomCdbCycle = (s.table b).tomCdbCycle → a = b

/-- The stations, the units and the bus have the instructions that the stage cycles say. -/
structure Occupied (trace : Trace) (k : Clock) (s : Sim) : Prop where
  distinct : s.Distinct
  reserv : ∀ u j, (s.reserv u).Has j ↔ fuClass (opAt trace j) = some u ∧
    (s.table j).tomIssueCycle ≠ 0 ∧ ¬ Finished trace k s j
  fu : ∀ u j, (s.fu u).Has j ↔ (s.reserv u).Has j ∧ (s.table j).tomExecuteCycle ≠ 0
  bus : ∀ j, s.commonDataBus = some j ↔
    (s.table j).tomCdbCycle ≠ 0 ∧ k.retire ≤ (s.table j).tomCdbCycle

/-- The map table and the `Q` entries point to the producers whose results are not broadcast. -/
structure Depends (trace : Trace) (k : Clock) (s : Sim) (left : Nat) : Prop where
  map : ∀ reg p, s.mapTable reg = some p ↔ producer trace (left + 1) reg = some p ∧ Pending k s p
  waits : ∀ j a p, (s.table j).Q a = some p ↔ (s.table j).tomIssueCycle ≠ 0 ∧
    ∃ reg, (getInstr trace j).rIn a = some reg ∧ producer trace j reg = some p ∧ Pending k s p
  after : ∀ j a reg p, (s.table j).tomExecuteCycle ≠ 0 → (getInstr trace j).rIn a = some reg →
    producer trace j reg = some p →
    (s.table p).tomCdbCycle ≠ 0 ∧ (s.table p).tomCdbCycle < (s.table j).tomExecuteCycle

/-- What holds between two calls. -/
structure Timeline (trace : Trace) (k : Clock) (s : Sim) (left : Nat) : Prop where
  in_order : InOrder trace s left
  stamped : Stamped trace k s
  occupied : Occupied trace k s
  depends : Depends trace k s left

/-- A stage cycle stays as it was, or it was not there and is the current cycle now. -/
structure Recorded (cycle : Nat) (p p' : Progress) : Prop where
  dispatch : p'.tomDispatchCycle = p.tomDispatchCycle ∨
    (p.tomDispatchCycle = 0 ∧ p'.tomDispatchCycle = cycle)
  issue : p'.tomIssueCycle = p.tomIssueCycle ∨ (p.tomIssueCycle = 0 ∧ p'.tomIssueCycle = cycle)
  execute : p'.tomExecuteCycle = p.tomExecuteCycle ∨
    (p.tomExecuteCycle = 0 ∧ p'.tomExecuteCycle = cycle)
  cdb : p'.tomCdbCycle = p.tomCdbCycle ∨ (p.tomCdbCycle = 0 ∧ p'.tomCdbCycle = cycle)

/-- Nothing has to be recorded. -/
theorem Recorded.refl (cycle : Nat) (p : Progress) : Recorded cycle p p :=
  ⟨Or.inl rfl, Or.inl rfl, Or.inl rfl, Or.inl rfl⟩

variable {trace : Trace} {k : Clock} {s s' : Sim} {left t currentCycle : Nat}

/-- Nothing has happened at the start. -/
theorem timeline_initial : Timeline trace ⟨0, 0, 0, 0, 0⟩ .initial 0 := by
  refine ⟨⟨⟨[], RingBuffer.holds_empty (by decide), List.Pairwise.nil, fun j => ?_⟩, le_rfl,
    fun j => ?_, fun j => ?_⟩, ?_, ⟨⟨fun u => ?_, fun u => ?_⟩, fun u j => ?_, fun u j => ?_,
    fun j => ?_⟩, ⟨fun reg p => ?_, fun j a p => ?_, fun j a reg p h => absurd rfl h⟩⟩
  · simp [Sim.initial]
    omega
  · simp [Sim.initial, Fetchable]
    omega
  · simp [Sim.initial, Enters, Fetchable]
    omega
  · constructor <;> simp [Sim.initial]
  · cases u <;> exact SlotArray.distinct_empty
  · cases u <;> exact SlotArray.distinct_empty
  · cases u <;> simp [Sim.reserv, Sim.initial]
  · cases u <;> simp [Sim.reserv, Sim.fu, Sim.initial]
  · simp [Sim.initial]
  · simp only [Sim.initial, SlotArray.empty_apply, producer_eq_some, false_iff, reduceCtorEq]
    rintro ⟨⟨hp, ⟨⟨hfetch, -⟩, -⟩, -⟩, -⟩
    omega
  · simp [Sim.initial]

/-! ## Parts that a call does not change -/

/-- The order depends on the queue and on what was dispatched and issued. -/
theorem InOrder.congr (h : InOrder trace s left) (hqueue : s'.instrQueue = s.instrQueue)
    (hfetch : s'.fetchIndex = s.fetchIndex)
    (hdispatch : ∀ j, (s'.table j).tomDispatchCycle = (s.table j).tomDispatchCycle)
    (hissue : ∀ j, (s'.table j).tomIssueCycle = (s.table j).tomIssueCycle) :
    InOrder trace s' left := by
  refine ⟨?_, ?_, fun j => ?_, fun j => ?_⟩
  · rw [hqueue, hfetch]
    exact h.queue
  · rw [hfetch]
    exact h.left_le
  · rw [hdispatch, hfetch]
    exact h.dispatched j
  · rw [hissue]
    exact h.issued j

/-- Later clocks bound the stage cycles too. -/
theorem Stamped.mono (h : Stamped trace k s) {k' : Clock}
    (hcycles : ∀ j, SameCycles (s.table j) (s'.table j))
    (hdispatch : k.dispatch ≤ k'.dispatch) (hissue : k.issue ≤ k'.issue)
    (hexecute : k.execute ≤ k'.execute) (hcomplete : k.complete ≤ k'.complete) :
    Stamped trace k' s' := by
  have hd := fun j => (hcycles j).dispatch
  have hi := fun j => (hcycles j).issue
  have he := fun j => (hcycles j).execute
  have hc := fun j => (hcycles j).cdb
  constructor
  · exact fun j => (hd j).trans_le ((h.dispatch_le j).trans hdispatch)
  · exact fun j => (hi j).trans_le ((h.issue_le j).trans hissue)
  · exact fun j => (he j).trans_le ((h.execute_le j).trans hexecute)
  · exact fun j => (hc j).trans_le ((h.cdb_le j).trans hcomplete)
  · simpa only [hd, hi] using h.dispatch_lt_issue
  · simpa only [hi, he] using h.issue_lt_execute
  · simpa only [he, hc] using h.execute_add_latency_le
  · simpa only [hd] using h.dispatch_strict
  · simpa only [hi] using h.issue_strict
  · simpa only [hc] using h.cdb_injective

/-- What is finished depends on the cycles of execution and of the bus. -/
theorem finished_congr {k' : Clock}
    (hexecute : ∀ j, (s'.table j).tomExecuteCycle = (s.table j).tomExecuteCycle)
    (hcdb : ∀ j, (s'.table j).tomCdbCycle = (s.table j).tomCdbCycle)
    (hcomplete : k'.complete = k.complete) (j : Nat) :
    Finished trace k' s' j ↔ Finished trace k s j := by
  rw [Finished, Finished, hexecute, hcdb, hcomplete]

/-- What is pending depends on the cycles of the bus. -/
theorem pending_congr {k' : Clock}
    (hcdb : ∀ j, (s'.table j).tomCdbCycle = (s.table j).tomCdbCycle)
    (hretire : k'.retire = k.retire) (p : Nat) : Pending k' s' p ↔ Pending k s p := by
  rw [Pending, Pending, hcdb, hretire]

/-- What occupies stations and units depends on the cycles that end it. -/
theorem Occupied.congr (h : Occupied trace k s) {k' : Clock}
    (hissue : ∀ j, (s'.table j).tomIssueCycle = (s.table j).tomIssueCycle)
    (hexecute : ∀ j, (s'.table j).tomExecuteCycle = (s.table j).tomExecuteCycle)
    (hcdb : ∀ j, (s'.table j).tomCdbCycle = (s.table j).tomCdbCycle)
    (hreserv : ∀ u, s'.reserv u = s.reserv u) (hfu : ∀ u, s'.fu u = s.fu u)
    (hbus : s'.commonDataBus = s.commonDataBus) (hretire : k'.retire = k.retire)
    (hcomplete : k'.complete = k.complete) : Occupied trace k' s' := by
  refine ⟨⟨fun u => ?_, fun u => ?_⟩, fun u j => ?_, fun u j => ?_, fun j => ?_⟩
  · rw [hreserv]
    exact h.distinct.reserv u
  · rw [hfu]
    exact h.distinct.fu u
  · rw [hreserv, hissue, finished_congr hexecute hcdb hcomplete]
    exact h.reserv u j
  · rw [hfu, hreserv, hexecute]
    exact h.fu u j
  · rw [hbus, hcdb, hretire]
    exact h.bus j

/-- The class of an instruction's station is that of its opcode. -/
theorem Occupied.class_unique (h : Occupied trace k s) (u v : FuClass) (insn : Nat)
    (hu : (s.reserv u).Has insn) (hv : (s.reserv v).Has insn) : u = v := by
  have hclass := ((h.reserv u insn).mp hu).1
  rw [((h.reserv v insn).mp hv).1] at hclass
  exact (Option.some.inj hclass).symm

/-- What depends on the map table, the `Q` entries and what is pending. -/
theorem Depends.congr (h : Depends trace k s left) {k' : Clock}
    (hissue : ∀ j, (s'.table j).tomIssueCycle = (s.table j).tomIssueCycle)
    (hexecute : ∀ j, (s'.table j).tomExecuteCycle = (s.table j).tomExecuteCycle)
    (hcdb : ∀ j, (s'.table j).tomCdbCycle = (s.table j).tomCdbCycle)
    (hQ : ∀ j, (s'.table j).Q = (s.table j).Q) (hmap : s'.mapTable = s.mapTable)
    (hretire : k'.retire = k.retire) : Depends trace k' s' left := by
  refine ⟨fun reg p => ?_, fun j a p => ?_, fun j a reg p => ?_⟩
  · rw [hmap, pending_congr hcdb hretire]
    exact h.map reg p
  · rw [hQ, hissue]
    simp only [pending_congr hcdb hretire]
    exact h.waits j a p
  · rw [hexecute, hcdb]
    exact h.after j a reg p

/-- A call that does nothing moves its clock. -/
theorem Timeline.idle (h : Timeline trace k s left) {k' : Clock} (hretire : k'.retire = k.retire)
    (hcomplete : k'.complete = k.complete) (hexecute : k.execute ≤ k'.execute)
    (hissue : k.issue ≤ k'.issue) (hdispatch : k.dispatch ≤ k'.dispatch) :
    Timeline trace k' s left := by
  refine ⟨h.in_order, h.stamped.mono (fun _ => ⟨rfl, rfl, rfl, rfl⟩) hdispatch hissue hexecute
    hcomplete.ge, ?_, ?_⟩
  · exact h.occupied.congr (fun _ => rfl) (fun _ => rfl) (fun _ => rfl) (fun _ => rfl)
      (fun _ => rfl) rfl hretire hcomplete
  · exact h.depends.congr (fun _ => rfl) (fun _ => rfl) (fun _ => rfl) (fun _ => rfl) rfl hretire

/-! ## One stage cycle of some instructions -/

section Column

variable {f f' : Nat → Nat} {P : Nat → Prop} [DecidablePred P] {insn : Nat}

/-- A column with new entries of the next cycle is bounded by it. -/
theorem column_le (hf : ∀ j, f' j = if P j then t + 1 else f j) (hle : ∀ j, f j ≤ t) (j : Nat) :
    f' j ≤ t + 1 := by
  rw [hf]
  split
  · exact le_rfl
  · exact Nat.le_succ_of_le (hle j)

/-- A column has an entry where there was one, or a new one. -/
theorem column_ne_zero (hf : ∀ j, f' j = if P j then t + 1 else f j) (j : Nat) :
    f' j ≠ 0 ↔ P j ∨ f j ≠ 0 := by
  rw [hf]
  by_cases hj : P j <;> simp [hj]

/-- An entry is recorded once. -/
theorem column_recorded (hf : ∀ j, f' j = if P j then t + 1 else f j) (hnew : ∀ j, P j → f j = 0)
    (j : Nat) : f' j = f j ∨ (f j = 0 ∧ f' j = t + 1) := by
  rw [hf]
  split
  · next hj => exact Or.inr ⟨hnew j hj, rfl⟩
  · exact Or.inl rfl

/-- The cycles stay in program order when the next instruction gets the current one. -/
theorem column_strict (hf : ∀ j, f' j = if j = insn then t + 1 else f j) (hle : ∀ j, f j ≤ t)
    (holder : ∀ j, f j ≠ 0 → j < insn)
    (hstrict : ∀ a b, f a ≠ 0 → f b ≠ 0 → a < b → f a < f b) (a b : Nat) (ha : f' a ≠ 0)
    (hb : f' b ≠ 0) (hab : a < b) : f' a < f' b := by
  have hleft : ∀ j, j < insn → f' j = f j := fun j hj => by rw [hf, if_neg hj.ne]
  rcases (column_ne_zero hf b).mp hb with rfl | hbold
  · rw [hleft a hab, hf b, if_pos rfl]
    exact Nat.lt_succ_of_le (hle a)
  · have hlt := holder b hbold
    rw [hleft a (hab.trans hlt)] at ha ⊢
    rw [hleft b hlt]
    exact hstrict a b ha hbold hab

end Column

/-- An instruction that was not issued was not executed. -/
theorem Stamped.not_executed (h : Stamped trace k s) {j : Nat}
    (hissue : (s.table j).tomIssueCycle = 0) : (s.table j).tomExecuteCycle = 0 := by
  by_contra hne
  exact (h.issue_lt_execute j hne).1 hissue

/-- An instruction that was not executed was not on the bus. -/
theorem Stamped.not_on_cdb (h : Stamped trace k s) {j : Nat}
    (hexecute : (s.table j).tomExecuteCycle = 0) : (s.table j).tomCdbCycle = 0 := by
  by_contra hne
  exact (h.execute_add_latency_le j hne).1 hexecute

/-- What was not executed is not finished. -/
theorem Stamped.not_finished (h : Stamped trace k s) {j : Nat}
    (hexecute : (s.table j).tomExecuteCycle = 0) : ¬ Finished trace k s j := by
  rintro (hcdb | ⟨-, hne, -⟩)
  · exact hcdb (h.not_on_cdb hexecute)
  · exact hne hexecute

/-- An instruction that takes a station is in it until it is finished. -/
theorem Timeline.stationed (h : Timeline trace k s left) {j : Nat}
    (hissue : (s.table j).tomIssueCycle ≠ 0) (hfinish : ¬ Finished trace k s j) :
    s.Stationed j := by
  obtain ⟨u, hu⟩ := ((h.in_order.issued j).mp hissue).1.fu_class
  exact ⟨u, (h.occupied.reserv u j).mpr ⟨hu, hissue, hfinish⟩⟩

/-! ## The common data bus to retirement -/

/-- The map table names writers of the registers. -/
theorem Timeline.writes_of_map (h : Timeline trace k s left) (reg : Reg) (p : Nat)
    (hmap : s.mapTable reg = some p) : Writes trace p reg :=
  (producer_eq_some.mp ((h.depends.map reg p).mp hmap).1).2.2.1

/-- What was on the bus is pending no more. -/
theorem Timeline.pending_of_retires (h : Timeline trace ⟨t, t, t, t, t⟩ s left)
    (hspec : Retires s s') (p : Nat) : Pending ⟨t + 1, t, t, t, t⟩ s' p ↔
      Pending ⟨t, t, t, t, t⟩ s p ∧ s.commonDataBus ≠ some p := by
  have hle := h.stamped.cdb_le p
  simp only [ne_eq, Pending, (hspec.cycles p).cdb, h.occupied.bus p] at hle ⊢
  omega

/-- Retirement gives nothing back but the bus. -/
theorem Timeline.occupied_of_retires (h : Timeline trace ⟨t, t, t, t, t⟩ s left)
    (hspec : Retires s s') : Occupied trace ⟨t + 1, t, t, t, t⟩ s' := by
  have hissue := fun j => (hspec.cycles j).issue
  have hexecute := fun j => (hspec.cycles j).execute
  have hcdb := fun j => (hspec.cycles j).cdb
  refine ⟨⟨fun u => ?_, fun u => ?_⟩, fun u j => ?_, fun u j => ?_, fun j => ?_⟩
  · rw [hspec.reserv]
    exact h.occupied.distinct.reserv u
  · rw [hspec.fu]
    exact h.occupied.distinct.fu u
  · rw [hspec.reserv, hissue, finished_congr hexecute hcdb rfl]
    exact h.occupied.reserv u j
  · rw [hspec.reserv, hspec.fu, hexecute]
    exact h.occupied.fu u j
  · have hle := h.stamped.cdb_le j
    simp only [hspec.bus, hcdb, reduceCtorEq, false_iff] at hle ⊢
    omega

/-- Retirement ends the waiting for what was on the bus. -/
theorem Timeline.depends_of_retires (h : Timeline trace ⟨t, t, t, t, t⟩ s left)
    (hspec : Retires s s') : Depends trace ⟨t + 1, t, t, t, t⟩ s' left := by
  refine ⟨fun reg p => ?_, fun j a p => ?_, fun j a reg p => ?_⟩
  · rw [hspec.map, h.depends.map, h.pending_of_retires hspec]
    tauto
  · rw [hspec.dependence, h.depends.waits, (hspec.cycles j).issue]
    simp only [h.pending_of_retires hspec]
    constructor
    · rintro ⟨⟨hne, reg, hin, hprod, hwait⟩, hnot⟩
      refine ⟨hne, reg, hin, hprod, hwait, fun hbus => hnot ⟨hbus, ?_⟩⟩
      -- an instruction that waits has not been executed
      refine h.stationed hne (h.stamped.not_finished ?_)
      by_contra hexec
      obtain ⟨hne, hlt⟩ := h.depends.after j a reg p hexec hin hprod
      have hle := h.stamped.execute_le j
      simp only [Pending] at hwait hle
      omega
    · rintro ⟨hne, reg, hin, hprod, hwait, hbus⟩
      exact ⟨⟨hne, reg, hin, hprod, hwait⟩, fun h => hbus h.1⟩
  · rw [(hspec.cycles j).execute, (hspec.cycles p).cdb]
    exact h.depends.after j a reg p

/-- The call of retirement keeps the timeline. -/
theorem Timeline.retire (h : Timeline trace ⟨t, t, t, t, t⟩ s left) :
    Timeline trace ⟨t + 1, t, t, t, t⟩ (cdbToRetire s) left ∧
      ∀ j, Recorded (t + 1) (s.table j) ((cdbToRetire s).table j) := by
  have hspec := cdbToRetire_spec h.writes_of_map
  have hcycles := hspec.cycles
  refine ⟨⟨?_, ?_, h.occupied_of_retires hspec, h.depends_of_retires hspec⟩, fun j => ?_⟩
  · exact h.in_order.congr hspec.queue hspec.fetch (fun j => (hcycles j).dispatch)
      fun j => (hcycles j).issue
  · exact h.stamped.mono hcycles le_rfl le_rfl le_rfl le_rfl
  · exact ⟨Or.inl (hcycles j).dispatch, Or.inl (hcycles j).issue, Or.inl (hcycles j).execute,
      Or.inl (hcycles j).cdb⟩

/-! ## Execution to the common data bus -/

/-- Before this call the bus is empty. -/
theorem Timeline.bus_free (h : Timeline trace ⟨t + 1, t, t, t, t⟩ s left) :
    s.commonDataBus = none := by
  refine Option.eq_none_iff_forall_ne_some.mpr fun j hj => ?_
  have hle := h.stamped.cdb_le j
  have hbus := ((h.occupied.bus j).mp hj).2
  simp only at hle hbus
  omega

/-- The instruction chosen is no store, for the stores that are ready were removed. -/
theorem Executes.not_store {insn : Nat} {u : FuClass}
    (hu : fuClass (opAt trace insn) = some u)
    (hleft : ¬ (u = .INT ∧ completedStore trace currentCycle s.table insn = true))
    (hready : (s.table insn).tomExecuteCycle + latency (opAt trace insn) ≤ currentCycle) :
    isStore (opAt trace insn) = false := by
  by_contra hstore
  rw [Bool.not_eq_false] at hstore
  have hclass := store_uses_int hstore
  have hlatency : latency (opAt trace insn) = FU_INT_LATENCY := by
    revert hstore
    cases opAt trace insn <;> decide
  rw [hlatency] at hready
  refine hleft ⟨Option.some.inj (hu.symm.trans hclass), ?_⟩
  rw [completedStore, hstore]
  simpa using hready

/-- The instruction chosen has been in its unit and not on the bus. -/
theorem Timeline.chosen_of_executes (h : Timeline trace ⟨t + 1, t, t, t, t⟩ s left)
    {chosen : Option Nat} (hspec : Executes trace (t + 1) s s' chosen) {j : Nat}
    (hj : chosen = some j) : (s.table j).tomCdbCycle = 0 ∧ (s.table j).tomExecuteCycle ≠ 0 ∧
      isStore (opAt trace j) = false ∧
      (s.table j).tomExecuteCycle + latency (opAt trace j) ≤ t + 1 := by
  obtain ⟨u, ⟨hu, hleft⟩, hready⟩ := hspec.complete j hj
  obtain ⟨hin, hexec⟩ := (h.occupied.fu u j).mp hu
  obtain ⟨hclass, -, hfinish⟩ := (h.occupied.reserv u j).mp hin
  refine ⟨?_, hexec, Executes.not_store hclass hleft hready, hready⟩
  by_contra hne
  exact hfinish (Or.inl hne)

/-- What goes on the bus is pending still. -/
theorem Timeline.pending_of_executes (h : Timeline trace ⟨t + 1, t, t, t, t⟩ s left)
    {chosen : Option Nat} (hspec : Executes trace (t + 1) s s' chosen) (p : Nat) :
    Pending ⟨t + 1, t + 1, t, t, t⟩ s' p ↔ Pending ⟨t + 1, t, t, t, t⟩ s p := by
  have hle := h.stamped.cdb_le p
  simp only [Pending, hspec.cdb] at hle ⊢
  split
  · next hp =>
      have hzero := (h.chosen_of_executes hspec hp).1
      omega
  · rfl

/-- The cycle of the bus is stamped after the execution. -/
theorem Timeline.stamped_of_executes (h : Timeline trace ⟨t + 1, t, t, t, t⟩ s left)
    {chosen : Option Nat} (hspec : Executes trace (t + 1) s s' chosen) :
    Stamped trace ⟨t + 1, t + 1, t, t, t⟩ s' := by
  have hstamped := h.stamped
  constructor
  · simpa only [hspec.dispatch] using hstamped.dispatch_le
  · simpa only [hspec.issue] using hstamped.issue_le
  · simpa only [hspec.execute] using hstamped.execute_le
  · exact column_le hspec.cdb hstamped.cdb_le
  · simpa only [hspec.dispatch, hspec.issue] using hstamped.dispatch_lt_issue
  · simpa only [hspec.issue, hspec.execute] using hstamped.issue_lt_execute
  · intro j
    rw [hspec.cdb, hspec.execute]
    split
    · next hj => exact fun _ => (h.chosen_of_executes hspec hj).2
    · exact hstamped.execute_add_latency_le j
  · simpa only [hspec.dispatch] using hstamped.dispatch_strict
  · simpa only [hspec.issue] using hstamped.issue_strict
  · intro a b
    have hlea := hstamped.cdb_le a
    have hleb := hstamped.cdb_le b
    simp only [hspec.cdb] at hlea hleb ⊢
    by_cases ha : chosen = some a <;> by_cases hb : chosen = some b
    · exact fun _ _ => Option.some.inj (ha.symm.trans hb)
    · rw [if_pos ha, if_neg hb]
      intro _ heq
      omega
    · rw [if_neg ha, if_pos hb]
      intro _ heq
      omega
    · rw [if_neg ha, if_neg hb]
      exact hstamped.cdb_injective a b

/-- What has completed gives its station and its unit back. -/
theorem Timeline.occupied_of_executes (h : Timeline trace ⟨t + 1, t, t, t, t⟩ s left)
    {chosen : Option Nat} (hspec : Executes trace (t + 1) s s' chosen) :
    Occupied trace ⟨t + 1, t + 1, t, t, t⟩ s' := by
  refine ⟨hspec.distinct, fun u j => ?_, fun u j => ?_, fun j => ?_⟩
  · rw [hspec.reserv, h.occupied.fu, h.occupied.reserv, hspec.issue]
    simp only [Finished, completedStore, hspec.cdb, hspec.execute, Bool.and_eq_true,
      decide_eq_true_eq]
    by_cases hj : chosen = some j
    · simp [hj]
    · simp only [hj, if_false]
      constructor
      · rintro ⟨⟨⟨hclass, hissued, hfinish⟩, hstore⟩, -⟩
        refine ⟨hclass, hissued, ?_⟩
        rintro (hne | ⟨hop, hexec, hready⟩)
        · exact hfinish (Or.inl hne)
        · have hu := store_uses_int hop
          rw [hclass] at hu
          exact hstore ⟨Option.some.inj hu, ⟨⟨hclass, hissued, hfinish⟩, hexec⟩, hop, hready⟩
      · rintro ⟨hclass, hissued, hfinish⟩
        refine ⟨⟨⟨hclass, hissued, ?_⟩, ?_⟩, hj⟩
        · rintro (hne | ⟨hop, hexec, hready⟩)
          · exact hfinish (Or.inl hne)
          · exact hfinish (Or.inr ⟨hop, hexec, Nat.le_succ_of_le hready⟩)
        · rintro ⟨-, ⟨-, hexec⟩, hop, hready⟩
          exact hfinish (Or.inr ⟨hop, hexec, hready⟩)
  · rw [hspec.fu, hspec.reserv, h.occupied.fu, hspec.execute]
    tauto
  · have hle := h.stamped.cdb_le j
    simp only [hspec.bus, hspec.cdb] at hle ⊢
    by_cases hj : chosen = some j
    · simp [hj]
    · simp only [hj, if_false, false_iff]
      omega

/-- The bus changes no dependences. -/
theorem Timeline.depends_of_executes (h : Timeline trace ⟨t + 1, t, t, t, t⟩ s left)
    {chosen : Option Nat} (hspec : Executes trace (t + 1) s s' chosen) :
    Depends trace ⟨t + 1, t + 1, t, t, t⟩ s' left := by
  refine ⟨fun reg p => ?_, fun j a p => ?_, fun j a reg p hexec hin hprod => ?_⟩
  · rw [hspec.map, h.pending_of_executes hspec]
    exact h.depends.map reg p
  · rw [hspec.dependence, hspec.issue]
    simp only [h.pending_of_executes hspec]
    exact h.depends.waits j a p
  · rw [hspec.execute] at hexec ⊢
    have hafter := h.depends.after j a reg p hexec hin hprod
    rw [hspec.cdb, if_neg fun hp => hafter.1 (h.chosen_of_executes hspec hp).1]
    exact hafter

/-- The call for the bus keeps the timeline. -/
theorem Timeline.complete (h : Timeline trace ⟨t + 1, t, t, t, t⟩ s left) :
    ∃ s', executeToCdb trace (t + 1) s = some s' ∧
      Timeline trace ⟨t + 1, t + 1, t, t, t⟩ s' left ∧
      ∀ j, Recorded (t + 1) (s.table j) (s'.table j) := by
  obtain ⟨s', chosen, heq, hspec⟩ := @executeToCdb_spec trace (t + 1) s h.occupied.distinct
    h.bus_free fun u insn hu => ((h.occupied.fu u insn).mp hu).2
  refine ⟨s', heq, ⟨?_, h.stamped_of_executes hspec, h.occupied_of_executes hspec,
    h.depends_of_executes hspec⟩, fun j => ?_⟩
  · exact h.in_order.congr hspec.queue hspec.fetch hspec.dispatch hspec.issue
  · exact ⟨Or.inl (hspec.dispatch j), Or.inl (hspec.issue j), Or.inl (hspec.execute j),
      column_recorded hspec.cdb (fun _ hj => (h.chosen_of_executes hspec hj).1) j⟩

/-! ## Issue to execution -/

/-- What is started has been in a station and not in a unit. -/
theorem Timeline.started_of_issues (h : Timeline trace ⟨t + 1, t + 1, t, t, t⟩ s left)
    {started : List Nat} (hspec : Issues (t + 1) s s' started) {j : Nat} (hj : j ∈ started) :
    (s.table j).tomIssueCycle ≠ 0 ∧ (s.table j).tomExecuteCycle = 0 ∧
      (s.table j).tomCdbCycle = 0 := by
  obtain ⟨u, hin, hout⟩ := (hspec.ready j hj).1
  obtain ⟨-, hissued, hfinish⟩ := (h.occupied.reserv u j).mp hin
  have hexec : (s.table j).tomExecuteCycle = 0 := by
    by_contra hne
    exact hout ((h.occupied.fu u j).mpr ⟨hin, hne⟩)
  exact ⟨hissued, hexec, h.stamped.not_on_cdb hexec⟩

/-- The cycle of execution is stamped after the issue. -/
theorem Timeline.stamped_of_issues (h : Timeline trace ⟨t + 1, t + 1, t, t, t⟩ s left)
    {started : List Nat} (hspec : Issues (t + 1) s s' started) :
    Stamped trace ⟨t + 1, t + 1, t + 1, t, t⟩ s' := by
  have hstamped := h.stamped
  constructor
  · simpa only [hspec.dispatch] using hstamped.dispatch_le
  · simpa only [hspec.issue] using hstamped.issue_le
  · exact column_le hspec.execute hstamped.execute_le
  · simpa only [hspec.cdb] using hstamped.cdb_le
  · simpa only [hspec.dispatch, hspec.issue] using hstamped.dispatch_lt_issue
  · intro j
    rw [hspec.execute, hspec.issue]
    split
    · next hj =>
        have hle := hstamped.issue_le j
        exact fun _ => ⟨(h.started_of_issues hspec hj).1, Nat.lt_succ_of_le hle⟩
    · exact hstamped.issue_lt_execute j
  · intro j
    rw [hspec.cdb]
    intro hne
    rw [hspec.execute, if_neg fun hj => hne (h.started_of_issues hspec hj).2.2]
    exact hstamped.execute_add_latency_le j hne
  · simpa only [hspec.dispatch] using hstamped.dispatch_strict
  · simpa only [hspec.issue] using hstamped.issue_strict
  · simpa only [hspec.cdb] using hstamped.cdb_injective

/-- What was started is in a unit. -/
theorem Timeline.occupied_of_issues (h : Timeline trace ⟨t + 1, t + 1, t, t, t⟩ s left)
    {started : List Nat} (hspec : Issues (t + 1) s s' started) :
    Occupied trace ⟨t + 1, t + 1, t + 1, t, t⟩ s' := by
  refine ⟨hspec.distinct, fun u j => ?_, fun u j => ?_, fun j => ?_⟩
  · rw [hspec.reserv, hspec.issue, h.occupied.reserv]
    simp only [Finished, hspec.cdb, hspec.execute]
    split
    · next hj =>
        obtain ⟨-, hexec, hzero⟩ := h.started_of_issues hspec hj
        simp [hexec, hzero]
    · rfl
  · rw [hspec.fu, hspec.reserv, h.occupied.fu, hspec.execute]
    by_cases hj : j ∈ started
    · simpa [hj] using And.left
    · simp [hj]
  · rw [hspec.bus, hspec.cdb]
    exact h.occupied.bus j

/-- What was started waited for nothing. -/
theorem Timeline.depends_of_issues (h : Timeline trace ⟨t + 1, t + 1, t, t, t⟩ s left)
    {started : List Nat} (hspec : Issues (t + 1) s s' started) :
    Depends trace ⟨t + 1, t + 1, t + 1, t, t⟩ s' left := by
  have hpending : ∀ p, Pending ⟨t + 1, t + 1, t + 1, t, t⟩ s' p ↔
      Pending ⟨t + 1, t + 1, t, t, t⟩ s p := pending_congr hspec.cdb rfl
  refine ⟨fun reg p => ?_, fun j a p => ?_, fun j a reg p => ?_⟩
  · rw [hspec.map, hpending]
    exact h.depends.map reg p
  · rw [hspec.dependence, hspec.issue]
    simp only [hpending]
    exact h.depends.waits j a p
  · rw [hspec.execute, hspec.cdb]
    split
    · next hj =>
        -- nothing that the instruction reads is pending
        intro _ hin hprod
        have hissued := (h.started_of_issues hspec hj).1
        have hnot : ¬ Pending ⟨t + 1, t + 1, t, t, t⟩ s p := fun hwait => by
          have hq := (h.depends.waits j a p).mpr ⟨hissued, reg, hin, hprod, hwait⟩
          rw [(hspec.ready j hj).2 a] at hq
          exact nomatch hq
        simp only [Pending] at hnot
        omega
    · exact h.depends.after j a reg p

/-- The call that starts instructions keeps the timeline. -/
theorem Timeline.execute (h : Timeline trace ⟨t + 1, t + 1, t, t, t⟩ s left) :
    Timeline trace ⟨t + 1, t + 1, t + 1, t, t⟩ (issueToExecute (t + 1) s) left ∧
      ∀ j, Recorded (t + 1) (s.table j) ((issueToExecute (t + 1) s).table j) := by
  obtain ⟨started, hspec⟩ :=
    @issueToExecute_spec (t + 1) s h.occupied.distinct h.occupied.class_unique
  refine ⟨⟨?_, h.stamped_of_issues hspec, h.occupied_of_issues hspec, h.depends_of_issues hspec⟩,
    fun j => ?_⟩
  · exact h.in_order.congr hspec.queue hspec.fetch hspec.dispatch hspec.issue
  · exact ⟨Or.inl (hspec.dispatch j), Or.inl (hspec.issue j),
      column_recorded hspec.execute (fun _ hj => (h.started_of_issues hspec hj).2.1) j,
      Or.inl (hspec.cdb j)⟩

/-! ## Dispatch to issue -/

/-- Instructions that do not write the register are no producers. -/
theorem producer_congr {a b : Nat} {reg : Reg} (hab : a ≤ b)
    (h : ∀ j, a ≤ j → j < b → Enters trace j → ¬ Writes trace j reg) :
    producer trace b reg = producer trace a reg := by
  refine Option.ext fun p => ?_
  rw [producer_eq_some, producer_eq_some]
  constructor
  · rintro ⟨hp, henters, hwrites, hlast⟩
    have hpa : p < a := by
      by_contra hle
      exact h p (not_lt.mp hle) hp henters hwrites
    exact ⟨hpa, henters, hwrites, fun q hq => hlast q (Nat.lt_of_lt_of_le hq hab)⟩
  · rintro ⟨hp, henters, hwrites, hlast⟩
    refine ⟨Nat.lt_of_lt_of_le hp hab, henters, hwrites, fun q hq henters' hwrites' => ?_⟩
    refine hlast q ?_ henters' hwrites'
    by_contra hle
    exact h q (not_lt.mp hle) hq henters' hwrites'

/-- The head of the queue is the next instruction that is fetched after the last one left behind. -/
theorem InOrder.next_fetchable (h : InOrder trace s left) {insn : Nat} {rest : List Nat}
    (hqueue : s.instrQueue.Holds (insn :: rest)) :
    NextFetchable trace left insn ∧ insn ≤ s.fetchIndex ∧
      rest.Pairwise (· < ·) ∧ ∀ j, j ∈ rest ↔ Fetchable trace j ∧ insn < j ∧ j ≤ s.fetchIndex := by
  obtain ⟨l, hl, hsorted, hmem⟩ := h.queue
  obtain rfl := hl.unique hqueue
  obtain ⟨hfetch, hlt, hle⟩ := (hmem insn).mp List.mem_cons_self
  obtain ⟨hfirst, hrest⟩ := List.pairwise_cons.mp hsorted
  refine ⟨⟨hlt, hfetch, fun j hj hlast hj' => ?_⟩, hle, hrest, fun j => ⟨fun hj => ?_, ?_⟩⟩
  · rcases List.mem_cons.mp ((hmem j).mpr ⟨hj', hj, (hlast.trans_le hle).le⟩) with rfl | hin
    · exact lt_irrefl _ hlast
    · exact lt_asymm hlast (hfirst j hin)
  · obtain ⟨hfetch, -, hle⟩ := (hmem j).mp (List.mem_cons_of_mem _ hj)
    exact ⟨hfetch, hfirst j hj, hle⟩
  · rintro ⟨hfetch, hinsn, hle⟩
    have hin := (hmem j).mpr ⟨hfetch, hlt.trans hinsn, hle⟩
    exact (List.mem_cons.mp hin).resolve_left (ne_of_gt hinsn)

/-- A branch leaves the queue and nothing else. -/
theorem Timeline.branch (h : Timeline trace ⟨t + 1, t + 1, t + 1, t, t⟩ s left) {insn : Nat}
    {rest : List Nat} {queue : RingBuffer INSTR_QUEUE_SIZE Nat}
    (hqueue : s.instrQueue.Holds (insn :: rest)) (hrest : queue.Holds rest)
    (hbranch : isBranch (opAt trace insn) = true) :
    Timeline trace ⟨t + 1, t + 1, t + 1, t + 1, t⟩ { s with instrQueue := queue } insn := by
  obtain ⟨hnext, hle, hsorted, hmem⟩ := h.in_order.next_fetchable hqueue
  -- nothing between the last instruction left behind and the branch takes a station
  have hnone : ∀ j, Enters trace j → left < j → ¬ j ≤ insn := by
    intro j henters hj hj'
    rcases Nat.lt_or_eq_of_le hj' with hlt | rfl
    · exact hnext.least j hj hlt henters.1
    · rw [henters.2] at hbranch
      exact nomatch hbranch
  have hidle : Timeline trace ⟨t + 1, t + 1, t + 1, t + 1, t⟩ s left :=
    h.idle rfl rfl le_rfl (Nat.le_succ t) le_rfl
  refine ⟨⟨⟨rest, hrest, hsorted, hmem⟩, hle, h.in_order.dispatched, fun j => ?_⟩,
    { hidle.stamped with }, ?_, ⟨fun reg p => ?_, h.depends.waits, h.depends.after⟩⟩
  · refine (h.in_order.issued j).trans (and_congr_right fun henters => ?_)
    refine ⟨fun hj => hj.trans hnext.lt.le, fun hj => ?_⟩
    by_contra hlt
    exact hnone j henters (not_le.mp hlt) hj
  · exact hidle.occupied.congr (fun _ => rfl) (fun _ => rfl) (fun _ => rfl)
      (fun u => by cases u <;> rfl) (fun u => by cases u <;> rfl) rfl rfl rfl
  · rw [producer_congr (Nat.succ_le_succ hnext.lt.le) fun j hj hj' henters => absurd
      (Nat.lt_succ_iff.mp hj') (hnone j henters (Nat.lt_of_succ_le hj))]
    exact h.depends.map reg p

section TakesStation

variable {insn : Nat} {rest : List Nat} {u : FuClass}

/-- What takes a station enters. -/
theorem TakesStation.enters (hspec : TakesStation trace currentCycle s s' u insn)
    (hnext : NextFetchable trace left insn) : Enters trace insn :=
  ⟨hnext.fetchable, (not_branch_of_fu_class hspec.fu_class).2⟩

/-- What was issued is before the head of the queue. -/
theorem InOrder.lt_of_issued (h : InOrder trace s left) (hnext : NextFetchable trace left insn)
    {j : Nat} (hissued : (s.table j).tomIssueCycle ≠ 0) : j < insn :=
  ((h.issued j).mp hissued).2.trans_lt hnext.lt

/-- The next instruction was not issued before. -/
theorem InOrder.not_issued (h : InOrder trace s left) (hnext : NextFetchable trace left insn) :
    (s.table insn).tomIssueCycle = 0 := by
  by_contra hne
  exact lt_irrefl _ (h.lt_of_issued hnext hne)

/-- What takes a station leaves the queue. -/
theorem Timeline.in_order_of_takes_station (h : Timeline trace ⟨t + 1, t + 1, t + 1, t, t⟩ s left)
    (hqueue : s.instrQueue.Holds (insn :: rest)) (hrest : s'.instrQueue.Holds rest)
    (hspec : TakesStation trace (t + 1) s s' u insn) : InOrder trace s' insn := by
  obtain ⟨hnext, hle, hsorted, hmem⟩ := h.in_order.next_fetchable hqueue
  refine ⟨⟨rest, hrest, hsorted, ?_⟩, ?_, ?_, fun j => ?_⟩
  · rw [hspec.fetch]
    exact hmem
  · rw [hspec.fetch]
    exact hle
  · rw [hspec.fetch]
    simpa only [hspec.dispatch] using h.in_order.dispatched
  · rw [column_ne_zero hspec.issue, h.in_order.issued]
    constructor
    · rintro (rfl | ⟨hj, hle⟩)
      · exact ⟨hspec.enters hnext, le_rfl⟩
      · exact ⟨hj, hle.trans hnext.lt.le⟩
    · rintro ⟨hj, hle⟩
      by_cases hleft : j ≤ left
      · exact Or.inr ⟨hj, hleft⟩
      · refine Or.inl (Nat.le_antisymm hle (not_lt.mp fun hlt => ?_))
        exact hnext.least j (not_le.mp hleft) hlt hj.1

/-- The cycle of the issue is stamped after the dispatch. -/
theorem Timeline.stamped_of_takes_station (h : Timeline trace ⟨t + 1, t + 1, t + 1, t, t⟩ s left)
    (hnext : NextFetchable trace left insn) (hspec : TakesStation trace (t + 1) s s' u insn) :
    Stamped trace ⟨t + 1, t + 1, t + 1, t + 1, t⟩ s' := by
  have hstamped := h.stamped
  constructor
  · simpa only [hspec.dispatch] using hstamped.dispatch_le
  · exact column_le hspec.issue hstamped.issue_le
  · simpa only [hspec.execute] using hstamped.execute_le
  · simpa only [hspec.cdb] using hstamped.cdb_le
  · intro j
    rw [hspec.dispatch, hspec.issue]
    split
    · have hle := hstamped.dispatch_le j
      exact fun _ => Nat.lt_succ_of_le hle
    · exact hstamped.dispatch_lt_issue j
  · intro j
    rw [hspec.execute]
    intro hne
    have hlt := h.in_order.lt_of_issued hnext (hstamped.issue_lt_execute j hne).1
    rw [hspec.issue, if_neg hlt.ne]
    exact hstamped.issue_lt_execute j hne
  · simpa only [hspec.execute, hspec.cdb] using hstamped.execute_add_latency_le
  · simpa only [hspec.dispatch] using hstamped.dispatch_strict
  · exact column_strict hspec.issue hstamped.issue_le (fun _ => h.in_order.lt_of_issued hnext)
      hstamped.issue_strict
  · simpa only [hspec.cdb] using hstamped.cdb_injective

/-- What takes a station occupies it. -/
theorem Timeline.occupied_of_takes_station (h : Timeline trace ⟨t + 1, t + 1, t + 1, t, t⟩ s left)
    (hnext : NextFetchable trace left insn) (hspec : TakesStation trace (t + 1) s s' u insn) :
    Occupied trace ⟨t + 1, t + 1, t + 1, t + 1, t⟩ s' := by
  have hnew := h.in_order.not_issued hnext
  have hexec := h.stamped.not_executed hnew
  have hfinish : ∀ j, Finished trace ⟨t + 1, t + 1, t + 1, t + 1, t⟩ s' j ↔
      Finished trace ⟨t + 1, t + 1, t + 1, t, t⟩ s j := finished_congr hspec.execute hspec.cdb rfl
  have hnot : ¬ (s.reserv u).Has insn := fun hin =>
    ((h.occupied.reserv u insn).mp hin).2.1 hnew
  refine ⟨hspec.distinct h.occupied.distinct hnot, fun v j => ?_, fun v j => ?_, fun j => ?_⟩
  · rw [hspec.reserv, h.occupied.reserv, column_ne_zero hspec.issue, hfinish]
    constructor
    · rintro (⟨hclass, hne, hfin⟩ | ⟨rfl, rfl⟩)
      · exact ⟨hclass, Or.inr hne, hfin⟩
      · exact ⟨hspec.fu_class, Or.inl rfl, h.stamped.not_finished hexec⟩
    · rintro ⟨hclass, rfl | hne, hfin⟩
      · exact Or.inr ⟨Option.some.inj (hclass.symm.trans hspec.fu_class), rfl⟩
      · exact Or.inl ⟨hclass, hne, hfin⟩
  · rw [hspec.fu, hspec.reserv, h.occupied.fu, hspec.execute]
    constructor
    · exact fun h => ⟨Or.inl h.1, h.2⟩
    · rintro ⟨hin | ⟨rfl, rfl⟩, hne⟩
      · exact ⟨hin, hne⟩
      · exact absurd hexec hne
  · rw [hspec.bus, hspec.cdb]
    exact h.occupied.bus j

/-- The instruction is the producer of its outputs from then on. -/
theorem producer_succ {reg : Reg} (henters : Enters trace insn) :
    producer trace (insn + 1) reg =
      if Writes trace insn reg then some insn else producer trace insn reg := by
  split
  · next hwrites => exact producer_eq_some.mpr ⟨Nat.lt_succ_self insn, henters, hwrites,
      fun q hq _ _ => Nat.lt_succ_iff.mp hq⟩
  · next hwrites =>
      refine producer_congr (Nat.le_succ insn) fun j hj hj' _ => ?_
      rwa [Nat.le_antisymm (Nat.lt_succ_iff.mp hj') hj]

/-- The map table has the producers for the head of the queue. -/
theorem Timeline.producer_of_next (h : Timeline trace k s left)
    (hnext : NextFetchable trace left insn) (reg : Reg) (p : Nat) :
    s.mapTable reg = some p ↔ producer trace insn reg = some p ∧ Pending k s p := by
  rw [h.depends.map, producer_congr (Nat.succ_le_of_lt hnext.lt) fun j hj hj' henters =>
    absurd henters.1 (hnext.least j (Nat.lt_of_succ_le hj) hj')]

/-- The head of the queue notes the producers that are pending. -/
theorem Timeline.renamed_eq_some (h : Timeline trace k s left)
    (hnext : NextFetchable trace left insn) {a : Fin MAX_INPUT_REGS} {p : Nat} :
    renamedQ trace s insn a = some p ↔ ∃ reg, (getInstr trace insn).rIn a = some reg ∧
      producer trace insn reg = some p ∧ Pending k s p := by
  have hfree : (s.table insn).Q a = none := Option.eq_none_iff_forall_ne_some.mpr fun p hp =>
    ((h.depends.waits insn a p).mp hp).1 (h.in_order.not_issued hnext)
  rw [renamedQ]
  cases hin : (getInstr trace insn).rIn a with
  | none => simp [hfree]
  | some reg =>
      have hmap := h.producer_of_next hnext reg p
      cases hreg : s.mapTable reg with
      | none => simpa [hreg, hfree] using hmap
      | some producer => simpa [hreg] using hmap

/-- What takes a station waits for the last writers of its inputs. -/
theorem Timeline.depends_of_takes_station (h : Timeline trace ⟨t + 1, t + 1, t + 1, t, t⟩ s left)
    (hnext : NextFetchable trace left insn) (hspec : TakesStation trace (t + 1) s s' u insn) :
    Depends trace ⟨t + 1, t + 1, t + 1, t + 1, t⟩ s' insn := by
  have hnew := h.in_order.not_issued hnext
  have hcdb := h.stamped.not_on_cdb (h.stamped.not_executed hnew)
  have hpending : ∀ p, Pending ⟨t + 1, t + 1, t + 1, t + 1, t⟩ s' p ↔
      Pending ⟨t + 1, t + 1, t + 1, t, t⟩ s p := pending_congr hspec.cdb rfl
  refine ⟨fun reg p => ?_, fun j a p => ?_, fun j a reg p => ?_⟩
  · rw [hspec.map, hpending, producer_succ (hspec.enters hnext)]
    split
    · constructor
      · rintro heq
        cases heq
        exact ⟨rfl, Or.inl hcdb⟩
      · exact And.left
    · exact h.producer_of_next hnext reg p
  · rw [column_ne_zero hspec.issue, hspec.table]
    simp only [hpending]
    by_cases hj : j = insn
    · subst hj
      rw [if_pos rfl]
      exact (h.renamed_eq_some hnext).trans ⟨fun h => ⟨Or.inl rfl, h⟩, And.right⟩
    · rw [if_neg hj, h.depends.waits]
      simp [hj]
  · rw [hspec.execute, hspec.cdb]
    exact h.depends.after j a reg p

/-- An instruction that takes a station notes the producers of its inputs, and is the producer of
its outputs from then on. -/
theorem Timeline.takes_station (h : Timeline trace ⟨t + 1, t + 1, t + 1, t, t⟩ s left)
    (hqueue : s.instrQueue.Holds (insn :: rest)) (hrest : s'.instrQueue.Holds rest)
    (hspec : TakesStation trace (t + 1) s s' u insn) :
    Timeline trace ⟨t + 1, t + 1, t + 1, t + 1, t⟩ s' insn ∧
      ∀ j, Recorded (t + 1) (s.table j) (s'.table j) := by
  have hnext := (h.in_order.next_fetchable hqueue).1
  refine ⟨⟨h.in_order_of_takes_station hqueue hrest hspec, h.stamped_of_takes_station hnext hspec,
    h.occupied_of_takes_station hnext hspec, h.depends_of_takes_station hnext hspec⟩, fun j => ?_⟩
  refine ⟨Or.inl (hspec.dispatch j), ?_, Or.inl (hspec.execute j), Or.inl (hspec.cdb j)⟩
  refine column_recorded hspec.issue (fun i hi => ?_) j
  rw [hi]
  exact h.in_order.not_issued hnext

end TakesStation

/-- The call that issues keeps the timeline. -/
theorem Timeline.issue (h : Timeline trace ⟨t + 1, t + 1, t + 1, t, t⟩ s left) :
    ∃ s' left', dispatchToIssue trace (t + 1) s = some s' ∧ left ≤ left' ∧
      Timeline trace ⟨t + 1, t + 1, t + 1, t + 1, t⟩ s' left' ∧
      ∀ j, Recorded (t + 1) (s.table j) (s'.table j) := by
  obtain ⟨l, hqueue, -, hmem⟩ := h.in_order.queue
  have hstay : Timeline trace ⟨t + 1, t + 1, t + 1, t + 1, t⟩ s left :=
    h.idle rfl rfl le_rfl (Nat.le_succ t) le_rfl
  rcases @dispatchToIssue_spec trace (t + 1) s l hqueue fun j hj => ((hmem j).mp hj).1.2.2 with
    ⟨-, heq⟩ | ⟨insn, rest, rfl, ⟨hbranch, queue, hrest, heq⟩ | ⟨u, -, -, heq⟩ |
      ⟨u, s', hspec, hrest, heq⟩⟩
  · exact ⟨s, left, heq, le_rfl, hstay, fun j => .refl (t + 1) _⟩
  · exact ⟨_, insn, heq, (h.in_order.next_fetchable hqueue).1.lt.le,
      h.branch hqueue hrest hbranch, fun j => .refl (t + 1) _⟩
  · exact ⟨s, left, heq, le_rfl, hstay, fun j => .refl (t + 1) _⟩
  · exact ⟨s', insn, heq, (h.in_order.next_fetchable hqueue).1.lt.le,
      h.takes_station hqueue hrest hspec⟩

/-! ## Fetch to dispatch -/

/-- With nothing left to fetch the index goes beyond the trace. -/
theorem Timeline.fetch_none (h : Timeline trace ⟨t + 1, t + 1, t + 1, t + 1, t⟩ s left)
    {index : Nat} (hlt : s.fetchIndex < index)
    (hnone : ∀ j, s.fetchIndex < j → ¬ Fetchable trace j) :
    Timeline trace ⟨t + 1, t + 1, t + 1, t + 1, t + 1⟩ { s with fetchIndex := index } left := by
  have hfetch : ∀ j, Fetchable trace j → (j ≤ index ↔ j ≤ s.fetchIndex) := by
    intro j hj
    refine ⟨fun _ => ?_, fun hle => hle.trans hlt.le⟩
    by_contra hle
    exact hnone j (not_le.mp hle) hj
  obtain ⟨l, hqueue, hsorted, hmem⟩ := h.in_order.queue
  have hidle : Timeline trace ⟨t + 1, t + 1, t + 1, t + 1, t + 1⟩ s left :=
    h.idle rfl rfl le_rfl le_rfl (Nat.le_succ t)
  refine ⟨⟨⟨l, hqueue, hsorted, fun j => ?_⟩, h.in_order.left_le.trans hlt.le, fun j => ?_,
    h.in_order.issued⟩, { hidle.stamped with }, ?_, { hidle.depends with }⟩
  · refine (hmem j).trans (and_congr_right fun hj => and_congr_right fun _ => ?_)
    exact (hfetch j hj).symm
  · exact (h.in_order.dispatched j).trans (and_congr_right fun hj => (hfetch j hj).symm)
  · exact hidle.occupied.congr (fun _ => rfl) (fun _ => rfl) (fun _ => rfl)
      (fun u => by cases u <;> rfl) (fun u => by cases u <;> rfl) rfl rfl rfl

section Fetches

variable {l : List Nat} {insn : Nat}

/-- What was dispatched is before the instruction fetched. -/
theorem InOrder.lt_of_dispatched (h : InOrder trace s left)
    (hnext : NextFetchable trace s.fetchIndex insn) {j : Nat}
    (hdispatched : (s.table j).tomDispatchCycle ≠ 0) : j < insn :=
  ((h.dispatched j).mp hdispatched).2.trans_lt hnext.lt

/-- Nothing is fetched between the last instruction and the next one. -/
theorem NextFetchable.le_iff {index j : Nat} (h : NextFetchable trace index insn)
    (hj : Fetchable trace j) : j ≤ insn ↔ j = insn ∨ j ≤ index := by
  constructor
  · intro hle
    rcases Nat.lt_or_eq_of_le hle with hlt | heq
    · exact Or.inr (not_lt.mp fun hlt' => h.least j hlt' hlt hj)
    · exact Or.inl heq
  · rintro (rfl | hle)
    · exact le_rfl
    · exact hle.trans h.lt.le

/-- What is fetched is the next one in the queue. -/
theorem Timeline.in_order_of_fetches (h : Timeline trace ⟨t + 1, t + 1, t + 1, t + 1, t⟩ s left)
    (hl : s.instrQueue.Holds l) (hnext : NextFetchable trace s.fetchIndex insn)
    (hspec : Fetches (t + 1) s s' l insn) : InOrder trace s' left := by
  obtain ⟨l', hl', hsorted, hmem⟩ := h.in_order.queue
  obtain rfl := hl'.unique hl
  have hleft := h.in_order.left_le.trans_lt hnext.lt
  refine ⟨⟨l' ++ [insn], hspec.queue, ?_, fun j => ?_⟩, ?_, fun j => ?_, fun j => ?_⟩
  · refine List.pairwise_append.mpr ⟨hsorted, List.pairwise_singleton _ _, fun j hj i hi => ?_⟩
    rw [List.mem_singleton.mp hi]
    exact ((hmem j).mp hj).2.2.trans_lt hnext.lt
  · rw [hspec.fetch, List.mem_append, List.mem_singleton, hmem]
    constructor
    · rintro (⟨hj, hlt, hle⟩ | rfl)
      · exact ⟨hj, hlt, hle.trans hnext.lt.le⟩
      · exact ⟨hnext.fetchable, hleft, le_rfl⟩
    · rintro ⟨hj, hlt, hle⟩
      exact ((hnext.le_iff hj).mp hle).symm.imp_left fun hle => ⟨hj, hlt, hle⟩
  · rw [hspec.fetch]
    exact hleft.le
  · rw [hspec.fetch, column_ne_zero hspec.dispatch, h.in_order.dispatched]
    constructor
    · rintro (rfl | ⟨hj, hle⟩)
      · exact ⟨hnext.fetchable, le_rfl⟩
      · exact ⟨hj, hle.trans hnext.lt.le⟩
    · rintro ⟨hj, hle⟩
      exact ((hnext.le_iff hj).mp hle).imp_right fun hle => ⟨hj, hle⟩
  · rw [hspec.issue]
    exact h.in_order.issued j

/-- The cycle of the dispatch is stamped. -/
theorem Timeline.stamped_of_fetches (h : Timeline trace ⟨t + 1, t + 1, t + 1, t + 1, t⟩ s left)
    (hnext : NextFetchable trace s.fetchIndex insn) (hspec : Fetches (t + 1) s s' l insn) :
    Stamped trace ⟨t + 1, t + 1, t + 1, t + 1, t + 1⟩ s' := by
  have hstamped := h.stamped
  constructor
  · exact column_le hspec.dispatch hstamped.dispatch_le
  · simpa only [hspec.issue] using hstamped.issue_le
  · simpa only [hspec.execute] using hstamped.execute_le
  · simpa only [hspec.cdb] using hstamped.cdb_le
  · intro j
    rw [hspec.issue]
    intro hne
    have hle := ((h.in_order.issued j).mp hne).2.trans h.in_order.left_le
    rw [hspec.dispatch, if_neg (hle.trans_lt hnext.lt).ne]
    exact hstamped.dispatch_lt_issue j hne
  · simpa only [hspec.issue, hspec.execute] using hstamped.issue_lt_execute
  · simpa only [hspec.execute, hspec.cdb] using hstamped.execute_add_latency_le
  · exact column_strict hspec.dispatch hstamped.dispatch_le
      (fun _ => h.in_order.lt_of_dispatched hnext) hstamped.dispatch_strict
  · simpa only [hspec.issue] using hstamped.issue_strict
  · simpa only [hspec.cdb] using hstamped.cdb_injective

/-- The instruction fetched is queued and stamped. -/
theorem Timeline.fetch_some (h : Timeline trace ⟨t + 1, t + 1, t + 1, t + 1, t⟩ s left)
    (hl : s.instrQueue.Holds l) (hnext : NextFetchable trace s.fetchIndex insn)
    (hspec : Fetches (t + 1) s s' l insn) :
    Timeline trace ⟨t + 1, t + 1, t + 1, t + 1, t + 1⟩ s' left ∧
      ∀ j, Recorded (t + 1) (s.table j) (s'.table j) := by
  refine ⟨⟨h.in_order_of_fetches hl hnext hspec, h.stamped_of_fetches hnext hspec, ?_, ?_⟩,
    fun j => ?_⟩
  · exact h.occupied.congr hspec.issue hspec.execute hspec.cdb hspec.reserv hspec.fu hspec.bus
      rfl rfl
  · exact h.depends.congr hspec.issue hspec.execute hspec.cdb hspec.dependence hspec.map rfl
  · refine ⟨column_recorded hspec.dispatch (fun i hi => ?_) j, Or.inl (hspec.issue j),
      Or.inl (hspec.execute j), Or.inl (hspec.cdb j)⟩
    by_contra hne
    exact (h.in_order.lt_of_dispatched hnext hne).ne hi

end Fetches

/-- What fetch to dispatch does, when the front end is in order. -/
theorem InOrder.fetch_cases (h : InOrder trace s left) (cycle : Nat) {l : List Nat}
    (hqueue : s.instrQueue.Holds l) :
    (l.length = INSTR_QUEUE_SIZE ∧ fetchToDispatch trace cycle s = some s) ∨
    (l.length < INSTR_QUEUE_SIZE ∧ ∃ index, s.fetchIndex < index ∧ trace.length < index ∧
      (∀ j, s.fetchIndex < j → ¬ Fetchable trace j) ∧
      fetchToDispatch trace cycle s = some { s with fetchIndex := index }) ∨
    ∃ insn queue, NextFetchable trace s.fetchIndex insn ∧ queue.Holds (l ++ [insn]) ∧
      fetchToDispatch trace cycle s = some { s with
        instrQueue := queue, fetchIndex := insn
        table := Function.update s.table insn
          { s.table insn with tomDispatchCycle := cycle } } := by
  obtain ⟨l', hl', -, hmem⟩ := h.queue
  obtain rfl := hl'.unique hqueue
  refine fetchToDispatch_spec hqueue (fun j hj => ?_) fun j hj => ?_
  · exact (h.dispatched j).mpr ⟨((hmem j).mp hj).1, ((hmem j).mp hj).2.2⟩
  · by_contra hne
    exact absurd ((h.dispatched j).mp hne).2 (not_le.mpr hj)

/-- The call that fetches keeps the timeline. -/
theorem Timeline.fetch (h : Timeline trace ⟨t + 1, t + 1, t + 1, t + 1, t⟩ s left) :
    ∃ s', fetchToDispatch trace (t + 1) s = some s' ∧
      Timeline trace ⟨t + 1, t + 1, t + 1, t + 1, t + 1⟩ s' left ∧
      ∀ j, Recorded (t + 1) (s.table j) (s'.table j) := by
  obtain ⟨l, hqueue, -⟩ := h.in_order.queue
  rcases h.in_order.fetch_cases (t + 1) hqueue with
    ⟨-, heq⟩ | ⟨-, index, hlt, -, hnone, heq⟩ | ⟨insn, queue, hnext, hqueue', heq⟩
  · exact ⟨s, heq, h.idle rfl rfl le_rfl le_rfl (Nat.le_succ t), fun j => .refl (t + 1) _⟩
  · exact ⟨_, heq, h.fetch_none hlt hnone, fun j => .refl (t + 1) _⟩
  · exact ⟨_, heq, h.fetch_some hqueue hnext (fetches hqueue')⟩

/-! ## Runs -/

/-- Every call but the return can be made, and keeps the timeline and the recorded cycles. -/
theorem Timeline.step {m : Machine} (h : Timeline trace m.clock m.sim left) (hcycle : 0 < m.cycle)
    (hstage : m.stage ≠ .returned) :
    ∃ m' left', step trace m = some m' ∧ left ≤ left' ∧ m.cycle ≤ m'.cycle ∧
      Timeline trace m'.clock m'.sim left' ∧
      ∀ j, Recorded m.cycle (m.sim.table j) (m'.sim.table j) := by
  obtain ⟨s, cycle, stage⟩ := m
  obtain ⟨t, rfl⟩ := Nat.exists_eq_succ_of_ne_zero hcycle.ne'
  cases stage with
  | cdbToRetire =>
      obtain ⟨hnext, hrecorded⟩ := h.retire
      exact ⟨_, left, rfl, le_rfl, le_rfl, hnext, hrecorded⟩
  | executeToCdb =>
      obtain ⟨s', heq, hnext, hrecorded⟩ := h.complete
      refine ⟨⟨s', t + 1, .issueToExecute⟩, left, ?_, le_rfl, le_rfl, hnext, hrecorded⟩
      simp [Tomasulo.step, heq]
  | issueToExecute =>
      obtain ⟨hnext, hrecorded⟩ := h.execute
      exact ⟨_, left, rfl, le_rfl, le_rfl, hnext, hrecorded⟩
  | dispatchToIssue =>
      obtain ⟨s', left', heq, hle, hnext, hrecorded⟩ := h.issue
      refine ⟨⟨s', t + 1, .fetchToDispatch⟩, left', ?_, hle, le_rfl, hnext, hrecorded⟩
      simp [Tomasulo.step, heq]
  | fetchToDispatch =>
      obtain ⟨s', heq, hnext, hrecorded⟩ := h.fetch
      refine ⟨⟨s', t + 2, if isSimulationDone trace.length s' then .returned else .cdbToRetire⟩,
        left, ?_, le_rfl, Nat.le_succ _, ?_, hrecorded⟩
      · simp [Tomasulo.step, heq]
      · rw [Machine.clock]
        split <;> split <;> first | exact hnext | simp_all
  | returned => exact absurd rfl hstage

/-- Between any two calls of a run there is a timeline. -/
theorem timeline_of_run {m : Machine} (h : (runTomasulo trace).Reachable m) :
    0 < m.cycle ∧ ∃ left, Timeline trace m.clock m.sim left := by
  refine TransitionSystem.Run.invariant
    (I := fun m => 0 < m.cycle ∧ ∃ left, Timeline trace m.clock m.sim left) ?_ ?_ h
  · rintro m rfl
    exact ⟨Nat.one_pos, 0, timeline_initial⟩
  · rintro m _ m' - ⟨hcycle, left, htimeline⟩ - hnext
    have hstage : m.stage ≠ .returned := by
      intro hreturned
      simp [runTomasulo, step, hreturned] at hnext
    obtain ⟨m'', left', heq, -, hle, htimeline', -⟩ := htimeline.step hcycle hstage
    obtain rfl := Option.some.inj (heq.symm.trans hnext)
    exact ⟨Nat.lt_of_lt_of_le hcycle hle, left', htimeline'⟩

end Ece552.Tomasulo
