import Ece552.Tomasulo.Timeline

/-!
# Stage cycles and true dependences

What the timeline says of the recorded cycles, at any point of any run: their order within an
instruction and in the program, and that an instruction waits for exactly the producers of its
inputs whose results are not broadcast.
-/

namespace Ece552.Tomasulo

open Library

variable {trace : Trace} {m m' : Machine}

/-! ## Runs of a number of calls -/

theorem reachable_of_run {m₀ : Machine} (h : (runTomasulo trace).Reachable m₀) {calls : Nat}
    (hrun : run trace calls m₀ = some m) : (runTomasulo trace).Reachable m := by
  induction calls generalizing m₀ with
  | zero =>
      obtain rfl := Option.some.inj hrun
      exact h
  | succ calls ih =>
      rw [run, Option.bind_eq_some_iff] at hrun
      obtain ⟨m₁, hstep, hrest⟩ := hrun
      exact ih (.step (l := ()) h trivial hstep) hrest

/-- The state after a number of calls is reachable. -/
theorem reachable_get {calls : Nat} (h : (run trace calls .initial).isSome = true) :
    (runTomasulo trace).Reachable ((run trace calls .initial).get h) :=
  reachable_of_run (.init rfl) (Option.some_get h).symm

/-- What a call can do. -/
theorem step_cases (h : step trace m = some m') :
    (m.stage = .cdbToRetire ∧ m' = ⟨cdbToRetire m.sim, m.cycle, .executeToCdb⟩) ∨
    (m.stage = .executeToCdb ∧ ∃ sim, executeToCdb trace m.cycle m.sim = some sim ∧
      m' = ⟨sim, m.cycle, .issueToExecute⟩) ∨
    (m.stage = .issueToExecute ∧ m' = ⟨issueToExecute m.cycle m.sim, m.cycle, .dispatchToIssue⟩) ∨
    (m.stage = .dispatchToIssue ∧ ∃ sim, dispatchToIssue trace m.cycle m.sim = some sim ∧
      m' = ⟨sim, m.cycle, .fetchToDispatch⟩) ∨
    (m.stage = .fetchToDispatch ∧ ∃ sim, fetchToDispatch trace m.cycle m.sim = some sim ∧
      m' = ⟨sim, m.cycle + 1,
        if isSimulationDone trace.length sim then .returned else .cdbToRetire⟩) := by
  rw [step] at h
  cases hstage : m.stage <;> rw [hstage] at h
  · exact Or.inl ⟨rfl, (Option.some.inj h).symm⟩
  · obtain ⟨sim, hsim, rfl⟩ := Option.map_eq_some_iff.mp h
    exact Or.inr (Or.inl ⟨rfl, sim, hsim, rfl⟩)
  · exact Or.inr (Or.inr (Or.inl ⟨rfl, (Option.some.inj h).symm⟩))
  · obtain ⟨sim, hsim, rfl⟩ := Option.map_eq_some_iff.mp h
    exact Or.inr (Or.inr (Or.inr (Or.inl ⟨rfl, sim, hsim, rfl⟩)))
  · obtain ⟨sim, hsim, rfl⟩ := Option.map_eq_some_iff.mp h
    exact Or.inr (Or.inr (Or.inr (Or.inr ⟨rfl, sim, hsim, rfl⟩)))
  · cases h

/-- No clock goes beyond the current cycle. -/
theorem complete_le_of_step (h : step trace m = some m') : m'.clock.complete ≤ m.cycle := by
  obtain ⟨-, rfl⟩ | ⟨-, sim, -, rfl⟩ | ⟨-, rfl⟩ | ⟨-, sim, -, rfl⟩ | ⟨-, sim, -, rfl⟩ :=
    step_cases h
  · exact Nat.sub_le _ _
  · exact le_rfl
  · exact le_rfl
  · exact le_rfl
  · by_cases hdone : isSimulationDone trace.length sim = true <;> simp [Machine.clock, hdone]

/-- A call from a reachable state records cycles once. -/
theorem recorded_of_step (h : (runTomasulo trace).Reachable m) (hstep : step trace m = some m')
    (j : Nat) : Recorded m.cycle (m.sim.table j) (m'.sim.table j) := by
  obtain ⟨hcycle, left, htimeline⟩ := timeline_of_run h
  have hstage : m.stage ≠ .returned := by
    intro hreturned
    simp [step, hreturned] at hstep
  obtain ⟨m'', -, heq, -, -, -, hrecorded⟩ := htimeline.step hcycle hstage
  obtain rfl := Option.some.inj (heq.symm.trans hstep)
  exact hrecorded j

/-- Wherever a run calls execution to the common data bus, the bus is free. -/
theorem executes_of_reachable (h : (runTomasulo trace).Reachable m)
    (hstage : m.stage = .executeToCdb) :
    ∃ s' chosen, executeToCdb trace m.cycle m.sim = some s' ∧
      Executes trace m.cycle m.sim s' chosen := by
  obtain ⟨s, cycle, stage⟩ := m
  obtain rfl : stage = .executeToCdb := hstage
  obtain ⟨hcycle, left, htimeline⟩ := timeline_of_run h
  obtain ⟨t, rfl⟩ := Nat.exists_eq_succ_of_ne_zero hcycle.ne'
  exact @executeToCdb_spec trace (t + 1) s htimeline.occupied.distinct htimeline.bus_free
    fun u insn hu => ((htimeline.occupied.fu u insn).mp hu).2

/-- A recorded cycle is not overwritten. -/
structure Kept (p p' : Progress) : Prop where
  dispatch : p.tomDispatchCycle ≠ 0 → p'.tomDispatchCycle = p.tomDispatchCycle
  issue : p.tomIssueCycle ≠ 0 → p'.tomIssueCycle = p.tomIssueCycle
  execute : p.tomExecuteCycle ≠ 0 → p'.tomExecuteCycle = p.tomExecuteCycle
  cdb : p.tomCdbCycle ≠ 0 → p'.tomCdbCycle = p.tomCdbCycle

theorem Recorded.kept {cycle : Nat} {p p' : Progress} (h : Recorded cycle p p') : Kept p p' :=
  ⟨fun hne => h.dispatch.resolve_right fun h => hne h.1,
    fun hne => h.issue.resolve_right fun h => hne h.1,
    fun hne => h.execute.resolve_right fun h => hne h.1,
    fun hne => h.cdb.resolve_right fun h => hne h.1⟩

/-! ## The order of the stage cycles -/

theorem InOrder.dispatched_of_issued {s : Sim} {left : Nat} (h : InOrder trace s left) {j : Nat}
    (hissue : (s.table j).tomIssueCycle ≠ 0) : (s.table j).tomDispatchCycle ≠ 0 := by
  obtain ⟨henters, hle⟩ := (h.issued j).mp hissue
  exact (h.dispatched j).mpr ⟨henters.1, hle.trans h.left_le⟩

/-- A function that is strictly increasing where it is not zero takes a value once only. -/
theorem injective_of_strict {f : Nat → Nat}
    (hstrict : ∀ a b, f a ≠ 0 → f b ≠ 0 → a < b → f a < f b) {a b : Nat} (ha : f a ≠ 0)
    (hab : f a = f b) : a = b := by
  rcases Nat.lt_trichotomy a b with hlt | heq | hlt
  · exact absurd hab (hstrict a b ha (hab ▸ ha) hlt).ne
  · exact heq
  · exact absurd hab (hstrict b a (hab ▸ ha) ha hlt).ne'

/-- In every state of a run, each instruction goes through the stages in order and for as long as
its unit takes, dispatch and issue follow the program, no two instructions share a dispatch, issue
or bus cycle, and the next call keeps what is recorded. -/
theorem pipeline_timing (h : (runTomasulo trace).Reachable m) :
    (∀ j, (m.sim.table j).tomIssueCycle ≠ 0 → 0 < (m.sim.table j).tomDispatchCycle ∧
      (m.sim.table j).tomDispatchCycle < (m.sim.table j).tomIssueCycle) ∧
    (∀ j, (m.sim.table j).tomExecuteCycle ≠ 0 → 0 < (m.sim.table j).tomIssueCycle ∧
      (m.sim.table j).tomIssueCycle < (m.sim.table j).tomExecuteCycle) ∧
    (∀ j, (m.sim.table j).tomCdbCycle ≠ 0 → 0 < (m.sim.table j).tomExecuteCycle ∧
      (m.sim.table j).tomExecuteCycle + latency (opAt trace j) ≤ (m.sim.table j).tomCdbCycle) ∧
    (∀ a b, a ≠ b →
      ((m.sim.table a).tomDispatchCycle ≠ 0 →
        (m.sim.table a).tomDispatchCycle ≠ (m.sim.table b).tomDispatchCycle) ∧
      ((m.sim.table a).tomIssueCycle ≠ 0 →
        (m.sim.table a).tomIssueCycle ≠ (m.sim.table b).tomIssueCycle) ∧
      ((m.sim.table a).tomCdbCycle ≠ 0 →
        (m.sim.table a).tomCdbCycle ≠ (m.sim.table b).tomCdbCycle)) ∧
    (∀ a b, a < b →
      ((m.sim.table a).tomDispatchCycle ≠ 0 → (m.sim.table b).tomDispatchCycle ≠ 0 →
        (m.sim.table a).tomDispatchCycle < (m.sim.table b).tomDispatchCycle) ∧
      ((m.sim.table a).tomIssueCycle ≠ 0 → (m.sim.table b).tomIssueCycle ≠ 0 →
        (m.sim.table a).tomIssueCycle < (m.sim.table b).tomIssueCycle)) ∧
    ∀ m', step trace m = some m' → ∀ j, Kept (m.sim.table j) (m'.sim.table j) := by
  obtain ⟨-, left, htimeline⟩ := timeline_of_run h
  have hstamped := htimeline.stamped
  refine ⟨fun j hne => ⟨?_, hstamped.dispatch_lt_issue j hne⟩, fun j hne => ?_, fun j hne => ?_,
    fun a b hab => ⟨fun hne heq => ?_, fun hne heq => ?_, fun hne heq => ?_⟩,
    fun a b hab => ⟨fun ha hb => ?_, fun ha hb => ?_⟩, fun m' hstep j => ?_⟩
  · exact Nat.pos_of_ne_zero (htimeline.in_order.dispatched_of_issued hne)
  · obtain ⟨hissue, hlt⟩ := hstamped.issue_lt_execute j hne
    exact ⟨Nat.pos_of_ne_zero hissue, hlt⟩
  · obtain ⟨hexecute, -, hle⟩ := hstamped.execute_add_latency_le j hne
    exact ⟨Nat.pos_of_ne_zero hexecute, hle⟩
  · exact hab (injective_of_strict hstamped.dispatch_strict hne heq)
  · exact hab (injective_of_strict hstamped.issue_strict hne heq)
  · exact hab (hstamped.cdb_injective a b hne heq)
  · exact hstamped.dispatch_strict a b ha hb hab
  · exact hstamped.issue_strict a b ha hb hab
  · exact (recorded_of_step h hstep j).kept

set_option maxRecDepth 20000 in
/-- After 40 calls the addition is in its unit and the store waits for it. -/
theorem pipeline_timing_load_add_store :
    (((run loadAddStore 40 .initial).get (by decide +kernel)).sim.table 2).tomIssueCycle <
      (((run loadAddStore 40 .initial).get (by decide +kernel)).sim.table 2).tomExecuteCycle :=
  ((pipeline_timing (reachable_get (by decide +kernel))).2.1 2 (by decide +kernel)).2

/-! ## True dependences -/

/-- At the end of every cycle an instruction that took a station waits for the last instruction
before it that takes a station and writes the input, as long as that was not on the bus in an
earlier cycle. It is executed after the producers were on the bus. At no point of a run does a `Q`
entry or the map table point to an instruction that has retired. -/
theorem true_dependences (h : (runTomasulo trace).Reachable m) :
    (m.stage = .cdbToRetire ∨ m.stage = .returned →
      ∀ j k reg, (m.sim.table j).tomIssueCycle ≠ 0 → (getInstr trace j).rIn k = some reg →
        (m.sim.table j).Q k = (producer trace j reg).filter fun p =>
          decide (¬ ((m.sim.table p).tomCdbCycle ≠ 0 ∧
            (m.sim.table p).tomCdbCycle < m.cycle - 1))) ∧
    (∀ j k reg p, (m.sim.table j).tomExecuteCycle ≠ 0 → (getInstr trace j).rIn k = some reg →
      producer trace j reg = some p → (m.sim.table p).tomCdbCycle ≠ 0 ∧
        (m.sim.table p).tomCdbCycle < (m.sim.table j).tomExecuteCycle) ∧
    (∀ j k p, (m.sim.table j).Q k = some p →
      ¬ ((m.sim.table p).tomCdbCycle ≠ 0 ∧ (m.sim.table p).tomCdbCycle < m.clock.retire)) ∧
    ∀ reg p, m.sim.mapTable reg = some p →
      ¬ ((m.sim.table p).tomCdbCycle ≠ 0 ∧ (m.sim.table p).tomCdbCycle < m.clock.retire) := by
  obtain ⟨-, left, htimeline⟩ := timeline_of_run h
  have hdepends := htimeline.depends
  have hpending : ∀ p, Pending m.clock m.sim p ↔
      ¬ ((m.sim.table p).tomCdbCycle ≠ 0 ∧ (m.sim.table p).tomCdbCycle < m.clock.retire) := by
    intro p
    rw [Pending]
    omega
  refine ⟨fun hstage j k reg hissue hin => Option.ext fun p => ?_, hdepends.after,
    fun j k p hq => ?_, fun reg p hmap => ?_⟩
  · have hretire : m.clock.retire = m.cycle - 1 := by
      rw [Machine.clock]
      rcases hstage with hstage | hstage <;> rw [hstage]
    rw [Option.filter_eq_some_iff, decide_eq_true_eq, ← hretire, ← hpending]
    refine (hdepends.waits j k p).trans ⟨?_, fun hwaits => ?_⟩
    · rintro ⟨-, reg', hin', hprod, hwait⟩
      obtain rfl := Option.some.inj (hin.symm.trans hin')
      exact ⟨hprod, hwait⟩
    · exact ⟨hissue, reg, hin, hwaits⟩
  · obtain ⟨-, -, -, -, hwait⟩ := (hdepends.waits j k p).mp hq
    exact (hpending p).mp hwait
  · exact (hpending p).mp ((hdepends.map reg p).mp hmap).2

set_option maxRecDepth 20000 in
/-- After 6 cycles the addition waits for the load with both inputs. -/
theorem true_dependences_load_add_store :
    (((run loadAddStore 30 .initial).get (by decide +kernel)).sim.table 2).Q 1 =
      (producer loadAddStore 2 2).filter fun p => decide (¬
        ((((run loadAddStore 30 .initial).get (by decide +kernel)).sim.table p).tomCdbCycle ≠ 0 ∧
          (((run loadAddStore 30 .initial).get (by decide +kernel)).sim.table p).tomCdbCycle <
            ((run loadAddStore 30 .initial).get (by decide +kernel)).cycle - 1)) :=
  (true_dependences (reachable_get (by decide +kernel))).1 (by decide +kernel) 2 1 2
    (by decide +kernel) (by decide +kernel)

end Ece552.Tomasulo
