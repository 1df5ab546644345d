import Ece552.Tomasulo.Completion

/-!
# Arbitration for the common data bus

Execution to the common data bus finds the bus free, since retirement has just cleared it. Of the
instructions whose latency has elapsed, it lets go of the stores, which have nothing to broadcast,
and puts the oldest other one on the bus. The rest competes again in the next cycle. As the loop
ends with all units empty, each of them goes on the bus in the end.
-/

namespace Ece552.Tomasulo

open Library

variable {trace : Trace} {m m' m₁ m₂ : Machine} {s s' : Sim} {cycle : Nat} {j : Nat}

/-- The instruction has been in its unit for as long as the unit takes. -/
def Elapsed (trace : Trace) (cycle : Nat) (s : Sim) (j : Nat) : Prop :=
  (s.table j).tomExecuteCycle + latency (opAt trace j) ≤ cycle

/-- The instruction in a unit has a result for the bus. -/
def Competes (trace : Trace) (cycle : Nat) (s : Sim) (j : Nat) : Prop :=
  (∃ u, (s.fu u).Has j) ∧ isStore (opAt trace j) = false ∧ Elapsed trace cycle s j

/-- The oldest of the instructions that compete. -/
def Wins (trace : Trace) (cycle : Nat) (s : Sim) (j : Nat) : Prop :=
  Competes trace cycle s j ∧ ∀ i, Competes trace cycle s i → j ≤ i

/-- What execution to the common data bus does in a cycle. -/
structure Arbitrates (trace : Trace) (cycle : Nat) (s s' : Sim) : Prop where
  free : s.commonDataBus = none
  bus : ∀ j, s'.commonDataBus = some j ↔ Wins trace cycle s j
  idle : s'.commonDataBus = none ↔ ∀ j, ¬ Competes trace cycle s j
  /-- a store whose latency has elapsed leaves, and so does the winner -/
  fu : ∀ u j, (s'.fu u).Has j ↔ (s.fu u).Has j ∧
    ¬ (isStore (opAt trace j) = true ∧ Elapsed trace cycle s j) ∧ s'.commonDataBus ≠ some j
  reserv : ∀ u j, (s'.reserv u).Has j ↔ (s.reserv u).Has j ∧
    ¬ ((s.fu u).Has j ∧ isStore (opAt trace j) = true ∧ Elapsed trace cycle s j) ∧
    s'.commonDataBus ≠ some j

/-- From here on the instruction keeps its unit and its station, until it wins in a later cycle. -/
def KeepsUntilWins (trace : Trace) (m : Machine) (u : FuClass) (j : Nat) : Prop :=
  ∃ calls m₁ m₂, run trace calls m = some m₁ ∧ m₁.stage = .executeToCdb ∧
    step trace m₁ = some m₂ ∧ m₂.sim.commonDataBus = some j ∧ Wins trace m₁.cycle m₁.sim j ∧
    ∀ i ≤ calls, ∀ m₀, run trace i m = some m₀ → (m₀.sim.fu u).Has j ∧ (m₀.sim.reserv u).Has j

/-! ## One call -/

/-- The instruction that is put on the bus is not younger than any that is ready. -/
theorem oldestToCdb_le (hfree : s.commonDataBus = none)
    (hexecuted : ∀ u insn, (s.fu u).Has insn → (s.table insn).tomExecuteCycle ≠ 0)
    (h : s.oldestToCdb trace cycle = some s') {chosen : Nat}
    (hbus : s'.commonDataBus = some chosen) {u : FuClass} (hj : (s.fu u).Has j)
    (hready : Elapsed trace cycle s j) : chosen ≤ j := by
  have hINT := @getOldestReadyForCdb_eq trace cycle _ s.table s.fuINT (hexecuted .INT)
  have hFP := @getOldestReadyForCdb_eq trace cycle _ s.table s.fuFP (hexecuted .FP)
  rw [Elapsed] at hready
  rw [Sim.oldestToCdb, hINT, hFP] at h
  simp only [Option.bind_eq_bind, Option.bind_some] at h
  split at h
  · obtain rfl := Option.some.inj h
    cases hfree.symm.trans hbus
  · next insn holdest =>
      obtain rfl : insn = chosen := by
        rw [← Option.some.inj h] at hbus
        exact Option.some.inj hbus
      -- the oldest of a class is not younger than the instruction, nor is the older of the two
      have hclass : ∀ {n : Nat} (insns : SlotArray n Nat), insns.Has j →
          (∀ oldest, insns.oldest (fun insn => decide ((s.table insn).tomExecuteCycle +
            latency (opAt trace insn) ≤ cycle)) = some oldest → insn ≤ oldest) → insn ≤ j := by
        intro n insns hin hle
        cases holdest : insns.oldest (fun insn => decide ((s.table insn).tomExecuteCycle +
            latency (opAt trace insn) ≤ cycle)) with
        | none =>
            have hnot := SlotArray.not_ready_of_oldest holdest hin
            exact absurd hready (of_decide_eq_false hnot)
        | some oldest =>
            exact (hle oldest holdest).trans
              (SlotArray.le_of_oldest holdest hin (decide_eq_true hready))
      cases u with
      | INT => exact hclass s.fuINT hj fun oldest h => SlotArray.le_of_oldest holdest ⟨0, h⟩ rfl
      | FP => exact hclass s.fuFP hj fun oldest h => SlotArray.le_of_oldest holdest ⟨1, h⟩ rfl

/-- For an instruction in a unit, the test of a store is that of the class and the latency. -/
theorem completedStore_iff {k : Clock} (h : Occupied trace k s) {u : FuClass}
    (hj : (s.fu u).Has j) : (u = .INT ∧ completedStore trace cycle s.table j = true) ↔
      isStore (opAt trace j) = true ∧ Elapsed trace cycle s j := by
  have hclass := ((h.reserv u j).mp ((h.fu u j).mp hj).1).1
  rw [completedStore, Bool.and_eq_true, decide_eq_true_iff, Elapsed]
  constructor
  · rintro ⟨-, hstore, hle⟩
    have huses := store_uses_int hstore
    refine ⟨hstore, ?_⟩
    rwa [latency, if_pos (by rw [usesIntFu, hstore, Bool.or_true])]
  · rintro ⟨hstore, hle⟩
    rw [latency, if_pos (by rw [usesIntFu, hstore, Bool.or_true])] at hle
    refine ⟨?_, hstore, hle⟩
    rw [store_uses_int hstore] at hclass
    exact (Option.some.inj hclass).symm

section Call

variable {t left : Nat} {chosen : Option Nat}
variable (h : Timeline trace ⟨t + 1, t, t, t, t⟩ s left)
variable (hspec : Executes trace (t + 1) s s' chosen)

include h hspec

theorem Timeline.fu_of_executes (u : FuClass) (j : Nat) : (s'.fu u).Has j ↔ (s.fu u).Has j ∧
    ¬ (isStore (opAt trace j) = true ∧ Elapsed trace (t + 1) s j) ∧
    s'.commonDataBus ≠ some j := by
  rw [hspec.fu, hspec.bus, and_assoc]
  refine and_congr_right fun hj => and_congr_left fun _ => not_congr ?_
  exact completedStore_iff h.occupied hj

theorem Timeline.reserv_of_executes (u : FuClass) (j : Nat) : (s'.reserv u).Has j ↔
    (s.reserv u).Has j ∧
    ¬ ((s.fu u).Has j ∧ isStore (opAt trace j) = true ∧ Elapsed trace (t + 1) s j) ∧
    s'.commonDataBus ≠ some j := by
  rw [hspec.reserv, hspec.bus, and_assoc]
  refine and_congr_right fun _ => and_congr_left fun _ => not_congr ?_
  constructor
  · rintro ⟨hu, hin, hdone⟩
    exact ⟨hin, (completedStore_iff h.occupied hin).mp ⟨hu, hdone⟩⟩
  · rintro ⟨hin, hboth⟩
    obtain ⟨hu, hdone⟩ := (completedStore_iff h.occupied hin).mpr hboth
    exact ⟨hu, hin, hdone⟩

/-- What is put on the bus is no store, and its latency has elapsed. -/
theorem Timeline.competes_of_bus (hj : s'.commonDataBus = some j) :
    Competes trace (t + 1) s j := by
  rw [hspec.bus] at hj
  obtain ⟨u, ⟨hu, -⟩, hready⟩ := hspec.complete j hj
  exact ⟨⟨u, hu⟩, (Timeline.chosen_of_executes h hspec hj).2.2.1, hready⟩

/-- The bus stays free if and only if nobody has a result. -/
theorem Timeline.idle_of_executes :
    s'.commonDataBus = none ↔ ∀ j, ¬ Competes trace (t + 1) s j := by
  constructor
  · rintro hnone j ⟨⟨u, hu⟩, hstore, hready⟩
    have hin : (s'.fu u).Has j := by
      refine (h.fu_of_executes hspec u j).mpr ⟨hu, fun hboth => ?_, by rw [hnone]; nofun⟩
      rw [hstore] at hboth
      exact nomatch hboth.1
    rw [hspec.bus] at hnone
    exact absurd hready (not_le.mpr (hspec.incomplete hnone u j hin))
  · intro hnone
    exact Option.eq_none_iff_forall_ne_some.mpr fun j hj => hnone j (h.competes_of_bus hspec hj)

omit hspec in
/-- Nobody who competes is older than the one on the bus. -/
theorem Timeline.oldest_on_bus (heq : executeToCdb trace (t + 1) s = some s')
    (hj : s'.commonDataBus = some j) {i : Nat} (hi : Competes trace (t + 1) s i) : j ≤ i := by
  obtain ⟨⟨u, hu⟩, hstore, hready⟩ := hi
  have hexecuted : ∀ u insn, (s.fu u).Has insn → (s.table insn).tomExecuteCycle ≠ 0 :=
    fun u insn hu => ((h.occupied.fu u insn).mp hu).2
  have hbus : s.commonDataBus = none := h.bus_free
  obtain ⟨-, -, hleft⟩ := @Sim.Distinct.remove_stores trace (t + 1) s h.occupied.distinct
  rw [executeToCdb, if_neg (by rw [hbus]; decide)] at heq
  -- it is still in its unit when the oldest is looked for
  have hkept : ((s.removeStores trace (t + 1)).fu u).Has i := by
    refine (hleft u i).mpr ⟨hu, fun hboth => ?_⟩
    have hstore' := ((completedStore_iff h.occupied hu).mp hboth).1
    rw [hstore] at hstore'
    cases hstore'
  exact oldestToCdb_le (s := s.removeStores trace (t + 1)) hbus
    (fun v insn hv => hexecuted v insn ((hleft v insn).mp hv).1) heq hj hkept hready

end Call

/-- Step lemma. -/
theorem arbitrates_of_reachable (h : (runTomasulo trace).Reachable m)
    (hstage : m.stage = .executeToCdb) :
    ∃ s', step trace m = some ⟨s', m.cycle, .issueToExecute⟩ ∧
      Arbitrates trace m.cycle m.sim s' := by
  obtain ⟨s', chosen, heq, hspec⟩ := executes_of_reachable h hstage
  obtain ⟨s, cycle, stage⟩ := m
  obtain rfl : stage = .executeToCdb := hstage
  obtain ⟨hcycle, left, htimeline⟩ := timeline_of_run h
  obtain ⟨t, rfl⟩ := Nat.exists_eq_succ_of_ne_zero hcycle.ne'
  have hidle := Timeline.idle_of_executes htimeline hspec
  have hcompetes := fun j => Timeline.competes_of_bus (j := j) htimeline hspec
  refine ⟨s', ?_, htimeline.bus_free, fun j => ⟨fun hj => ⟨hcompetes j hj, fun i =>
    Timeline.oldest_on_bus htimeline heq hj⟩, fun hj => ?_⟩, hidle,
    Timeline.fu_of_executes htimeline hspec, Timeline.reserv_of_executes htimeline hspec⟩
  · rw [step]
    exact congrArg (Option.map _) heq
  · -- somebody is on the bus, and of two that are least neither is younger
    cases hwinner : s'.commonDataBus with
    | none => exact absurd hj.1 (hidle.mp hwinner j)
    | some i =>
        have hij := Timeline.oldest_on_bus htimeline heq hwinner hj.1
        rw [Nat.le_antisymm hij (hj.2 i (hcompetes i hwinner))]

/-! ## Runs -/

theorem happened_of_run {calls : Nat} {e : Event} (h : (runTomasulo trace).Reachable m)
    (hrun : run trace calls m = some m') (hhappened : Happened m.sim j e) :
    Happened m'.sim j e := by
  induction calls generalizing m with
  | zero =>
      obtain rfl := Option.some.inj hrun
      exact hhappened
  | succ calls ih =>
      rw [run, Option.bind_eq_some_iff] at hrun
      obtain ⟨m₁, hstep, hrest⟩ := hrun
      exact ih (h.step (l := ()) trivial hstep) hrest (happened_of_step h hstep hhappened)

/-- A run that makes something true has a call that does. -/
theorem exists_first_call {P : Machine → Prop} {calls : Nat} (hrun : run trace calls m = some m')
    (hnot : ¬ P m) (hend : P m') : ∃ i m₁ m₂, run trace i m = some m₁ ∧
      step trace m₁ = some m₂ ∧ P m₂ ∧
      ∀ i' ≤ i, ∀ m₀, run trace i' m = some m₀ → ¬ P m₀ := by
  induction calls generalizing m with
  | zero => exact absurd (Option.some.inj hrun ▸ hend) hnot
  | succ calls ih =>
      rw [run, Option.bind_eq_some_iff] at hrun
      obtain ⟨m₀, hstep, hrest⟩ := hrun
      by_cases hnow : P m₀
      case pos =>
        refine ⟨0, m, m₀, rfl, hstep, hnow, fun i' hi' m₁ hm₁ => ?_⟩
        obtain rfl := Nat.le_zero.mp hi'
        rwa [← Option.some.inj hm₁]
      case neg =>
        obtain ⟨i, m₁, m₂, hrun₁, hstep₂, hP, hbefore⟩ := ih hrest hnow
        refine ⟨i + 1, m₁, m₂, ?_, hstep₂, hP, fun i' hi' m₃ hm₃ => ?_⟩
        · rw [run, hstep]
          exact hrun₁
        · cases i' with
          | zero =>
              obtain rfl := Option.some.inj hm₃
              exact hnot
          | succ i' =>
              rw [run, hstep] at hm₃
              exact hbefore i' (Nat.le_of_succ_le_succ hi') m₃ hm₃

/-- Nothing but execution to the common data bus records the cycle of the bus. -/
theorem cdb_cycle_of_step (h : (runTomasulo trace).Reachable m) (hstep : step trace m = some m')
    (hstage : m.stage ≠ .executeToCdb) (j : Nat) :
    (m'.sim.table j).tomCdbCycle = (m.sim.table j).tomCdbCycle := by
  obtain ⟨-, left, htimeline⟩ := timeline_of_run h
  obtain ⟨l, hqueue, -, hmem⟩ := htimeline.in_order.queue
  obtain ⟨-, rfl⟩ | ⟨hexecute, -⟩ | ⟨-, rfl⟩ | ⟨-, sim, hsim, rfl⟩ | ⟨-, sim, hsim, rfl⟩ :=
    step_cases hstep
  · exact ((cdbToRetire_spec htimeline.writes_of_map).cycles j).cdb
  · exact absurd hexecute hstage
  · obtain ⟨started, hspec⟩ :=
      @issueToExecute_spec m.cycle m.sim htimeline.occupied.distinct htimeline.occupied.class_unique
    exact hspec.cdb j
  · rcases @dispatchToIssue_spec trace m.cycle m.sim l hqueue
        fun i hi => ((hmem i).mp hi).1.2.2 with
      ⟨-, heq⟩ | ⟨insn, rest, -, ⟨-, queue, -, heq⟩ | ⟨u, -, -, heq⟩ | ⟨u, s', hspec, -, heq⟩⟩
    all_goals obtain rfl := Option.some.inj (heq.symm.trans hsim)
    · rfl
    · rfl
    · rfl
    · exact hspec.cdb j
  · rcases htimeline.in_order.fetch_cases m.cycle hqueue with
      ⟨-, heq⟩ | ⟨-, index, -, -, -, heq⟩ | ⟨insn, queue, -, hqueue', heq⟩
    all_goals obtain rfl := Option.some.inj (heq.symm.trans hsim)
    · rfl
    · rfl
    · exact (fetches hqueue').cdb j

/-- The call that records the cycle of the bus puts the instruction on the bus. -/
theorem goes_on_cdb (h : (runTomasulo trace).Reachable m) (hstep : step trace m = some m')
    (hold : (m.sim.table j).tomCdbCycle = 0) (hnew : (m'.sim.table j).tomCdbCycle ≠ 0) :
    m.stage = .executeToCdb ∧ m'.sim.commonDataBus = some j := by
  have hstage : m.stage = .executeToCdb := by
    by_contra hother
    exact hnew ((cdb_cycle_of_step h hstep hother j).trans hold)
  refine ⟨hstage, ?_⟩
  obtain ⟨s', hstep', -⟩ := arbitrates_of_reachable h hstage
  obtain rfl := Option.some.inj (hstep.symm.trans hstep')
  obtain ⟨-, left', htimeline'⟩ := timeline_of_run (h.step (l := ()) trivial hstep)
  -- the cycle is recorded now
  refine (htimeline'.occupied.bus j).mpr ⟨hnew, ?_⟩
  rcases (recorded_of_step h hstep j).cdb with hsame | ⟨-, hnow⟩
  · exact absurd (hsame.trans hold) hnew
  · exact hnow.ge

/-- An instruction that executes and has a result is in its unit and its station until it goes on
the bus. -/
theorem has_of_not_on_cdb (h : (runTomasulo trace).Reachable m) {u : FuClass}
    (hclass : fuClass (opAt trace j) = some u) (hstore : isStore (opAt trace j) = false)
    (hexecute : (m.sim.table j).tomExecuteCycle ≠ 0) (hcdb : (m.sim.table j).tomCdbCycle = 0) :
    (m.sim.fu u).Has j ∧ (m.sim.reserv u).Has j := by
  obtain ⟨-, left, htimeline⟩ := timeline_of_run h
  have hstation : (m.sim.reserv u).Has j := by
    refine (htimeline.occupied.reserv u j).mpr ⟨hclass,
      (htimeline.stamped.issue_lt_execute j hexecute).1, ?_⟩
    rintro (hne | ⟨hyes, -⟩)
    · exact hne hcdb
    · rw [hstore] at hyes
      exact nomatch hyes
  exact ⟨(htimeline.occupied.fu u j).mpr ⟨hstation, hexecute⟩, hstation⟩

/-- At the return the units are empty. -/
theorem not_has_of_returned (h : (runTomasulo trace).Reachable m) (hstage : m.stage = .returned)
    (u : FuClass) (j : Nat) : ¬ (m.sim.fu u).Has j :=
  (is_simulation_done_iff.mp (done_of_returned h hstage)).2.2 u j

/-- Run lemma: an instruction in a unit that has a result keeps its unit and its station until it
wins. -/
theorem keeps_until_wins (h : (runTomasulo trace).Reachable m) {u : FuClass}
    (hj : (m.sim.fu u).Has j) (hstore : isStore (opAt trace j) = false) :
    KeepsUntilWins trace m u j := by
  obtain ⟨-, left, htimeline⟩ := timeline_of_run h
  obtain ⟨hstation, hexecute⟩ := (htimeline.occupied.fu u j).mp hj
  obtain ⟨hclass, -, hfinish⟩ := (htimeline.occupied.reserv u j).mp hstation
  have hcdb : (m.sim.table j).tomCdbCycle = 0 := by
    by_contra hne
    exact hfinish (Or.inl hne)
  have hhas : ∀ {i m₀}, run trace i m = some m₀ → (m₀.sim.table j).tomCdbCycle = 0 →
      (m₀.sim.fu u).Has j ∧ (m₀.sim.reserv u).Has j := by
    intro i m₀ hrun
    have hexecute₀ : Happened m₀.sim j .executed := happened_of_run h hrun hexecute
    exact has_of_not_on_cdb (reachable_of_run h hrun) hclass hstore hexecute₀
  obtain ⟨calls, m', hrun, hreturned⟩ := returns_of_reachable h
  have hend : (m'.sim.table j).tomCdbCycle ≠ 0 := fun hzero =>
    not_has_of_returned (reachable_of_run h hrun) hreturned u j (hhas hrun hzero).1
  obtain ⟨i, m₁, m₂, hrun₁, hstep₂, hnew, hbefore⟩ := exists_first_call
    (P := fun m => (m.sim.table j).tomCdbCycle ≠ 0) hrun (not_not.mpr hcdb) hend
  have hreach₁ := reachable_of_run h hrun₁
  obtain ⟨hstage₁, hbus⟩ := goes_on_cdb hreach₁ hstep₂ (not_not.mp (hbefore i le_rfl m₁ hrun₁)) hnew
  obtain ⟨s', hstep', harbitrates⟩ := arbitrates_of_reachable hreach₁ hstage₁
  obtain rfl := Option.some.inj (hstep₂.symm.trans hstep')
  exact ⟨i, m₁, _, hrun₁, hstage₁, hstep₂, hbus, (harbitrates.bus j).mp hbus,
    fun i' hle m₀ hrun₀ => hhas hrun₀ (not_not.mp (hbefore i' hle m₀ hrun₀))⟩

/-- In every cycle of every run execution to the common data bus finds the bus free, lets go of the
stores whose latency has elapsed, and puts the oldest other instruction whose latency has elapsed
on the bus. It never puts a store there, nor an instruction a second time, and one that loses keeps
its unit and its station until a later cycle in which it wins. -/
theorem cdb_arbitration (h : (runTomasulo trace).Reachable m) (hstage : m.stage = .executeToCdb) :
    ∃ s', step trace m = some ⟨s', m.cycle, .issueToExecute⟩ ∧ Arbitrates trace m.cycle m.sim s' ∧
      (∀ j, s'.commonDataBus = some j → isStore (opAt trace j) = false ∧
        ∀ calls m₁ m₂, run trace calls ⟨s', m.cycle, .issueToExecute⟩ = some m₁ →
          m₁.stage = .executeToCdb → step trace m₁ = some m₂ → m₂.sim.commonDataBus ≠ some j) ∧
      ∀ u j, (m.sim.fu u).Has j → Competes trace m.cycle m.sim j → s'.commonDataBus ≠ some j →
        KeepsUntilWins trace ⟨s', m.cycle, .issueToExecute⟩ u j := by
  obtain ⟨s', hstep, harbitrates⟩ := arbitrates_of_reachable h hstage
  have hreach := h.step (l := ()) trivial hstep
  refine ⟨s', hstep, harbitrates, fun j hj => ⟨((harbitrates.bus j).mp hj).1.2.1, ?_⟩, ?_⟩
  · intro calls m₁ m₂ hrun hstage₁ hstep₂ hagain
    obtain ⟨s₂, hstep₂', harbitrates₁⟩ :=
      arbitrates_of_reachable (reachable_of_run hreach hrun) hstage₁
    obtain rfl := Option.some.inj (hstep₂.symm.trans hstep₂')
    obtain ⟨-, left, htimeline⟩ := timeline_of_run hreach
    obtain ⟨-, left₁, htimeline₁⟩ := timeline_of_run (reachable_of_run hreach hrun)
    have honcdb : Happened s' j .onCdb := ((htimeline.occupied.bus j).mp hj).1
    -- what was on the bus is finished, and is in no unit
    obtain ⟨⟨u, hu⟩, -, -⟩ := ((harbitrates₁.bus j).mp hagain).1
    exact ((htimeline₁.occupied.reserv u j).mp ((htimeline₁.occupied.fu u j).mp hu).1).2.2
      (Or.inl (happened_of_run hreach hrun honcdb))
  · intro u j hj hcompetes hlost
    refine keeps_until_wins hreach ((harbitrates.fu u j).mpr ⟨hj, fun hboth => ?_, hlost⟩)
      hcompetes.2.1
    rw [hcompetes.2.1] at hboth
    exact nomatch hboth.1

set_option maxRecDepth 20000 in
/-- In the seventh cycle the latency of the load has elapsed. -/
theorem cdb_arbitration_load_add_store :
    ∃ s', step loadAddStore ((run loadAddStore 31 .initial).get (by decide +kernel)) =
        some ⟨s', 7, .issueToExecute⟩ ∧
      Arbitrates loadAddStore 7 ((run loadAddStore 31 .initial).get (by decide +kernel)).sim s' :=
  have ⟨s', hstep, harbitrates, _⟩ :=
    cdb_arbitration (m := (run loadAddStore 31 .initial).get (by decide +kernel))
      (reachable_get (by decide +kernel)) (by decide +kernel)
  ⟨s', hstep, harbitrates⟩

end Ece552.Tomasulo
