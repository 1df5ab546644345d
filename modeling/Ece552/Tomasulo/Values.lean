import Ece552.Library.Renaming
import Ece552.Tomasulo.Completion

/-!
# The values that the tags carry

The simulator keeps the tags of a Tomasulo machine and no values. Here every call moves values as
its tags say: an instruction that takes a station reads the register file, a start computes the
result, and retirement sends the result on the bus to the registers and the inputs that wait for it.
Whatever the instructions compute, every result is that of executing the trace in order, where
traps and branches write nothing.
-/

namespace Ece552.Tomasulo

open Library

section Definitions

variable {ν : Type*} (trace : Trace)
  (compute : Nat → (Fin MAX_INPUT_REGS → Option ν) → Reg → ν)

/-- The trace as a program on the registers that the simulator renames. A trap or a branch enters no
station and sets nothing in the map table, so it writes nothing here either: the return address that
`jal` or `jalr` writes is left out. -/
def program : Program Reg (Fin MAX_INPUT_REGS) ν where
  reads index := (getInstr trace index).rIn
  writes index reg := decide (Enters trace index ∧ Writes trace index reg)
  compute := compute

/-- The map table and the `Q` entries. -/
def Sim.tags (s : Sim) : Tags Reg (Fin MAX_INPUT_REGS) := ⟨s.mapTable, fun j => (s.table j).Q⟩

/-- What is on the bus is broadcast. -/
def Sim.broadcast (s : Sim) (v : Values Reg (Fin MAX_INPUT_REGS) ν) :
    Values Reg (Fin MAX_INPUT_REGS) ν :=
  match s.commonDataBus with
  | none => v
  | some insn => v.broadcast (program trace compute) s.tags insn

/-- The values after a call. -/
def stepValues (m m' : Machine) (v : Values Reg (Fin MAX_INPUT_REGS) ν) :
    Values Reg (Fin MAX_INPUT_REGS) ν :=
  match m.stage with
  | .cdbToRetire => m.sim.broadcast trace compute v
  | .issueToExecute => v.execute (program trace compute) fun j =>
      (m'.sim.table j).tomExecuteCycle ≠ (m.sim.table j).tomExecuteCycle
  | .dispatchToIssue => v.take (program trace compute) fun j =>
      (m'.sim.table j).tomIssueCycle ≠ (m.sim.table j).tomIssueCycle
  | .executeToCdb | .fetchToDispatch | .returned => v

variable (start : Reg → ν)

/-- `runTomasulo` with values, from a register file. -/
def runValues : TransitionSystem (Machine × Values Reg (Fin MAX_INPUT_REGS) ν) Unit where
  init := fun mv => mv.1 = .initial ∧ mv.2.file = start
  next := fun mv _ mv' =>
    step trace mv.1 = some mv'.1 ∧ mv'.2 = stepValues trace compute mv.1 mv'.1 mv.2

/-- The values are those of the instructions up to `left`, executed in order. -/
def Sim.Carries (s : Sim) (left : Nat) (v : Values Reg (Fin MAX_INPUT_REGS) ν) : Prop :=
  Library.Carries (program trace compute) start s.tags (fun j => (s.table j).tomIssueCycle ≠ 0)
    (fun j => (s.table j).tomExecuteCycle ≠ 0) ((program trace compute).regs start (left + 1)) v

end Definitions

variable {ν : Type*} {trace : Trace} {compute : Nat → (Fin MAX_INPUT_REGS → Option ν) → Reg → ν}
  {start : Reg → ν} {v : Values Reg (Fin MAX_INPUT_REGS) ν} {s s' : Sim} {left left' t : Nat}

/-- Between indices at which no instruction takes a station the registers stay as they are. -/
theorem regs_of_not_enters {a b : Nat} (hab : a ≤ b) (h : ∀ n, a ≤ n → n < b → ¬ Enters trace n) :
    (program trace compute).regs start b = (program trace compute).regs start a :=
  Program.regs_congr hab fun n hn hlt _ => decide_eq_false fun hwrites => h n hn hlt hwrites.1

/-- The registers are known from the instructions that were issued. -/
theorem InOrder.regs_of_issued (h : InOrder trace s left) (h' : InOrder trace s' left')
    (hissued : ∀ j, (s'.table j).tomIssueCycle ≠ 0 ↔ (s.table j).tomIssueCycle ≠ 0) :
    (program trace compute).regs start (left' + 1) =
      (program trace compute).regs start (left + 1) := by
  have hle : ∀ j, Enters trace j → (j ≤ left' ↔ j ≤ left) := fun j hj => by
    have hiff := hissued j
    rw [h'.issued, h.issued] at hiff
    simpa [hj] using hiff
  rcases Nat.le_total left left' with hlt | hlt
  · exact regs_of_not_enters (Nat.succ_le_succ hlt) fun n hn hn' hj =>
      absurd ((hle n hj).mp (Nat.lt_succ_iff.mp hn')) (not_le.mpr hn)
  · exact (regs_of_not_enters (Nat.succ_le_succ hlt) fun n hn hn' hj =>
      absurd ((hle n hj).mpr (Nat.lt_succ_iff.mp hn')) (not_le.mpr hn)).symm

/-! ## Calls -/

/-- A call that keeps the tags and starts nothing keeps the values. -/
theorem Sim.Carries.congr (hv : s.Carries trace compute start left v)
    (hmap : s'.mapTable = s.mapTable) (hQ : ∀ j, (s'.table j).Q = (s.table j).Q)
    (hissue : ∀ j, (s'.table j).tomIssueCycle = (s.table j).tomIssueCycle)
    (hexecute : ∀ j, (s'.table j).tomExecuteCycle = (s.table j).tomExecuteCycle) :
    s'.Carries trace compute start left v := by
  refine Library.Carries.congr hv (fun reg => congrFun hmap reg) (fun j a => congrFun (hQ j) a)
    (fun j hj => ?_) fun j hj => ?_
  · rwa [hissue] at hj
  · rwa [hexecute] at hj

theorem Timeline.carries_of_retire (h : Timeline trace ⟨t, t, t, t, t⟩ s left)
    (hv : s.Carries trace compute start left v) :
    (cdbToRetire s).Carries trace compute start left (s.broadcast trace compute v) := by
  have hspec := cdbToRetire_spec h.writes_of_map
  have hissue := fun j => (hspec.cycles j).issue
  have hexecute := fun j => (hspec.cycles j).execute
  cases hbus : s.commonDataBus with
  | none =>
      rw [cdbToRetire, Sim.broadcast, hbus]
      exact hv
  | some p =>
      rw [Sim.broadcast, hbus]
      have hne : ∀ q, s.commonDataBus ≠ some q ↔ q ≠ p := fun q => by
        rw [hbus, ne_eq, Option.some.injEq, eq_comm]
      -- what is on the bus was executed
      have hp := (h.stamped.execute_add_latency_le p ((h.occupied.bus p).mp hbus).1).1
      refine Library.Carries.broadcast hv hp (fun reg q => ?_) (fun j a q _ => ?_) (fun j hj => ?_)
        fun j hj => ?_
      · rw [← hne]
        exact hspec.map reg q
      · rw [← hne]
        have hafter := h.retire.1.depends.waits j a q
        have hbefore := h.depends.waits j a q
        rw [hissue, h.pending_of_retires hspec] at hafter
        refine hafter.trans (Iff.trans ?_ (and_congr_left' hbefore.symm))
        constructor
        · rintro ⟨hj, reg, hin, hprod, hpending, hne⟩
          exact ⟨⟨hj, reg, hin, hprod, hpending⟩, hne⟩
        · rintro ⟨⟨hj, reg, hin, hprod, hpending⟩, hne⟩
          exact ⟨hj, reg, hin, hprod, hpending, hne⟩
      · rwa [hissue] at hj
      · rwa [hexecute] at hj

theorem Timeline.carries_of_execute (h : Timeline trace ⟨t + 1, t + 1, t, t, t⟩ s left)
    (hv : s.Carries trace compute start left v) :
    (issueToExecute (t + 1) s).Carries trace compute start left
      (v.execute (program trace compute) fun j =>
        ((issueToExecute (t + 1) s).table j).tomExecuteCycle ≠ (s.table j).tomExecuteCycle) := by
  obtain ⟨started, hspec⟩ :=
    @issueToExecute_spec (t + 1) s h.occupied.distinct h.occupied.class_unique
  have hQ : ∀ j, ((issueToExecute (t + 1) s).table j).Q = (s.table j).Q := fun j => by
    rw [hspec.table]
    split <;> rfl
  refine Library.Carries.execute hv (fun j hj => ?_) (fun reg => congrFun hspec.map reg)
    (fun j a => congrFun (hQ j) a) (fun j hj => ?_) fun j hj => ?_
  · have hin : j ∈ started := by
      by_contra hout
      rw [hspec.execute, if_neg hout] at hj
      exact hj rfl
    exact ⟨(h.started_of_issues hspec hin).1, (hspec.ready j hin).2⟩
  · rwa [hspec.issue] at hj
  · by_cases heq : ((issueToExecute (t + 1) s).table j).tomExecuteCycle =
        (s.table j).tomExecuteCycle
    · rw [heq] at hj
      exact Or.inr hj
    · exact Or.inl heq

/-- An instruction that takes a station is executed next in the program. -/
theorem Timeline.carries_of_takes_station
    (h : Timeline trace ⟨t + 1, t + 1, t + 1, t, t⟩ s left) {u : FuClass} {insn : Nat}
    (hnext : NextFetchable trace left insn) (hspec : TakesStation trace (t + 1) s s' u insn)
    (hv : s.Carries trace compute start left v) :
    s'.Carries trace compute start insn (v.take (program trace compute) fun j =>
      (s'.table j).tomIssueCycle ≠ (s.table j).tomIssueCycle) := by
  have hnew := h.in_order.not_issued hnext
  have hregs : (program trace compute).regs start (left + 1) =
      (program trace compute).regs start insn :=
    (regs_of_not_enters (Nat.succ_le_of_lt hnext.lt) fun n hn hn' hj =>
      hnext.least n hn hn' hj.1).symm
  rw [Sim.Carries, hregs] at hv
  refine hv.take (fun j => ?_) (fun reg => ?_) (fun a reg hreads => ?_) (fun j a hj => ?_)
    (fun j hj hne => ?_) fun j hj => ?_
  · rw [hspec.issue]
    by_cases hj : j = insn
    · subst hj
      simp [hnew]
    · simp [hj]
  · refine (hspec.map reg).trans ?_
    simp [program, Sim.tags, hspec.enters hnext]
  · show (s'.table insn).Q a = s.mapTable reg
    refine Option.ext fun p => ?_
    have hreads' : (getInstr trace insn).rIn a = some reg := hreads
    rw [hspec.table, if_pos rfl, h.producer_of_next hnext]
    refine (h.renamed_eq_some hnext).trans ⟨?_, fun hp => ⟨reg, hreads', hp⟩⟩
    rintro ⟨reg', hreads'', hp⟩
    obtain rfl := Option.some.inj (hreads'.symm.trans hreads'')
    exact hp
  · show (s'.table j).Q a = (s.table j).Q a
    rw [hspec.table, if_neg hj]
  · rwa [hspec.issue, if_neg hne] at hj
  · rwa [hspec.execute] at hj

theorem take_none {taken : Nat → Prop} [DecidablePred taken] (h : ∀ j, ¬ taken j) :
    v.take (program trace compute) taken = v := by
  simp [Values.take, h]

theorem Timeline.carries_of_issue (h : Timeline trace ⟨t + 1, t + 1, t + 1, t, t⟩ s left)
    (heq : dispatchToIssue trace (t + 1) s = some s') (hleft : InOrder trace s' left')
    (hv : s.Carries trace compute start left v) :
    s'.Carries trace compute start left' (v.take (program trace compute) fun j =>
      (s'.table j).tomIssueCycle ≠ (s.table j).tomIssueCycle) := by
  obtain ⟨l, hqueue, -, hmem⟩ := h.in_order.queue
  -- nothing is issued where the table and the map table stay as they are
  have hstay : s'.table = s.table → s'.mapTable = s.mapTable →
      s'.Carries trace compute start left' (v.take (program trace compute) fun j =>
        (s'.table j).tomIssueCycle ≠ (s.table j).tomIssueCycle) := by
    intro htable hmap
    rw [take_none fun j hj => hj (by rw [htable]), Sim.Carries,
      h.in_order.regs_of_issued hleft fun j => by rw [htable]]
    exact hv.congr hmap (fun j => by rw [htable]) (fun j => by rw [htable])
      fun j => by rw [htable]
  rcases @dispatchToIssue_spec trace (t + 1) s l hqueue fun j hj => ((hmem j).mp hj).1.2.2 with
    ⟨-, heq'⟩ | ⟨insn, rest, rfl, ⟨-, queue, -, heq'⟩ | ⟨u, -, -, heq'⟩ |
      ⟨u, s'', hspec, hrest, heq'⟩⟩
  · obtain rfl := Option.some.inj (heq'.symm.trans heq)
    exact hstay rfl rfl
  · obtain rfl := Option.some.inj (heq'.symm.trans heq)
    exact hstay rfl rfl
  · obtain rfl := Option.some.inj (heq'.symm.trans heq)
    exact hstay rfl rfl
  · obtain rfl := Option.some.inj (heq'.symm.trans heq)
    have hnext := (h.in_order.next_fetchable hqueue).1
    have hissued := (h.takes_station hqueue hrest hspec).1.in_order
    rw [Sim.Carries, hissued.regs_of_issued hleft fun _ => Iff.rfl]
    exact h.carries_of_takes_station hnext hspec hv

theorem Timeline.carries_of_fetch (h : Timeline trace ⟨t + 1, t + 1, t + 1, t + 1, t⟩ s left)
    (heq : fetchToDispatch trace (t + 1) s = some s')
    (hv : s.Carries trace compute start left v) : s'.Carries trace compute start left v := by
  obtain ⟨l, hqueue, -⟩ := h.in_order.queue
  rcases h.in_order.fetch_cases (t + 1) hqueue with
    ⟨-, heq'⟩ | ⟨-, index, -, -, -, heq'⟩ | ⟨insn, queue, -, hqueue', heq'⟩
  · obtain rfl := Option.some.inj (heq'.symm.trans heq)
    exact hv
  · obtain rfl := Option.some.inj (heq'.symm.trans heq)
    exact hv
  · obtain rfl := Option.some.inj (heq'.symm.trans heq)
    have hspec := @fetches (t + 1) s l insn queue hqueue'
    exact hv.congr hspec.map hspec.dependence hspec.issue hspec.execute

/-! ## Runs -/

/-- Every call keeps the values of the program executed in order. -/
theorem carries_of_step {m m' : Machine} (h : (runTomasulo trace).Reachable m)
    (hstep : step trace m = some m')
    (hv : ∀ left, InOrder trace m.sim left → m.sim.Carries trace compute start left v)
    (hleft : InOrder trace m'.sim left') :
    m'.sim.Carries trace compute start left' (stepValues trace compute m m' v) := by
  obtain ⟨hcycle, left, htimeline⟩ := timeline_of_run h
  have hv' := hv left htimeline.in_order
  have hexecutes := executes_of_reachable h
  obtain ⟨s, cycle, stage⟩ := m
  obtain ⟨t, rfl⟩ := Nat.exists_eq_succ_of_ne_zero hcycle.ne'
  obtain ⟨rfl, rfl⟩ | ⟨rfl, sim, heq, rfl⟩ | ⟨rfl, rfl⟩ | ⟨rfl, sim, heq, rfl⟩ |
    ⟨rfl, sim, heq, rfl⟩ := step_cases hstep
  · rw [Sim.Carries, htimeline.retire.1.in_order.regs_of_issued hleft fun _ => Iff.rfl]
    exact htimeline.carries_of_retire hv'
  · obtain ⟨sim', chosen, heq', hspec⟩ := hexecutes rfl
    obtain rfl := Option.some.inj (heq'.symm.trans heq)
    rw [Sim.Carries, htimeline.in_order.regs_of_issued hleft fun j => by rw [hspec.issue]]
    exact hv'.congr hspec.map hspec.dependence hspec.issue hspec.execute
  · rw [Sim.Carries, htimeline.execute.1.in_order.regs_of_issued hleft fun _ => Iff.rfl]
    exact htimeline.carries_of_execute hv'
  · exact htimeline.carries_of_issue heq hleft hv'
  · have hfetch := htimeline.carries_of_fetch heq hv'
    obtain ⟨sim', heq', htimeline', -⟩ := htimeline.fetch
    obtain rfl := Option.some.inj (heq'.symm.trans heq)
    rw [Sim.Carries, htimeline'.in_order.regs_of_issued hleft fun _ => Iff.rfl]
    exact hfetch

variable {mv : Machine × Values Reg (Fin MAX_INPUT_REGS) ν}

/-- A run with values is a run of the simulator. -/
theorem reachable_of_run_values (h : (runValues trace compute start).Reachable mv) :
    (runTomasulo trace).Reachable mv.1 := by
  induction h with
  | init h => exact .init h.1
  | step _ _ hnext ih => exact .step (l := ()) ih trivial hnext.1

/-- What holds of the values between two calls. -/
theorem carries_of_run (h : (runValues trace compute start).Reachable mv) :
    ∀ left, InOrder trace mv.1.sim left → mv.1.sim.Carries trace compute start left mv.2 := by
  induction h with
  | @init mv h =>
      obtain ⟨m, v⟩ := mv
      obtain ⟨rfl, rfl⟩ := h
      intro left hleft
      rw [Sim.Carries, (@timeline_initial trace).in_order.regs_of_issued hleft
        fun _ => Iff.rfl, regs_of_not_enters (Nat.zero_le 1) fun n _ hn henters =>
          absurd henters.1.1 (not_le.mpr hn)]
      exact Library.Carries.initial (fun _ => rfl) (fun _ hj => hj rfl) (fun _ hj => hj rfl) rfl
  | @step mv mv' _ hrun _ hnext ih =>
      intro left hleft
      rw [hnext.2]
      exact carries_of_step (reachable_of_run_values hrun) hnext.1 ih hleft

/-- A run of the simulator is one with values. -/
theorem exists_values {m : Machine} (start : Reg → ν) (h : (runTomasulo trace).Reachable m) :
    ∃ v, (runValues trace compute start).Reachable (m, v) := by
  induction h with
  | init h => exact ⟨⟨start, fun _ _ => none, fun _ => start⟩, .init ⟨h, rfl⟩⟩
  | @step m m' _ _ _ hnext ih =>
      obtain ⟨v, hrun⟩ := ih
      exact ⟨stepValues trace compute m m' v, hrun.step (l := ()) trivial ⟨hnext, rfl⟩⟩

/-- At any point of a run, in whatever order the instructions were executed, every result and every
input that no tag stands for are those of executing the trace in order, where traps and branches
write nothing. When the loop has ended and left nothing in the queue, so are the registers, where
the last result may still be on its way. -/
theorem values_in_order (h : (runValues trace compute start).Reachable mv) :
    (∀ j, (mv.1.sim.table j).tomExecuteCycle ≠ 0 →
      mv.2.result j = (program trace compute).value start j) ∧
    (∀ j k, (mv.1.sim.table j).tomIssueCycle ≠ 0 → (mv.1.sim.table j).Q k = none →
      mv.2.operand j k = (program trace compute).inputs start j k) ∧
    (mv.1.stage = .returned → (∀ j, ¬ mv.1.sim.Queued j) → ∀ reg,
      mv.2.read mv.1.sim.tags reg =
        (program trace compute).regs start (trace.length + 1) reg) := by
  have hrun := reachable_of_run_values h
  obtain ⟨-, left, htimeline⟩ := timeline_of_run hrun
  have hin := htimeline.in_order
  have hcarries := carries_of_run h left hin
  refine ⟨hcarries.result, hcarries.operand, fun hstage hempty reg => ?_⟩
  have hdone := done_of_returned hrun hstage
  have hcomplete := complete_of_empty hrun hstage hdone hempty
  have hregs : (program trace compute).regs start (trace.length + 1) =
      (program trace compute).regs start (left + 1) := by
    have hle : ∀ j, Enters trace j → j ≤ left := fun j hj =>
      ((hin.issued j).mp (hcomplete.executed j hj).1).2
    rcases Nat.le_total left trace.length with hlt | hlt
    · exact regs_of_not_enters (Nat.succ_le_succ hlt) fun n hn _ hj =>
        absurd (hle n hj) (not_le.mpr hn)
    · exact (regs_of_not_enters (Nat.succ_le_succ hlt) fun n hn _ hj =>
        absurd hj.1.2.1 (not_le.mpr hn)).symm
  rw [hregs]
  refine hcarries.read (fun reg p hp => ?_) reg
  -- what a register waits for took a station, so it was executed
  have hprod := ((htimeline.depends.map reg p).mp hp).1
  exact (hcomplete.executed p (producer_eq_some.mp hprod).2.1).2

/-- One more than the sum of the inputs. -/
def addInputs (_ : Nat) (inputs : Fin MAX_INPUT_REGS → Option Nat) (_ : Reg) : Nat :=
  (List.finRange MAX_INPUT_REGS).foldl (fun sum k => sum + (inputs k).getD 0) 1

set_option maxRecDepth 20000 in
/-- When the loop has ended, register 3 has what the addition made of the result of the load. -/
theorem values_in_order_load_add_store :
    ∃ mv, (runValues loadAddStore addInputs fun _ => 3).Reachable mv ∧ mv.1.stage = .returned ∧
      mv.2.result 2 3 = 9 ∧ mv.2.read mv.1.sim.tags 3 = 9 := by
  obtain ⟨m, hrun, hstage, hexecuted, hempty⟩ : ∃ m, (runTomasulo loadAddStore).Reachable m ∧
      m.stage = .returned ∧ (m.sim.table 2).tomExecuteCycle ≠ 0 ∧
      ∀ i, i < INSTR_QUEUE_SIZE → m.sim.instrQueue.slots i = none :=
    ⟨_, @reachable_get loadAddStore 85 (by decide +kernel), by decide +kernel, by decide +kernel,
      by decide +kernel⟩
  obtain ⟨v, hv⟩ := @exists_values _ loadAddStore addInputs m (fun _ => 3) hrun
  obtain ⟨hresult, -, hread⟩ := values_in_order hv
  refine ⟨(m, v), hv, hstage, ?_, ?_⟩
  · rw [hresult 2 hexecuted]
    decide +kernel
  · rw [hread hstage (fun j hj => ?_) 3]
    · decide +kernel
    · obtain ⟨i, hi, hslot⟩ := hj
      cases (hempty i hi).symm.trans hslot

end Ece552.Tomasulo
