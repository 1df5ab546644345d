import Ece552.Tomasulo.Occupancy
import Mathlib.Data.Finset.Prod
import Mathlib.Data.Finset.Card

/-!
# Progress

As long as the loop goes on, some instruction makes progress within nine cycles: an instruction in a
unit is done after the latency of the unit, and with all units empty the oldest instruction in a
station waits for no one, or the head of the queue finds room. There are five kinds of progress, and
an instruction makes each of them once, so the loop ends.
-/

namespace Ece552.Tomasulo

open Library

variable {trace : Trace} {m m' : Machine} {s s' : Sim} {k : Clock} {left : Nat}

/-- An instruction is fetched, leaves the queue, starts execution, goes on the bus or leaves a
unit. -/
inductive Moves (s s' : Sim) : Prop where
  | fetched (j : Nat) : (s.table j).tomDispatchCycle = 0 → (s'.table j).tomDispatchCycle ≠ 0 →
      Moves s s'
  | leavesQueue (j : Nat) : s.Queued j → ¬ s'.Queued j → Moves s s'
  | executes (j : Nat) : (s.table j).tomExecuteCycle = 0 → (s'.table j).tomExecuteCycle ≠ 0 →
      Moves s s'
  | goesOnCdb (j : Nat) : (s.table j).tomCdbCycle = 0 → (s'.table j).tomCdbCycle ≠ 0 → Moves s s'
  | leavesUnit (u : FuClass) (j : Nat) : (s.fu u).Has j → ¬ (s'.fu u).Has j → Moves s s'

/-- One of the next calls moves an instruction. -/
def Soon (trace : Trace) (calls : Nat) (m : Machine) : Prop :=
  ∃ i, i < calls ∧ ∃ m₁ m₂, run trace i m = some m₁ ∧ step trace m₁ = some m₂ ∧
    Moves m₁.sim m₂.sim

/-- What moves in this call moves soon. -/
theorem Soon.now {calls : Nat} (hstep : step trace m = some m') (hmoves : Moves m.sim m'.sim) :
    Soon trace (calls + 1) m :=
  ⟨0, Nat.succ_pos calls, m, m', rfl, hstep, hmoves⟩

/-- What moves soon after this call moves soon. -/
theorem Soon.later {calls : Nat} (hstep : step trace m = some m') (h : Soon trace calls m') :
    Soon trace (calls + 1) m := by
  obtain ⟨i, hi, m₁, m₂, hrun, hmoves⟩ := h
  refine ⟨i + 1, Nat.succ_lt_succ hi, m₁, m₂, ?_, hmoves⟩
  rw [run, hstep]
  exact hrun

/-- What moves soon moves sooner or later. -/
theorem Soon.mono {calls calls' : Nat} (h : Soon trace calls m) (hle : calls ≤ calls') :
    Soon trace calls' m := by
  obtain ⟨i, hi, hrest⟩ := h
  exact ⟨i, hi.trans_le hle, hrest⟩

/-! ## The loop test -/

/-- The last call before a state of a run. -/
theorem last_call (h : (runTomasulo trace).Reachable m) :
    m = .initial ∨ ∃ m₀, (runTomasulo trace).Reachable m₀ ∧ step trace m₀ = some m := by
  cases h with
  | init h => exact Or.inl h
  | step hrun _ hstep => exact Or.inr ⟨_, hrun, hstep⟩

/-- After a cycle either something is queued or the whole trace was fetched. -/
theorem queued_or_fetched (h : (runTomasulo trace).Reachable m) (hcycle : 1 < m.cycle)
    (hstage : m.stage = .cdbToRetire ∨ m.stage = .returned) :
    (isSimulationDone trace.length m.sim = true ↔ m.stage = .returned) ∧
      (trace.length < m.sim.fetchIndex ∨ ∃ j, m.sim.Queued j) := by
  rcases last_call h with rfl | ⟨m₀, hrun, hstep⟩
  · exact absurd hcycle (lt_irrefl 1)
  · obtain ⟨-, left, htimeline⟩ := timeline_of_run hrun
    obtain ⟨-, rfl⟩ | ⟨-, sim, -, rfl⟩ | ⟨-, rfl⟩ | ⟨-, sim, -, rfl⟩ | ⟨-, sim, hsim, rfl⟩ :=
      step_cases hstep
    · simp at hstage
    · simp at hstage
    · simp at hstage
    · simp at hstage
    · refine ⟨?_, ?_⟩
      · by_cases hdone : isSimulationDone trace.length sim = true <;> simp [hdone]
      · obtain ⟨l, hqueue, -⟩ := htimeline.in_order.queue
        rcases htimeline.in_order.fetch_cases m₀.cycle hqueue with
          ⟨hfull, heq⟩ | ⟨-, index, -, hlen, -, heq⟩ | ⟨insn, queue, -, hqueue', heq⟩
        · obtain rfl := Option.some.inj (heq.symm.trans hsim)
          have hhead : l.head? ≠ none := by
            rw [ne_eq, List.head?_eq_none_iff]
            rintro rfl
            exact nomatch hfull
          obtain ⟨j, hj⟩ := Option.ne_none_iff_exists'.mp hhead
          exact Or.inr ⟨j, hqueue.mem_iff.mpr (List.mem_of_head? hj)⟩
        · obtain rfl := Option.some.inj (heq.symm.trans hsim)
          exact Or.inl hlen
        · obtain rfl := Option.some.inj (heq.symm.trans hsim)
          exact Or.inr ⟨insn, hqueue'.mem_iff.mpr (by simp)⟩

/-- The loop goes on while something is in a station or in a unit. -/
theorem not_done_of_fu {u : FuClass} {j : Nat} (h : (s.fu u).Has j) {n : Nat} :
    isSimulationDone n s = false := by
  cases u
  · have hne : s.fuINT.isEmpty = false :=
      Bool.eq_false_iff.mpr fun he => SlotArray.is_empty_iff.mp he j h
    simp [isSimulationDone, hne]
  · have hne : s.fuFP.isEmpty = false :=
      Bool.eq_false_iff.mpr fun he => SlotArray.is_empty_iff.mp he j h
    simp [isSimulationDone, hne]

/-- What it takes for the loop to end. -/
theorem is_simulation_done_iff {n : Nat} : isSimulationDone n s = true ↔ n < s.fetchIndex ∧
    (∀ u j, ¬ (s.reserv u).Has j) ∧ ∀ u j, ¬ (s.fu u).Has j := by
  have hclass : ∀ {P : FuClass → Prop}, (∀ u, P u) ↔ P .INT ∧ P .FP := fun {P} =>
    ⟨fun h => ⟨h _, h _⟩, fun h u => by cases u; exacts [h.1, h.2]⟩
  rw [hclass, hclass]
  simp only [isSimulationDone, Bool.and_eq_true, decide_eq_true_eq, SlotArray.is_empty_iff,
    and_assoc]
  rfl

/-! ## The first calls of a cycle -/

/-- The first three calls of a cycle. -/
structure FirstCalls (trace : Trace) (m : Machine) (s₁ s₂ s₃ : Sim) (chosen : Option Nat)
    (started : List Nat) : Prop where
  retires : Retires m.sim s₁
  executes : Executes trace m.cycle s₁ s₂ chosen
  issues : Issues m.cycle s₂ s₃ started
  step₁ : step trace m = some ⟨s₁, m.cycle, .executeToCdb⟩
  step₂ : step trace ⟨s₁, m.cycle, .executeToCdb⟩ = some ⟨s₂, m.cycle, .issueToExecute⟩
  step₃ : step trace ⟨s₂, m.cycle, .issueToExecute⟩ = some ⟨s₃, m.cycle, .dispatchToIssue⟩

/-- What the first three calls of a cycle do. -/
theorem first_calls (h : (runTomasulo trace).Reachable m) (hstage : m.stage = .cdbToRetire) :
    ∃ s₁ s₂ s₃ chosen started, FirstCalls trace m s₁ s₂ s₃ chosen started := by
  obtain ⟨s, cycle, stage⟩ := m
  obtain rfl : stage = .cdbToRetire := hstage
  obtain ⟨hcycle, left, htimeline⟩ := timeline_of_run h
  obtain ⟨t, rfl⟩ := Nat.exists_eq_succ_of_ne_zero hcycle.ne'
  have htimeline₁ := (Timeline.retire htimeline).1
  obtain ⟨s₂, chosen, heq, hexecutes⟩ := @executeToCdb_spec trace (t + 1) (cdbToRetire s)
    htimeline₁.occupied.distinct htimeline₁.bus_free
    fun u insn hu => ((htimeline₁.occupied.fu u insn).mp hu).2
  obtain ⟨s₂', heq', htimeline₂, -⟩ := htimeline₁.complete
  obtain rfl := Option.some.inj (heq'.symm.trans heq)
  obtain ⟨started, hissues⟩ := @issueToExecute_spec (t + 1) s₂' htimeline₂.occupied.distinct
    htimeline₂.occupied.class_unique
  refine ⟨_, s₂', _, chosen, started, cdbToRetire_spec htimeline.writes_of_map, hexecutes, hissues,
    rfl, ?_, rfl⟩
  simp [step, heq]

/-! ## Units -/

/-- An instruction whose time in the unit is over leaves it in the next cycle, or another goes on
the bus. -/
theorem soon_of_ready (h : (runTomasulo trace).Reachable m) (hstage : m.stage = .cdbToRetire)
    {u : FuClass} {j : Nat} (hj : (m.sim.fu u).Has j)
    (hready : (m.sim.table j).tomExecuteCycle + latency (opAt trace j) ≤ m.cycle) :
    Soon trace 2 m := by
  obtain ⟨s₁, s₂, s₃, chosen, started, hcalls⟩ := first_calls h hstage
  refine Soon.later hcalls.step₁ (Soon.now hcalls.step₂ ?_)
  have hj₁ : (s₁.fu u).Has j := by
    rw [hcalls.retires.fu]
    exact hj
  cases hchosen : chosen with
  | none =>
      refine .leavesUnit u j hj₁ fun hj₂ => ?_
      have hlate := hcalls.executes.incomplete hchosen u j hj₂
      rw [(hcalls.retires.cycles j).execute] at hlate
      exact absurd hready (not_le.mpr hlate)
  | some insn =>
      obtain ⟨v, ⟨hv, -⟩, -⟩ := hcalls.executes.complete insn hchosen
      refine .leavesUnit v insn hv fun hv₂ => ?_
      exact ((hcalls.executes.fu v insn).mp hv₂).2 hchosen

/-- The number of calls made since cycle 0. -/
def Machine.position (m : Machine) : Nat :=
  5 * m.cycle + match m.stage with
    | .cdbToRetire | .returned => 0
    | .executeToCdb => 1
    | .issueToExecute => 2
    | .dispatchToIssue => 3
    | .fetchToDispatch => 4

/-- A position is one of a cycle. -/
theorem Machine.position_le (m : Machine) : m.position ≤ 5 * m.cycle + 4 := by
  rw [position]
  split <;> omega

/-- A call is one position further. -/
theorem position_step (h : step trace m = some m') : m'.position = m.position + 1 := by
  obtain ⟨hstage, rfl⟩ | ⟨hstage, sim, -, rfl⟩ | ⟨hstage, rfl⟩ | ⟨hstage, sim, -, rfl⟩ |
    ⟨hstage, sim, -, rfl⟩ := step_cases h
  · simp [Machine.position, hstage]
  · simp [Machine.position, hstage]
  · simp [Machine.position, hstage]
  · simp [Machine.position, hstage]
  · by_cases hdone : isSimulationDone trace.length sim = true <;>
      simp [Machine.position, hstage, hdone] <;> omega

/-- A position that is a multiple of the calls in a cycle is at the start of a cycle. -/
theorem stage_of_position {cycle : Nat} (h : m.position = 5 * cycle) :
    (m.stage = .cdbToRetire ∨ m.stage = .returned) ∧ m.cycle = cycle := by
  rw [Machine.position] at h
  cases hstage : m.stage <;> rw [hstage] at h <;> simp only at h
  · exact ⟨Or.inl rfl, by omega⟩
  · omega
  · omega
  · omega
  · omega
  · exact ⟨Or.inr rfl, by omega⟩

/-- What is in a unit stays there until the time is over, unless something moves before. -/
theorem soon_of_fu {u : FuClass} {j cycle : Nat} (calls : Nat)
    (h : (runTomasulo trace).Reachable m) (hstage : m.stage ≠ .returned) (hj : (m.sim.fu u).Has j)
    (hposition : m.position + calls = 5 * cycle)
    (hready : (m.sim.table j).tomExecuteCycle + latency (opAt trace j) ≤ cycle) :
    Soon trace (calls + 2) m := by
  induction calls generalizing m with
  | zero =>
      obtain ⟨hhead, rfl⟩ := stage_of_position hposition
      exact soon_of_ready h (hhead.resolve_right hstage) hj hready
  | succ calls ih =>
      obtain ⟨hcycle, left, htimeline⟩ := timeline_of_run h
      obtain ⟨m', -, hstep, -, -, -, hrecorded⟩ := htimeline.step hcycle hstage
      by_cases hj' : (m'.sim.fu u).Has j
      · refine Soon.later hstep (ih (h.step (l := ()) trivial hstep) ?_ hj' ?_ ?_)
        · intro hreturned
          have hdone := not_done_of_fu hj' (n := trace.length)
          obtain ⟨-, rfl⟩ | ⟨-, sim, -, rfl⟩ | ⟨-, rfl⟩ | ⟨-, sim, -, rfl⟩ | ⟨-, sim, -, rfl⟩ :=
            step_cases hstep
          · simp at hreturned
          · simp at hreturned
          · simp at hreturned
          · simp at hreturned
          · simp [hdone] at hreturned
        · have hnext := position_step hstep
          omega
        · rw [(hrecorded j).kept.execute ((htimeline.occupied.fu u j).mp hj).2]
          exact hready
      · exact Soon.now hstep (.leavesUnit u j hj hj')

/-- The latency of a floating-point operation is the longest one. -/
theorem latency_le (op : Opcode) : latency op ≤ FU_FP_LATENCY := by
  cases op <;> decide

/-- With something in a unit, something moves within nine cycles. -/
theorem soon_of_busy (h : (runTomasulo trace).Reachable m) (hstage : m.stage = .cdbToRetire)
    {u : FuClass} {j : Nat} (hj : (m.sim.fu u).Has j) : Soon trace 42 m := by
  obtain ⟨hcycle, left, htimeline⟩ := timeline_of_run h
  have hclock : m.clock.execute = m.cycle - 1 := by rw [Machine.clock, hstage]
  have hle := htimeline.stamped.execute_le j
  have hlatency : latency (opAt trace j) ≤ 9 := latency_le (opAt trace j)
  have hposition : m.position + 40 = 5 * (m.cycle + 8) := by
    simp only [Machine.position, hstage]
    omega
  exact soon_of_fu 40 h (by simp [hstage]) hj hposition (by omega)

/-! ## Stations -/

/-- With all units empty, the oldest instruction in a station waits for no one. -/
theorem oldest_ready {t j : Nat} (h : Timeline trace ⟨t + 1, t + 1, t, t, t⟩ s left)
    (hoccupied : ∀ p, (s.table p).tomCdbCycle ≤ t)
    (holdest : ∀ v p, (s.reserv v).Has p → j ≤ p) (a : Fin MAX_INPUT_REGS) :
    (s.table j).Q a = none := by
  refine Option.eq_none_iff_forall_ne_some.mpr fun p hp => ?_
  obtain ⟨hissue, reg, -, hprod, hpending⟩ := (h.depends.waits j a p).mp hp
  obtain ⟨hlt, henters, ⟨k, hwrites⟩, -⟩ := producer_eq_some.mp hprod
  have hzero : (s.table p).tomCdbCycle = 0 := by
    have hle := hoccupied p
    simp only [Pending] at hpending
    omega
  -- the producer is no store and is in a station itself
  have hstore : isStore (opAt trace p) = false := by
    by_contra hstore
    rw [(getInstr trace p).store_no_out (Bool.not_eq_false _ ▸ hstore) k] at hwrites
    cases hwrites
  have hissued := (h.in_order.issued p).mpr
    ⟨henters, (hlt.le.trans ((h.in_order.issued j).mp hissue).2)⟩
  have hfinish : ¬ Finished trace ⟨t + 1, t + 1, t, t, t⟩ s p := by
    rintro (hne | ⟨hop, -⟩)
    · exact hne hzero
    · rw [hstore] at hop
      cases hop
  obtain ⟨v, hv⟩ := h.stationed hissued hfinish
  exact absurd hlt (not_lt.mpr (holdest v p hv))

/-- With all units empty, something is started if there is something in a station. -/
theorem soon_of_stationed (h : (runTomasulo trace).Reachable m) (hstage : m.stage = .cdbToRetire)
    (hidle : ∀ u j, ¬ (m.sim.fu u).Has j) (hstation : ∃ u j, (m.sim.reserv u).Has j) :
    Soon trace 3 m := by
  classical
  obtain ⟨s₁, s₂, s₃, chosen, started, hcalls⟩ := first_calls h hstage
  obtain ⟨hcycle, left₀, htimeline₀⟩ := timeline_of_run h
  have hidle₁ : ∀ u j, ¬ (s₁.fu u).Has j := fun u j => by
    rw [hcalls.retires.fu]
    exact hidle u j
  have hchosen : chosen = none := by
    cases hchosen : chosen with
    | none => rfl
    | some insn =>
        obtain ⟨u, ⟨hu, -⟩, -⟩ := hcalls.executes.complete insn hchosen
        exact absurd hu (hidle₁ u insn)
  have hreserv : ∀ u j, (s₂.reserv u).Has j ↔ (m.sim.reserv u).Has j := by
    intro u j
    rw [hcalls.executes.reserv, hcalls.retires.reserv]
    simp [hidle₁, hchosen]
  have hidle₂ : ∀ u j, ¬ (s₂.fu u).Has j := fun u j hj =>
    hidle₁ u j ((hcalls.executes.fu u j).mp hj).1.1
  -- the oldest one of them
  have hsome : ∃ j u, (s₂.reserv u).Has j := by
    obtain ⟨u, j, hj⟩ := hstation
    exact ⟨j, u, (hreserv u j).mpr hj⟩
  have hfirst := Nat.find_spec hsome
  have holdest : ∀ v p, (s₂.reserv v).Has p → Nat.find hsome ≤ p := fun v p hp =>
    Nat.find_min' hsome ⟨v, hp⟩
  generalize Nat.find hsome = j at hfirst holdest
  obtain ⟨u, hj⟩ := hfirst
  have hrun₂ : (runTomasulo trace).Reachable ⟨s₂, m.cycle, .issueToExecute⟩ :=
    (h.step (l := ()) trivial hcalls.step₁).step (l := ()) trivial hcalls.step₂
  obtain ⟨-, left, htimeline⟩ := timeline_of_run hrun₂
  obtain ⟨t, ht⟩ := Nat.exists_eq_succ_of_ne_zero hcycle.ne'
  have hoccupied : ∀ p, (s₂.table p).tomCdbCycle ≤ t := by
    intro p
    have hle := htimeline₀.stamped.cdb_le p
    have hclock : m.clock.complete = t := by simp [Machine.clock, hstage, ht]
    rw [hcalls.executes.table, hchosen, if_neg (Option.some_ne_none _).symm,
      (hcalls.retires.cycles p).cdb]
    exact hle.trans hclock.le
  have htimeline₂ : Timeline trace ⟨t + 1, t + 1, t, t, t⟩ s₂ left := by
    rw [ht] at htimeline
    exact htimeline
  have hready := oldest_ready htimeline₂ hoccupied holdest
  refine Soon.later hcalls.step₁ (Soon.later hcalls.step₂ (Soon.now hcalls.step₃ ?_))
  -- what is in a unit now was not there before the call
  have hstarts : ∀ i, (s₃.fu u).Has i → Moves s₂ s₃ := by
    intro i hi
    have hin : i ∈ started :=
      (((hcalls.issues.fu u i).mp hi).resolve_left (hidle₂ u i)).2
    refine .executes i ?_ ?_
    · by_contra hne
      obtain ⟨v, hv, hout⟩ := (hcalls.issues.ready i hin).1
      exact hout ((htimeline.occupied.fu v i).mpr ⟨hv, hne⟩)
    · show (s₃.table i).tomExecuteCycle ≠ 0
      rw [hcalls.issues.table, if_pos hin]
      exact hcycle.ne'
  rcases hcalls.issues.stalled u with hfull | hwaits
  · have hslot : ∃ i, (s₃.fu u) i ≠ none := by
      cases u
      · exact ⟨0, SlotArray.is_full_iff.mp hfull 0⟩
      · exact ⟨0, SlotArray.is_full_iff.mp hfull 0⟩
    obtain ⟨i, hi⟩ := hslot
    obtain ⟨insn, hinsn⟩ := Option.ne_none_iff_exists'.mp hi
    exact hstarts insn ⟨i, hinsn⟩
  · by_cases hin : (s₃.fu u).Has j
    · exact hstarts j hin
    · obtain ⟨a, ha⟩ := hwaits j hj hin
      exact absurd (hready a) ha

/-! ## The queue -/

/-- Stations that have nothing in them are not full. -/
theorem not_full_of_empty {u : FuClass} (h : ∀ j, ¬ (s.reserv u).Has j) :
    (s.reserv u).isFull ≠ true := by
  intro hfull
  have hslot : ∃ i, (s.reserv u) i ≠ none := by
    cases u
    · exact ⟨0, SlotArray.is_full_iff.mp hfull 0⟩
    · exact ⟨0, SlotArray.is_full_iff.mp hfull 0⟩
  obtain ⟨i, hi⟩ := hslot
  obtain ⟨j, hj⟩ := Option.ne_none_iff_exists'.mp hi
  exact h j ⟨i, hj⟩

/-- With all stations and units empty, the head of the queue leaves it. -/
theorem soon_of_queued (h : (runTomasulo trace).Reachable m) (hstage : m.stage = .cdbToRetire)
    (hempty : ∀ u j, ¬ (m.sim.reserv u).Has j) {insn : Nat} (hinsn : m.sim.Queued insn) :
    Soon trace 4 m := by
  obtain ⟨s₁, s₂, s₃, chosen, started, hcalls⟩ := first_calls h hstage
  have hrun₃ : (runTomasulo trace).Reachable ⟨s₃, m.cycle, .dispatchToIssue⟩ :=
    ((h.step (l := ()) trivial hcalls.step₁).step (l := ()) trivial hcalls.step₂).step (l := ())
      trivial hcalls.step₃
  obtain ⟨-, left, htimeline⟩ := timeline_of_run hrun₃
  obtain ⟨l, hqueue, hsorted, hmem⟩ := htimeline.in_order.queue
  have hempty₃ : ∀ u, (s₃.reserv u).isFull ≠ true := fun u =>
    not_full_of_empty fun j hin => by
      rw [hcalls.issues.reserv, hcalls.executes.reserv, hcalls.retires.reserv] at hin
      exact hempty u j hin.1.1
  have hinsn₃ : s₃.Queued insn := by
    rw [Sim.Queued, hcalls.issues.queue, hcalls.executes.queue, hcalls.retires.queue]
    exact hinsn
  refine Soon.later hcalls.step₁ (Soon.later hcalls.step₂ (Soon.later hcalls.step₃ ?_))
  rcases @dispatchToIssue_spec trace m.cycle s₃ l hqueue fun j hj => ((hmem j).mp hj).1.2.2 with
    ⟨rfl, -⟩ | ⟨first, rest, rfl, hcases⟩
  · exact nomatch hqueue.mem_iff.mp hinsn₃
  · have hfirst : s₃.Queued first := hqueue.mem_iff.mpr List.mem_cons_self
    have hleft : first ∉ rest := fun hin =>
      lt_irrefl first ((List.pairwise_cons.mp hsorted).1 first hin)
    rcases hcases with ⟨-, queue, hrest, heq⟩ | ⟨u, -, hfull, -⟩ | ⟨u, s₄, -, hrest, heq⟩
    · have hstep : step trace ⟨s₃, m.cycle, .dispatchToIssue⟩ =
          some ⟨{ s₃ with instrQueue := queue }, m.cycle, .fetchToDispatch⟩ := by simp [step, heq]
      exact Soon.now hstep (.leavesQueue first hfirst fun hin => hleft (hrest.mem_iff.mp hin))
    · exact absurd hfull (hempty₃ u)
    · have hstep : step trace ⟨s₃, m.cycle, .dispatchToIssue⟩ =
          some ⟨s₄, m.cycle, .fetchToDispatch⟩ := by simp [step, heq]
      exact Soon.now hstep (.leavesQueue first hfirst fun hin => hleft (hrest.mem_iff.mp hin))

/-- In the first cycle an instruction is fetched, if there is one. -/
theorem soon_of_fetchable {j : Nat} (hj : Fetchable trace j) : Soon trace 5 .initial := by
  have h : (runTomasulo trace).Reachable .initial := .init rfl
  obtain ⟨s₁, s₂, s₃, chosen, started, hcalls⟩ := first_calls h rfl
  have hrun₃ : (runTomasulo trace).Reachable ⟨s₃, 1, .dispatchToIssue⟩ :=
    ((h.step (l := ()) trivial hcalls.step₁).step (l := ()) trivial hcalls.step₂).step (l := ())
      trivial hcalls.step₃
  have hqueue : s₃.instrQueue.Holds [] := by
    rw [hcalls.issues.queue, hcalls.executes.queue, hcalls.retires.queue]
    exact RingBuffer.holds_empty (by decide)
  have hfetch : s₃.fetchIndex = 0 := by
    rw [hcalls.issues.fetch, hcalls.executes.fetch, hcalls.retires.fetch]
    rfl
  have hissue : dispatchToIssue trace 1 s₃ = some s₃ := by
    rw [dispatchToIssue, if_pos (hqueue.is_empty.mpr rfl)]
  have hstep₄ : step trace ⟨s₃, 1, .dispatchToIssue⟩ = some ⟨s₃, 1, .fetchToDispatch⟩ := by
    simp [step, hissue]
  obtain ⟨-, left, htimeline⟩ := timeline_of_run (hrun₃.step (l := ()) trivial hstep₄)
  refine Soon.later hcalls.step₁ (Soon.later hcalls.step₂ (Soon.later hcalls.step₃
    (Soon.later hstep₄ ?_)))
  rcases htimeline.in_order.fetch_cases 1 hqueue with
    ⟨hfull, -⟩ | ⟨-, index, -, -, hnone, -⟩ | ⟨insn, queue, hnext, -, heq⟩
  · cases hfull
  · exact absurd hj (hnone j (by rw [hfetch]; exact hj.1))
  · refine Soon.now (show step trace ⟨s₃, 1, .fetchToDispatch⟩ = some _ by simp [step, heq]; rfl)
      (.fetched insn ?_ (by simp))
    by_contra hne
    exact absurd ((htimeline.in_order.dispatched insn).mp hne).2 (not_le.mpr hnext.lt)

/-- From every point where the loop goes on, something moves within nine cycles. -/
theorem moves_soon (h : (runTomasulo trace).Reachable m) (hstage : m.stage = .cdbToRetire)
    (htested : 1 < m.cycle ∨ ∃ j, Fetchable trace j) : Soon trace 45 m := by
  by_cases hfu : ∃ u j, (m.sim.fu u).Has j
  · obtain ⟨u, j, hj⟩ := hfu
    exact (soon_of_busy h hstage hj).mono (by decide)
  simp only [not_exists] at hfu
  by_cases hreserv : ∃ u j, (m.sim.reserv u).Has j
  · exact (soon_of_stationed h hstage hfu hreserv).mono (by decide)
  simp only [not_exists] at hreserv
  by_cases hqueue : ∃ j, m.sim.Queued j
  · obtain ⟨j, hj⟩ := hqueue
    exact (soon_of_queued h hstage hreserv hj).mono (by decide)
  -- nothing is left, so that this is where the run begins
  have hfirst : ¬ 1 < m.cycle := by
    intro hcycle
    obtain ⟨hdone, hleft⟩ := queued_or_fetched h hcycle (Or.inl hstage)
    have hreturned := hdone.mp (is_simulation_done_iff.mpr
      ⟨hleft.resolve_right hqueue, hreserv, hfu⟩)
    rw [hstage] at hreturned
    exact nomatch hreturned
  obtain ⟨j, hj⟩ := htested.resolve_left hfirst
  rcases last_call h with rfl | ⟨m₀, hrun, hstep⟩
  · exact (soon_of_fetchable hj).mono (by decide)
  · have hpos := (timeline_of_run hrun).1
    obtain ⟨-, rfl⟩ | ⟨-, sim, -, rfl⟩ | ⟨-, rfl⟩ | ⟨-, sim, -, rfl⟩ | ⟨-, sim, -, rfl⟩ :=
      step_cases hstep
    · exact nomatch hstage
    · exact nomatch hstage
    · exact nomatch hstage
    · exact nomatch hstage
    · exact absurd (Nat.succ_lt_succ hpos) hfirst

/-! ## The end of the loop -/

/-- What an instruction does once. -/
inductive Event where
  | fetched | dequeued | executed | onCdb | leftUnit
  deriving DecidableEq

/-- There are five events. -/
instance : Fintype Event where
  elems := {.fetched, .dequeued, .executed, .onCdb, .leftUnit}
  complete := fun e => by cases e <;> decide

/-- The instruction has done it. -/
def Happened (s : Sim) (j : Nat) : Event → Prop
  | .fetched => (s.table j).tomDispatchCycle ≠ 0
  | .dequeued => (s.table j).tomDispatchCycle ≠ 0 ∧ ¬ s.Queued j
  | .executed => (s.table j).tomExecuteCycle ≠ 0
  | .onCdb => (s.table j).tomCdbCycle ≠ 0
  | .leftUnit => (s.table j).tomExecuteCycle ≠ 0 ∧ ∀ u, ¬ (s.fu u).Has j

open Classical in
/-- What the instructions of the trace have still to do. -/
noncomputable def remaining (trace : Trace) (s : Sim) : Finset (Nat × Event) :=
  (Finset.range (trace.length + 1) ×ˢ Finset.univ).filter fun e => ¬ Happened s e.1 e.2

/-- What remains has not happened. -/
theorem mem_remaining {j : Nat} {e : Event} :
    (j, e) ∈ remaining trace s ↔ j ≤ trace.length ∧ ¬ Happened s j e := by
  simp only [remaining, Finset.mem_filter, Finset.mem_product, Finset.mem_range, Finset.mem_univ,
    and_true, Nat.lt_succ_iff]

/-- The clock of execution to the common data bus does not go back. -/
theorem complete_mono (hstep : step trace m = some m') :
    m.clock.complete ≤ m'.clock.complete := by
  obtain ⟨hstage, rfl⟩ | ⟨hstage, sim, -, rfl⟩ | ⟨hstage, rfl⟩ | ⟨hstage, sim, -, rfl⟩ |
    ⟨hstage, sim, -, rfl⟩ := step_cases hstep
  · simp [Machine.clock, hstage]
  · simp [Machine.clock, hstage]
  · simp [Machine.clock, hstage]
  · simp [Machine.clock, hstage]
  · by_cases hdone : isSimulationDone trace.length sim = true <;>
      simp [Machine.clock, hstage, hdone]

/-- What was issued and has left its unit is finished. -/
theorem Timeline.left_unit_iff (h : Timeline trace k s left) {j : Nat} :
    Happened s j .leftUnit ↔ (s.table j).tomExecuteCycle ≠ 0 ∧ Finished trace k s j := by
  refine and_congr_right fun hexecute => ?_
  have hissue := (h.stamped.issue_lt_execute j hexecute).1
  constructor
  · intro hleft
    by_contra hfinish
    obtain ⟨u, hu⟩ := h.stationed hissue hfinish
    exact hleft u ((h.occupied.fu u j).mpr ⟨hu, hexecute⟩)
  · intro hfinish u hu
    exact ((h.occupied.reserv u j).mp ((h.occupied.fu u j).mp hu).1).2.2 hfinish

/-- What has happened stays so. -/
theorem happened_of_step (h : (runTomasulo trace).Reachable m) (hstep : step trace m = some m')
    {j : Nat} {e : Event} (hhappened : Happened m.sim j e) : Happened m'.sim j e := by
  obtain ⟨hcycle, left, htimeline⟩ := timeline_of_run h
  have hstage : m.stage ≠ .returned := by
    intro hreturned
    simp [step, hreturned] at hstep
  obtain ⟨m'', left', heq, hle, -, htimeline', hrecorded⟩ := htimeline.step hcycle hstage
  obtain rfl := Option.some.inj (heq.symm.trans hstep)
  have hkept := (hrecorded j).kept
  cases e with
  | fetched =>
      show _ ≠ 0
      rw [hkept.dispatch hhappened]
      exact hhappened
  | dequeued =>
      obtain ⟨hdispatch, hqueued⟩ := hhappened
      obtain ⟨hfetch, hindex⟩ := (htimeline.in_order.dispatched j).mp hdispatch
      rw [htimeline.in_order.queued_iff] at hqueued
      refine ⟨?_, fun hqueued' => ?_⟩
      · rw [hkept.dispatch hdispatch]
        exact hdispatch
      · obtain ⟨-, hlt, -⟩ := htimeline'.in_order.queued_iff.mp hqueued'
        exact hqueued ⟨hfetch, hle.trans_lt hlt, hindex⟩
  | executed =>
      show _ ≠ 0
      rw [hkept.execute hhappened]
      exact hhappened
  | onCdb =>
      show _ ≠ 0
      rw [hkept.cdb hhappened]
      exact hhappened
  | leftUnit =>
      rw [htimeline.left_unit_iff] at hhappened
      rw [htimeline'.left_unit_iff]
      obtain ⟨hexecute, hfinish⟩ := hhappened
      refine ⟨?_, hfinish.imp (fun hne => ?_) fun hstored => ?_⟩
      · rw [hkept.execute hexecute]
        exact hexecute
      · rw [hkept.cdb hne]
        exact hne
      obtain ⟨hop, hne, hready⟩ := hstored
      refine ⟨hop, ?_, ?_⟩
      · rw [hkept.execute hne]
        exact hne
      · rw [hkept.execute hne]
        exact hready.trans (complete_mono hstep)

/-- Whoever moves does something new. -/
theorem Moves.event (h : (runTomasulo trace).Reachable m) (hstep : step trace m = some m')
    (hmoves : Moves m.sim m'.sim) :
    ∃ j e, j ≤ trace.length ∧ ¬ Happened m.sim j e ∧ Happened m'.sim j e := by
  obtain ⟨-, left, htimeline⟩ := timeline_of_run h
  obtain ⟨-, left', htimeline'⟩ := timeline_of_run (h.step (l := ()) trivial hstep)
  have hissued : ∀ {j}, (m'.sim.table j).tomExecuteCycle ≠ 0 → j ≤ trace.length := by
    intro j hexecute
    have hissue := (htimeline'.stamped.issue_lt_execute j hexecute).1
    exact ((htimeline'.in_order.issued j).mp hissue).1.1.2.1
  cases hmoves with
  | fetched j hold hnew =>
      exact ⟨j, .fetched, ((htimeline'.in_order.dispatched j).mp hnew).1.2.1, fun h => h hold, hnew⟩
  | leavesQueue j hin hout =>
      obtain ⟨hfetch, -, hindex⟩ := htimeline.in_order.queued_iff.mp hin
      have hdispatch : Happened m.sim j .fetched :=
        (htimeline.in_order.dispatched j).mpr ⟨hfetch, hindex⟩
      exact ⟨j, .dequeued, hfetch.2.1, fun h => h.2 hin, happened_of_step h hstep hdispatch, hout⟩
  | executes j hold hnew => exact ⟨j, .executed, hissued hnew, fun h => h hold, hnew⟩
  | goesOnCdb j hold hnew =>
      have hexecute := (htimeline'.stamped.execute_add_latency_le j hnew).1
      exact ⟨j, .onCdb, hissued hexecute, fun h => h hold, hnew⟩
  | leavesUnit u j hin hout =>
      obtain ⟨hstation, hexecute⟩ := (htimeline.occupied.fu u j).mp hin
      have hexecute' : Happened m'.sim j .executed := happened_of_step h hstep hexecute
      refine ⟨j, .leftUnit, hissued hexecute', fun h => h.2 u hin, hexecute', fun v hv => ?_⟩
      -- the classes are those of the opcode
      have hclass := ((htimeline.occupied.reserv u j).mp hstation).1
      rw [((htimeline'.occupied.reserv v j).mp ((htimeline'.occupied.fu v j).mp hv).1).1] at hclass
      obtain rfl := Option.some.inj hclass
      exact hout hv

/-- What remains after a call remained before. -/
theorem remaining_of_step (h : (runTomasulo trace).Reachable m) (hstep : step trace m = some m') :
    remaining trace m'.sim ⊆ remaining trace m.sim := by
  rintro ⟨j, e⟩ he
  rw [mem_remaining] at he ⊢
  exact ⟨he.1, fun hold => he.2 (happened_of_step h hstep hold)⟩

/-- What remains after a run remained before. -/
theorem remaining_of_run {calls : Nat} (h : (runTomasulo trace).Reachable m)
    (hrun : run trace calls m = some m') : remaining trace m'.sim ⊆ remaining trace m.sim := by
  induction calls generalizing m with
  | zero =>
      obtain rfl := Option.some.inj hrun
      exact Finset.Subset.refl _
  | succ calls ih =>
      rw [run, Option.bind_eq_some_iff] at hrun
      obtain ⟨m₁, hstep, hrest⟩ := hrun
      exact (ih (h.step (l := ()) trivial hstep) hrest).trans (remaining_of_step h hstep)

/-- Less remains to be done when something moves. -/
theorem remaining_lt (h : (runTomasulo trace).Reachable m) (hstep : step trace m = some m')
    (hmoves : Moves m.sim m'.sim) :
    (remaining trace m'.sim).card < (remaining trace m.sim).card := by
  obtain ⟨j, e, hj, hold, hnew⟩ := hmoves.event h hstep
  refine Finset.card_lt_card ((Finset.ssubset_iff_of_subset (remaining_of_step h hstep)).mpr
    ⟨(j, e), mem_remaining.mpr ⟨hj, hold⟩, fun hin => ?_⟩)
  exact (mem_remaining.mp hin).2 hnew

/-- One run after another. -/
theorem run_add (calls calls' : Nat) (m : Machine) :
    run trace (calls + calls') m = (run trace calls m).bind (run trace calls') := by
  induction calls generalizing m with
  | zero => simp [run]
  | succ calls ih =>
      rw [Nat.succ_add, run, run, Option.bind_assoc]
      exact congrArg _ (funext ih)

/-- A call is within a cycle or the last one of it. -/
theorem cycle_of_step (hstep : step trace m = some m') :
    (m'.cycle = m.cycle ∧ m'.stage ≠ .returned) ∨
      (m'.cycle = m.cycle + 1 ∧ (m'.stage = .cdbToRetire ∨ m'.stage = .returned)) := by
  obtain ⟨-, rfl⟩ | ⟨-, sim, -, rfl⟩ | ⟨-, rfl⟩ | ⟨-, sim, -, rfl⟩ | ⟨-, sim, -, rfl⟩ :=
    step_cases hstep
  · exact Or.inl ⟨rfl, nofun⟩
  · exact Or.inl ⟨rfl, nofun⟩
  · exact Or.inl ⟨rfl, nofun⟩
  · exact Or.inl ⟨rfl, nofun⟩
  · refine Or.inr ⟨rfl, ?_⟩
    by_cases hdone : isSimulationDone trace.length sim = true <;> simp [hdone]

/-- The calls left in a cycle can be made. -/
theorem run_to_head (calls : Nat) (h : (runTomasulo trace).Reachable m)
    (hstage : m.stage ≠ .returned) (hcalls : 5 * m.cycle + 4 ≤ m.position + calls) :
    ∃ calls m', run trace calls m = some m' ∧ m'.cycle = m.cycle + 1 ∧
      (m'.stage = .cdbToRetire ∨ m'.stage = .returned) := by
  induction calls generalizing m with
  | zero =>
      obtain ⟨hcycle, left, htimeline⟩ := timeline_of_run h
      obtain ⟨m', -, hstep, -⟩ := htimeline.step hcycle hstage
      rcases cycle_of_step hstep with ⟨hsame, -⟩ | hhead
      · have hnext := position_step hstep
        have hle := m'.position_le
        omega
      · exact ⟨1, m', by simp [run, hstep], hhead⟩
  | succ calls ih =>
      obtain ⟨hcycle, left, htimeline⟩ := timeline_of_run h
      obtain ⟨m', -, hstep, -⟩ := htimeline.step hcycle hstage
      rcases cycle_of_step hstep with ⟨hsame, hgoes⟩ | hhead
      · have hnext := position_step hstep
        obtain ⟨i, m₂, hrun, hhead⟩ := ih (h.step (l := ()) trivial hstep) hgoes (by omega)
        refine ⟨i + 1, m₂, ?_, by rwa [hsame] at hhead⟩
        rw [run, hstep]
        exact hrun
      · exact ⟨1, m', by simp [run, hstep], hhead⟩

/-- From every state of a run the loop ends. -/
theorem returns_of_reachable (h : (runTomasulo trace).Reachable m) :
    ∃ calls m', run trace calls m = some m' ∧ m'.stage = .returned := by
  generalize hcard : (remaining trace m.sim).card = n
  induction n using Nat.strong_induction_on generalizing m with
  | _ n ih =>
      by_cases hstage : m.stage = .returned
      · exact ⟨0, m, rfl, hstage⟩
      obtain ⟨i, m₁, hrun₁, hcycle₁, hhead⟩ := run_to_head 4 h hstage (by
        rw [Machine.position]
        omega)
      have hreach₁ := reachable_of_run h hrun₁
      have hpos := (timeline_of_run h).1
      rcases hhead with hhead | hreturned
      · obtain ⟨i₂, -, m₂, m₃, hrun₂, hstep₃, hmoves⟩ :=
          moves_soon hreach₁ hhead (Or.inl (by omega))
        have hreach₂ := reachable_of_run hreach₁ hrun₂
        have hsub := (remaining_of_run hreach₁ hrun₂).trans (remaining_of_run h hrun₁)
        have hlt := (remaining_lt hreach₂ hstep₃ hmoves).trans_le (Finset.card_le_card hsub)
        obtain ⟨i₄, m₄, hrun₄, hreturned⟩ :=
          ih _ (hcard ▸ hlt) (hreach₂.step (l := ()) trivial hstep₃) rfl
        refine ⟨i + (i₂ + (1 + i₄)), m₄, ?_, hreturned⟩
        rw [run_add, hrun₁, Option.bind_some, run_add, hrun₂, Option.bind_some, run_add]
        simp [run, hstep₃, hrun₄]
      · exact ⟨i, m₁, hrun₁, hreturned⟩

/-- The main loop ends for every trace. Wherever it goes on after its test, and in the first cycle
of a trace that has something to fetch, an instruction is fetched, leaves the queue, starts
execution, goes on the bus or leaves a unit in one of the next nine cycles. -/
theorem loop_ends (trace : Trace) :
    (∃ calls m, run trace calls .initial = some m ∧ m.stage = .returned) ∧
      ∀ m, (runTomasulo trace).Reachable m → m.stage = .cdbToRetire →
        (1 < m.cycle ∨ ∃ j, Fetchable trace j) → Soon trace 45 m :=
  ⟨returns_of_reachable (.init rfl), fun _ => moves_soon⟩

set_option maxRecDepth 20000 in
/-- After seven cycles the addition waits for the load, and something moves soon. -/
theorem loop_ends_load_add_store :
    Soon loadAddStore 45 ((run loadAddStore 35 .initial).get (by decide +kernel)) :=
  (loop_ends loadAddStore).2 _ (reachable_get (by decide +kernel)) (by decide +kernel)
    (Or.inl (by decide +kernel))

end Ece552.Tomasulo
