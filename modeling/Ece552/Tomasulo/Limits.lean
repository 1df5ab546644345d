import Ece552.Tomasulo.Completion
import Mathlib.Combinatorics.Enumerative.DoubleCounting
import Mathlib.Order.Interval.Finset.Nat

/-!
# Limits on the number of cycles

A run takes as many cycles as there are instructions to fetch, as the units of each class need for
their instructions, and as the longest chain of dependences takes. The second limit is that at no
time more instructions are executing than there are units, which is counted over all the cycles.
-/

namespace Ece552.Tomasulo

open Library

/-- The latency of the units of a class. -/
abbrev fuLatency : FuClass → Nat
  | .INT => FU_INT_LATENCY
  | .FP => FU_FP_LATENCY

/-- The instructions of a trace that use the units of a class. -/
def usesFu (trace : Trace) (u : FuClass) : Finset Nat :=
  (Finset.Icc 1 trace.length).filter fun j => fuClass (opAt trace j) = some u

/-- The instructions that are fetched. -/
def fetchables (trace : Trace) : Finset Nat :=
  (Finset.Icc 1 trace.length).filter fun j => Fetchable trace j

/-- The place of an instruction among those that are fetched. -/
def fetchOrder (trace : Trace) (j : Nat) : Nat :=
  ((fetchables trace).filter fun i => i ≤ j).card

/-- The instructions that are executing in a cycle. -/
def executing (trace : Trace) (s : Sim) (u : FuClass) (c : Nat) : Finset Nat :=
  (usesFu trace u).filter fun j => (s.table j).tomExecuteCycle ≠ 0 ∧
    (s.table j).tomExecuteCycle ≤ c ∧ c < (s.table j).tomExecuteCycle + fuLatency u

/-- A chain of dependences that ends with an instruction, which is then not executed before the
given cycle. One instruction is dispatched in a cycle, and issued and executed after that. -/
inductive DependenceChain (trace : Trace) : Nat → Nat → Prop where
  | first {j : Nat} : Enters trace j → DependenceChain trace j (fetchOrder trace j + 2)
  | next {p j k : Nat} {a : Fin MAX_INPUT_REGS} {r : Reg} : DependenceChain trace p k →
      (getInstr trace j).rIn a = some r → producer trace j r = some p →
      DependenceChain trace j (k + latency (opAt trace p) + 1)

variable {trace : Trace} {m m' : Machine} {s : Sim} {u : FuClass} {k : Clock} {left : Nat}

/-- Jobs that run for the same time, and never more than some number of them at once, take as long
as one after another on so many machines. -/
theorem card_mul_le_of_running {ι : Type*} {jobs : Finset ι} {begins : ι → Nat} {time last n : Nat}
    (hwithin : ∀ j ∈ jobs, 1 ≤ begins j ∧ begins j + time ≤ last + 1)
    (hrunning : ∀ c, 1 ≤ c → c ≤ last →
      (jobs.filter fun j => begins j ≤ c ∧ c < begins j + time).card ≤ n) :
    jobs.card * time ≤ last * n := by
  have habove : ∀ j ∈ jobs, time ≤ ((Finset.Icc 1 last).bipartiteAbove
      (fun j c => begins j ≤ c ∧ c < begins j + time) j).card := by
    intro j hj
    obtain ⟨hpos, hends⟩ := hwithin j hj
    have hsub : Finset.Ico (begins j) (begins j + time) ⊆ (Finset.Icc 1 last).bipartiteAbove
        (fun j c => begins j ≤ c ∧ c < begins j + time) j := by
      intro c hc
      obtain ⟨hle, hlt⟩ := Finset.mem_Ico.mp hc
      exact Finset.mem_filter.mpr ⟨Finset.mem_Icc.mpr ⟨by omega, by omega⟩, hle, hlt⟩
    have hcard := Finset.card_le_card hsub
    rwa [Nat.card_Ico, Nat.add_sub_cancel_left] at hcard
  have hcount := Finset.card_mul_le_card_mul _ habove fun c hc =>
    hrunning c (Finset.mem_Icc.mp hc).1 (Finset.mem_Icc.mp hc).2
  rwa [Nat.card_Icc, Nat.add_sub_cancel] at hcount

theorem latency_of_fu_class {op : Opcode} (h : fuClass op = some u) : latency op = fuLatency u := by
  revert u
  cases op <;> decide

/-- What uses a unit takes a station. -/
theorem mem_usesFu {j : Nat} :
    j ∈ usesFu trace u ↔ Enters trace j ∧ fuClass (opAt trace j) = some u := by
  rw [usesFu, Finset.mem_filter, Finset.mem_Icc]
  constructor
  · rintro ⟨⟨hpos, hle⟩, hclass⟩
    obtain ⟨htrap, hbranch⟩ := not_branch_of_fu_class hclass
    exact ⟨⟨⟨hpos, hle, htrap⟩, hbranch⟩, hclass⟩
  · rintro ⟨⟨⟨hpos, hle, -⟩, -⟩, hclass⟩
    exact ⟨⟨hpos, hle⟩, hclass⟩

theorem mem_executing {c j : Nat} : j ∈ executing trace s u c ↔ j ∈ usesFu trace u ∧
    (s.table j).tomExecuteCycle ≠ 0 ∧ (s.table j).tomExecuteCycle ≤ c ∧
    c < (s.table j).tomExecuteCycle + fuLatency u := by
  rw [executing, Finset.mem_filter]

/-! ## Units -/

/-- An instruction is finished after it was executing for as long as its unit takes. -/
theorem Stamped.le_of_finished (h : Stamped trace k s) {j : Nat}
    (hclass : fuClass (opAt trace j) = some u) (hfinished : Finished trace k s j) :
    (s.table j).tomExecuteCycle + fuLatency u ≤ k.complete := by
  rcases hfinished with hcdb | ⟨hstore, -, hle⟩
  · have hle := (h.execute_add_latency_le j hcdb).2.2
    rw [latency_of_fu_class hclass] at hle
    exact hle.trans (h.cdb_le j)
  · rw [store_uses_int hstore] at hclass
    obtain rfl := Option.some.inj hclass
    exact hle

/-- What is executing in the current cycle is in a unit. -/
theorem Timeline.fu_of_executing (h : Timeline trace k s left) {c j : Nat} (hc : k.complete ≤ c)
    (hj : j ∈ executing trace s u c) : (s.fu u).Has j := by
  obtain ⟨huses, hexecuted, -, hlt⟩ := mem_executing.mp hj
  have hclass := (mem_usesFu.mp huses).2
  have hissued := (h.stamped.issue_lt_execute j hexecuted).1
  refine (h.occupied.fu u j).mpr
    ⟨(h.occupied.reserv u j).mpr ⟨hclass, hissued, fun hfinished => ?_⟩, hexecuted⟩
  exact absurd (h.stamped.le_of_finished hclass hfinished) (not_le.mpr (hc.trans_lt hlt))

/-- There are no more instructions in the units than there are units. -/
theorem card_le_of_fu {S : Finset Nat} (h : ∀ j ∈ S, (s.fu u).Has j) : S.card ≤ fuSize u := by
  classical
  have hsub : S.image some ⊆ Finset.univ.image (s.fu u) := by
    intro o ho
    obtain ⟨j, hj, rfl⟩ := Finset.mem_image.mp ho
    obtain ⟨i, hi⟩ := h j hj
    exact Finset.mem_image.mpr ⟨i, Finset.mem_univ i, hi⟩
  have hcard := (Finset.card_le_card hsub).trans Finset.card_image_le
  rwa [Finset.card_image_of_injective _ (Option.some_injective _), Finset.card_univ,
    Fintype.card_fin] at hcard

/-- Execution goes on up to the current cycle, and was up to the last one at least. -/
theorem execute_of_step (h : step trace m = some m') :
    m'.clock.execute ≤ m.cycle ∧ m.cycle - 1 ≤ m.clock.execute := by
  have hclock : m.cycle - 1 ≤ m.clock.execute := by
    rw [Machine.clock]
    cases m.stage <;> simp
  refine ⟨?_, hclock⟩
  obtain ⟨-, rfl⟩ | ⟨-, sim, -, rfl⟩ | ⟨-, rfl⟩ | ⟨-, sim, -, rfl⟩ | ⟨-, sim, -, rfl⟩ :=
    step_cases h
  · exact Nat.sub_le _ _
  · exact Nat.sub_le _ _
  · exact le_rfl
  · exact le_rfl
  · by_cases hdone : isSimulationDone trace.length sim = true <;> simp [Machine.clock, hdone]

/-- In no cycle of a run are more instructions executing than there are units. -/
theorem executing_le (h : (runTomasulo trace).Reachable m) :
    ∀ u c, c ≤ m.clock.execute → (executing trace m.sim u c).card ≤ fuSize u := by
  refine TransitionSystem.Run.invariant (I := fun m =>
    ∀ u c, c ≤ m.clock.execute → (executing trace m.sim u c).card ≤ fuSize u) ?_ ?_ h
  · rintro m rfl u c -
    exact card_le_of_fu (s := .initial) fun j hj => absurd rfl (mem_executing.mp hj).2.1
  · intro m _ m' hrun ih _ hstep u c hc
    have hrecorded := recorded_of_step hrun hstep
    obtain ⟨hle, hge⟩ := execute_of_step hstep
    by_cases hold : c < m.cycle ∧ c ≤ m.clock.execute
    · -- what has started since then was not executing
      refine (Finset.card_le_card fun j hj => ?_).trans (ih u c hold.2)
      obtain ⟨huses, hexecuted, hstarted, hlt⟩ := mem_executing.mp hj
      rcases (hrecorded j).execute with heq | ⟨-, heq⟩
      · rw [heq] at hexecuted hstarted hlt
        exact mem_executing.mpr ⟨huses, hexecuted, hstarted, hlt⟩
      · omega
    · obtain ⟨-, left, htimeline⟩ := timeline_of_run (hrun.step (l := ()) trivial hstep)
      have hcomplete := complete_le_of_step hstep
      exact card_le_of_fu fun j hj => htimeline.fu_of_executing (by omega) hj

/-! ## Chains -/

/-- One instruction is dispatched in a cycle. -/
theorem Stamped.card_le (h : Stamped trace k s) {S : Finset Nat} {c : Nat}
    (hS : ∀ j ∈ S, (s.table j).tomDispatchCycle ≠ 0 ∧ (s.table j).tomDispatchCycle ≤ c) :
    S.card ≤ c := by
  have hcard : S.card ≤ (Finset.Icc 1 c).card := by
    refine Finset.card_le_card_of_injOn (fun j => (s.table j).tomDispatchCycle)
      (fun j hj => ?_) fun a ha b hb hab => ?_
    · exact Finset.mem_coe.mpr
        (Finset.mem_Icc.mpr ⟨Nat.pos_of_ne_zero (hS j hj).1, (hS j hj).2⟩)
    · exact injective_of_strict h.dispatch_strict (hS a ha).1 hab
  rwa [Nat.card_Icc, Nat.add_sub_cancel] at hcard

/-- An instruction is dispatched after those that are fetched before it. -/
theorem Timeline.order_le_dispatch (h : Timeline trace k s left) {j : Nat}
    (hdispatched : (s.table j).tomDispatchCycle ≠ 0) :
    fetchOrder trace j ≤ (s.table j).tomDispatchCycle := by
  refine h.stamped.card_le fun i hi => ?_
  obtain ⟨hmem, hij⟩ := Finset.mem_filter.mp hi
  have hdispatched' : (s.table i).tomDispatchCycle ≠ 0 := (h.in_order.dispatched i).mpr
    ⟨(Finset.mem_filter.mp hmem).2, hij.trans ((h.in_order.dispatched j).mp hdispatched).2⟩
  refine ⟨hdispatched', ?_⟩
  rcases hij.lt_or_eq with hlt | rfl
  · exact (h.stamped.dispatch_strict i j hdispatched' hdispatched hlt).le
  · exact le_rfl

/-- An instruction is not executed before the chains of dependences that end with it. -/
theorem Timeline.chain_le (h : Timeline trace k s left) {j c : Nat}
    (hchain : DependenceChain trace j c)
    (hexecuted : (s.table j).tomExecuteCycle ≠ 0) : c ≤ (s.table j).tomExecuteCycle := by
  induction hchain with
  | @first j _ =>
      obtain ⟨hissued, hissue⟩ := h.stamped.issue_lt_execute j hexecuted
      have hdispatch := h.stamped.dispatch_lt_issue j hissued
      have horder := h.order_le_dispatch (h.in_order.dispatched_of_issued hissued)
      omega
  | @next p j c a r _ hin hprod ih =>
      obtain ⟨hcdb, hlt⟩ := h.depends.after j a r p hexecuted hin hprod
      obtain ⟨hstarted, -, hle⟩ := h.stamped.execute_add_latency_le p hcdb
      have hchain := ih hstarted
      omega

/-! ## Cycles -/

/-- With the stations empty, what was issued has been executing for long enough. -/
theorem Timeline.ends_of_done (h : Timeline trace k s left) {j : Nat}
    (hdone : isSimulationDone trace.length s = true) (hj : j ∈ usesFu trace u)
    (hissued : (s.table j).tomIssueCycle ≠ 0) :
    (s.table j).tomExecuteCycle + fuLatency u ≤ k.complete := by
  have hclass := (mem_usesFu.mp hj).2
  by_contra hlong
  have hnot : ¬ Finished trace k s j := fun hfinished =>
    hlong (h.stamped.le_of_finished hclass hfinished)
  obtain ⟨v, hv⟩ := h.stationed hissued hnot
  exact (is_simulation_done_iff.mp hdone).2.1 v j hv

/-- When the loop has ended with an empty queue, it has taken a cycle for each instruction, the time
that the units of each class need for their instructions, and that of each chain of dependences. -/
theorem cycles_of_empty (h : (runTomasulo trace).Reachable m) (hstage : m.stage = .returned)
    (hempty : ∀ j, ¬ m.sim.Queued j) :
    (fetchables trace).card ≤ m.cycle - 1 ∧
    (∀ u, (usesFu trace u).card * fuLatency u ≤ (m.cycle - 1) * fuSize u) ∧
    ∀ j c, DependenceChain trace j c → Enters trace j → c ≤ m.cycle - 1 ∧
      (writesCdb (opAt trace j) = true → c + latency (opAt trace j) ≤ m.cycle - 1) := by
  have hdone := done_of_returned h hstage
  have hcomplete := complete_of_empty h hstage hdone hempty
  have hcompleted : m.clock.complete = m.cycle - 1 := by rw [Machine.clock, hstage]
  obtain ⟨-, left, htimeline⟩ := timeline_of_run h
  have hstamped := htimeline.stamped
  refine ⟨?_, fun u => ?_, fun j c hchain henters => ⟨?_, fun hwrites => ?_⟩⟩
  · refine hstamped.card_le fun j hj => ?_
    exact ⟨(hcomplete.fetched j (Finset.mem_filter.mp hj).2).1,
      Nat.le_sub_one_of_lt (hcomplete.cycles_lt j).1⟩
  · refine @card_mul_le_of_running _ _ (fun j => (m.sim.table j).tomExecuteCycle) _ _ _
      (fun j hj => ?_) fun c _ hc => ?_
    · have henters := hcomplete.executed j (mem_usesFu.mp hj).1
      have hends := htimeline.ends_of_done hdone hj henters.1
      rw [hcompleted] at hends
      exact ⟨Nat.pos_of_ne_zero henters.2, Nat.le_succ_of_le hends⟩
    · refine (Finset.card_le_card fun j hj => ?_).trans (executing_le h u c (hc.trans_eq ?_))
      · obtain ⟨huses, hle, hlt⟩ := Finset.mem_filter.mp hj
        exact mem_executing.mpr
          ⟨huses, (hcomplete.executed j (mem_usesFu.mp huses).1).2, hle, hlt⟩
      · rw [Machine.clock, hstage]
  · have hlt := (hcomplete.cycles_lt j).2.2.1
    have hle := htimeline.chain_le hchain (hcomplete.executed j henters).2
    omega
  · have hle := htimeline.chain_le hchain (hcomplete.executed j henters).2
    have hcdb := hcomplete.on_cdb j henters.1 hwrites
    have hlatency := (hstamped.execute_add_latency_le j hcdb).2.2
    have hlt := (hcomplete.cycles_lt j).2.2.2
    omega

/-- In no cycle of a run are more instructions executing than there are units, and none is executed
before the chains of dependences that end with it. So a run that ends with an empty queue has taken
as many cycles as the instructions, the units and the chains need. -/
theorem cycles_at_least (h : (runTomasulo trace).Reachable m) :
    (∀ u c, c ≤ m.clock.execute → (executing trace m.sim u c).card ≤ fuSize u) ∧
    (∀ j c, DependenceChain trace j c → (m.sim.table j).tomExecuteCycle ≠ 0 →
      c ≤ (m.sim.table j).tomExecuteCycle) ∧
    (m.stage = .returned → (∀ j, ¬ m.sim.Queued j) →
      (fetchables trace).card ≤ m.cycle - 1 ∧
      (∀ u, (usesFu trace u).card * fuLatency u ≤ (m.cycle - 1) * fuSize u) ∧
      ∀ j c, DependenceChain trace j c → Enters trace j → c ≤ m.cycle - 1 ∧
        (writesCdb (opAt trace j) = true → c + latency (opAt trace j) ≤ m.cycle - 1)) := by
  obtain ⟨-, left, htimeline⟩ := timeline_of_run h
  refine ⟨executing_le h, fun j c hchain hexecuted => ?_, fun hstage hempty => ?_⟩
  · exact htimeline.chain_le hchain hexecuted
  · exact cycles_of_empty h hstage hempty

set_option maxRecDepth 20000 in
/-- The store waits for the addition and the addition for the load. -/
theorem cycles_at_least_load_add_store :
    13 ≤ ((run loadAddStore 85 .initial).get (by decide +kernel)).cycle - 1 := by
  have hempty : ∀ i, i < INSTR_QUEUE_SIZE →
      ((run loadAddStore 85 .initial).get (by decide +kernel)).sim.instrQueue.slots i = none := by
    decide +kernel
  have hload : DependenceChain loadAddStore 1 3 := .first (by decide)
  have hadd : DependenceChain loadAddStore 2 8 := hload.next (a := 0) (r := 2) rfl (by decide)
  have hchain : DependenceChain loadAddStore 3 13 := hadd.next (a := 0) (r := 3) rfl (by decide)
  obtain ⟨-, -, hends⟩ := cycles_at_least (@reachable_get loadAddStore 85 (by decide +kernel))
  refine ((hends (by decide +kernel) fun j hj => ?_).2.2 3 13 hchain (by decide)).1
  obtain ⟨i, hi, hslot⟩ := hj
  cases (hempty i hi).symm.trans hslot

end Ece552.Tomasulo
