import Ece552.Tomasulo.Progress

/-!
# What is done when the loop ends

`is_simulation_done` looks at the trace position, the stations and the units, but not at the
instruction queue. So the loop can end with instructions in the queue: a branch goes through the
pipeline without a station, and behind it nothing keeps the loop going. `complete_iff` says when
this happens.
-/

namespace Ece552.Tomasulo

open Library

/-- All instructions have gone through the pipeline. -/
structure Complete (trace : Trace) (m : Machine) : Prop where
  fetched : ∀ j, Fetchable trace j →
    (m.sim.table j).tomDispatchCycle ≠ 0 ∧ ¬ m.sim.Queued j
  executed : ∀ j, Enters trace j →
    (m.sim.table j).tomIssueCycle ≠ 0 ∧ (m.sim.table j).tomExecuteCycle ≠ 0
  on_cdb : ∀ j, Fetchable trace j → writesCdb (opAt trace j) = true →
    (m.sim.table j).tomCdbCycle ≠ 0
  cycles_lt : ∀ j, (m.sim.table j).tomDispatchCycle < m.cycle ∧
    (m.sim.table j).tomIssueCycle < m.cycle ∧ (m.sim.table j).tomExecuteCycle < m.cycle ∧
    (m.sim.table j).tomCdbCycle < m.cycle

/-- Dispatch to issue is about to take a branch off the queue that has another instruction behind
it, with all stations and units empty and nothing but traps left to fetch. -/
structure LeavesBehind (trace : Trace) (m : Machine) : Prop where
  stage : m.stage = .dispatchToIssue
  branch : ∃ b, m.sim.instrQueue.peek = some b ∧ isBranch (opAt trace b) = true
  behind : 1 < m.sim.instrQueue.size
  stations_empty : ∀ u j, ¬ (m.sim.reserv u).Has j
  units_empty : ∀ u j, ¬ (m.sim.fu u).Has j
  fetched : ∀ j, m.sim.fetchIndex < j → ¬ Fetchable trace j

variable {trace : Trace} {m m' : Machine}

/-- With the queue empty too, everything is complete. -/
theorem complete_of_empty (h : (runTomasulo trace).Reachable m) (hstage : m.stage = .returned)
    (hdone : isSimulationDone trace.length m.sim = true) (hempty : ∀ j, ¬ m.sim.Queued j) :
    Complete trace m := by
  obtain ⟨hcycle, left, htimeline⟩ := timeline_of_run h
  obtain ⟨hindex, hstations, -⟩ := is_simulation_done_iff.mp hdone
  have hfetched : ∀ j, Fetchable trace j → j ≤ m.sim.fetchIndex := fun j hj =>
    hj.2.1.trans hindex.le
  have hleft : ∀ j, Fetchable trace j → j ≤ left := by
    intro j hj
    by_contra hlt
    exact hempty j (htimeline.in_order.queued_iff.mpr ⟨hj, not_le.mp hlt, hfetched j hj⟩)
  -- what took a station has left it
  have hfinished : ∀ j, Enters trace j → (m.sim.table j).tomIssueCycle ≠ 0 ∧
      Finished trace m.clock m.sim j := by
    intro j hj
    have hissue := (htimeline.in_order.issued j).mpr ⟨hj, hleft j hj.1⟩
    refine ⟨hissue, ?_⟩
    by_contra hnot
    obtain ⟨u, hu⟩ := htimeline.stationed hissue hnot
    exact hstations u j hu
  refine ⟨fun j hj => ⟨?_, hempty j⟩, fun j hj => ?_, fun j hj hwrites => ?_, fun j => ?_⟩
  · exact (htimeline.in_order.dispatched j).mpr ⟨hj, hfetched j hj⟩
  · obtain ⟨hissue, hne | ⟨-, hexecute, -⟩⟩ := hfinished j hj
    · exact ⟨hissue, (htimeline.stamped.execute_add_latency_le j hne).1⟩
    · exact ⟨hissue, hexecute⟩
  · obtain ⟨-, hbranch, hstore⟩ := writes_cdb_iff.mp hwrites
    rcases (hfinished j ⟨hj, hbranch⟩).2 with hne | ⟨hop, -⟩
    · exact hne
    · rw [hstore] at hop
      exact nomatch hop
  · have hclock : m.clock = ⟨m.cycle - 1, m.cycle - 1, m.cycle - 1, m.cycle - 1, m.cycle - 1⟩ := by
      rw [Machine.clock, hstage]
    have hstamped := htimeline.stamped
    rw [hclock] at hstamped
    have hdispatch := hstamped.dispatch_le j
    have hissue := hstamped.issue_le j
    have hexecute := hstamped.execute_le j
    have hcdb := hstamped.cdb_le j
    simp only at hdispatch hissue hexecute hcdb
    omega

/-- The call before the return is a fetch, after which the test of the loop holds. -/
theorem return_of_step (h : step trace m = some m') (hstage : m'.stage = .returned) :
    m.stage = .fetchToDispatch ∧ fetchToDispatch trace m.cycle m.sim = some m'.sim ∧
      isSimulationDone trace.length m'.sim = true := by
  obtain ⟨-, rfl⟩ | ⟨-, sim, -, rfl⟩ | ⟨-, rfl⟩ | ⟨-, sim, -, rfl⟩ | ⟨hfetch, sim, heq, rfl⟩ :=
    step_cases h
  · exact nomatch hstage
  · exact nomatch hstage
  · exact nomatch hstage
  · exact nomatch hstage
  · refine ⟨hfetch, heq, ?_⟩
    by_contra hdone
    rw [if_neg hdone] at hstage
    exact nomatch hstage

/-- The loop has returned when its test held. -/
theorem done_of_returned (h : (runTomasulo trace).Reachable m) (hstage : m.stage = .returned) :
    isSimulationDone trace.length m.sim = true := by
  rcases last_call h with rfl | ⟨m₀, -, hstep⟩
  · exact nomatch hstage
  · exact (return_of_step hstep hstage).2.2

/-- The call before a fetch is a dispatch to issue. -/
theorem issue_of_step (h : step trace m = some m') (hstage : m'.stage = .fetchToDispatch) :
    m.stage = .dispatchToIssue ∧ dispatchToIssue trace m.cycle m.sim = some m'.sim := by
  obtain ⟨-, rfl⟩ | ⟨-, sim, -, rfl⟩ | ⟨-, rfl⟩ | ⟨hissue, sim, heq, rfl⟩ | ⟨-, sim, -, rfl⟩ :=
    step_cases h
  · exact nomatch hstage
  · exact nomatch hstage
  · exact nomatch hstage
  · exact ⟨hissue, heq⟩
  · by_cases hdone : isSimulationDone trace.length sim = true <;> simp [hdone] at hstage

/-- A loop that ends with something in the queue has just left it behind. -/
theorem leaves_behind_of_queued (h : (runTomasulo trace).Reachable m)
    (hstage : m.stage = .returned) {insn : Nat} (hinsn : m.sim.Queued insn) :
    ∃ m₁, (runTomasulo trace).Reachable m₁ ∧ LeavesBehind trace m₁ := by
  rcases last_call h with rfl | ⟨m₀, hrun₀, hstep₀⟩
  · exact nomatch hstage
  have hreturn := return_of_step hstep₀ hstage
  obtain ⟨hstage₀, hfetch, hdone⟩ := hreturn
  rcases last_call hrun₀ with rfl | ⟨m₁, hrun₁, hstep₁⟩
  · exact nomatch hstage₀
  obtain ⟨hstage₁, hissue⟩ := issue_of_step hstep₁ hstage₀
  obtain ⟨hindex, hstations, hunits⟩ := is_simulation_done_iff.mp hdone
  obtain ⟨-, left₀, htimeline₀⟩ := timeline_of_run hrun₀
  obtain ⟨-, left₁, htimeline₁⟩ := timeline_of_run hrun₁
  obtain ⟨l, hqueue, -⟩ := htimeline₀.in_order.queue
  -- the last fetch brought nothing
  obtain ⟨hsame, hnone⟩ : (∃ index, m.sim = { m₀.sim with fetchIndex := index }) ∧
      ∀ j, m₀.sim.fetchIndex < j → ¬ Fetchable trace j := by
    rcases htimeline₀.in_order.fetch_cases m₀.cycle hqueue with
      ⟨-, heq⟩ | ⟨-, index, -, -, hnone, heq⟩ | ⟨next, queue, hnext, -, heq⟩
    · have hsim := Option.some.inj (hfetch.symm.trans heq)
      refine ⟨⟨_, hsim⟩, fun j hj hfetchable => ?_⟩
      rw [hsim] at hindex
      exact absurd hfetchable.2.1 (not_le.mpr (hindex.trans hj))
    · exact ⟨⟨index, Option.some.inj (hfetch.symm.trans heq)⟩, hnone⟩
    · rw [Option.some.inj (hfetch.symm.trans heq)] at hindex
      exact absurd hnext.fetchable.2.1 (not_le.mpr hindex)
  obtain ⟨index, hsim⟩ := hsame
  have hstations₀ : ∀ u j, ¬ (m₀.sim.reserv u).Has j := fun u j => by
    have hu := hstations u j
    rw [hsim] at hu
    cases u <;> exact hu
  have hunits₀ : ∀ u j, ¬ (m₀.sim.fu u).Has j := fun u j => by
    have hu := hunits u j
    rw [hsim] at hu
    cases u <;> exact hu
  have hinsn₀ : m₀.sim.Queued insn := by
    rw [hsim] at hinsn
    exact hinsn
  have hmem := hqueue.mem_iff.mp hinsn₀
  obtain ⟨l₁, hqueue₁, -, hmem₁⟩ := htimeline₁.in_order.queue
  rcases @dispatchToIssue_spec trace m₁.cycle m₁.sim l₁ hqueue₁ fun j hj =>
      ((hmem₁ j).mp hj).1.2.2 with
    ⟨rfl, heq⟩ | ⟨first, rest, rfl, ⟨hbranch, queue, hrest, heq⟩ | ⟨u, -, hfull, heq⟩ |
      ⟨u, s', hspec, -, heq⟩⟩
  · rw [Option.some.inj (hissue.symm.trans heq)] at hqueue
    rw [hqueue.unique hqueue₁] at hmem
    exact nomatch hmem
  · have hsim₀ := Option.some.inj (hissue.symm.trans heq)
    rw [hsim₀] at hqueue hstations₀ hunits₀ hnone
    obtain rfl := hqueue.unique hrest
    refine ⟨m₁, hrun₁, hstage₁, ⟨first, hqueue₁.peek, hbranch⟩, ?_, fun u j => ?_, fun u j => ?_,
      hnone⟩
    · rw [hqueue₁.size, List.length_cons]
      exact Nat.succ_lt_succ (List.length_pos_of_mem hmem)
    · have hu := hstations₀ u j
      cases u <;> exact hu
    · have hu := hunits₀ u j
      cases u <;> exact hu
  · rw [Option.some.inj (hissue.symm.trans heq)] at hstations₀
    exact absurd hfull (not_full_of_empty (hstations₀ u))
  · rw [Option.some.inj (hissue.symm.trans heq)] at hstations₀
    exact absurd ((hspec.reserv u first).mpr (Or.inr ⟨rfl, rfl⟩)) (hstations₀ u first)

/-- What is left behind stays in the queue when the loop ends. -/
theorem queued_of_leaves_behind (h : (runTomasulo trace).Reachable m)
    (hleaves : LeavesBehind trace m) :
    ∃ m', (runTomasulo trace).Reachable m' ∧ m'.stage = .returned ∧
      ∃ j, Fetchable trace j ∧ m'.sim.Queued j := by
  obtain ⟨s, cycle, stage⟩ := m
  obtain rfl : stage = .dispatchToIssue := hleaves.stage
  obtain ⟨-, left, htimeline⟩ := timeline_of_run h
  obtain ⟨l, hqueue, -, hmem⟩ := htimeline.in_order.queue
  obtain ⟨b, hpeek, hbranch⟩ := hleaves.branch
  have hbehind := hleaves.behind
  rcases @dispatchToIssue_spec trace cycle s l hqueue fun j hj => ((hmem j).mp hj).1.2.2 with
    ⟨rfl, -⟩ | ⟨first, rest, rfl, hcases⟩
  · cases hqueue.peek.symm.trans hpeek
  obtain rfl : first = b := by
    rw [hqueue.peek] at hpeek
    exact Option.some.inj hpeek
  rcases hcases with ⟨-, queue, hrest, heq⟩ | ⟨u, hclass, -⟩ | ⟨u, s', hspec, -⟩
  · -- the branch leaves, and the fetch that follows ends the loop
    have hstep : step trace ⟨s, cycle, .dispatchToIssue⟩ =
        some ⟨{ s with instrQueue := queue }, cycle, .fetchToDispatch⟩ := by simp [step, heq]
    have hrun := h.step (l := ()) trivial hstep
    obtain ⟨-, left', htimeline'⟩ := timeline_of_run hrun
    have hlen := hqueue.le
    rw [hqueue.size, List.length_cons] at hbehind
    rw [List.length_cons] at hlen
    rcases htimeline'.in_order.fetch_cases cycle hrest with
      ⟨hfull, -⟩ | ⟨-, index, -, hindex, -, heq'⟩ | ⟨next, -, hnext, -⟩
    · omega
    · have hdone : isSimulationDone trace.length
          { s with instrQueue := queue, fetchIndex := index } = true := by
        refine is_simulation_done_iff.mpr ⟨hindex, fun u j => ?_, fun u j => ?_⟩
        · have hu := hleaves.stations_empty u j
          cases u <;> exact hu
        · have hu := hleaves.units_empty u j
          cases u <;> exact hu
      have hstep' : step trace ⟨{ s with instrQueue := queue }, cycle, .fetchToDispatch⟩ =
          some ⟨{ s with instrQueue := queue, fetchIndex := index }, cycle + 1, .returned⟩ := by
        simp [step, heq', hdone]
      obtain ⟨j, hj⟩ := List.exists_mem_of_length_pos (Nat.lt_of_succ_lt_succ hbehind)
      exact ⟨_, hrun.step (l := ()) trivial hstep', rfl, j,
        ((hmem j).mp (List.mem_cons_of_mem _ hj)).1, hrest.mem_iff.mpr hj⟩
    · exact absurd hnext.fetchable (hleaves.fetched next hnext.lt)
  · rw [(not_branch_of_fu_class hclass).2] at hbranch
    cases hbranch
  · rw [(not_branch_of_fu_class hspec.fu_class).2] at hbranch
    cases hbranch

/-- Everything is complete when the loop ends if and only if no branch that leaves the queue leaves
instructions behind. -/
theorem complete_iff (trace : Trace) :
    (∀ m, (runTomasulo trace).Reachable m → m.stage = .returned → Complete trace m) ↔
      ∀ m, (runTomasulo trace).Reachable m → ¬ LeavesBehind trace m := by
  constructor
  · intro hcomplete m h hleaves
    obtain ⟨m', h', hreturned, j, hj, hqueued⟩ := queued_of_leaves_behind h hleaves
    exact ((hcomplete m' h' hreturned).fetched j hj).2 hqueued
  · intro hnever m h hreturned
    refine complete_of_empty h hreturned (done_of_returned h hreturned) fun j hj => ?_
    obtain ⟨m₁, h₁, hleaves⟩ := leaves_behind_of_queued h hreturned hj
    exact hnever m₁ h₁ hleaves

set_option maxRecDepth 100000 in
/-- The loop ends after 25 cycles, and the last instruction was not issued. -/
theorem last_not_issued :
    (runTomasulo branchesBehindStall).Reachable
        ((run branchesBehindStall 125 .initial).get (by decide +kernel)) ∧
      ((run branchesBehindStall 125 .initial).get (by decide +kernel)).stage = .returned ∧
      ¬ Complete branchesBehindStall
        ((run branchesBehindStall 125 .initial).get (by decide +kernel)) :=
  ⟨reachable_get _, by decide +kernel, fun h => (h.executed 15 (by decide)).1 (by decide +kernel)⟩

end Ece552.Tomasulo
