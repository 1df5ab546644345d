import Ece552.Tomasulo.Timing

/-!
# Where the instructions are

In every state between two calls an instruction that was fetched and is not finished is in exactly
one place. An insertion into a full array would drop an instruction without notice; the second part
of the file is the main loop with every insertion asserting that there is room, which makes the same
steps.
-/

namespace Ece552.Tomasulo

open Library

/-! ## Insertions that assert room -/

/-- Insert an instruction into an array, in which a slot is asserted to be empty. -/
def insertAsserting {n : Nat} (insn : Nat) (insns : SlotArray n Nat) : Option (SlotArray n Nat) :=
  if insns.isFull then none else some (insns.insert insn)

section Asserting

variable (trace : Trace) (currentCycle : Nat) {m n : Nat}

/-- `issueRounds` with `insertAsserting`. -/
def issueRoundsAsserting : Nat → SlotArray m Nat → SlotArray n Nat → (Nat → Progress) →
    Option (SlotArray n Nat × (Nat → Progress))
  | 0, _, fu, table => some (fu, table)
  | rounds + 1, copy, fu, table =>
      if copy.isEmpty || fu.isFull then some (fu, table)
      else
        match getOldestReadyForExecute table copy with
        | none => some (fu, table)
        | some insn => do
            let fu ← insertAsserting insn fu
            issueRoundsAsserting rounds (copy.erase insn) fu
              (Function.update table insn { table insn with tomExecuteCycle := currentCycle })

/-- `issueToExecute` with `insertAsserting`. -/
def issueToExecuteAsserting (s : Sim) : Option Sim := do
  let issuedINT ← issueRoundsAsserting currentCycle FU_INT_SIZE (s.fuINT.eraseAll s.reservINT)
    s.fuINT s.table
  let issuedFP ← issueRoundsAsserting currentCycle FU_FP_SIZE (s.fuFP.eraseAll s.reservFP)
    s.fuFP issuedINT.2
  some { s with fuINT := issuedINT.1, fuFP := issuedFP.1, table := issuedFP.2 }

/-- `dispatchToIssue` with `insertAsserting`. -/
def dispatchToIssueAsserting (s : Sim) : Option Sim :=
  if s.instrQueue.isEmpty then some s
  else
    match s.instrQueue.peek with
    | none => some s
    | some insn =>
        if isBranch (opAt trace insn) then do
          let (_, queue) ← s.instrQueue.dequeue
          some { s with instrQueue := queue }
        else
          match fuClass (opAt trace insn) with
          | some .INT =>
              if s.reservINT.isFull then some s
              else do
                let (_, queue) ← s.instrQueue.dequeue
                let reserv ← insertAsserting insn s.reservINT
                some (Sim.rename trace currentCycle
                  { s with instrQueue := queue, reservINT := reserv } insn)
          | some .FP =>
              if s.reservFP.isFull then some s
              else do
                let (_, queue) ← s.instrQueue.dequeue
                let reserv ← insertAsserting insn s.reservFP
                some (Sim.rename trace currentCycle
                  { s with instrQueue := queue, reservFP := reserv } insn)
          | none => some s

/-- `step` with `insertAsserting`. -/
def stepAsserting (m : Machine) : Option Machine :=
  match m.stage with
  | .issueToExecute =>
      (issueToExecuteAsserting m.cycle m.sim).map fun sim => ⟨sim, m.cycle, .dispatchToIssue⟩
  | .dispatchToIssue =>
      (dispatchToIssueAsserting trace m.cycle m.sim).map fun sim => ⟨sim, m.cycle, .fetchToDispatch⟩
  | _ => step trace m

variable {trace} {currentCycle}

theorem issueRoundsAsserting_eq (rounds : Nat) (copy : SlotArray m Nat) (fu : SlotArray n Nat)
    (table : Nat → Progress) :
    issueRoundsAsserting currentCycle rounds copy fu table =
      some (issueRounds currentCycle rounds copy fu table) := by
  induction rounds generalizing copy fu table with
  | zero => rfl
  | succ rounds ih =>
      rw [issueRoundsAsserting, issueRounds]
      split
      · rfl
      · next hexit =>
          have hroom : fu.isFull = false := (Bool.or_eq_false_iff.mp (Bool.not_eq_true _ ▸ hexit)).2
          cases getOldestReadyForExecute table copy with
          | none => rfl
          | some insn => simp [insertAsserting, hroom, ih]

theorem dispatchToIssueAsserting_eq (s : Sim) :
    dispatchToIssueAsserting trace currentCycle s = dispatchToIssue trace currentCycle s := by
  rw [dispatchToIssueAsserting, dispatchToIssue]
  by_cases hempty : s.instrQueue.isEmpty = true
  · rw [if_pos hempty, if_pos hempty]
  · rw [if_neg hempty, if_neg hempty]
    cases s.instrQueue.peek with
    | none => rfl
    | some insn =>
        by_cases hbranch : isBranch (opAt trace insn) = true
        · simp only [hbranch, if_true]
        · simp only [hbranch]
          cases fuClass (opAt trace insn) with
          | none => rfl
          | some u =>
              cases u with
              | INT => by_cases hfull : s.reservINT.isFull = true <;> simp [insertAsserting, hfull]
              | FP => by_cases hfull : s.reservFP.isFull = true <;> simp [insertAsserting, hfull]

/-- No insertion finds a full array. -/
theorem stepAsserting_eq (m : Machine) : stepAsserting trace m = step trace m := by
  rw [stepAsserting, step]
  split
  · next hstage =>
      rw [hstage]
      simp [issueToExecuteAsserting, issueRoundsAsserting_eq, issueToExecute, issueToExecuteHelper]
  · next hstage =>
      rw [hstage]
      rw [dispatchToIssueAsserting_eq]
  · rfl

end Asserting

/-! ## One place for every instruction -/

/-- The instruction is in a slot of the queue. -/
def Sim.Queued (s : Sim) (insn : Nat) : Prop :=
  ∃ i, i < INSTR_QUEUE_SIZE ∧ s.instrQueue.slots i = some insn

/-- One of three statements is true and the others are not. -/
def ExactlyOne (a b c : Prop) : Prop := (a ∧ ¬ b ∧ ¬ c) ∨ (¬ a ∧ b ∧ ¬ c) ∨ (¬ a ∧ ¬ b ∧ c)

/-- The instruction is finished: its result was broadcast, or it is a store that is complete. -/
def Sim.Done (trace : Trace) (k : Clock) (s : Sim) (j : Nat) : Prop :=
  ((s.table j).tomCdbCycle ≠ 0 ∧ (s.table j).tomCdbCycle < k.retire) ∨
    (isStore (opAt trace j) = true ∧ (s.table j).tomExecuteCycle ≠ 0 ∧
      (s.table j).tomExecuteCycle + FU_INT_LATENCY ≤ k.complete)

variable {trace : Trace} {k : Clock} {s : Sim} {left : Nat} {m m' : Machine}

theorem InOrder.queued_iff (h : InOrder trace s left) {j : Nat} :
    s.Queued j ↔ Fetchable trace j ∧ left < j ∧ j ≤ s.fetchIndex := by
  obtain ⟨l, hqueue, -, hmem⟩ := h.queue
  exact hqueue.mem_iff.trans (hmem j)

theorem InOrder.queue_slot_unique (h : InOrder trace s left) {i i' j : Nat}
    (hi : i < INSTR_QUEUE_SIZE) (hi' : i' < INSTR_QUEUE_SIZE) (hj : s.instrQueue.slots i = some j)
    (hj' : s.instrQueue.slots i' = some j) : i = i' := by
  obtain ⟨l, hqueue, hsorted, -⟩ := h.queue
  exact hqueue.slot_unique (hsorted.imp fun hlt => ne_of_lt hlt) hi hi' hj hj'

/-- An instruction in a station has left the queue. -/
theorem Timeline.not_queued_of_stationed (h : Timeline trace k s left) {u : FuClass} {j : Nat}
    (hj : (s.reserv u).Has j) : ¬ s.Queued j := by
  intro hqueued
  obtain ⟨-, hlt, -⟩ := h.in_order.queued_iff.mp hqueued
  have hissue := ((h.occupied.reserv u j).mp hj).2.1
  exact absurd ((h.in_order.issued j).mp hissue).2 (not_le.mpr hlt)

/-- What the bus holds was executed and issued. -/
theorem Stamped.issued_of_cdb (h : Stamped trace k s) {j : Nat}
    (hcdb : (s.table j).tomCdbCycle ≠ 0) : (s.table j).tomIssueCycle ≠ 0 :=
  (h.issue_lt_execute j (h.execute_add_latency_le j hcdb).1).1

/-- A fetched instruction that takes a station is in one place until it is finished. -/
theorem Timeline.one_place (h : Timeline trace k s left) {j : Nat} (henters : Enters trace j)
    (hfetched : j ≤ s.fetchIndex) (hdone : ¬ s.Done trace k j) :
    ExactlyOne (s.Queued j) (∃ u, fuClass (opAt trace j) = some u ∧ (s.reserv u).Has j)
      (s.commonDataBus = some j) := by
  obtain ⟨u, hu⟩ := henters.fu_class
  have hstation : (∃ u, fuClass (opAt trace j) = some u ∧ (s.reserv u).Has j) ↔
      (s.table j).tomIssueCycle ≠ 0 ∧ ¬ Finished trace k s j := by
    constructor
    · rintro ⟨v, -, hv⟩
      exact ((h.occupied.reserv v j).mp hv).2
    · exact fun hj => ⟨u, hu, (h.occupied.reserv u j).mpr ⟨hu, hj⟩⟩
  rw [ExactlyOne, hstation, h.in_order.queued_iff, h.occupied.bus]
  have hissued := h.in_order.issued j
  have hstore : ¬ (isStore (opAt trace j) = true ∧ (s.table j).tomExecuteCycle ≠ 0 ∧
      (s.table j).tomExecuteCycle + FU_INT_LATENCY ≤ k.complete) := fun hst => hdone (Or.inr hst)
  have hfinished : Finished trace k s j ↔ (s.table j).tomCdbCycle ≠ 0 :=
    ⟨fun hf => hf.resolve_right hstore, Or.inl⟩
  have hcdb := @Stamped.issued_of_cdb trace k s h.stamped j
  rw [hfinished]
  by_cases hleft : j ≤ left
  · have hissue := hissued.mpr ⟨henters, hleft⟩
    by_cases hzero : (s.table j).tomCdbCycle = 0
    · exact Or.inr (Or.inl ⟨fun hq => absurd hleft (not_le.mpr hq.2.1), ⟨hissue, not_not.mpr hzero⟩,
        fun hbus => hbus.1 hzero⟩)
    · refine Or.inr (Or.inr ⟨fun hq => absurd hleft (not_le.mpr hq.2.1), fun hst => hst.2 hzero,
        hzero, ?_⟩)
      by_contra hlt
      exact hdone (Or.inl ⟨hzero, not_le.mp hlt⟩)
  · have hissue : (s.table j).tomIssueCycle = 0 := by
      by_contra hne
      exact hleft (hissued.mp hne).2
    exact Or.inl ⟨⟨henters.1, not_le.mp hleft, hfetched⟩, fun hst => hst.1 hissue,
      fun hbus => hcdb hbus.1 hissue⟩

theorem latency_pos {op : Opcode} {u : FuClass} (h : fuClass op = some u) : 0 < latency op := by
  revert h
  cases op <;> cases u <;> decide

/-- An instruction leaves its station when it leaves its unit. -/
theorem leaves_together (h : (runTomasulo trace).Reachable m) (hstep : step trace m = some m')
    (u : FuClass) (j : Nat) :
    ((m.sim.reserv u).Has j ∧ ¬ (m'.sim.reserv u).Has j) ↔
      ((m.sim.fu u).Has j ∧ ¬ (m'.sim.fu u).Has j) := by
  obtain ⟨-, left, htimeline⟩ := timeline_of_run h
  obtain ⟨-, left', htimeline'⟩ := timeline_of_run (h.step (l := ()) trivial hstep)
  have hrecorded := recorded_of_step h hstep j
  rw [htimeline'.occupied.fu, htimeline.occupied.fu]
  constructor
  · rintro ⟨hin, hout⟩
    refine ⟨⟨hin, ?_⟩, fun hin' => hout hin'.1⟩
    -- it is finished now, so it was executed before
    obtain ⟨hclass, hissue, -⟩ := (htimeline.occupied.reserv u j).mp hin
    rw [htimeline'.occupied.reserv] at hout
    have hissue' : (m'.sim.table j).tomIssueCycle ≠ 0 := by
      rw [hrecorded.kept.issue hissue]
      exact hissue
    have hfinished : Finished trace m'.clock m'.sim j := by
      by_contra hnot
      exact hout ⟨hclass, hissue', hnot⟩
    intro hzero
    have hle := complete_le_of_step hstep
    have hlatency := latency_pos hclass
    have hcdb := htimeline'.stamped.cdb_le j
    rcases hrecorded.execute with hsame | ⟨-, hnow⟩
    · exact htimeline'.stamped.not_finished (hsame.trans hzero) hfinished
    · rcases hfinished with hne | ⟨-, -, hready⟩
      · have hlate := (htimeline'.stamped.execute_add_latency_le j hne).2.2
        omega
      · have hpos : 0 < FU_INT_LATENCY := by decide
        omega
  · rintro ⟨⟨hin, hexecute⟩, hout⟩
    refine ⟨hin, fun hin' => hout ⟨hin', ?_⟩⟩
    rw [hrecorded.kept.execute hexecute]
    exact hexecute

/-- In every state of a run: what is in a unit is in a station of the class; nothing is twice in the
queue, the stations or the units, or queued and in a station; a fetched instruction that is neither
trap nor branch is in one place until it is finished; it leaves its station when it leaves its unit;
and the next call makes no insertion into a full array. -/
theorem machine_structure (h : (runTomasulo trace).Reachable m) :
    (∀ u j, (m.sim.fu u).Has j → (m.sim.reserv u).Has j) ∧
    (∀ i i' j, i < INSTR_QUEUE_SIZE → i' < INSTR_QUEUE_SIZE →
      m.sim.instrQueue.slots i = some j → m.sim.instrQueue.slots i' = some j → i = i') ∧
    m.sim.Distinct ∧
    (∀ u v j, (m.sim.reserv u).Has j → (m.sim.reserv v).Has j → u = v) ∧
    (∀ u j, (m.sim.reserv u).Has j → ¬ m.sim.Queued j) ∧
    (∀ j, Enters trace j → j ≤ m.sim.fetchIndex → ¬ m.sim.Done trace m.clock j →
      ExactlyOne (m.sim.Queued j) (∃ u, fuClass (opAt trace j) = some u ∧ (m.sim.reserv u).Has j)
        (m.sim.commonDataBus = some j)) ∧
    (∀ m', step trace m = some m' → ∀ u j,
      ((m.sim.reserv u).Has j ∧ ¬ (m'.sim.reserv u).Has j) ↔
        ((m.sim.fu u).Has j ∧ ¬ (m'.sim.fu u).Has j)) ∧
    stepAsserting trace m = step trace m := by
  obtain ⟨-, left, htimeline⟩ := timeline_of_run h
  exact ⟨fun u j hj => ((htimeline.occupied.fu u j).mp hj).1,
    fun i i' j hi hi' => htimeline.in_order.queue_slot_unique hi hi', htimeline.occupied.distinct,
    htimeline.occupied.class_unique, fun u j => htimeline.not_queued_of_stationed,
    fun j henters hle => htimeline.one_place henters hle,
    fun m' hstep u j => leaves_together h hstep u j, stepAsserting_eq m⟩

set_option maxRecDepth 20000 in
/-- After 33 calls the load is on the bus and the addition is in its station only. -/
theorem machine_structure_load_add_store :
    ExactlyOne (((run loadAddStore 33 .initial).get (by decide +kernel)).sim.Queued 2)
      (∃ u, fuClass (opAt loadAddStore 2) = some u ∧
        (((run loadAddStore 33 .initial).get (by decide +kernel)).sim.reserv u).Has 2)
      (((run loadAddStore 33 .initial).get (by decide +kernel)).sim.commonDataBus = some 2) :=
  (machine_structure (reachable_get (by decide +kernel))).2.2.2.2.2.1 2 (by decide +kernel)
    (by decide +kernel) (by rw [Sim.Done]; decide +kernel)

end Ece552.Tomasulo
