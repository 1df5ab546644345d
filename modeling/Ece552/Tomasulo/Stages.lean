import Ece552.Tomasulo.Machine

/-!
# What each call does

One lemma for each of the five functions of the main loop, saying what it does to the arrays as sets
of instructions and to the stage cycles. The arrays are assumed to have no duplicates; what else a
lemma assumes is that the assertions of the function hold.
-/

namespace Ece552.Tomasulo

open Library

/-! ## Arrays by class -/

/-- The number of reservation stations of a class. -/
abbrev reservSize : FuClass → Nat
  | .INT => RESERV_INT_SIZE
  | .FP => RESERV_FP_SIZE

/-- The number of functional units of a class. -/
abbrev fuSize : FuClass → Nat
  | .INT => FU_INT_SIZE
  | .FP => FU_FP_SIZE

/-- The reservation stations of a class. -/
def Sim.reserv (s : Sim) : (u : FuClass) → SlotArray (reservSize u) Nat
  | .INT => s.reservINT
  | .FP => s.reservFP

/-- The functional units of a class. -/
def Sim.fu (s : Sim) : (u : FuClass) → SlotArray (fuSize u) Nat
  | .INT => s.fuINT
  | .FP => s.fuFP

/-- The arrays have no duplicates. -/
structure Sim.Distinct (s : Sim) : Prop where
  reserv : ∀ u, (s.reserv u).Distinct
  fu : ∀ u, (s.fu u).Distinct

/-- The instruction is in a reservation station. -/
def Sim.Stationed (s : Sim) (insn : Nat) : Prop := ∃ u, (s.reserv u).Has insn

variable {trace : Trace} {currentCycle : Nat} {s : Sim}

/-! ## The common data bus to retirement -/

/-- What waited for the instruction waits for nothing. -/
theorem Progress.remove_producer_Q {insn : Nat} {p : Progress} {k : Fin MAX_INPUT_REGS} :
    (p.removeProducer insn).Q k = if p.Q k = some insn then none else p.Q k :=
  SlotArray.iterate_erase_all

/-- Once is enough. -/
theorem Progress.remove_producer_twice {insn : Nat} {p : Progress} :
    (p.removeProducer insn).removeProducer insn = p.removeProducer insn := by
  have hq : ((p.removeProducer insn).removeProducer insn).Q = (p.removeProducer insn).Q := by
    funext k
    rw [remove_producer_Q, if_neg]
    rw [remove_producer_Q]
    split
    · exact nofun
    · assumption
  exact congrArg (fun q => { p with Q := q }) hq

/-- Clearing the dependences changes the `Q` of the instructions in the array. -/
theorem clear_dependencies_apply {n : Nat} (insn : Nat) (reserv : SlotArray n Nat)
    (table : Nat → Progress) (j : Nat) [Decidable (reserv.Has j)] :
    clearDependencies insn reserv table j =
      if reserv.Has j then (table j).removeProducer insn else table j := by
  have hfold : ∀ clear : (Nat → Progress) → Fin n → Nat → Progress,
      (∀ table i, reserv i = none → clear table i = table) →
      (∀ table i waiting, reserv i = some waiting → clear table i =
        Function.update table waiting ((table waiting).removeProducer insn)) →
      ∀ (slots : List (Fin n)) (table : Nat → Progress), slots.foldl clear table j =
        if slots.any (fun i => decide (reserv i = some j)) then (table j).removeProducer insn
        else table j := by
    intro clear hnone hsome slots
    induction slots with
    | nil => exact fun table => rfl
    | cons i slots ih =>
        intro table
        rw [List.foldl_cons, ih, List.any_cons]
        cases hi : reserv i with
        | none =>
            rw [hnone table i hi]
            simp
        | some waiting =>
            rw [hsome table i waiting hi]
            by_cases hj : waiting = j
            · subst hj
              simp [Progress.remove_producer_twice]
            · simp [Function.update_of_ne (Ne.symm hj), hj]
  have hany : (List.finRange n).any (fun i => decide (reserv i = some j)) = true ↔
      reserv.Has j := by
    simp [SlotArray.Has]
  refine (hfold _ (fun table i hi => ?_) (fun table i waiting hi => ?_) (List.finRange n)
    table).trans ?_
  · rw [hi]
  · rw [hi]
  by_cases h : reserv.Has j
  · rw [if_pos h, if_pos (hany.mpr h)]
  · rw [if_neg h, if_neg fun h' => h (hany.mp h')]

/-- The stage cycles are the same. -/
structure SameCycles (p p' : Progress) : Prop where
  dispatch : p'.tomDispatchCycle = p.tomDispatchCycle
  issue : p'.tomIssueCycle = p.tomIssueCycle
  execute : p'.tomExecuteCycle = p.tomExecuteCycle
  cdb : p'.tomCdbCycle = p.tomCdbCycle

/-- What retirement does: it clears the bus, and the map table and the `Q` entries that point to the
instruction on it. -/
structure Retires (s s' : Sim) : Prop where
  bus : s'.commonDataBus = none
  map : ∀ reg p, s'.mapTable reg = some p ↔ s.mapTable reg = some p ∧ s.commonDataBus ≠ some p
  dependence : ∀ j k p, (s'.table j).Q k = some p ↔
    (s.table j).Q k = some p ∧ ¬ (s.commonDataBus = some p ∧ s.Stationed j)
  cycles : ∀ j, SameCycles (s.table j) (s'.table j)
  queue : s'.instrQueue = s.instrQueue
  fetch : s'.fetchIndex = s.fetchIndex
  reserv : ∀ u, s'.reserv u = s.reserv u
  fu : ∀ u, s'.fu u = s.fu u

/-- An instruction that is the producer of its outputs only is in at most two map table entries. -/
theorem occurrences_of_writes {insn : Nat}
    (h : ∀ reg, s.mapTable reg = some insn → Writes trace insn reg) :
    s.mapTable.occurrences insn ≤ MAX_OUTPUT_REGS := by
  have hsub : (Finset.univ.filter fun reg => s.mapTable reg = some insn).image some ⊆
      Finset.univ.image (getInstr trace insn).rOut := by
    intro reg hreg
    obtain ⟨r, hr, rfl⟩ := Finset.mem_image.mp hreg
    obtain ⟨k, hk⟩ := h r (Finset.mem_filter.mp hr).2
    exact Finset.mem_image.mpr ⟨k, Finset.mem_univ k, hk⟩
  have hcard := (Finset.card_le_card hsub).trans Finset.card_image_le
  rwa [Finset.card_image_of_injective _ (Option.some_injective _), Finset.card_univ,
    Fintype.card_fin] at hcard

/-- What retirement does, if the map table names writers of the registers only. -/
theorem cdbToRetire_spec
    (hmap : ∀ reg p, s.mapTable reg = some p → Writes trace p reg) : Retires s (cdbToRetire s) := by
  classical
  rw [cdbToRetire]
  cases hbus : s.commonDataBus with
  | none =>
      exact ⟨hbus, by simp [hbus], by simp [hbus], fun _ => ⟨rfl, rfl, rfl, rfl⟩, rfl, rfl,
        fun _ => rfl, fun _ => rfl⟩
  | some insn =>
      have htable : ∀ j, clearDependencies insn s.reservFP
          (clearDependencies insn s.reservINT s.table) j =
          if s.Stationed j then (s.table j).removeProducer insn else s.table j := by
        intro j
        have hstationed : s.Stationed j ↔ s.reservFP.Has j ∨ s.reservINT.Has j := by
          constructor
          · rintro ⟨u, hu⟩
            cases u
            · exact Or.inr hu
            · exact Or.inl hu
          · rintro (h | h)
            · exact ⟨.FP, h⟩
            · exact ⟨.INT, h⟩
        rw [clear_dependencies_apply, clear_dependencies_apply]
        by_cases hfp : s.reservFP.Has j <;> by_cases hint : s.reservINT.Has j <;>
          simp [hstationed, hfp, hint, Progress.remove_producer_twice]
      refine ⟨rfl, fun reg p => ?_, fun j k p => ?_, fun j => ?_, rfl, rfl, fun u => ?_,
        fun u => ?_⟩
      · show (SlotArray.erase insn)^[MAX_OUTPUT_REGS] s.mapTable reg = some p ↔ _
        rw [SlotArray.iterate_erase (occurrences_of_writes fun reg => hmap reg insn)]
        by_cases hp : s.mapTable reg = some insn
        · simp [hp, hbus]
        · rw [if_neg hp, hbus]
          constructor
          · intro h
            exact ⟨h, fun heq => hp (h.trans heq.symm)⟩
          · exact And.left
      · show (clearDependencies insn s.reservFP
          (clearDependencies insn s.reservINT s.table) j).Q k = some p ↔ _
        rw [htable]
        by_cases hj : s.Stationed j
        · by_cases hk : (s.table j).Q k = some insn
          · simp [hj, Progress.remove_producer_Q, hk, hbus]
          · rw [if_pos hj, Progress.remove_producer_Q, if_neg hk, hbus]
            constructor
            · intro h
              exact ⟨h, fun heq => hk (h.trans heq.1.symm)⟩
            · exact And.left
        · simp [hj]
      · show SameCycles (s.table j) (clearDependencies insn s.reservFP
          (clearDependencies insn s.reservINT s.table) j)
        rw [htable]
        split <;> exact ⟨rfl, rfl, rfl, rfl⟩
      · cases u <;> rfl
      · cases u <;> rfl

/-! ## Execution to the common data bus -/

section Stores

variable {n m : Nat} {table : Nat → Progress}

/-- What is left in the units and stations when the loop has looked at some of the units. -/
structure StoresLeft (trace : Trace) (currentCycle : Nat) (table : Nat → Progress)
    (slots : List (Fin n)) (insns : SlotArray n Nat) (reserv : SlotArray m Nat)
    (left : SlotArray n Nat × SlotArray m Nat) : Prop where
  units : ∀ i insn, left.1 i = some insn ↔
    insns i = some insn ∧ ¬ (i ∈ slots ∧ completedStore trace currentCycle table insn = true)
  distinct : left.2.Distinct
  stations : ∀ insn, left.2.Has insn ↔ reserv.Has insn ∧ ∀ i ∈ slots, insns i = some insn →
    completedStore trace currentCycle table insn = false

variable {slots : List (Fin n)} {insns : SlotArray n Nat} {reserv : SlotArray m Nat} {i : Fin n}
  {left : SlotArray n Nat × SlotArray m Nat}

/-- A unit without a store that has completed stays as it is. -/
theorem StoresLeft.keep (hkept : ∀ insn, insns i = some insn →
      completedStore trace currentCycle table insn = false)
    (h : StoresLeft trace currentCycle table slots insns reserv left) :
    StoresLeft trace currentCycle table (i :: slots) insns reserv left := by
  refine ⟨fun k insn => ?_, h.distinct, fun insn => ?_⟩
  · rw [h.units, List.mem_cons]
    refine and_congr_right fun hslot => ?_
    by_cases hk : k = i
    · subst hk
      simp [hkept insn hslot]
    · simp [hk]
  · rw [h.stations, List.forall_mem_cons]
    refine and_congr_right fun _ => ?_
    constructor
    · exact fun hrest => ⟨hkept insn, hrest⟩
    · exact And.right

/-- A store that has completed leaves its unit and its station. -/
theorem StoresLeft.remove (hreserv : reserv.Distinct) {stored : Nat} (hi : insns i = some stored)
    (hdone : completedStore trace currentCycle table stored = true)
    (h : StoresLeft trace currentCycle table slots (Function.update insns i none)
      (reserv.erase stored) left) :
    StoresLeft trace currentCycle table (i :: slots) insns reserv left := by
  refine ⟨fun k insn => ?_, h.distinct, fun insn => ?_⟩
  · rw [h.units, List.mem_cons]
    by_cases hk : k = i
    · subst hk
      rw [Function.update_self, hi]
      constructor
      · exact fun h => nomatch h.1
      · rintro ⟨h, hnot⟩
        cases h
        exact absurd ⟨Or.inl rfl, hdone⟩ hnot
    · simp [hk]
  · rw [h.stations, hreserv.has_erase]
    constructor
    · rintro ⟨⟨hne, hold⟩, hrest⟩
      refine ⟨hold, fun k hk hslot => ?_⟩
      have hki : k ≠ i := by
        rintro rfl
        exact hne (Option.some.inj (hslot.symm.trans hi))
      have hmem := (List.mem_cons.mp hk).resolve_left hki
      exact hrest k hmem (by rwa [Function.update_of_ne hki])
    · rintro ⟨hold, hrest⟩
      refine ⟨⟨?_, hold⟩, fun k hk hslot => ?_⟩
      · rintro rfl
        simp [hrest i List.mem_cons_self hi] at hdone
      · by_cases hki : k = i
        · subst hki
          rw [Function.update_self] at hslot
          exact nomatch hslot
        · rw [Function.update_of_ne hki] at hslot
          exact hrest k (List.mem_cons_of_mem i hk) hslot

/-- The loop over the units takes out the stores that have completed, with their stations. -/
theorem stores_left (slots : List (Fin n)) (insns : SlotArray n Nat) (hreserv : reserv.Distinct) :
    StoresLeft trace currentCycle table slots insns reserv
      (slots.foldl (removeCompletedStore trace currentCycle table) (insns, reserv)) := by
  induction slots generalizing insns reserv with
  | nil => exact ⟨by simp, hreserv, by simp⟩
  | cons i slots ih =>
      rw [List.foldl_cons]
      cases hi : insns i with
      | none =>
          have hstep : removeCompletedStore trace currentCycle table (insns, reserv) i =
              (insns, reserv) := by simp [removeCompletedStore, hi]
          rw [hstep]
          exact (ih insns hreserv).keep fun insn hslot => nomatch hslot.symm.trans hi
      | some stored =>
          by_cases hdone : completedStore trace currentCycle table stored = true
          · have hstep : removeCompletedStore trace currentCycle table (insns, reserv) i =
                (Function.update insns i none, reserv.erase stored) := by
              simp [removeCompletedStore, hi, hdone]
            rw [hstep]
            exact (ih _ (hreserv.erase (a := stored))).remove hreserv hi hdone
          · have hstep : removeCompletedStore trace currentCycle table (insns, reserv) i =
                (insns, reserv) := by simp [removeCompletedStore, hi, hdone]
            rw [hstep]
            refine (ih insns hreserv).keep fun insn hslot => ?_
            obtain rfl : stored = insn := Option.some.inj (hi.symm.trans hslot)
            exact Bool.eq_false_iff.mpr hdone

/-- Which instructions are left, when the stores that are complete are removed. -/
theorem remove_completed_stores_spec
    (hinsns : insns.Distinct) (hreserv : reserv.Distinct) :
    (removeCompletedStores trace currentCycle table insns reserv).1.Distinct ∧
    (removeCompletedStores trace currentCycle table insns reserv).2.Distinct ∧
    (∀ insn, (removeCompletedStores trace currentCycle table insns reserv).1.Has insn ↔
      insns.Has insn ∧ completedStore trace currentCycle table insn = false) ∧
    ∀ insn, (removeCompletedStores trace currentCycle table insns reserv).2.Has insn ↔
      reserv.Has insn ∧
        (insns.Has insn → completedStore trace currentCycle table insn = false) := by
  obtain ⟨hslot, hdistinct, hhas⟩ :=
    @stores_left trace currentCycle n m table reserv (List.finRange n) insns hreserv
  simp only [List.mem_finRange, true_and, forall_true_left, Bool.not_eq_true] at hslot hhas
  refine ⟨fun i j insn hi hj => ?_, hdistinct, fun insn => ?_, fun insn => ?_⟩
  · exact hinsns i j insn ((hslot i insn).mp hi).1 ((hslot j insn).mp hj).1
  · constructor
    · rintro ⟨i, hi⟩
      obtain ⟨hold, hdone⟩ := (hslot i insn).mp hi
      exact ⟨⟨i, hold⟩, hdone⟩
    · rintro ⟨⟨i, hi⟩, hdone⟩
      exact ⟨i, (hslot i insn).mpr ⟨hi, hdone⟩⟩
  · refine (hhas insn).trans (and_congr_right fun _ => ?_)
    constructor
    · rintro h ⟨i, hi⟩
      exact h i hi
    · exact fun h i hi => h ⟨i, hi⟩

/-- The assertion holds of instructions that have entered their units. -/
theorem getOldestReadyForCdb_eq
    (h : ∀ insn, insns.Has insn → (table insn).tomExecuteCycle ≠ 0) :
    getOldestReadyForCdb trace currentCycle table insns =
      some (insns.oldest fun insn =>
        decide ((table insn).tomExecuteCycle + latency (opAt trace insn) ≤ currentCycle)) := by
  rw [getOldestReadyForCdb, if_pos]
  rw [List.all_eq_true]
  intro i _
  split
  · rfl
  · next insn hi => exact decide_eq_true (h insn ⟨i, hi⟩)

end Stores

/-- The older one of two instructions. -/
theorem getOldest_pair {a b : Option Nat} :
    (getOldest ![a, b] = none → a = none ∧ b = none) ∧
      ∀ insn, getOldest ![a, b] = some insn → a = some insn ∨ b = some insn := by
  cases a <;> cases b <;>
    simp [getOldest, SlotArray.oldest, SlotArray.older, List.finRange_succ]
  split <;> simp

/-- What removing the complete stores does. -/
theorem Sim.Distinct.remove_stores (hs : s.Distinct) :
    (s.removeStores trace currentCycle).Distinct ∧
    (∀ u insn, ((s.removeStores trace currentCycle).reserv u).Has insn ↔ (s.reserv u).Has insn ∧
      ¬ (u = .INT ∧ (s.fu u).Has insn ∧ completedStore trace currentCycle s.table insn = true)) ∧
    ∀ u insn, ((s.removeStores trace currentCycle).fu u).Has insn ↔ (s.fu u).Has insn ∧
      ¬ (u = .INT ∧ completedStore trace currentCycle s.table insn = true) := by
  obtain ⟨hfu, hreserv, hfuHas, hreservHas⟩ :=
    @remove_completed_stores_spec trace currentCycle _ _ s.table _ _ (hs.fu .INT) (hs.reserv .INT)
  refine ⟨⟨fun u => ?_, fun u => ?_⟩, fun u insn => ?_, fun u insn => ?_⟩
  · cases u
    · exact hreserv
    · exact hs.reserv .FP
  · cases u
    · exact hfu
    · exact hs.fu .FP
  · cases u
    · refine (hreservHas insn).trans ?_
      cases completedStore trace currentCycle s.table insn <;> simp
    · simp [Sim.reserv, Sim.removeStores]
  · cases u
    · refine (hfuHas insn).trans ?_
      cases completedStore trace currentCycle s.table insn <;> simp
    · simp [Sim.fu, Sim.removeStores]

/-- What putting an instruction on the bus does. -/
theorem Sim.Distinct.put_on_cdb (hs : s.Distinct) (chosen : Nat) :
    (s.putOnCdb currentCycle chosen).Distinct ∧
    (∀ u insn, ((s.putOnCdb currentCycle chosen).reserv u).Has insn ↔
      (s.reserv u).Has insn ∧ some chosen ≠ some insn) ∧
    ∀ u insn, ((s.putOnCdb currentCycle chosen).fu u).Has insn ↔
      (s.fu u).Has insn ∧ some chosen ≠ some insn := by
  have hne : ∀ insn, some chosen ≠ some insn ↔ insn ≠ chosen := fun insn => by
    rw [ne_eq, Option.some.injEq, eq_comm]
  refine ⟨⟨fun u => ?_, fun u => ?_⟩, fun u insn => ?_, fun u insn => ?_⟩
  · cases u
    · exact (hs.reserv .INT).erase
    · exact (hs.reserv .FP).erase
  · cases u
    · exact (hs.fu .INT).erase
    · exact (hs.fu .FP).erase
  · rw [hne, and_comm]
    cases u
    · exact (hs.reserv .INT).has_erase
    · exact (hs.reserv .FP).has_erase
  · rw [hne, and_comm]
    cases u
    · exact (hs.fu .INT).has_erase
    · exact (hs.fu .FP).has_erase

/-- The oldest instruction that is ready is the one that goes on the bus. -/
theorem oldestToCdb_spec
    (hexecuted : ∀ u insn, (s.fu u).Has insn → (s.table insn).tomExecuteCycle ≠ 0) :
    (s.oldestToCdb trace currentCycle = some s ∧ ∀ u insn, (s.fu u).Has insn →
      currentCycle < (s.table insn).tomExecuteCycle + latency (opAt trace insn)) ∨
    ∃ u insn, s.oldestToCdb trace currentCycle = some (s.putOnCdb currentCycle insn) ∧
      (s.fu u).Has insn ∧
      (s.table insn).tomExecuteCycle + latency (opAt trace insn) ≤ currentCycle := by
  have hINT := @getOldestReadyForCdb_eq trace currentCycle _ s.table s.fuINT (hexecuted .INT)
  have hFP := @getOldestReadyForCdb_eq trace currentCycle _ s.table s.fuFP (hexecuted .FP)
  rw [Sim.oldestToCdb, hINT, hFP]
  simp only [Option.bind_eq_bind, Option.bind_some]
  obtain ⟨hnone, hsome⟩ := @getOldest_pair
    (s.fuINT.oldest fun insn =>
      decide ((s.table insn).tomExecuteCycle + latency (opAt trace insn) ≤ currentCycle))
    (s.fuFP.oldest fun insn =>
      decide ((s.table insn).tomExecuteCycle + latency (opAt trace insn) ≤ currentCycle))
  split
  · next heq =>
      obtain ⟨hint, hfp⟩ := hnone heq
      refine Or.inl ⟨rfl, fun u insn hu => ?_⟩
      cases u
      · simpa using SlotArray.not_ready_of_oldest hint hu
      · simpa using SlotArray.not_ready_of_oldest hfp hu
  · next insn heq =>
      rcases hsome insn heq with hint | hfp
      · obtain ⟨hhas, hready⟩ := SlotArray.has_of_oldest hint
        exact Or.inr ⟨.INT, insn, rfl, hhas, by simpa using hready⟩
      · obtain ⟨hhas, hready⟩ := SlotArray.has_of_oldest hfp
        exact Or.inr ⟨.FP, insn, rfl, hhas, by simpa using hready⟩

/-- What execution to the common data bus does: it removes the stores that are complete, and puts
the chosen instruction on the bus. -/
structure Executes (trace : Trace) (currentCycle : Nat) (s s' : Sim) (chosen : Option Nat) :
    Prop where
  distinct : s'.Distinct
  reserv : ∀ u insn, (s'.reserv u).Has insn ↔ ((s.reserv u).Has insn ∧
    ¬ (u = .INT ∧ (s.fu u).Has insn ∧ completedStore trace currentCycle s.table insn = true)) ∧
    chosen ≠ some insn
  fu : ∀ u insn, (s'.fu u).Has insn ↔ ((s.fu u).Has insn ∧
    ¬ (u = .INT ∧ completedStore trace currentCycle s.table insn = true)) ∧ chosen ≠ some insn
  bus : s'.commonDataBus = chosen
  table : ∀ insn, s'.table insn =
    if chosen = some insn then { s.table insn with tomCdbCycle := currentCycle } else s.table insn
  complete : ∀ insn, chosen = some insn → ∃ u, ((s.fu u).Has insn ∧
    ¬ (u = .INT ∧ completedStore trace currentCycle s.table insn = true)) ∧
    (s.table insn).tomExecuteCycle + latency (opAt trace insn) ≤ currentCycle
  incomplete : chosen = none → ∀ u insn, (s'.fu u).Has insn →
    currentCycle < (s.table insn).tomExecuteCycle + latency (opAt trace insn)
  queue : s'.instrQueue = s.instrQueue
  fetch : s'.fetchIndex = s.fetchIndex
  map : s'.mapTable = s.mapTable

section

variable {s' : Sim} {chosen : Option Nat}

/-- Nothing is dispatched. -/
theorem Executes.dispatch (h : Executes trace currentCycle s s' chosen) (j : Nat) :
    (s'.table j).tomDispatchCycle = (s.table j).tomDispatchCycle := by
  rw [h.table]
  split <;> rfl

/-- Nothing is issued. -/
theorem Executes.issue (h : Executes trace currentCycle s s' chosen) (j : Nat) :
    (s'.table j).tomIssueCycle = (s.table j).tomIssueCycle := by
  rw [h.table]
  split <;> rfl

/-- Nothing starts to execute. -/
theorem Executes.execute (h : Executes trace currentCycle s s' chosen) (j : Nat) :
    (s'.table j).tomExecuteCycle = (s.table j).tomExecuteCycle := by
  rw [h.table]
  split <;> rfl

/-- What an instruction waits for stays the same. -/
theorem Executes.dependence (h : Executes trace currentCycle s s' chosen) (j : Nat) :
    (s'.table j).Q = (s.table j).Q := by
  rw [h.table]
  split <;> rfl

/-- The instruction that was chosen is on the bus in this cycle. -/
theorem Executes.cdb (h : Executes trace currentCycle s s' chosen) (j : Nat) :
    (s'.table j).tomCdbCycle =
      if chosen = some j then currentCycle else (s.table j).tomCdbCycle := by
  rw [h.table]
  split <;> rfl

end

/-- What the call for the bus does, if the bus is free and the units hold what was started. -/
theorem executeToCdb_spec (hs : s.Distinct) (hbus : s.commonDataBus = none)
    (hexecuted : ∀ u insn, (s.fu u).Has insn → (s.table insn).tomExecuteCycle ≠ 0) :
    ∃ s' chosen, executeToCdb trace currentCycle s = some s' ∧
      Executes trace currentCycle s s' chosen := by
  obtain ⟨hdistinct, hreserv, hfu⟩ := @Sim.Distinct.remove_stores trace currentCycle s hs
  rw [executeToCdb, hbus]
  simp only [Option.isSome_none, Bool.false_eq_true, if_false]
  rcases @oldestToCdb_spec trace currentCycle (s.removeStores trace currentCycle)
    fun u insn h => hexecuted u insn ((hfu u insn).mp h).1 with
    ⟨heq, hincomplete⟩ | ⟨u, chosen, heq, hu, hready⟩
  · refine ⟨_, none, heq, hdistinct, fun u insn => ?_, fun u insn => ?_, hbus, fun insn => rfl,
      nofun, fun _ => hincomplete, rfl, rfl, rfl⟩
    · simpa using hreserv u insn
    · simpa using hfu u insn
  · obtain ⟨hdistinct', hreserv', hfu'⟩ := @Sim.Distinct.put_on_cdb currentCycle _ hdistinct chosen
    refine ⟨_, some chosen, heq, hdistinct', fun u insn => ?_, fun u insn => ?_, rfl,
      fun insn => ?_, ?_, nofun, rfl, rfl, rfl⟩
    · rw [hreserv', hreserv]
    · rw [hfu', hfu]
    · show Function.update s.table chosen { s.table chosen with tomCdbCycle := currentCycle } insn =
        _
      by_cases hinsn : insn = chosen
      · simp [hinsn]
      · have hne : ¬ some chosen = some insn := fun h => hinsn (Option.some.inj h).symm
        rw [Function.update_of_ne hinsn, if_neg hne]
    · rintro insn hinsn
      obtain rfl := Option.some.inj hinsn
      exact ⟨u, (hfu u chosen).mp hu, hready⟩

/-! ## Issue to execution -/

section Rounds

variable {m n : Nat}

/-- An instruction is ready if it waits for no input. -/
theorem ready_iff {p : Progress} : p.Q.isEmpty = true ↔ ∀ k, p.Q k = none := by
  rw [SlotArray.is_empty_iff]
  constructor
  · exact fun h k => Option.eq_none_iff_forall_ne_some.mpr fun a ha => h a ⟨k, ha⟩
  · rintro h a ⟨k, hk⟩
    rw [h k] at hk
    exact nomatch hk

/-- The rounds start instructions that are ready, and end when the units are full or nothing is
ready any more. -/
theorem issueRounds_spec (rounds : Nat) {copy : SlotArray m Nat} {fu : SlotArray n Nat}
    {table : Nat → Progress} (hrounds : fu.free ≤ rounds) (hcopy : copy.Distinct)
    (hfu : fu.Distinct) (hdisjoint : ∀ insn, copy.Has insn → ¬ fu.Has insn) :
    ∃ started : List Nat,
      (issueRounds currentCycle rounds copy fu table).1.Distinct ∧
      (∀ insn ∈ started, copy.Has insn ∧ ∀ k, (table insn).Q k = none) ∧
      (∀ insn, (issueRounds currentCycle rounds copy fu table).1.Has insn ↔
        fu.Has insn ∨ insn ∈ started) ∧
      (∀ insn, (issueRounds currentCycle rounds copy fu table).2 insn =
        if insn ∈ started then { table insn with tomExecuteCycle := currentCycle }
        else table insn) ∧
      ((issueRounds currentCycle rounds copy fu table).1.isFull = true ∨
        ∀ insn, copy.Has insn → insn ∉ started → ∃ k, (table insn).Q k ≠ none) := by
  induction rounds generalizing copy fu table with
  | zero =>
      have hfull := SlotArray.is_full_of_free (Nat.le_zero.mp hrounds)
      exact ⟨[], hfu, nofun, fun insn => by simp [issueRounds], fun insn => rfl, Or.inl hfull⟩
  | succ rounds ih =>
      rw [issueRounds]
      split
      · next hexit =>
          refine ⟨[], hfu, nofun, fun insn => by simp, fun insn => rfl, ?_⟩
          rcases Bool.or_eq_true_iff.mp hexit with hempty | hfull
          · exact Or.inr fun insn h => absurd h (SlotArray.is_empty_iff.mp hempty insn)
          · exact Or.inl hfull
      · next hexit =>
          obtain ⟨-, hfull⟩ := Bool.or_eq_false_iff.mp (Bool.not_eq_true _ ▸ hexit)
          split
          · next hnone =>
              refine ⟨[], hfu, nofun, fun insn => by simp, fun insn => rfl,
                Or.inr fun insn h _ => ?_⟩
              have hwaits := SlotArray.not_ready_of_oldest hnone h
              by_contra hready
              rw [not_exists] at hready
              simp only [not_not] at hready
              rw [ready_iff.mpr hready] at hwaits
              exact nomatch hwaits
          · next insn hsome =>
              obtain ⟨hhas, hready⟩ := SlotArray.has_of_oldest hsome
              have hfree := SlotArray.free_insert (a := insn) hfull
              obtain ⟨started, hdistinct, hstarted, hfuHas, htable, hexit⟩ :=
                @ih (copy.erase insn) (fu.insert insn)
                  (Function.update table insn { table insn with tomExecuteCycle := currentCycle })
                  (by omega) (hcopy.erase (a := insn)) (hfu.insert (hdisjoint insn hhas))
                  (fun other hother => by
                    rw [hcopy.has_erase] at hother
                    rw [SlotArray.has_insert hfull]
                    exact not_or.mpr ⟨hother.1, hdisjoint other hother.2⟩)
              have hQ : ∀ other, (Function.update table insn
                  { table insn with tomExecuteCycle := currentCycle } other).Q =
                    (table other).Q := by
                intro other
                by_cases hother : other = insn
                · subst hother
                  rw [Function.update_self]
                · rw [Function.update_of_ne hother]
              refine ⟨insn :: started, hdistinct, ?_, fun other => ?_, fun other => ?_, ?_⟩
              · intro other hother
                rcases List.mem_cons.mp hother with rfl | hother
                · exact ⟨hhas, ready_iff.mp hready⟩
                · obtain ⟨hin, hnone⟩ := hstarted other hother
                  exact ⟨(hcopy.has_erase.mp hin).2, fun k => by rw [← hQ other, hnone k]⟩
              · rw [hfuHas, SlotArray.has_insert hfull, List.mem_cons]
                tauto
              · rw [htable]
                by_cases hother : other = insn
                · subst hother
                  simp
                · simp [hother]
              · refine hexit.imp_right fun hwait other hother hnot => ?_
                obtain ⟨hne, hnot⟩ := not_or.mp (List.mem_cons.not.mp hnot)
                obtain ⟨k, hk⟩ := hwait other (hcopy.has_erase.mpr ⟨hne, hother⟩) hnot
                exact ⟨k, by rwa [hQ other] at hk⟩

/-- The instructions that one class of units starts. -/
theorem issueToExecuteHelper_spec {reserv : SlotArray m Nat} {fu : SlotArray n Nat}
    (table : Nat → Progress) (hreserv : reserv.Distinct) (hfu : fu.Distinct) :
    ∃ started : List Nat,
      (issueToExecuteHelper currentCycle reserv fu table).1.Distinct ∧
      (∀ insn ∈ started, (reserv.Has insn ∧ ¬ fu.Has insn) ∧ ∀ k, (table insn).Q k = none) ∧
      (∀ insn, (issueToExecuteHelper currentCycle reserv fu table).1.Has insn ↔
        fu.Has insn ∨ insn ∈ started) ∧
      (∀ insn, (issueToExecuteHelper currentCycle reserv fu table).2 insn =
        if insn ∈ started then { table insn with tomExecuteCycle := currentCycle }
        else table insn) ∧
      ((issueToExecuteHelper currentCycle reserv fu table).1.isFull = true ∨
        ∀ insn, reserv.Has insn → ¬ fu.Has insn → insn ∉ started →
          ∃ k, (table insn).Q k ≠ none) := by
  obtain ⟨hcopy, hhas⟩ := @SlotArray.Distinct.erase_all _ _ reserv _ _ fu hreserv
  obtain ⟨started, hdistinct, hstarted, hfuHas, htable, hexit⟩ :=
    @issueRounds_spec currentCycle m n n _ fu table SlotArray.free_le hcopy hfu
      fun insn h => ((hhas insn).mp h).2
  refine ⟨started, hdistinct, fun insn h => ?_, hfuHas, htable,
    hexit.imp_right fun h insn hin hout => ?_⟩
  · exact ⟨(hhas insn).mp (hstarted insn h).1, (hstarted insn h).2⟩
  · exact h insn ((hhas insn).mpr ⟨hin, hout⟩)

end Rounds

/-- What issue to execution does: it starts instructions that are ready. -/
structure Issues (currentCycle : Nat) (s s' : Sim) (started : List Nat) : Prop where
  distinct : s'.Distinct
  ready : ∀ insn ∈ started, (∃ u, (s.reserv u).Has insn ∧ ¬ (s.fu u).Has insn) ∧
    ∀ k, (s.table insn).Q k = none
  fu : ∀ u insn, (s'.fu u).Has insn ↔
    (s.fu u).Has insn ∨ ((s.reserv u).Has insn ∧ insn ∈ started)
  table : ∀ insn, s'.table insn =
    if insn ∈ started then { s.table insn with tomExecuteCycle := currentCycle } else s.table insn
  stalled : ∀ u, (s'.fu u).isFull = true ∨ ∀ insn, (s.reserv u).Has insn →
    ¬ (s'.fu u).Has insn → ∃ k, (s.table insn).Q k ≠ none
  reserv : ∀ u, s'.reserv u = s.reserv u
  bus : s'.commonDataBus = s.commonDataBus
  queue : s'.instrQueue = s.instrQueue
  fetch : s'.fetchIndex = s.fetchIndex
  map : s'.mapTable = s.mapTable

section

variable {s' : Sim} {started : List Nat}

/-- Nothing is dispatched. -/
theorem Issues.dispatch (h : Issues currentCycle s s' started) (j : Nat) :
    (s'.table j).tomDispatchCycle = (s.table j).tomDispatchCycle := by
  rw [h.table]
  split <;> rfl

/-- Nothing is issued. -/
theorem Issues.issue (h : Issues currentCycle s s' started) (j : Nat) :
    (s'.table j).tomIssueCycle = (s.table j).tomIssueCycle := by
  rw [h.table]
  split <;> rfl

/-- Nothing is put on the bus. -/
theorem Issues.cdb (h : Issues currentCycle s s' started) (j : Nat) :
    (s'.table j).tomCdbCycle = (s.table j).tomCdbCycle := by
  rw [h.table]
  split <;> rfl

/-- What an instruction waits for stays the same. -/
theorem Issues.dependence (h : Issues currentCycle s s' started) (j : Nat) :
    (s'.table j).Q = (s.table j).Q := by
  rw [h.table]
  split <;> rfl

/-- The instructions that were started execute from this cycle on. -/
theorem Issues.execute (h : Issues currentCycle s s' started) (j : Nat) :
    (s'.table j).tomExecuteCycle =
      if j ∈ started then currentCycle else (s.table j).tomExecuteCycle := by
  rw [h.table]
  split <;> rfl

end

/-- What the call that starts instructions does, if no instruction has two stations. -/
theorem issueToExecute_spec (hs : s.Distinct)
    (hclass : ∀ u v insn, (s.reserv u).Has insn → (s.reserv v).Has insn → u = v) :
    ∃ started, Issues currentCycle s (issueToExecute currentCycle s) started := by
  obtain ⟨startedINT, hdistinctINT, hreadyINT, hfuINT, htableINT, hexitINT⟩ :=
    @issueToExecuteHelper_spec currentCycle _ _ _ _ s.table (hs.reserv .INT) (hs.fu .INT)
  obtain ⟨startedFP, hdistinctFP, hreadyFP, hfuFP, htableFP, hexitFP⟩ :=
    @issueToExecuteHelper_spec currentCycle _ _ _ _
      (issueToExecuteHelper currentCycle s.reservINT s.fuINT s.table).2
      (hs.reserv .FP) (hs.fu .FP)
  have hQ : ∀ insn, ((issueToExecuteHelper currentCycle s.reservINT s.fuINT s.table).2 insn).Q =
      (s.table insn).Q := by
    intro insn
    rw [show (issueToExecuteHelper currentCycle s.reservINT s.fuINT s.table).2 insn = _ from
      htableINT insn]
    split <;> rfl
  -- an instruction in the stations of one class is not started by the other one
  have hnotINT : ∀ insn, (s.reserv .FP).Has insn → insn ∉ startedINT := fun insn h h' =>
    nomatch hclass _ _ insn h (hreadyINT insn h').1.1
  have hnotFP : ∀ insn, (s.reserv .INT).Has insn → insn ∉ startedFP := fun insn h h' =>
    nomatch hclass _ _ insn h (hreadyFP insn h').1.1
  refine ⟨startedINT ++ startedFP, ⟨fun u => ?_, fun u => ?_⟩, fun insn h => ?_, fun u insn => ?_,
    fun insn => ?_, fun u => ?_, fun u => ?_, rfl, rfl, rfl, rfl⟩
  · cases u
    · exact hs.reserv .INT
    · exact hs.reserv .FP
  · cases u
    · exact hdistinctINT
    · exact hdistinctFP
  · rcases List.mem_append.mp h with h | h
    · exact ⟨⟨.INT, (hreadyINT insn h).1⟩, (hreadyINT insn h).2⟩
    · refine ⟨⟨.FP, (hreadyFP insn h).1⟩, fun k => ?_⟩
      rw [← hQ insn, (hreadyFP insn h).2 k]
  · rw [List.mem_append]
    cases u
    · refine (hfuINT insn).trans ⟨fun h => ?_, fun h => ?_⟩
      · exact h.imp_right fun h => ⟨(hreadyINT insn h).1.1, Or.inl h⟩
      · exact h.imp_right fun h => h.2.resolve_right (hnotFP insn h.1)
    · refine (hfuFP insn).trans ⟨fun h => ?_, fun h => ?_⟩
      · exact h.imp_right fun h => ⟨(hreadyFP insn h).1.1, Or.inr h⟩
      · exact h.imp_right fun h => h.2.resolve_left (hnotINT insn h.1)
  · show (issueToExecuteHelper currentCycle s.reservFP s.fuFP _).2 insn = _
    rw [show (issueToExecuteHelper currentCycle s.reservFP s.fuFP _).2 insn = _ from htableFP insn,
      show (issueToExecuteHelper currentCycle s.reservINT s.fuINT s.table).2 insn = _ from
        htableINT insn]
    by_cases hINT : insn ∈ startedINT <;> by_cases hFP : insn ∈ startedFP <;> simp [hINT, hFP]
  · cases u
    · refine hexitINT.imp_right fun h insn hin hout => ?_
      refine h insn hin (fun hold => hout ((hfuINT insn).mpr (Or.inl hold))) fun hstarted => ?_
      exact hout ((hfuINT insn).mpr (Or.inr hstarted))
    · refine hexitFP.imp_right fun h insn hin hout => ?_
      have hwaits := h insn hin (fun hold => hout ((hfuFP insn).mpr (Or.inl hold))) fun hstarted =>
        hout ((hfuFP insn).mpr (Or.inr hstarted))
      rwa [hQ insn] at hwaits
  · cases u <;> rfl

/-! ## Dispatch to issue -/

/-- The producers that an instruction notes when it takes a reservation station. -/
def renamedQ (trace : Trace) (s : Sim) (insn : Nat) : SlotArray MAX_INPUT_REGS Nat := fun k =>
  match (getInstr trace insn).rIn k with
  | none => (s.table insn).Q k
  | some reg =>
      match s.mapTable reg with
      | none => (s.table insn).Q k
      | some producer => some producer

/-- What taking a reservation station does. -/
structure TakesStation (trace : Trace) (currentCycle : Nat) (s s' : Sim) (u : FuClass)
    (insn : Nat) : Prop where
  fu_class : fuClass (opAt trace insn) = some u
  room : (s.reserv u).isFull = false
  distinct : s.Distinct → ¬ (s.reserv u).Has insn → s'.Distinct
  reserv : ∀ v j, (s'.reserv v).Has j ↔ (s.reserv v).Has j ∨ (v = u ∧ j = insn)
  fu : ∀ v, s'.fu v = s.fu v
  table : ∀ j, s'.table j = if j = insn then
    { s.table j with tomIssueCycle := currentCycle, Q := renamedQ trace s j } else s.table j
  map : ∀ reg, s'.mapTable reg =
    if Writes trace insn reg then some insn else s.mapTable reg
  bus : s'.commonDataBus = s.commonDataBus
  fetch : s'.fetchIndex = s.fetchIndex

section

variable {s' : Sim} {u : FuClass} {insn : Nat}

/-- Nothing is dispatched. -/
theorem TakesStation.dispatch (h : TakesStation trace currentCycle s s' u insn) (j : Nat) :
    (s'.table j).tomDispatchCycle = (s.table j).tomDispatchCycle := by
  rw [h.table]
  split <;> rfl

/-- Nothing starts to execute. -/
theorem TakesStation.execute (h : TakesStation trace currentCycle s s' u insn) (j : Nat) :
    (s'.table j).tomExecuteCycle = (s.table j).tomExecuteCycle := by
  rw [h.table]
  split <;> rfl

/-- Nothing is put on the bus. -/
theorem TakesStation.cdb (h : TakesStation trace currentCycle s s' u insn) (j : Nat) :
    (s'.table j).tomCdbCycle = (s.table j).tomCdbCycle := by
  rw [h.table]
  split <;> rfl

/-- The instruction is issued in this cycle. -/
theorem TakesStation.issue (h : TakesStation trace currentCycle s s' u insn) (j : Nat) :
    (s'.table j).tomIssueCycle = if j = insn then currentCycle else (s.table j).tomIssueCycle := by
  rw [h.table]
  split <;> rfl

end

/-- A register that the instruction writes is renamed to it. -/
theorem rename_map (insn : Nat) (reg : Reg) :
    (s.rename trace currentCycle insn).mapTable reg =
      if Writes trace insn reg then some insn else s.mapTable reg := by
  have hfold : ∀ (outs : List (Fin MAX_OUTPUT_REGS)) (mapTable : SlotArray MD_TOTAL_REGS Nat),
      (outs.foldl (fun mapTable k =>
        match (getInstr trace insn).rOut k with
        | none => mapTable
        | some reg => Function.update mapTable reg (some insn)) mapTable) reg =
      if ∃ k ∈ outs, (getInstr trace insn).rOut k = some reg then some insn else mapTable reg := by
    intro outs
    induction outs with
    | nil => exact fun mapTable => by simp
    | cons k outs ih =>
        intro mapTable
        rw [List.foldl_cons, ih]
        cases hk : (getInstr trace insn).rOut k with
        | none => simp [hk]
        | some out =>
            by_cases hout : reg = out
            · subst hout
              simp [hk]
            · simp [hk, Function.update_of_ne hout, Ne.symm hout]
  refine (hfold (List.finRange MAX_OUTPUT_REGS) s.mapTable).trans ?_
  simp [Writes]

/-- Both classes of reservation stations are taken in the same way. -/
theorem takes_station {queue : RingBuffer INSTR_QUEUE_SIZE Nat} {u : FuClass} {insn : Nat}
    {s' : Sim} (hclass : fuClass (opAt trace insn) = some u) (hroom : (s.reserv u).isFull = false)
    (hreserv : s'.reserv u = (s.reserv u).insert insn)
    (hother : ∀ v, v ≠ u → s'.reserv v = s.reserv v)
    (hfu : ∀ v, s'.fu v = s.fu v) (hs' : s' = { s with
      instrQueue := queue, reservINT := s'.reservINT, reservFP := s'.reservFP }) :
    TakesStation trace currentCycle s (s'.rename trace currentCycle insn) u insn := by
  have htable : s'.table = s.table := by rw [hs']
  have hmap : s'.mapTable = s.mapTable := by rw [hs']
  have hres : ∀ v, (s'.rename trace currentCycle insn).reserv v = s'.reserv v := fun v => by
    cases v <;> rfl
  have hfus : ∀ v, (s'.rename trace currentCycle insn).fu v = s'.fu v := fun v => by cases v <;> rfl
  refine ⟨hclass, hroom, fun hdistinct hnot => ⟨fun v => ?_, fun v => ?_⟩, fun v j => ?_,
    fun v => ?_, fun j => ?_, fun reg => ?_, ?_, ?_⟩
  · rw [hres]
    by_cases hv : v = u
    · subst hv
      rw [hreserv]
      exact (hdistinct.reserv v).insert hnot
    · rw [hother v hv]
      exact hdistinct.reserv v
  · rw [hfus, hfu]
    exact hdistinct.fu v
  · rw [hres]
    by_cases hv : v = u
    · subst hv
      rw [hreserv, SlotArray.has_insert hroom]
      simp [or_comm]
    · simp [hother v hv, hv]
  · rw [hfus, hfu]
  · by_cases hj : j = insn
    · subst hj
      rw [if_pos rfl]
      show Function.update s'.table j _ j = _
      rw [Function.update_self, htable, hmap]
      rfl
    · rw [if_neg hj]
      show Function.update s'.table insn _ j = _
      rw [Function.update_of_ne hj, htable]
  · rw [rename_map, hmap]
  · show s'.commonDataBus = _
    rw [hs']
  · show s'.fetchIndex = _
    rw [hs']

/-- What dispatch to issue does: a branch leaves the queue, another instruction takes a reservation
station of its class if there is room. -/
theorem dispatchToIssue_spec {l : List Nat} (hqueue : s.instrQueue.Holds l)
    (htrap : ∀ j ∈ l, isTrap (opAt trace j) = false) :
    (l = [] ∧ dispatchToIssue trace currentCycle s = some s) ∨
    ∃ insn rest, l = insn :: rest ∧
      ((isBranch (opAt trace insn) = true ∧ ∃ queue, queue.Holds rest ∧
          dispatchToIssue trace currentCycle s = some { s with instrQueue := queue }) ∨
        (∃ u, fuClass (opAt trace insn) = some u ∧ (s.reserv u).isFull = true ∧
          dispatchToIssue trace currentCycle s = some s) ∨
        ∃ u s', TakesStation trace currentCycle s s' u insn ∧ s'.instrQueue.Holds rest ∧
          dispatchToIssue trace currentCycle s = some s') := by
  rw [dispatchToIssue]
  cases l with
  | nil =>
      rw [if_pos (hqueue.is_empty.mpr rfl)]
      exact Or.inl ⟨rfl, rfl⟩
  | cons insn rest =>
      rw [if_neg fun h => nomatch hqueue.is_empty.mp h]
      have hpeek : s.instrQueue.peek = some insn := hqueue.peek
      obtain ⟨queue, hdequeue, hrest⟩ := hqueue.dequeue
      refine Or.inr ⟨insn, rest, rfl, ?_⟩
      simp only [hpeek, hdequeue, Option.bind_eq_bind, Option.bind_some]
      by_cases hbranch : isBranch (opAt trace insn) = true
      · rw [if_pos hbranch]
        exact Or.inl ⟨hbranch, queue, hrest, rfl⟩
      · rw [if_neg hbranch]
        refine Or.inr ?_
        obtain ⟨u, hu⟩ := fu_class_of_not_branch (htrap insn List.mem_cons_self)
          (Bool.eq_false_iff.mpr hbranch)
        rw [hu]
        cases u with
        | INT =>
            by_cases hfull : s.reservINT.isFull = true
            · exact Or.inl ⟨.INT, rfl, hfull, by simp [hfull]⟩
            · refine Or.inr ⟨.INT, _, @takes_station trace currentCycle s queue .INT insn
                { s with instrQueue := queue, reservINT := s.reservINT.insert insn }
                hu (Bool.eq_false_iff.mpr hfull) rfl ?_ (fun v => ?_) rfl, hrest, by simp [hfull]⟩
              · rintro (_ | _) hv
                · exact absurd rfl hv
                · rfl
              · cases v <;> rfl
        | FP =>
            by_cases hfull : s.reservFP.isFull = true
            · exact Or.inl ⟨.FP, rfl, hfull, by simp [hfull]⟩
            · refine Or.inr ⟨.FP, _, @takes_station trace currentCycle s queue .FP insn
                { s with instrQueue := queue, reservFP := s.reservFP.insert insn }
                hu (Bool.eq_false_iff.mpr hfull) rfl ?_ (fun v => ?_) rfl, hrest, by simp [hfull]⟩
              · rintro (_ | _) hv
                · rfl
                · exact absurd rfl hv
              · cases v <;> rfl

/-! ## Fetch to dispatch -/

/-- The index `insn` is the next one after `index` that is fetched. -/
structure NextFetchable (trace : Trace) (index insn : Nat) : Prop where
  lt : index < insn
  fetchable : Fetchable trace insn
  least : ∀ j, index < j → j < insn → ¬ Fetchable trace j

/-- What fetching an instruction does. -/
structure Fetches (currentCycle : Nat) (s s' : Sim) (l : List Nat) (insn : Nat) : Prop where
  queue : s'.instrQueue.Holds (l ++ [insn])
  fetch : s'.fetchIndex = insn
  table : ∀ j, s'.table j =
    if j = insn then { s.table j with tomDispatchCycle := currentCycle } else s.table j
  reserv : ∀ u, s'.reserv u = s.reserv u
  fu : ∀ u, s'.fu u = s.fu u
  bus : s'.commonDataBus = s.commonDataBus
  map : s'.mapTable = s.mapTable

section

variable {s' : Sim} {l : List Nat} {insn : Nat}

/-- Nothing is issued. -/
theorem Fetches.issue (h : Fetches currentCycle s s' l insn) (j : Nat) :
    (s'.table j).tomIssueCycle = (s.table j).tomIssueCycle := by
  rw [h.table]
  split <;> rfl

/-- Nothing starts to execute. -/
theorem Fetches.execute (h : Fetches currentCycle s s' l insn) (j : Nat) :
    (s'.table j).tomExecuteCycle = (s.table j).tomExecuteCycle := by
  rw [h.table]
  split <;> rfl

/-- Nothing is put on the bus. -/
theorem Fetches.cdb (h : Fetches currentCycle s s' l insn) (j : Nat) :
    (s'.table j).tomCdbCycle = (s.table j).tomCdbCycle := by
  rw [h.table]
  split <;> rfl

/-- What an instruction waits for stays the same. -/
theorem Fetches.dependence (h : Fetches currentCycle s s' l insn) (j : Nat) :
    (s'.table j).Q = (s.table j).Q := by
  rw [h.table]
  split <;> rfl

/-- The instruction is dispatched in this cycle. -/
theorem Fetches.dispatch (h : Fetches currentCycle s s' l insn) (j : Nat) :
    (s'.table j).tomDispatchCycle =
    if j = insn then currentCycle else (s.table j).tomDispatchCycle := by
  rw [h.table]
  split <;> rfl

/-- The instruction that is fetched goes to the end of the queue. -/
theorem fetches {queue : RingBuffer INSTR_QUEUE_SIZE Nat} (hqueue : queue.Holds (l ++ [insn])) :
    Fetches currentCycle s { s with
      instrQueue := queue, fetchIndex := insn
      table := Function.update s.table insn
        { s.table insn with tomDispatchCycle := currentCycle } } l insn := by
  refine ⟨hqueue, rfl, fun j => ?_, fun u => ?_, fun u => ?_, rfl, rfl⟩
  · by_cases hj : j = insn
    · subst hj
      simp
    · simp [hj]
  · cases u <;> rfl
  · cases u <;> rfl

end

/-- The next instruction of the rest of a trace. -/
theorem getInstr_drop {insn : Insn} {rest : Trace} {index : Nat}
    (h : trace.drop index = insn :: rest) :
    index < trace.length ∧ getInstr trace (index + 1) = insn ∧ trace.drop (index + 1) = rest := by
  have hlt : index < trace.length := by
    by_contra hle
    rw [List.drop_eq_nil_of_le (not_lt.mp hle)] at h
    exact nomatch h
  rw [List.drop_eq_getElem_cons hlt] at h
  obtain ⟨hhead, htail⟩ := List.cons.inj h
  refine ⟨hlt, ?_, htail⟩
  rw [getInstr, Nat.add_sub_cancel, List.getD_eq_getElem?_getD, List.getElem?_eq_getElem hlt]
  exact hhead

/-- The loop over the trace ends behind it, or at the next instruction to fetch. -/
theorem fetchNext_spec (rest : Trace) {index : Nat} (hrest : trace.drop index = rest) :
    match fetchNext rest index with
    | (next, none) => index < next ∧ trace.length < next ∧ ∀ j, index < j → ¬ Fetchable trace j
    | (next, some insn) => next = insn ∧ NextFetchable trace index insn := by
  induction rest generalizing index with
  | nil =>
      have hlen : trace.length ≤ index := List.drop_eq_nil_iff.mp hrest
      refine ⟨Nat.lt_succ_self index, Nat.lt_succ_of_le hlen, fun j hj hfetch => ?_⟩
      exact absurd hfetch.2.1 (not_le.mpr (Nat.lt_of_le_of_lt hlen hj))
  | cons insn rest ih =>
      obtain ⟨hlt, hinsn, hdrop⟩ := getInstr_drop hrest
      rw [fetchNext]
      by_cases htrap : isTrap insn.op = true
      · rw [if_pos htrap]
        have hskip : ¬ Fetchable trace (index + 1) := by
          rintro ⟨-, -, h⟩
          rw [opAt, hinsn, htrap] at h
          exact nomatch h
        have hnot : ∀ j, index < j → ¬ index + 1 < j → ¬ Fetchable trace j := by
          intro j hj hj'
          rwa [show j = index + 1 by omega]
        have hnext := ih hdrop
        split at hnext
        · obtain ⟨hlt, hlen, hnone⟩ := hnext
          refine ⟨Nat.lt_of_succ_lt hlt, hlen, fun j hj => ?_⟩
          by_cases hj' : index + 1 < j
          · exact hnone j hj'
          · exact hnot j hj hj'
        · obtain ⟨heq, hlt, hfetch, hleast⟩ := hnext
          refine ⟨heq, Nat.lt_of_succ_lt hlt, hfetch, fun j hj hlast => ?_⟩
          by_cases hj' : index + 1 < j
          · exact hleast j hj' hlast
          · exact hnot j hj hj'
      · rw [if_neg htrap]
        refine ⟨rfl, Nat.lt_succ_self index, ⟨Nat.le_add_left 1 index, hlt, ?_⟩, fun j hj hj' => ?_⟩
        · rw [opAt, hinsn]
          exact Bool.eq_false_iff.mpr htrap
        · exact absurd hj' (not_lt.mpr hj)

/-- What fetching does: with room in the queue the next instruction that is no trap enters it, if
there is one. -/
theorem fetch_spec {l : List Nat} (hqueue : s.instrQueue.Holds l) :
    (l.length = INSTR_QUEUE_SIZE ∧ fetch trace s = some s) ∨
    (l.length < INSTR_QUEUE_SIZE ∧ ∃ index, s.fetchIndex < index ∧ trace.length < index ∧
      (∀ j, s.fetchIndex < j → ¬ Fetchable trace j) ∧
      fetch trace s = some { s with fetchIndex := index }) ∨
    ∃ insn queue, NextFetchable trace s.fetchIndex insn ∧
      s.instrQueue.enqueue insn = some queue ∧ queue.Holds (l ++ [insn]) ∧
      fetch trace s = some { s with instrQueue := queue, fetchIndex := insn } := by
  rw [fetch]
  by_cases hfull : s.instrQueue.isFull = true
  · rw [if_pos hfull]
    exact Or.inl ⟨hqueue.is_full.mp hfull, rfl⟩
  · have hroom : l.length < INSTR_QUEUE_SIZE :=
      Nat.lt_of_le_of_ne hqueue.le fun h => hfull (hqueue.is_full.mpr h)
    rw [if_neg hfull]
    have hspec := @fetchNext_spec trace _ s.fetchIndex rfl
    generalize fetchNext (trace.drop s.fetchIndex) s.fetchIndex = next at hspec ⊢
    obtain ⟨index, fetched⟩ := next
    cases fetched with
    | none =>
        obtain ⟨hlt, hlen, hnone⟩ := hspec
        exact Or.inr (Or.inl ⟨hroom, index, hlt, hlen, hnone, rfl⟩)
    | some insn =>
        obtain ⟨rfl, hnext⟩ := hspec
        obtain ⟨queue, henqueue, hholds⟩ := hqueue.enqueue (a := index) hroom
        refine Or.inr (Or.inr ⟨index, queue, hnext, henqueue, hholds, ?_⟩)
        simp only [henqueue, Option.bind_eq_bind, Option.bind_some]

/-- What fetch to dispatch does: with room in the queue, the next instruction that is no trap enters
it and is stamped, if there is one. -/
theorem fetchToDispatch_spec {l : List Nat} (hqueue : s.instrQueue.Holds l)
    (hstamped : ∀ j ∈ l, (s.table j).tomDispatchCycle ≠ 0)
    (hnew : ∀ j, s.fetchIndex < j → (s.table j).tomDispatchCycle = 0) :
    (l.length = INSTR_QUEUE_SIZE ∧ fetchToDispatch trace currentCycle s = some s) ∨
    (l.length < INSTR_QUEUE_SIZE ∧ ∃ index, s.fetchIndex < index ∧ trace.length < index ∧
      (∀ j, s.fetchIndex < j → ¬ Fetchable trace j) ∧
      fetchToDispatch trace currentCycle s = some { s with fetchIndex := index }) ∨
    ∃ insn queue, NextFetchable trace s.fetchIndex insn ∧ queue.Holds (l ++ [insn]) ∧
      fetchToDispatch trace currentCycle s = some { s with
        instrQueue := queue, fetchIndex := insn
        table := Function.update s.table insn
          { s.table insn with tomDispatchCycle := currentCycle } } := by
  -- the instruction at the tail of the queue is stamped once only
  have htail : s.instrQueue.peekTail = none ∨
      ∃ j, s.instrQueue.peekTail = some j ∧ (s.table j).tomDispatchCycle ≠ 0 := by
    rw [hqueue.peek_tail]
    cases hlast : l.getLast? with
    | none => exact Or.inl rfl
    | some j => exact Or.inr ⟨j, rfl, hstamped j (List.mem_of_getLast? hlast)⟩
  rw [fetchToDispatch]
  rcases @fetch_spec trace s l hqueue with
    ⟨hfull, heq⟩ | ⟨hroom, index, hlt, hlen, hnone, heq⟩ |
      ⟨insn, queue, hnext, -, hholds, heq⟩
  · refine Or.inl ⟨hfull, ?_⟩
    rcases htail with h | ⟨j, h, hne⟩
    · simp [heq, h]
    · simp [heq, h, hne]
  · refine Or.inr (Or.inl ⟨hroom, index, hlt, hlen, hnone, ?_⟩)
    rcases htail with h | ⟨j, h, hne⟩
    · simp [heq, h]
    · simp [heq, h, hne]
  · refine Or.inr (Or.inr ⟨insn, queue, hnext, hholds, ?_⟩)
    have hpeek := hholds.peek_tail
    rw [List.getLast?_concat] at hpeek
    simp [heq, hpeek, hnew insn hnext.lt]

end Ece552.Tomasulo
