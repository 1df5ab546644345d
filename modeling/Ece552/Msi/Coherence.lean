import Ece552.Msi.Census
import Ece552.Msi.DataValue

/-!
# Coherence

While the directory waits for a downgraded line, a PUTM of an earlier owner can take the place of
the answer. Runs in which it never does have a single writer and no reader beside it. Where no such
PUTM replaces the data of a newer writeback either, every copy and every load has the value last
stored.
-/

namespace Ece552.Msi

open Library Block
open Directory (Trigger)
open scoped Sample

variable {ι δ A D : Type} [DecidableEq ι] [DecidableEq δ] [DecidableEq A] [Inhabited D]
  {config : Config ι δ A D}

/-! ## A single writer -/

/-- At most one L1 has the line in state M, and then no other L1 can read it. -/
structure System.SingleWriter (s : System ι δ A D) (address : A) : Prop where
  writer : ∀ i j, s.stateOf i address = .M → s.stateOf j address = .M → j = i
  reader : ∀ i j, s.stateOf i address = .M → j ≠ i →
    s.stateOf j address ∉ [L1Cache.State.S, .SM_AD, .SM_A]

/-- A coherent view has a single writer. -/
theorem Block.Coherent.one_writer {s : System ι δ A D} {image : A → D} {address : A}
    (h : (view config s image address).Coherent) : s.SingleWriter address := by
  have hexclusive : ∀ i j, s.stateOf i address = .M →
      s.stateOf j address ∈ [L1Cache.State.M, .S, .SM_AD, .SM_A] → j = i := by
    intro i j hi hj
    have honly := h.readership.exclusive (i := MachineID.L1Cache i) (j := .L1Cache j)
      h.accounting h.ownership hi
    have hstate : (view config s image address).state (.L1Cache j) = s.stateOf j address := rfl
    rw [Holds, Reads, hstate] at honly
    simp only [List.mem_cons, List.not_mem_nil, or_false] at hj
    exact MachineID.L1Cache.inj (honly (by tauto)).1
  exact ⟨fun i j hi hj => hexclusive i j hi (by simp [hj]),
    fun i j hi hne hj => hne (hexclusive i j hi (List.mem_cons_of_mem _ hj))⟩

/-- There is a single writer in runs that take no PUTM in MS_D. -/
theorem single_writer {s : System ι δ A D}
    (h : (msi config).Run (System.Avoids Trigger.skipsDowngrade) s) (address : A) :
    s.SingleWriter address := by
  obtain ⟨image, hruns⟩ := view_of_run h
  exact (Coherent.of_run (fun _ _ h => h) (hruns address)).one_writer

/-- A line is read from its third owner when the directory takes the writeback of the first for the
data of the second, and answers a load of the first with it. -/
def bypassing : List Sample.Step :=
  [Sample.store 0 1] ++ Sample.request 0 ++ Sample.memory ++ Sample.data 0 1 ++ [Sample.evict 0] ++
    [Sample.store 1 2] ++ Sample.request 1 ++ Sample.forward 0 ++ Sample.response 0 1 2 ++
    [Sample.load 2] ++ Sample.request 2 ++ Sample.request 0 ++ Sample.forward 0 ++ Sample.memory ++
    [Sample.load 0] ++ Sample.request 0 ++ Sample.data 0 0

/-- One L1 has the line in state M, another one in state S. -/
theorem single_writer_fails :
    ¬ ∀ s : System (Fin 3) Unit (Fin 2) Nat, (msi Sample.config).Reachable s →
      ∀ address, s.SingleWriter address := fun h =>
  absurd ((h _ (run_reached bypassing) 0).reader 1 0 (by decide) (by decide)) (by decide)

/-- Beside a line in state M, no other L1 can read it. -/
theorem single_writer_modified :
    let s := (reached Sample.config (System.Avoids Trigger.skipsDowngrade)
      ([Sample.load 1] ++ Sample.request 1 ++ Sample.memory ++ Sample.data 1 0 ++
        [Sample.store 0 1] ++ Sample.request 0 ++ Sample.forward 1 ++ Sample.data 0 1 ++
        Sample.response 1 0 1)).1
    s.stateOf 0 0 = .M ∧ s.stateOf 1 0 ∉ [L1Cache.State.S, .SM_AD, .SM_A] := by
  intro s
  have hrun : (msi Sample.config).Run (System.Avoids Trigger.skipsDowngrade) s := run_reached _
  have hstate : s.stateOf 0 0 = .M := by decide
  exact ⟨hstate, (single_writer hrun 0).reader 0 1 hstate (by decide)⟩

/-! ## The value last stored -/

/-- A PUTM whose data the directory takes for newer than it is. -/
def misplacesData (t : Trigger (MachineID ι δ)) : Bool := t.skipsDowngrade || t.overwritesWriteback

/-- The copies in state S or M, the directory in state I or S, and whatever a load returns have the
value last stored. -/
structure System.DataValue (config : Config ι δ A D) (s : System ι δ A D) (image : A → D) :
    Prop where
  copy : ∀ i address, s.stateOf i address ∈ [L1Cache.State.S, .M] →
    (s.line i address).data = image address
  dir : ∀ address, s.dirStateOf address ∈ [Directory.State.I, .S] →
    (s.dir address).entry.dataBlk = image address
  load : ∀ l result address data, step config s l = .valid result →
    (address, .readCallback data) ∈ result.callbacks → data = image address

/-- Only the L1s tell a sequencer of something. -/
theorem dirEvent_of_callback {s : System ι δ A D} {l : Label ι δ A D} {result : StepResult ι δ A D}
    (h : step config s l = .valid result) (hcallbacks : result.callbacks ≠ []) :
    dirEvent s l = none := by
  cases l with
  | mandatory | forward | response | deliverRequest | deliverForward | deliverResponse => rfl
  | dirRequest | dirResponse | dirMemory =>
      simp only [step] at h
      split at h
      · cases h
      · obtain ⟨-, ctx, -, rfl⟩ := dirTrigger_valid h
        exact absurd rfl hcallbacks

/-- The views of an observed run are up to date. -/
theorem up_to_date_of_observed (hmap : config.useMap = false) {s : System ι δ A D × (A → D)}
    (h : (observed config).Run (fun s l => s.1.Avoids misplacesData l) s) (address : A) :
    (view config s.1 s.2 address).UpToDate := by
  have hrun := view_of_observed h address
  rw [hmap] at hrun
  exact .of_run (fun _ _ h => h.of_or) hrun

/-- Every run in which no PUTM is taken in MS_D or replaces a newer writeback gives the value last
stored, at directories that keep their entries. -/
theorem data_value (hmap : config.useMap = false) {s : System ι δ A D × (A → D)}
    (h : (observed config).Run (fun s l => s.1.Avoids misplacesData l) s) :
    s.1.DataValue config s.2 := by
  have hup := up_to_date_of_observed hmap h
  refine ⟨fun i address hst => ?_, fun address hst => ?_,
    fun l result address data hstep hmem => ?_⟩
  · refine (hup address).copy (.L1Cache i) ?_
    have hstate : (view config s.1 s.2 address).state (.L1Cache i) = s.1.stateOf i address := rfl
    rw [hstate]
    simp only [List.mem_cons, List.not_mem_nil, or_false] at hst
    tauto
  · refine (hup address).dir ?_
    have hstate : (view config s.1 s.2 address).dir = s.1.dirStateOf address := rfl
    rw [hstate]
    simp only [List.mem_cons, List.not_mem_nil, or_false] at hst
    tauto
  · have hwf := wellFormed_of_run (run_of_observed h)
    have hnone := dirEvent_of_callback hstep (List.ne_nil_of_mem hmem)
    have hnext := h.step (fun a event r hevent => by simp [hnone] at hevent) ⟨result, hstep, rfl⟩
    obtain ⟨hkeeps, i, hdata, hst⟩ := (step_refines s.2 hwf hstep).load address data hmem
    -- the copy that the load returns is up to date after the step
    refine hdata.trans (((up_to_date_of_observed hmap hnext address).copy (.L1Cache i) ?_).trans
      hkeeps)
    simp only [List.mem_cons, List.not_mem_nil, or_false] at hst
    have hstate : (view config result.system (observe s.2 result.callbacks) address).state
      (.L1Cache i) = cacheState result.system address (.L1Cache i) := rfl
    rw [hstate]
    tauto

/-- The writeback of an earlier owner is taken while that of the last one is written to memory. -/
def overwriting : List Sample.Step :=
  [Sample.store 0 1] ++ Sample.request 0 ++ Sample.memory ++ Sample.data 0 1 ++ [Sample.evict 0] ++
    [Sample.store 1 2] ++ Sample.request 1 ++ Sample.forward 0 ++ Sample.response 0 1 2 ++
    [Sample.evict 1] ++ Sample.request 1 ++ Sample.request 0 ++ Sample.memory

/-- The directory is in state I with the value of the first store. -/
theorem data_value_fails :
    ¬ ∀ s : System (Fin 3) Unit (Fin 2) Nat × (Fin 2 → Nat), (observed Sample.config).Reachable s →
      s.1.DataValue Sample.config s.2 := by
  intro h
  have hrun : (observed Sample.config).Run (fun s l => s.1.Avoids (fun _ => false) l)
      (reached Sample.config (System.Avoids fun _ => false) overwriting) := observed_reached _
  exact absurd ((h _ hrun.reachable).dir 0 (by decide)) (by decide)

/-- A value that was stored, written back and read again. -/
theorem data_value_written_back :
    let s := reached Sample.config (System.Avoids misplacesData)
      ([Sample.store 0 1] ++ Sample.request 0 ++ Sample.memory ++ Sample.data 0 1 ++
        [Sample.evict 0] ++ Sample.request 0 ++ Sample.memory ++ [Sample.load 1] ++
        Sample.request 1 ++ Sample.memory ++ Sample.data 1 0)
    s.1.stateOf 1 0 = .S ∧ (s.1.line 1 0).data = s.2 0 := by
  intro s
  have hrun : (observed Sample.config).Run (fun s l => s.1.Avoids misplacesData l) s :=
    observed_reached _
  have hstate : s.1.stateOf 1 0 = .S := by decide
  exact ⟨hstate, (data_value rfl hrun).copy 1 0 (by simp [hstate])⟩

end Ece552.Msi
