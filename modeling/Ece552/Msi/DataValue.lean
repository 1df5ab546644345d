import Ece552.Msi.Readers

/-!
# The newest data

Every place that may read, write or pass on the line holds the value of the last store performed.
A store is performed in state M, where no other such place exists, so it needs only the exclusion
proved for readers and authorities; every other step copies the value from one place to another.
-/

namespace Ece552.Msi.Block

open Library
open Directory (Trigger)

variable {N D : Type} [DecidableEq N] {s s' : Block N D}

/-- The places that hold the value of the last store. -/
structure UpToDate (s : Block N D) : Prop where
  copy : ∀ i, s.state i = .M ∨ s.state i = .IM_A ∨ s.state i = .SM_A ∨ s.state i = .S ∨
    s.state i = .SM_AD → s.data i = s.image
  response : ∀ i value ackCount, (i, .DATA value ackCount) ∈ s.responses → value = s.image
  fetched : ∀ i value, (i, .MEMORY_READ, value) ∈ s.memory → value = s.image
  taken : ∀ i, s.state i = .MI_A → 0 < tally Forward.isRequest i s.forwards → s.data i = s.image
  writeback : ∀ i value, (i, .PUTM value) ∈ s.requests → i ∈ s.owner → value = s.image
  downgrade : ∀ i value, (i, value) ∈ s.downgrades → value = s.image
  dir : s.dir = .I ∨ s.dir = .IS_M ∨ s.dir = .S ∨ s.dir = .MS_M ∨ s.dir = .MI_M →
    s.dirData = s.image
  buffered : ∀ i value, s.state i = .MI_A → (i, .PUTM value) ∈ s.requests → value = s.data i

/-- What the directory state says of a memory read. -/
theorem Accounting.of_read {i : N} {value : D} (ha : s.Accounting)
    (hmem : (i, .MEMORY_READ, value) ∈ s.memory) :
    s.dir = .IS_M ∨ (s.dir = .IM_M ∧ i ∈ s.owner) := by
  have hshape := ha.dir_shape
  unfold DirShape at hshape
  cases hdir : s.dir <;> simp only [hdir] at hshape
  case IS_M => exact Or.inl rfl
  case IM_M =>
      obtain ⟨r, value', hmemory, -, howner⟩ := hshape
      obtain ⟨rfl, -⟩ : i = r ∧ value = value' := by simpa [hmemory] using hmem
      exact Or.inr ⟨rfl, NetDest.mem_elems.mp (by simp [howner])⟩
  case I | S | M | MS_D => simp [hshape.1] at hmem
  case MS_M | MI_M =>
      obtain ⟨r, value', hmemory, -⟩ := hshape
      simp [hmemory] at hmem

/-- A store in state M makes every place up to date, since no other place is left. -/
theorem UpToDate.of_store {i : N} (hs : s.UpToDate) (ha : s'.Accounting) (hd : s'.DowngradeBalanced)
    (ho : s'.Ownership) (hr : s'.Readership) (hst : s'.state i = .M) (hdata : s'.data i = s'.image)
    (hstate : ∀ j, j ≠ i → s'.state j = s.state j ∧ s'.data j = s.data j)
    (hrequests : s'.requests = s.requests) : s'.UpToDate := by
  have hexcl : ∀ j, s'.Holds j ∨ s'.Reads j ∨ s'.DirHolds → j = i ∧ ¬ s'.DirHolds :=
    fun j => hr.exclusive ha ho hst
  have hnodir : ¬ s'.DirHolds := fun h => (hexcl i (Or.inr (Or.inr h))).2 h
  have hawaits : ∀ j value ackCount, ¬ (j, .DATA value ackCount) ∈ s'.responses := by
    intro j value ackCount hmem
    have hpos : 0 < tally Response.isData j s'.responses := tally_pos.mpr ⟨_, hmem, rfl⟩
    have hj := (ha.balanced j).awaits_data hmem
    have := hexcl j
    grind
  refine ⟨?_, ?_, ?_, ?_, ?_, ?_, ?_, ?_⟩
  · intro j hj
    have := hexcl j
    grind
  · intro j value ackCount hmem
    exact absurd hmem (hawaits j value ackCount)
  · intro j value hmem
    rcases ha.of_read hmem with hdir | ⟨hdir, howner⟩
    · exact absurd (by grind) hnodir
    · have hj := ha.reading_owner hdir howner
      have := hexcl j
      grind
  · intro j hj hpos
    have := hexcl j
    grind
  · intro j value hmem howner
    have hpos : 0 < tally Request.isPUTM j s'.requests := tally_pos.mpr ⟨_, hmem, rfl⟩
    have hput := (ha.request_shape j).put_state _ hmem rfl
    have := hexcl j
    grind
  · intro j value hmem
    have hne := List.ne_nil_of_mem hmem
    have hdir : s'.dir = .MS_D := by
      by_contra hne'
      exact hne (hd.downgrades_of_ne hne')
    exact absurd (by grind) hnodir
  · intro hdir
    exact absurd (by grind) hnodir
  · intro j value hj hmem
    have hne : j ≠ i := by grind
    have := hs.buffered j value
    grind

/-- A request of the processor is served from data that is up to date. -/
theorem CpuStep.up_to_date (h : CpuStep s s') (hs : s.UpToDate) (ha' : s'.Accounting)
    (hd' : s'.DowngradeBalanced) (ho' : s'.Ownership) (hr' : s'.Readership) (ha : s.Accounting) :
    s'.UpToDate := by
  obtain ⟨hcopy, hresponse, hfetched, htaken, hwriteback, hdowngrade, hdir, hbuffered⟩ := hs
  cases h with
  | @storeM i value hst =>
      exact UpToDate.of_store (i := i)
        ⟨hcopy, hresponse, hfetched, htaken, hwriteback, hdowngrade, hdir, hbuffered⟩ ha' hd' ho'
        hr' (by simp) (by simp) (fun j hj => by simp [hj]) rfl
  | @replacementM i hst =>
      have hput := fun m => (ha.request_shape i).put_state m
      constructor <;> grind
  | @loadI i hst | @storeI i hst | @storeS i hst | @replacementS i hst => constructor <;> grind

/-- A response leaves the L1 with data that is up to date. -/
theorem ResponseStep.up_to_date (h : ResponseStep s s') (hs : s.UpToDate) (ha' : s'.Accounting)
    (hd' : s'.DowngradeBalanced) (ho' : s'.Ownership) (hr' : s'.Readership) : s'.UpToDate := by
  cases h with
  | @dataLast i value stored ackCount rest hremoved hst
  | @invAckAll i stored rest hremoved hst =>
      exact hs.of_store (i := i) ha' hd' ho' hr' (by simp) (by simp) (fun j hj => by simp [hj]) rfl
  | @dataIS_D i value rest hremoved hst | @dataAckCntIM_AD i value ackCount rest hremoved hst
  | @dataAckCntSM_AD i value ackCount rest hremoved hst | @invAck i rest hremoved hst =>
      obtain ⟨hcopy, hresponse, hfetched, htaken, hwriteback, hdowngrade, hdir, hbuffered⟩ := hs
      constructor <;> grind [hremoved.mem_iff]

/-- A forward takes the data along that is up to date. -/
theorem ForwardStep.up_to_date [Inhabited D] (h : ForwardStep s s')
    (hs : s.UpToDate) : s'.UpToDate := by
  obtain ⟨hcopy, hresponse, hfetched, htaken, hwriteback, hdowngrade, hdir, hbuffered⟩ := hs
  cases h with
  | @invI i r rest hpop hst | @invS i r rest hpop hst | @invSM_AD i r rest hpop hst
  | @invSI_A i r rest hpop hst | @wbAckI i rest hpop hst | @wbAck i rest hpop hst
  | @fwdGetSM i r rest hpop hst | @fwdGetSMI_A i r rest hpop hst
  | @fwdGetMM i r rest hpop hst | @fwdGetMMI_A i r rest hpop hst =>
      have hcount := hpop.removed.tally Forward.isRequest
      constructor <;> grind

/-- A request leaves the data of the directory alone, unless it writes back old data. -/
theorem RequestStep.up_to_date [Inhabited D] {event : Directory.Event} {r : N}
    (h : RequestStep false s event r s')
    (hskips : Trigger.skipsDowngrade ⟨s.dir, s.sharers, event, r⟩ = false)
    (hoverwrites : Trigger.overwritesWriteback ⟨s.dir, s.sharers, event, r⟩ = false)
    (hs : s.UpToDate) (ha : s.Accounting) (ho : s.Ownership) : s'.UpToDate := by
  obtain ⟨hcopy, hresponse, hfetched, htaken, hwriteback, hdowngrade, hdir, hbuffered⟩ := hs
  cases h with
  | getSM hpop hst | getMM hpop hst =>
      have hnoput := fun m => (ha.request_shape r).no_put (p := .PUTM m) hpop rfl
      -- an owner whose line is on its way out has the value of its writeback
      have hbuffer : ∀ i, s.state i = .MI_A → i ∈ s.owner → s.data i = s.image := by
        intro i hi howner
        obtain ⟨m, hmem, hm⟩ := tally_pos.mp (ho.writeback i hi howner)
        cases m with
        | PUTM value =>
            exact (hbuffered i value hi hmem).symm.trans (hwriteback i value hmem howner)
        | GETS | GETM | PUTS => cases hm
      constructor <;> grind [hpop.mem_iff]
  | getMI hpop hst | getMS hpop hst =>
      have hnoput := fun m => (ha.request_shape r).no_put (p := .PUTM m) hpop rfl
      constructor <;> grind [hpop.mem_iff]
  | getSI hpop hst | putSLastI hpop hst | getSS hpop hst | putSNotLast hpop hst
  | putSLastS hpop hst | putMS hpop hst | putSM hpop hst | putMOwner hpop hst
  | putMNotOwner hpop hst | putSLastMS hpop hst | putMMS_D hpop hst | putMMS_M hpop hst =>
      constructor <;> grind [hpop.mem_iff, forget]

/-- The data of an owner is up to date when it gets to the directory. -/
theorem DataStep.up_to_date {i : N} (h : DataStep s i s') (hs : s.UpToDate) : s'.UpToDate := by
  obtain ⟨hcopy, hresponse, hfetched, htaken, hwriteback, hdowngrade, hdir, hbuffered⟩ := hs
  cases h with
  | dropped hremoved hst | dataMS_D hremoved hst | dataMS_M hremoved hst =>
      constructor <;> grind [hremoved.mem_iff]

/-- Memory hands out the data of the directory. -/
theorem MemoryStep.up_to_date [Inhabited D] {event : Directory.Event} {r : N}
    (h : MemoryStep false s event r s') (hs : s.UpToDate) : s'.UpToDate := by
  obtain ⟨hcopy, hresponse, hfetched, htaken, hwriteback, hdowngrade, hdir, hbuffered⟩ := hs
  cases h with
  | dataIS_M hremoved hst | dataIM_M hremoved hst | ackMS_M hremoved hst | ackMI_M hremoved hst =>
      constructor <;> grind [hremoved.mem_iff, forget]

/-- What the invariants of the authority and of the readers take together. -/
structure Coherent (s : Block N D) : Prop where
  accounting : s.Accounting
  downgrade : s.DowngradeBalanced
  ownership : s.Ownership
  readership : s.Readership

/-- Runs that never take a PUTM in MS_D are coherent. -/
theorem Coherent.of_run [Inhabited D] {useMap : Bool}
    {allowed : Block N D → Option (Directory.Event × N) → Prop}
    (hallowed : ∀ s label, allowed s label → s.Avoids Trigger.skipsDowngrade label)
    (h : (system useMap).Run allowed s) : s.Coherent :=
  ⟨.of_run h, .of_run hallowed h, .of_run hallowed h, .of_run hallowed h⟩

/-- Step lemma. -/
theorem Step.up_to_date [Inhabited D] {label : Option (Directory.Event × N)}
    (h : Step false s label s')
    (hskips : s.Avoids Trigger.skipsDowngrade label)
    (hoverwrites : s.Avoids Trigger.overwritesWriteback label) (hc : s.Coherent)
    (hc' : s'.Coherent) (hs : s.UpToDate) : s'.UpToDate := by
  cases h with
  | cpu h =>
      exact h.up_to_date hs hc'.accounting hc'.downgrade hc'.ownership hc'.readership hc.accounting
  | forward h => exact h.up_to_date hs
  | response h =>
      exact h.up_to_date hs hc'.accounting hc'.downgrade hc'.ownership hc'.readership
  | request h =>
      exact h.up_to_date (hskips _ _ rfl) (hoverwrites _ _ rfl) hs hc.accounting hc.ownership
  | data h => exact h.up_to_date hs
  | memory h => exact h.up_to_date hs

/-- At the start every copy is that of memory. -/
theorem Initial.up_to_date (h : Initial s) : s.UpToDate := by
  constructor <;> simp [h.state, h.responses, h.memory, h.requests, h.downgrades, h.dirData]

/-- Runs in which no PUTM is taken in MS_D or replaces a newer writeback keep every place up to
date, when entries are never dropped. -/
theorem UpToDate.of_run [Inhabited D] {allowed : Block N D → Option (Directory.Event × N) → Prop}
    (hallowed : ∀ s label, allowed s label →
      s.Avoids Trigger.skipsDowngrade label ∧ s.Avoids Trigger.overwritesWriteback label)
    (h : (system false).Run allowed s) : s.UpToDate := by
  refine h.invariant (fun _ (hinit : Initial _) => hinit.up_to_date) ?_
  intro s label s' hrun hs hlabel hstep
  have hskips := fun s label h => (hallowed s label h).1
  exact Step.up_to_date hstep (hallowed s label hlabel).1 (hallowed s label hlabel).2
    (Coherent.of_run hskips hrun) (Coherent.of_run hskips (hrun.step hlabel hstep)) hs

end Ece552.Msi.Block
