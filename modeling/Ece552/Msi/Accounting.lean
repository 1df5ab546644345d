import Ece552.Msi.Block

/-!
# Message accounting for one address

What every run keeps, whatever order messages arrive in: which directory state goes with which
owner, sharers and pending memory request (`DirShape`), that an L1 waits for data exactly when one
obligation to supply it is pending (`Balanced`), and that its TBE counts the acknowledgements still
to come (`AcksBalanced`). `Accounting.step` needs no restriction on the steps.
-/

namespace Ece552.Msi.Block

open Library

variable {N D : Type} [DecidableEq N] {s s' : Block N D} {useMap : Bool}

/-! ## The directory -/

/-- The owner, sharers and memory request that go with each directory state. -/
def DirShape (s : Block N D) : Prop :=
  match s.dir with
  | .I => s.memory = [] ∧ s.sharers = .empty ∧ s.owner = .empty
  | .IS_M => ∃ r value, s.memory = [(r, .MEMORY_READ, value)] ∧ s.sharers.elems = [r] ∧
      s.owner = .empty
  | .IM_M => ∃ r value, s.memory = [(r, .MEMORY_READ, value)] ∧ s.sharers = .empty ∧
      s.owner.elems = [r]
  | .S => s.memory = [] ∧ s.owner = .empty
  | .M => s.memory = [] ∧ s.sharers = .empty ∧ ∃ r, s.owner.elems = [r]
  | .MS_D => s.memory = [] ∧ s.owner = .empty
  | .MS_M => ∃ r value, s.memory = [(r, .MEMORY_WB, value)] ∧ s.owner = .empty
  | .MI_M => ∃ r value, s.memory = [(r, .MEMORY_WB, value)] ∧ s.sharers = .empty ∧
      s.owner = .empty

omit [DecidableEq N] in
/-- The directory shape depends on nothing else. -/
theorem DirShape.congr (h : s.DirShape) (hdir : s'.dir = s.dir) (hmemory : s'.memory = s.memory)
    (hsharers : s'.sharers = s.sharers) (howner : s'.owner = s.owner) : s'.DirShape := by
  unfold DirShape at h ⊢
  rwa [hdir, hmemory, hsharers, howner]

/-- A request leaves the directory in a shape that goes with its state. -/
theorem RequestStep.dir_shape [Inhabited D] {event : Directory.Event} {r : N}
    (h : RequestStep useMap s event r s') (hs : s.DirShape) : s'.DirShape := by
  cases h with
  | getSI hpop hdir | getMI hpop hdir | getMS hpop hdir | putSLastS hpop hdir
  | getSM hpop hdir | getMM hpop hdir | putMOwner hpop hdir | putMMS_D hpop hdir =>
      simp only [DirShape, hdir] at hs ⊢
      simp [hs]
  | getSS hpop hdir | putMS hpop hdir | putMMS_M hpop hdir =>
      simp only [DirShape, hdir] at hs ⊢
      exact hs
  | putSLastI hpop hdir => exact hs.congr rfl rfl rfl rfl
  | putSNotLast hpop hdir =>
      simp only [List.mem_cons, List.not_mem_nil, or_false] at hdir
      rcases hdir with hdir | hdir | hdir <;> simpa only [DirShape, hdir] using hs
  | putSM hpop hdir | putMNotOwner hpop hdir => exact hs.congr rfl rfl rfl rfl
  | putSLastMS hpop hdir =>
      simp only [List.mem_cons, List.not_mem_nil, or_false] at hdir
      rcases hdir with hdir | hdir <;> simpa only [DirShape, hdir] using hs

omit [DecidableEq N] in
/-- So does data. -/
theorem DataStep.dir_shape {i : N} (h : DataStep s i s') (hs : s.DirShape) : s'.DirShape := by
  cases h with
  | dropped hremoved hdir => exact hs.congr rfl rfl rfl rfl
  | dataMS_D hremoved hdir =>
      simp only [DirShape, hdir] at hs ⊢
      simp [hs]
  | dataMS_M hremoved hdir => exact hs.congr rfl rfl rfl rfl

omit [DecidableEq N] in
/-- So does memory that is done. -/
theorem MemoryStep.dir_shape [Inhabited D] {event : Directory.Event} {r : N}
    (h : MemoryStep useMap s event r s') (hs : s.DirShape) : s'.DirShape := by
  cases h with
  | dataIS_M hremoved hdir | dataIM_M hremoved hdir | ackMS_M hremoved hdir
  | ackMI_M hremoved hdir =>
      simp only [DirShape, hdir] at hs ⊢
      obtain ⟨r', value', hmemory, hs⟩ := hs
      rw [hmemory] at hremoved
      obtain ⟨-, rfl⟩ := hremoved.of_singleton
      simp [hs]

/-- Step lemma. -/
theorem Step.dir_shape [Inhabited D] {label : Option (Directory.Event × N)}
    (h : Step useMap s label s')
    (hs : s.DirShape) : s'.DirShape := by
  cases h with
  | cpu h => cases h <;> exact hs.congr rfl rfl rfl rfl
  | forward h => cases h <;> exact hs.congr rfl rfl rfl rfl
  | response h => cases h <;> exact hs.congr rfl rfl rfl rfl
  | request h => exact h.dir_shape hs
  | data h => exact h.dir_shape hs
  | memory h => exact h.dir_shape hs

/-! ## Obligations to supply data -/

/-- The pending obligations to supply a shared copy. -/
def sharedPending (s : Block N D) (i : N) : Nat :=
  tally Request.isGETS i s.requests + mentions (.GETS i) s.forwards +
    if s.dir = .IS_M then tally isRead i s.memory else 0

/-- The pending obligations to supply an exclusive copy. -/
def exclusivePending (s : Block N D) (i : N) : Nat :=
  tally Request.isGETM i s.requests + mentions (.GETM i) s.forwards +
    if s.dir = .IM_M then tally isRead i s.memory else 0

/-- The number of obligations of each kind that an L1 in this state waits for. -/
@[grind =] def awaitsShared (state : L1Cache.State) : Nat := if state = .IS_D then 1 else 0

/-- Does the L1 wait for a line to write? -/
@[grind =] def awaitsExclusive (state : L1Cache.State) : Nat :=
  if state = .IM_AD ∨ state = .SM_AD then 1 else 0

/-- An L1 that waits for data has exactly one obligation pending, and of the kind it waits for,
until the data is in flight to it. -/
def Balanced (s : Block N D) (i : N) : Prop :=
  s.sharedPending i ≤ awaitsShared (s.state i) ∧
  s.exclusivePending i ≤ awaitsExclusive (s.state i) ∧
  s.sharedPending i + s.exclusivePending i + tally Response.isData i s.responses =
    awaitsShared (s.state i) + awaitsExclusive (s.state i)

/-- A miss of the processor is answered by one request. -/
theorem CpuStep.balanced (h : CpuStep s s') (hs : ∀ i, s.Balanced i) (i : N) :
    s'.Balanced i := by
  have hi := hs i
  simp only [Balanced, sharedPending, exclusivePending] at hi ⊢
  cases h with
  | loadI hst => grind
  | storeI hst => grind
  | storeS hst => grind
  | storeM hst => grind
  | replacementS hst => grind
  | replacementM hst => grind

/-- A forward that is taken is answered by data or an acknowledgement. -/
theorem ForwardStep.balanced [Inhabited D] (h : ForwardStep s s') (hs : ∀ i, s.Balanced i) (j : N) :
    s'.Balanced j := by
  have hj := hs j
  simp only [Balanced, sharedPending, exclusivePending] at hs hj ⊢
  cases h with
  | @invI i r rest hpop hst | @invS i r rest hpop hst | @invSM_AD i r rest hpop hst
  | @invSI_A i r rest hpop hst =>
      have hcount := hpop.removed.mentions
      by_cases hji : j = i <;> grind
  | @wbAckI i rest hpop hst | @wbAck i rest hpop hst =>
      have hcount := hpop.removed.mentions
      by_cases hji : j = i <;> grind
  | @fwdGetSM i r rest hpop hst | @fwdGetSMI_A i r rest hpop hst | @fwdGetMM i r rest hpop hst
  | @fwdGetMMI_A i r rest hpop hst =>
      have hcount := hpop.removed.mentions
      by_cases hji : j = i <;> by_cases hjr : j = r <;> grind

/-- Data that is taken is no longer awaited. -/
theorem ResponseStep.balanced (h : ResponseStep s s') (hs : ∀ i, s.Balanced i) (j : N) :
    s'.Balanced j := by
  have hj := hs j
  simp only [Balanced, sharedPending, exclusivePending] at hs hj ⊢
  cases h with
  | @dataIS_D i value rest hremoved hst | @dataLast i value stored ackCount rest hremoved hst
  | @dataAckCntIM_AD i value ackCount rest hremoved hst
  | @dataAckCntSM_AD i value ackCount rest hremoved hst =>
      have hcount := hremoved.tally Response.isData j
      by_cases hji : j = i <;> grind
  | @invAck i rest hremoved hst | @invAckAll i stored rest hremoved hst =>
      have hcount := hremoved.tally Response.isData j
      by_cases hji : j = i <;> grind

/-- Obligations depend on nothing else. -/
theorem Balanced.congr {j : N} (h : s.Balanced j) (hstate : s'.state j = s.state j)
    (hgets : tally Request.isGETS j s'.requests = tally Request.isGETS j s.requests)
    (hgetm : tally Request.isGETM j s'.requests = tally Request.isGETM j s.requests)
    (hfwds : mentions (.GETS j) s'.forwards = mentions (.GETS j) s.forwards)
    (hfwdm : mentions (.GETM j) s'.forwards = mentions (.GETM j) s.forwards)
    (hdata : tally Response.isData j s'.responses = tally Response.isData j s.responses)
    (hdir : s'.dir = s.dir) (hmemory : s'.memory = s.memory) : s'.Balanced j := by
  unfold Balanced sharedPending exclusivePending at h ⊢
  rwa [hstate, hgets, hgetm, hfwds, hfwdm, hdata, hdir, hmemory]

/-- A request that is taken goes to memory, or to the owner. -/
theorem RequestStep.balanced [Inhabited D] {event : Directory.Event} {r : N}
    (h : RequestStep useMap s event r s') (hdir : s.DirShape) (hs : ∀ i, s.Balanced i) (j : N) :
    s'.Balanced j := by
  have hj := hs j
  cases h with
  | getSI hpop hst | getMI hpop hst | getSS hpop hst | getMS hpop hst =>
      have hgets := hpop.removed.tally Request.isGETS j
      have hgetm := hpop.removed.tally Request.isGETM j
      simp only [DirShape, hst] at hdir
      simp only [Balanced, sharedPending, exclusivePending, hdir] at hj ⊢
      grind
  | getSM hpop hst | getMM hpop hst =>
      have hgets := hpop.removed.tally Request.isGETS j
      have hgetm := hpop.removed.tally Request.isGETM j
      simp only [DirShape, hst] at hdir
      obtain ⟨-, -, owner, howner⟩ := hdir
      have hcount : s.owner.count = 1 := by simp [NetDest.count, howner]
      simp only [Balanced, sharedPending, exclusivePending] at hj ⊢
      grind
  | putMOwner hpop hst | putMMS_D hpop hst | putSLastS hpop hst =>
      have hgets := hpop.removed.tally Request.isGETS j
      have hgetm := hpop.removed.tally Request.isGETM j
      simp only [Balanced, sharedPending, exclusivePending] at hj ⊢
      grind
  | putSLastI hpop hst | putSNotLast hpop hst | putMS hpop hst | putSM hpop hst
  | putMNotOwner hpop hst | putMMS_M hpop hst =>
      have hgets := hpop.removed.tally Request.isGETS j
      have hgetm := hpop.removed.tally Request.isGETM j
      exact hj.congr rfl (by simpa [Request.isGETS] using hgets.symm)
        (by simpa [Request.isGETM] using hgetm.symm) (by simp) (by simp) rfl rfl rfl
  | putSLastMS hpop hst => exact hj.congr rfl rfl rfl (by simp) (by simp) rfl rfl rfl

/-- The data for the directory is awaited by no L1. -/
theorem DataStep.balanced {i : N} (h : DataStep s i s') (hs : ∀ i, s.Balanced i) (j : N) :
    s'.Balanced j := by
  have hj := hs j
  cases h with
  | dropped hremoved hst | dataMS_M hremoved hst =>
      exact hj.congr rfl rfl rfl rfl rfl rfl rfl rfl
  | dataMS_D hremoved hst =>
      simp only [Balanced, sharedPending, exclusivePending, hst, reduceCtorEq, if_false] at hj ⊢
      exact hj

/-- Memory that is done sends its data to the L1 it read for. -/
theorem MemoryStep.balanced [Inhabited D] {event : Directory.Event} {r : N}
    (h : MemoryStep useMap s event r s') (hdir : s.DirShape) (hs : ∀ i, s.Balanced i) (j : N) :
    s'.Balanced j := by
  have hj := hs j
  cases h with
  | dataIS_M hremoved hst | dataIM_M hremoved hst =>
      have hreads := hremoved.tally isRead j
      simp only [DirShape, hst] at hdir
      obtain ⟨r', value', hmemory, -⟩ := hdir
      rw [hmemory] at hremoved
      obtain ⟨-, rfl⟩ := hremoved.of_singleton
      simp only [Balanced, sharedPending, exclusivePending] at hj ⊢
      grind [tally_nil]
  | ackMS_M hremoved hst | ackMI_M hremoved hst =>
      simp only [Balanced, sharedPending, exclusivePending] at hj ⊢
      grind

/-- Step lemma. -/
theorem Step.balanced [Inhabited D] {label : Option (Directory.Event × N)}
    (h : Step useMap s label s')
    (hdir : s.DirShape) (hs : ∀ i, s.Balanced i) (j : N) : s'.Balanced j := by
  cases h with
  | cpu h => exact h.balanced hs j
  | forward h => exact h.balanced hs j
  | response h => exact h.balanced hs j
  | request h => exact h.balanced hdir hs j
  | data h => exact h.balanced hs j
  | memory h => exact h.balanced hdir hs j

/-! ## Acknowledgements of invalidations -/

/-- The pending acks of a TBE are below zero while the L1 waits for the data, and above zero while
it waits for nothing but acknowledgements. -/
@[grind =] def AckSign (state : L1Cache.State) (pendingAcks : Int) : Prop :=
  (state = .IM_AD ∨ state = .SM_AD → pendingAcks ≤ 0) ∧
  (state = .IM_A ∨ state = .SM_A → 0 < pendingAcks) ∧
  (state ≠ .IM_AD → state ≠ .SM_AD → state ≠ .IM_A → state ≠ .SM_A → pendingAcks = 0)

/-- Pending acks and the ack count in flight together tell the acknowledgements still to come: in
flight, or owed by an L1 that an invalidation is in flight to. -/
structure AcksBalanced (s : Block N D) (i : N) : Prop where
  expected : s.pendingAcks i - total Response.ackCount i s.responses =
    tally Response.isAck i s.responses + mentions (.INV i) s.forwards
  sign : AckSign (s.state i) (s.pendingAcks i)
  ack_count : ∀ value ackCount, (i, .DATA value ackCount) ∈ s.responses →
    ackCount ≤ 0 ∧ (ackCount ≠ 0 → s.state i = .IM_AD ∨ s.state i = .SM_AD)

/-- A miss of the processor awaits no acknowledgements yet. -/
theorem CpuStep.acks_balanced (h : CpuStep s s') (hs : ∀ i, s.AcksBalanced i) (j : N) :
    s'.AcksBalanced j := by
  obtain ⟨hexpected, hsign, hcount⟩ := hs j
  cases h with
  | @loadI i hst | @storeI i hst | @storeS i hst | @storeM i value hst | @replacementS i hst
  | @replacementM i hst =>
      by_cases hji : j = i <;> constructor <;> grind

/-- An invalidation that is taken is acknowledged. -/
theorem ForwardStep.acks_balanced [Inhabited D] (h : ForwardStep s s') (hs : ∀ i, s.AcksBalanced i)
    (j : N) :
    s'.AcksBalanced j := by
  obtain ⟨hexpected, hsign, hcount⟩ := hs j
  cases h with
  | @invI i r rest hpop hst | @invS i r rest hpop hst | @invSM_AD i r rest hpop hst
  | @invSI_A i r rest hpop hst =>
      have hinv := hpop.removed.mentions (.INV j)
      by_cases hji : j = i <;> constructor <;> grind
  | @wbAckI i rest hpop hst | @wbAck i rest hpop hst =>
      have hinv := hpop.removed.mentions (.INV j)
      by_cases hji : j = i <;> constructor <;> grind
  | @fwdGetSM i r rest hpop hst | @fwdGetSMI_A i r rest hpop hst | @fwdGetMM i r rest hpop hst
  | @fwdGetMMI_A i r rest hpop hst =>
      have hinv := hpop.removed.mentions (.INV j)
      by_cases hji : j = i <;> constructor <;> grind

/-- A data message in flight to an L1 is the only one. -/
theorem Balanced.no_other_data {i : N} {value : D} {ackCount : Int} {rest : List (N × Response D)}
    (h : s.Balanced i) (hremoved : Removed s.responses (i, .DATA value ackCount) rest)
    (value' : D) (ackCount' : Int) : ¬ (i, .DATA value' ackCount') ∈ rest := by
  intro hmem
  have hdata := hremoved.tally Response.isData i
  have hpos : 0 < tally Response.isData i rest := tally_pos.mpr ⟨_, hmem, rfl⟩
  obtain ⟨-, -, htotal⟩ := h
  grind

/-- A sum over data messages that are not there. -/
theorem total_ack_count_eq_zero {i : N} {l : List (N × Response D)}
    (h : ∀ value ackCount, ¬ (i, .DATA value ackCount) ∈ l) :
    total Response.ackCount i l = 0 := by
  refine total_eq_zero fun m hm => ?_
  cases m with
  | ACK => rfl
  | DATA value ackCount => exact absurd hm (h value ackCount)

/-- An L1 with data in flight to it waits for data. -/
theorem Balanced.awaits_data {i : N} {value : D} {ackCount : Int} (h : s.Balanced i)
    (hmem : (i, .DATA value ackCount) ∈ s.responses) :
    s.state i = .IS_D ∨ s.state i = .IM_AD ∨ s.state i = .SM_AD := by
  have hpos : 0 < tally Response.isData i s.responses := tally_pos.mpr ⟨_, hmem, rfl⟩
  obtain ⟨-, -, htotal⟩ := h
  grind

/-- An acknowledgement that is taken is no longer awaited. -/
theorem ResponseStep.acks_balanced (h : ResponseStep s s') (hb : ∀ i, s.Balanced i)
    (hs : ∀ i, s.AcksBalanced i) (j : N) : s'.AcksBalanced j := by
  obtain ⟨hexpected, hsign, hcount⟩ := hs j
  cases h with
  | @dataIS_D i value rest hremoved hst =>
      have hack := hremoved.tally Response.isAck j
      have htotal := hremoved.total Response.ackCount j
      have hother := (hb i).no_other_data hremoved
      by_cases hji : j = i <;> constructor <;> grind [hremoved.mem_of_rest]
  | @dataLast i value stored ackCount rest hremoved hst
  | @dataAckCntIM_AD i value ackCount rest hremoved hst
  | @dataAckCntSM_AD i value ackCount rest hremoved hst =>
      have hack := hremoved.tally Response.isAck j
      have htotal := hremoved.total Response.ackCount j
      have hrest := total_ack_count_eq_zero ((hb i).no_other_data hremoved)
      have hother := (hb i).no_other_data hremoved
      by_cases hji : j = i <;> constructor <;> grind [hremoved.mem_of_rest]
  | @invAck i rest hremoved hst | @invAckAll i stored rest hremoved hst =>
      have hack := hremoved.tally Response.isAck j
      have htotal := hremoved.total Response.ackCount j
      -- an L1 that no longer waits for data knows every acknowledgement still to come
      have hnone : s.state i = .IM_A ∨ s.state i = .SM_A →
          total Response.ackCount i s.responses = 0 := fun hi =>
        total_ack_count_eq_zero fun _ _ hmem => by grind [(hb i).awaits_data hmem]
      by_cases hji : j = i <;> constructor <;> grind [hremoved.mem_of_rest]

/-- Acknowledgements depend on nothing else. -/
theorem AcksBalanced.congr {j : N} (h : s.AcksBalanced j) (hstate : s'.state j = s.state j)
    (hpending : s'.pendingAcks j = s.pendingAcks j)
    (hforwards : mentions (.INV j) s'.forwards = mentions (.INV j) s.forwards)
    (hresponses : s'.responses = s.responses) : s'.AcksBalanced j := by
  obtain ⟨hexpected, hsign, hcount⟩ := h
  exact ⟨by rwa [hpending, hforwards, hresponses], by rwa [hstate, hpending],
    by rwa [hstate, hresponses]⟩

/-- A data message without acks to wait for changes no balance. -/
theorem AcksBalanced.send_data {j r : N} {value : D} (h : s.AcksBalanced j)
    (hstate : s'.state j = s.state j) (hpending : s'.pendingAcks j = s.pendingAcks j)
    (hforwards : mentions (.INV j) s'.forwards = mentions (.INV j) s.forwards)
    (hresponses : s'.responses = s.responses ++ [(r, .DATA value 0)]) : s'.AcksBalanced j := by
  obtain ⟨hexpected, hsign, hcount⟩ := h
  refine ⟨?_, by rwa [hstate, hpending], ?_⟩
  · rw [hpending, hforwards, hresponses]
    grind
  · rw [hstate, hresponses]
    grind

/-- A request that is taken sends as many invalidations as acknowledgements it promises. -/
theorem RequestStep.acks_balanced [Inhabited D] {event : Directory.Event} {r : N}
    (h : RequestStep useMap s event r s') (hb : ∀ i, s.Balanced i) (hs : ∀ i, s.AcksBalanced i)
    (j : N) : s'.AcksBalanced j := by
  have hj := hs j
  cases h with
  | getSI | getMI | putSLastI | putSNotLast | putSLastS | putMS | getSM | getMM | putSM | putMOwner
  | putMNotOwner | putSLastMS | putMMS_D | putMMS_M => exact hj.congr rfl rfl (by simp) rfl
  | getSS => exact hj.send_data rfl rfl (by simp) rfl
  | getMS hpop hst =>
      obtain ⟨hexpected, hsign, hcount⟩ := hj
      have hgetm := hpop.removed.tally Request.isGETM r
      have hr := hb r
      simp only [Balanced, exclusivePending] at hr
      constructor <;> grind

/-- The data for the directory promises no acknowledgements. -/
theorem DataStep.acks_balanced {i : N} (h : DataStep s i s') (hs : ∀ i, s.AcksBalanced i) (j : N) :
    s'.AcksBalanced j := by
  cases h with
  | dropped | dataMS_D | dataMS_M => exact (hs j).congr rfl rfl rfl rfl

/-- Memory that is done promises none either. -/
theorem MemoryStep.acks_balanced [Inhabited D] {event : Directory.Event} {r : N}
    (h : MemoryStep useMap s event r s') (hs : ∀ i, s.AcksBalanced i) (j : N) :
    s'.AcksBalanced j := by
  cases h with
  | dataIS_M | dataIM_M => exact (hs j).send_data rfl rfl rfl rfl
  | ackMS_M | ackMI_M => exact (hs j).congr rfl rfl (by simp) rfl

/-- Step lemma. -/
theorem Step.acks_balanced [Inhabited D] {label : Option (Directory.Event × N)}
    (h : Step useMap s label s')
    (hb : ∀ i, s.Balanced i) (hs : ∀ i, s.AcksBalanced i) (j : N) : s'.AcksBalanced j := by
  cases h with
  | cpu h => exact h.acks_balanced hs j
  | forward h => exact h.acks_balanced hs j
  | response h => exact h.acks_balanced hb hs j
  | request h => exact h.acks_balanced hb hs j
  | data h => exact h.acks_balanced hs j
  | memory h => exact h.acks_balanced hs j

/-! ## The order of requests -/

/-- The writebacks of a queue are ahead of its other requests. -/
def PutsFirst (queue : List (Request D)) : Prop :=
  queue.Pairwise fun m m' => m'.isPut = true → m.isPut = true

/-- A writeback of an L1 is ahead of its other requests, and the L1 waits for the acknowledgement,
has taken one, or has gone on to a request that is queued behind the writeback. -/
structure RequestShape (s : Block N D) (i : N) : Prop where
  ordered : PutsFirst (messagesOf i s.requests)
  put_state : ∀ m, (i, m) ∈ s.requests → m.isPut = true →
    s.state i = .MI_A ∨ s.state i = .SI_A ∨ s.state i = .II_A ∨ s.state i = .I ∨
    (s.state i = .IS_D ∧ (i, .GETS) ∈ s.requests) ∨
    (s.state i = .IM_AD ∧ (i, .GETM) ∈ s.requests)
  puts_state : (i, .PUTS) ∈ s.requests → s.state i ≠ .MI_A

/-- A request for a copy at the head of the queue has no writeback behind it. -/
theorem RequestShape.no_put {i : N} {m p : Request D} {rest : List (N × Request D)}
    (h : s.RequestShape i) (hpop : Popped s.requests (i, m) rest) (hm : m.isPut = false)
    (hmem : (i, p) ∈ s.requests) : p.isPut = false := by
  have hordered := h.ordered
  rw [hpop.messages_of_self, PutsFirst, List.pairwise_cons] at hordered
  rw [← mem_messages_of, hpop.messages_of_self, List.mem_cons] at hmem
  rcases hmem with rfl | hmem
  · exact hm
  · have := hordered.1 p hmem
    grind

/-- A request for a copy at the head of the queue has no writeback of a modified line behind it. -/
theorem RequestShape.no_putm {i : N} {m : Request D} {rest : List (N × Request D)}
    (h : s.RequestShape i) (hpop : Popped s.requests (i, m) rest) (hm : m.isPut = false) :
    tally Request.isPUTM i s.requests = 0 := by
  by_contra hne
  obtain ⟨m', hmem, hputm⟩ := tally_pos.mp (Nat.pos_of_ne_zero hne)
  have := h.no_put hpop hm hmem
  cases m' <;> simp_all [Request.isPut, Request.isPUTM]

/-- The requests of an L1 that did not change keep their shape. -/
theorem RequestShape.congr {i : N} (h : s.RequestShape i) (hstate : s'.state i = s.state i)
    (hrequests : s'.requests = s.requests) : s'.RequestShape i := by
  obtain ⟨hordered, hput, hputs⟩ := h
  exact ⟨by rwa [hrequests], by rwa [hstate, hrequests], by rwa [hstate, hrequests]⟩

/-- A GETS in the request network is awaited. -/
theorem Balanced.of_gets {i : N} (h : s.Balanced i) (hmem : (i, .GETS) ∈ s.requests) :
    s.state i = .IS_D := by
  have hpos : 0 < tally Request.isGETS i s.requests := tally_pos.mpr ⟨_, hmem, rfl⟩
  simp only [Balanced, sharedPending] at h
  grind

/-- A GETM in the request network is awaited. -/
theorem Balanced.of_getm {i : N} (h : s.Balanced i) (hmem : (i, .GETM) ∈ s.requests) :
    s.state i = .IM_AD ∨ s.state i = .SM_AD := by
  have hpos : 0 < tally Request.isGETM i s.requests := tally_pos.mpr ⟨_, hmem, rfl⟩
  simp only [Balanced, exclusivePending] at h
  grind

/-- With data in flight to an L1, nothing else is pending for it. -/
theorem Balanced.of_data {i : N} {value : D} {ackCount : Int} (h : s.Balanced i)
    (hmem : (i, .DATA value ackCount) ∈ s.responses) :
    s.sharedPending i = 0 ∧ s.exclusivePending i = 0 := by
  have hpos : 0 < tally Response.isData i s.responses := tally_pos.mpr ⟨_, hmem, rfl⟩
  simp only [Balanced] at h
  grind

/-- Sending keeps the writebacks ahead if a writeback finds nothing else in the queue. -/
theorem PutsFirst.send {i j : N} {m : Request D} {l : List (N × Request D)}
    (h : PutsFirst (messagesOf j l))
    (hm : m.isPut = true → i = j → ∀ m', (j, m') ∈ l → m'.isPut = true) :
    PutsFirst (messagesOf j (l ++ [(i, m)])) := by
  unfold PutsFirst at h ⊢
  rw [messages_of_append, messages_of_cons, messages_of_nil, List.append_nil]
  split
  · next heq =>
      rw [List.pairwise_append]
      refine ⟨h, List.pairwise_singleton _ _, fun m' hmem m'' hmem' hput => ?_⟩
      obtain rfl := List.mem_singleton.mp hmem'
      exact hm hput heq m' (mem_messages_of.mp hmem)
  · rwa [List.append_nil]

/-- A miss of the processor sends the request that its state calls for. -/
theorem CpuStep.request_shape (h : CpuStep s s') (hb : ∀ i, s.Balanced i)
    (hs : ∀ i, s.RequestShape i) (j : N) : s'.RequestShape j := by
  obtain ⟨hordered, hput, hputs⟩ := hs j
  have hgets := (hb j).of_gets
  have hgetm := (hb j).of_getm
  cases h with
  | @loadI i hst | @storeI i hst | @storeS i hst =>
      refine ⟨hordered.send (by simp [Request.isPut]), ?_, ?_⟩ <;> by_cases hji : j = i <;> grind
  | @storeM i value hst => exact ⟨hordered, by grind, by grind⟩
  | @replacementS i hst | @replacementM i hst =>
      have hnone : i = j → ∀ m, ¬ (j, m) ∈ s.requests := by
        rintro rfl m hmem
        cases m <;> grind
      refine ⟨hordered.send (fun _ hij m hm => absurd hm (hnone hij m)), ?_, ?_⟩ <;>
        by_cases hji : j = i <;> grind

/-- A forward that is taken leaves the requests alone. -/
theorem ForwardStep.request_shape [Inhabited D] (h : ForwardStep s s') (hs : ∀ i, s.RequestShape i)
    (j : N) :
    s'.RequestShape j := by
  obtain ⟨hordered, hput, hputs⟩ := hs j
  cases h with
  | invI | wbAckI => exact ⟨hordered, hput, hputs⟩
  | @invS i r rest hpop hst | @invSM_AD i r rest hpop hst | @invSI_A i r rest hpop hst
  | @wbAck i rest hpop hst | @fwdGetSM i r rest hpop hst | @fwdGetSMI_A i r rest hpop hst
  | @fwdGetMM i r rest hpop hst | @fwdGetMMI_A i r rest hpop hst =>
      refine ⟨hordered, ?_, ?_⟩ <;> by_cases hji : j = i <;> grind

/-- A response that is taken ends the request. -/
theorem ResponseStep.request_shape (h : ResponseStep s s') (hb : ∀ i, s.Balanced i)
    (hs : ∀ i, s.RequestShape i) (j : N) : s'.RequestShape j := by
  obtain ⟨hordered, hput, hputs⟩ := hs j
  cases h with
  | @dataIS_D i value rest hremoved hst | @dataLast i value stored ackCount rest hremoved hst
  | @dataAckCntIM_AD i value ackCount rest hremoved hst
  | @dataAckCntSM_AD i value ackCount rest hremoved hst =>
      have hnone := (hb i).of_data hremoved.mem
      have hgets := tally_pos (p := Request.isGETS) (k := i) (l := s.requests)
      have hgetm := tally_pos (p := Request.isGETM) (k := i) (l := s.requests)
      simp only [sharedPending, exclusivePending] at hnone
      refine ⟨hordered, ?_, ?_⟩ <;> by_cases hji : j = i <;> grind
  | @invAck i rest hremoved hst | @invAckAll i stored rest hremoved hst =>
      refine ⟨hordered, ?_, ?_⟩ <;> by_cases hji : j = i <;> grind

/-- Taking a request out of the network keeps the shape. -/
theorem RequestShape.pop {j r : N} {m : Request D} {rest : List (N × Request D)}
    (h : s.RequestShape j) (hpop : Popped s.requests (r, m) rest)
    (hstate : s'.state j = s.state j) (hrequests : s'.requests = rest) : s'.RequestShape j := by
  have hsub : ∀ {m'}, (j, m') ∈ rest → (j, m') ∈ s.requests := hpop.removed.mem_of_rest
  -- what is queued behind a writeback is not what was taken
  have hkeep : ∀ {m' m''}, (j, m') ∈ rest → m'.isPut = true → m''.isPut = false →
      (j, m'') ∈ s.requests → (j, m'') ∈ rest := by
    intro m' m'' hm' hput hget hm''
    refine hpop.removed.rest_of_mem hm'' ?_
    rintro heq
    obtain ⟨rfl, rfl⟩ := Prod.mk.inj heq
    simp [h.no_put hpop hget (hsub hm')] at hput
  refine ⟨?_, ?_, ?_⟩
  · rw [hrequests]
    exact h.ordered.sublist hpop.messages_of_sublist
  · rw [hstate, hrequests]
    intro m' hm' hput
    have hgets := @hkeep m' .GETS hm' hput rfl
    have hgetm := @hkeep m' .GETM hm' hput rfl
    grind [h.put_state m' (hsub hm') hput]
  · rw [hstate, hrequests]
    exact fun hm' => h.puts_state (hsub hm')

/-- A request that is taken is one less. -/
theorem RequestStep.request_shape [Inhabited D] {event : Directory.Event} {r : N}
    (h : RequestStep useMap s event r s') (hs : ∀ i, s.RequestShape i) (j : N) :
    s'.RequestShape j := by
  cases h with
  | getSI hpop | getMI hpop | putSLastI hpop | getSS hpop | getMS hpop | putSNotLast hpop
  | putSLastS hpop | putMS hpop | getSM hpop | getMM hpop | putSM hpop | putMOwner hpop
  | putMNotOwner hpop | putMMS_D hpop | putMMS_M hpop => exact (hs j).pop hpop rfl rfl
  | putSLastMS => exact (hs j).congr rfl rfl

/-- Step lemma. -/
theorem Step.request_shape [Inhabited D] {label : Option (Directory.Event × N)}
    (h : Step useMap s label s')
    (hb : ∀ i, s.Balanced i) (hs : ∀ i, s.RequestShape i) (j : N) : s'.RequestShape j := by
  cases h with
  | cpu h => exact h.request_shape hb hs j
  | forward h => exact h.request_shape hs j
  | response h => exact h.request_shape hb hs j
  | request h => exact h.request_shape hs j
  | data h => cases h <;> exact (hs j).congr rfl rfl
  | memory h => cases h <;> exact (hs j).congr rfl rfl

/-! ## The invariant of all runs -/

/-- What every run keeps. -/
structure Accounting (s : Block N D) : Prop where
  dir_shape : s.DirShape
  balanced : ∀ i, s.Balanced i
  acks_balanced : ∀ i, s.AcksBalanced i
  request_shape : ∀ i, s.RequestShape i

/-- Nothing is in flight at the start. -/
theorem Initial.accounting (h : Initial s) : s.Accounting where
  dir_shape := by simp [DirShape, h.dir, h.memory, h.sharers, h.owner]
  balanced := fun i => by
    simp [Balanced, sharedPending, exclusivePending, awaitsShared, awaitsExclusive, h.state,
      h.requests, h.forwards, h.responses, h.memory]
  acks_balanced := fun i =>
    ⟨by simp [h.pendingAcks, h.forwards, h.responses], by simp [AckSign, h.state, h.pendingAcks],
      by simp [h.responses]⟩
  request_shape := fun i =>
    ⟨by simp [h.requests, PutsFirst], by simp [h.requests], by simp [h.requests]⟩

/-- Step lemma. -/
theorem Accounting.step [Inhabited D] {label : Option (Directory.Event × N)} (hs : s.Accounting)
    (h : Step useMap s label s') : s'.Accounting where
  dir_shape := h.dir_shape hs.dir_shape
  balanced := h.balanced hs.dir_shape hs.balanced
  acks_balanced := h.acks_balanced hs.balanced hs.acks_balanced
  request_shape := h.request_shape hs.balanced hs.request_shape

/-- Every run keeps the accounts. -/
theorem Accounting.of_run [Inhabited D] {allowed : Block N D → Option (Directory.Event × N) → Prop}
    (h : (system useMap).Run allowed s) : s.Accounting :=
  h.invariant (fun _ (hinit : Initial _) => hinit.accounting)
    fun _ _ _ _ hs _ hstep => hs.step hstep

/-- A memory read is queued only in the states that wait for it. -/
theorem Accounting.reads {i : N} (h : s.Accounting) :
    tally isRead i s.memory = (if s.dir = .IS_M then tally isRead i s.memory else 0) +
      if s.dir = .IM_M then tally isRead i s.memory else 0 := by
  have hshape := h.dir_shape
  unfold DirShape at hshape
  cases hdir : s.dir <;> simp only [hdir] at hshape <;> grind [tally_nil]

/-- The memory requests pending in each state of the directory. -/
theorem Accounting.memory_pending (h : s.Accounting) :
    tallyAll isRead s.memory = (if s.dir ∈ [Directory.State.IS_M, .IM_M] then 1 else 0) ∧
      tallyAll isWriteback s.memory = if s.dir ∈ [Directory.State.MS_M, .MI_M] then 1 else 0 := by
  have hshape := h.dir_shape
  unfold DirShape at hshape
  cases hdir : s.dir <;> simp only [hdir] at hshape <;> grind [tally_all_nil]

/-- The obligations of either kind together. -/
theorem Accounting.obligations {i : N} (h : s.Accounting) :
    tally Request.isGETS i s.requests + tally Request.isGETM i s.requests +
      tally isRead i s.memory + (mentions (.GETS i) s.forwards + mentions (.GETM i) s.forwards) +
      tally Response.isData i s.responses =
    awaitsShared (s.state i) + awaitsExclusive (s.state i) := by
  have hbalanced := (h.balanced i).2.2
  have hreads := h.reads (i := i)
  simp only [sharedPending, exclusivePending] at hbalanced
  omega

/-! ## Completing a store -/

/-- The states of an L1 on its way to the state M. -/
@[grind =] def Upgrading (state : L1Cache.State) : Prop :=
  state = .IM_AD ∨ state = .IM_A ∨ state = .SM_AD ∨ state = .SM_A

/-- The states are listed. -/
instance (state : L1Cache.State) : Decidable (Upgrading state) :=
  inferInstanceAs (Decidable (_ ∨ _ ∨ _ ∨ _))

/-- What an L1 has to get before it completes a store. -/
def outstanding (s : Block N D) (i : N) : Nat :=
  awaitsShared (s.state i) + awaitsExclusive (s.state i) +
    (tally Response.isAck i s.responses + mentions (.INV i) s.forwards)

/-- No ack count is in flight to an L1 that does not wait for data. -/
theorem Accounting.no_ack_count {i : N} (h : s.Accounting) (hst : s.state i ≠ .IM_AD)
    (hst' : s.state i ≠ .SM_AD) : total Response.ackCount i s.responses = 0 := by
  refine total_eq_zero fun m hm => ?_
  cases m with
  | ACK => rfl
  | DATA value ackCount =>
      have := (h.acks_balanced i).ack_count value ackCount hm
      grind

/-- Something is outstanding on the way to the state M. -/
theorem Accounting.outstanding_pos {i : N} (h : s.Accounting) (hst : Upgrading (s.state i)) :
    0 < s.outstanding i := by
  obtain ⟨hexpected, ⟨-, hsign, -⟩, -⟩ := h.acks_balanced i
  have hcount := h.no_ack_count (i := i)
  unfold outstanding
  rcases hst with hst | hst | hst | hst <;> grind

/-- Nothing is outstanding in the state M. -/
theorem Accounting.outstanding_eq_zero {i : N} (h : s.Accounting) (hst : s.state i = .M) :
    s.outstanding i = 0 := by
  obtain ⟨hexpected, ⟨-, -, hsign⟩, -⟩ := h.acks_balanced i
  have hcount := h.no_ack_count (i := i)
  unfold outstanding
  grind

/-- The way to the state M leads nowhere else. -/
theorem Step.upgrading [Inhabited D] {label : Option (Directory.Event × N)}
    (h : Step useMap s label s') {i : N}
    (hst : Upgrading (s.state i)) : Upgrading (s'.state i) ∨ s'.state i = .M := by
  cases h with
  | cpu h => cases h <;> grind
  | forward h => cases h <;> grind
  | response h => cases h <;> grind
  | request h => cases h <;> exact Or.inl hst
  | data h => cases h <;> exact Or.inl hst
  | memory h => cases h <;> exact Or.inl hst

/-- An acknowledgement or an ack count is in flight only to an L1 on its way to the state M. -/
theorem Accounting.upgrading_of_response {i : N} {m : Response D} (h : s.Accounting)
    (hmem : (i, m) ∈ s.responses) (hm : m = .ACK ∨ m.ackCount ≠ 0) : Upgrading (s.state i) := by
  obtain ⟨hexpected, ⟨hnonpos, -, hzero⟩, hcount⟩ := h.acks_balanced i
  cases m with
  | ACK =>
      have hpos : 0 < tally Response.isAck i s.responses := tally_pos.mpr ⟨_, hmem, rfl⟩
      have hnone := h.no_ack_count (i := i)
      grind
  | DATA value ackCount =>
      have := hcount value ackCount hmem
      grind

end Ece552.Msi.Block
