import Ece552.Msi.Authority

/-!
# Who may read a line

An L1 with a readable copy is a sharer while the directory has the newest data; once an L1 has been
granted exclusive access, an invalidation is on its way to every other copy, and it is answered
before that L1 gets to the state M. So no copy is readable beside one in M.
-/

namespace Ece552.Msi.Block

open Library
open Directory (Trigger)

variable {N D : Type} [DecidableEq N] {s s' : Block N D} {useMap : Bool}

/-- An L1 whose loads hit, or that completes a load with the data in flight to it. -/
@[grind =] def Reads (s : Block N D) (i : N) : Prop :=
  s.state i = .S ∨ s.state i = .SM_AD ∨
    (s.state i = .IS_D ∧ 0 < tally Response.isData i s.responses)

/-- Why an L1 may read: it is a sharer of the directory's data, it is about to be invalidated, or
it upgrades its copy and has the newest data itself. -/
@[grind =] def MayRead (s : Block N D) (i : N) : Prop :=
  (s.DirHolds ∧ i ∈ s.sharers) ∨ 0 < tally Forward.isInv i s.forwards ∨
    (s.state i = .SM_AD ∧ s.Holds i)

/-- The sharers cover the readers. -/
structure Readership (s : Block N D) : Prop where
  downgraded : (∃ p, s.Authority p) → ∀ i, 0 < tally Forward.isGETS i s.forwards → i ∈ s.sharers
  requestor : ∀ r, 0 < mentions (.GETS r) s.forwards → r ∈ s.sharers
  reader : ∀ i, s.Reads i → s.MayRead i

/-- An L1 that an invalidation names has the newest data, and is not in state M yet. -/
theorem Accounting.named_holds {i : N} (ha : s.Accounting)
    (h : 0 < mentions (.INV i) s.forwards) : s.Holds i ∧ s.state i ≠ .M := by
  obtain ⟨hexpected, hsign, hcount⟩ := ha.acks_balanced i
  -- without data in flight the pending acks are positive
  have hdata : total Response.ackCount i s.responses ≠ 0 →
      0 < tally Response.isData i s.responses ∧ (s.state i = .IM_AD ∨ s.state i = .SM_AD) := by
    intro hne
    by_contra hnone
    refine hne (total_eq_zero fun m hm => ?_)
    cases m with
    | ACK => rfl
    | DATA value ackCount =>
        have hpos : 0 < tally Response.isData i s.responses := tally_pos.mpr ⟨_, hm, rfl⟩
        have := hcount value ackCount hm
        grind
  by_cases htotal : total Response.ackCount i s.responses = 0
  · have hpos : 0 < s.pendingAcks i := by omega
    have hst : s.state i = .IM_A ∨ s.state i = .SM_A := by
      obtain ⟨hnonpos, -, hzero⟩ := hsign
      by_contra hne
      grind
    grind
  · obtain ⟨hpos, hst⟩ := hdata htotal
    grind

/-- An invalidation in flight names an L1 that has the newest data. -/
theorem Accounting.invalidated_by {i : N} (ha : s.Accounting)
    (h : 0 < tally Forward.isInv i s.forwards) : ∃ c, s.Holds c ∧ s.state c ≠ .M := by
  obtain ⟨m, hmem, hinv⟩ := tally_pos.mp h
  cases m with
  | INV c => exact ⟨c, ha.named_holds (mentions_pos.mpr ⟨i, hmem⟩)⟩
  | GETS | GETM | WB_ACK => cases hinv

/-- Nothing else is readable beside a line in state M. -/
theorem Readership.exclusive {i j : N} (hr : s.Readership) (ha : s.Accounting) (ho : s.Ownership)
    (hi : s.state i = .M) (hj : s.Holds j ∨ s.Reads j ∨ s.DirHolds) : j = i ∧ ¬ s.DirHolds := by
  have hauth : s.Authority (some i) := by
    simp only [Authority, Holds]
    exact Or.inl hi
  have hdir : ¬ s.DirHolds := fun h => nomatch ho.unique _ _ hauth (show s.Authority none from h)
  have hholds : ∀ k, s.Holds k → k = i := fun k hk =>
    (Option.some.inj (ho.unique _ _ hauth (show s.Authority (some k) from hk))).symm
  refine ⟨?_, hdir⟩
  rcases hj with hj | hj | hj
  · exact hholds j hj
  · rcases hr.reader j hj with h | h | h
    · exact absurd h.1 hdir
    · -- the invalidation names an L1 that has the newest data and is not in M
      obtain ⟨c, hc, hne⟩ := ha.invalidated_by h
      exact absurd (hholds c hc ▸ hi) hne
    · exact hholds j h.2
  · exact absurd hj hdir

/-! ## Steps -/

/-- The processor makes no L1 a reader. -/
theorem CpuStep.may_read (h : CpuStep s s') (ha : s.Accounting) (hs : ∀ i, s.Reads i → s.MayRead i)
    (j : N) (hj : s'.Reads j) : s'.MayRead j := by
  have hold := hs j
  have hb := ha.balanced j
  simp only [Balanced] at hb
  cases h with
  | @loadI i hst | @storeI i hst | @storeS i hst | @storeM i value hst | @replacementS i hst
  | @replacementM i hst => by_cases hji : j = i <;> grind

/-- A response is read where it may be. -/
theorem ResponseStep.may_read (h : ResponseStep s s') (hs : ∀ i, s.Reads i → s.MayRead i)
    (j : N) (hj : s'.Reads j) : s'.MayRead j := by
  have hold := hs j
  cases h with
  | @dataIS_D i value rest hremoved hst | @dataLast i value stored ackCount rest hremoved hst
  | @dataAckCntIM_AD i value ackCount rest hremoved hst
  | @dataAckCntSM_AD i value ackCount rest hremoved hst | @invAck i rest hremoved hst
  | @invAckAll i stored rest hremoved hst =>
      have hcount := hremoved.tally Response.isData j
      by_cases hji : j = i <;> grind

/-- A forward that is taken leaves the readers that may be. -/
theorem ForwardStep.may_read [Inhabited D] (h : ForwardStep s s') (ha : s.Accounting)
    (hd : s.DowngradeBalanced)
    (ho : s.Ownership) (hr : s.Readership) (j : N) (hj : s'.Reads j) : s'.MayRead j := by
  have hold := hr.reader j
  cases h with
  | @invI i r rest hpop hst | @invS i r rest hpop hst | @invSM_AD i r rest hpop hst
  | @invSI_A i r rest hpop hst | @wbAckI i rest hpop hst =>
      have hinv := hpop.removed.tally Forward.isInv j
      have htaken := hpop.removed.tally Forward.isRequest j
      by_cases hji : j = i <;> grind
  | @wbAck i rest hpop hst =>
      have hinv := hpop.removed.tally Forward.isInv j
      have htaken := hpop.removed.tally Forward.isRequest j
      by_cases hji : j = i <;> grind
  | @fwdGetSM i r rest hpop hst | @fwdGetSMI_A i r rest hpop hst =>
      -- the downgraded owner and the requestor are sharers, and the data is on its way
      have hi : s.Authority (some i) := by
        have htaken := hpop.removed.tally Forward.isRequest i
        simp only [Authority, Holds]
        grind
      have hgets := hpop.removed.tally Forward.isGETS i
      have hmentions := hpop.removed.mentions (.GETS r)
      have hsharer := hr.downgraded ⟨_, hi⟩ i (by grind)
      have hrequestor := hr.requestor r (by grind)
      have hdir := (hd.of_forwarded_gets hpop.mem).1
      have hinv := hpop.removed.tally Forward.isInv j
      have hunique := fun hj : s.Holds j => ho.unique _ _ hi (show s.Authority (some j) from hj)
      have hnone : ¬ s.DirHolds := fun h =>
        Option.some_ne_none _ (ho.unique _ _ hi (show s.Authority none from h))
      have hdata : ∀ l : List (N × D), l ++ [(i, s.data i)] ≠ [] := fun l => by simp
      by_cases hji : j = i <;> by_cases hjr : j = r <;> grind
  | @fwdGetMM i r rest hpop hst | @fwdGetMMI_A i r rest hpop hst =>
      have hi : s.Authority (some i) := by
        have htaken := hpop.removed.tally Forward.isRequest i
        simp only [Authority, Holds]
        grind
      have hr' := (ha.balanced r).of_forwarded_getm hpop.mem
      have hinv := hpop.removed.tally Forward.isInv j
      have hunique := fun hj : s.Holds j => ho.unique _ _ hi (show s.Authority (some j) from hj)
      by_cases hji : j = i <;> by_cases hjr : j = r <;> grind

/-- An L1 with a writeback in the request network does not read. -/
theorem Accounting.not_reads_of_put {i : N} {m : Request D} (ha : s.Accounting)
    (hmem : (i, m) ∈ s.requests) (hput : m.isPut = true) : ¬ s.Reads i := by
  have hst := (ha.request_shape i).put_state m hmem hput
  have hb := ha.balanced i
  have hgets := tally_pos (p := Request.isGETS) (k := i) (l := s.requests)
  simp only [Balanced, sharedPending] at hb
  grind

/-- An L1 with a modified line on its way out does not upgrade. -/
theorem Accounting.not_upgrading_of_putm {i : N} (ha : s.Accounting)
    (hpos : 0 < tally Request.isPUTM i s.requests) : s.state i ≠ .SM_AD := by
  obtain ⟨m, hmem, hputm⟩ := tally_pos.mp hpos
  have hput : m.isPut = true := by cases m <;> simp_all [Request.isPUTM, Request.isPut]
  have := ha.not_reads_of_put hmem hput
  grind

/-- A request that is taken leaves the readers that may be. -/
theorem RequestStep.may_read [Inhabited D] {event : Directory.Event} {r : N}
    (h : RequestStep useMap s event r s') (ha : s.Accounting) (ho : s.Ownership)
    (hr : s.Readership) (j : N) (hj : s'.Reads j) : s'.MayRead j := by
  have hold := hr.reader j
  have hshape := ha.dir_shape
  have hupgrading := ha.not_upgrading_of_putm (i := j)
  cases h with
  | getSI hpop hst =>
      simp only [DirShape, hst] at hshape
      grind
  | getSS hpop hst =>
      have hcount := hpop.removed.tally Request.isPUTM j
      grind
  | getMI hpop hst | getMS hpop hst =>
      -- the directory had the newest data, so no L1 did
      have hdir : s.Authority none := by simp [Authority, DirHolds, hst]
      have hnone : ¬ s.Holds j := fun hj =>
        Option.some_ne_none _ (ho.unique _ _ hdir (show s.Authority (some j) from hj)).symm
      have hgetm := (ha.balanced r).of_getm hpop.mem
      simp only [DirShape, hst] at hshape
      by_cases hjr : j = r <;> grind
  | getSM hpop hst | getMM hpop hst => grind
  | putSLastI hpop hst | putSNotLast hpop hst | putMS hpop hst | putSM hpop hst | putMOwner hpop hst
  | putMNotOwner hpop hst | putSLastMS hpop hst | putMMS_D hpop hst | putMMS_M hpop hst =>
      have hput := ha.not_reads_of_put hpop.mem rfl
      have hcount := hpop.removed.tally Request.isPUTM j
      by_cases hjr : j = r <;> grind
  | putSLastS hpop hst hcount =>
      have hput := ha.not_reads_of_put hpop.mem rfl
      have hlast : j ∈ s.sharers → j = r := fun hj => by
        have := NetDest.count_eq_zero.mp hcount j
        grind
      by_cases hjr : j = r <;> grind

/-- A memory read in IM_M is for an L1 that waits for an exclusive copy. -/
theorem Balanced.of_read {i : N} (h : s.Balanced i) (hdir : s.dir = .IM_M)
    (hpos : 0 < tally isRead i s.memory) : s.state i = .IM_AD ∨ s.state i = .SM_AD := by
  simp only [Balanced, exclusivePending, hdir, if_true] at h
  grind

/-- No forwarded GETS is in flight in another state than MS_D. -/
theorem DowngradeBalanced.no_forwarded_gets (h : s.DowngradeBalanced) (hdir : s.dir ≠ .MS_D)
    (i : N) : tally Forward.isGETS i s.forwards = 0 ∧ mentions (.GETS i) s.forwards = 0 := by
  constructor
  · by_contra hne
    obtain ⟨m, hmem, hm⟩ := tally_pos.mp (Nat.pos_of_ne_zero hne)
    cases m with
    | GETS r => exact hdir (h.of_forwarded_gets hmem).1
    | GETM | INV | WB_ACK => cases hm
  · by_contra hne
    obtain ⟨k, hmem⟩ := mentions_pos.mp (Nat.pos_of_ne_zero hne)
    exact hdir (h.of_forwarded_gets hmem).1

/-- A forwarded GETS is a forwarded request. -/
theorem tally_isGETS_le {i : N} {l : List (N × Forward N)} :
    tally Forward.isGETS i l ≤ tally Forward.isRequest i l := by
  unfold tally
  refine List.countP_mono_left fun y _ hy => ?_
  obtain ⟨k, m⟩ := y
  cases m <;> simp_all [Forward.isGETS, Forward.isRequest]

/-- The data for the directory makes no L1 a reader. -/
theorem DataStep.may_read {i : N} (h : DataStep s i s') (hs : ∀ i, s.Reads i → s.MayRead i) (j : N)
    (hj : s'.Reads j) : s'.MayRead j := by
  have hold := hs j
  cases h with
  | dropped hremoved hst => grind
  | dataMS_D hremoved hst | dataMS_M hremoved hst =>
      have hmem := List.ne_nil_of_mem hremoved.mem
      grind

/-- Memory that is done makes a reader where one may be. -/
theorem MemoryStep.may_read [Inhabited D] {event : Directory.Event} {r : N}
    (h : MemoryStep useMap s event r s') (ha : s.Accounting) (hs : ∀ i, s.Reads i → s.MayRead i)
    (j : N) (hj : s'.Reads j) : s'.MayRead j := by
  have hold := hs j
  have hshape := ha.dir_shape
  cases h with
  | dataIS_M hremoved hst =>
      simp only [DirShape, hst] at hshape
      obtain ⟨r', value', hmemory, hsharers, -⟩ := hshape
      rw [hmemory] at hremoved
      obtain ⟨heq, rfl⟩ := hremoved.of_singleton
      obtain rfl : r = r' := congrArg Prod.fst heq
      have hmem : r ∈ s.sharers := NetDest.mem_elems.mp (by simp [hsharers])
      by_cases hjr : j = r <;> grind
  | dataIM_M hremoved hst =>
      have hr := (ha.balanced r).of_read hst (tally_pos.mpr ⟨_, hremoved.mem, rfl⟩)
      simp only [DirShape, hst] at hshape
      obtain ⟨r', value', hmemory, -, howner⟩ := hshape
      rw [hmemory] at hremoved
      obtain ⟨heq, rfl⟩ := hremoved.of_singleton
      obtain rfl : r = r' := congrArg Prod.fst heq
      have honly : j ∈ s.owner → j = r := fun hj => by
        simpa [howner] using NetDest.mem_elems.mpr hj
      by_cases hjr : j = r <;> grind
  | ackMS_M hremoved hst | ackMI_M hremoved hst => grind

/-- The list of sharers covers the L1s that a forwarded GETS is about. -/
theorem RequestStep.sharers_cover [Inhabited D] {event : Directory.Event} {r : N}
    (h : RequestStep useMap s event r s') (ha : s.Accounting) (hd : s.DowngradeBalanced)
    (ho : s.Ownership) (halive : (∃ p, s'.Authority p) → ∃ p, s.Authority p) (hr : s.Readership)
    (j : N) :
    ((∃ p, s'.Authority p) → 0 < tally Forward.isGETS j s'.forwards → j ∈ s'.sharers) ∧
      (0 < mentions (.GETS j) s'.forwards → j ∈ s'.sharers) := by
  have hold := fun h => hr.downgraded (halive h) j
  have hold' := hr.requestor j
  cases h with
  | getSI hpop hst | putSLastI hpop hst | getSS hpop hst | getMI hpop hst | getSM hpop hst
  | getMM hpop hst | putSM hpop hst | putMOwner hpop hst | putMNotOwner hpop hst
  | putMMS_M hpop hst | putMMS_D hpop hst => grind
  | getMS hpop hst | putSLastS hpop hst | putMS hpop hst =>
      have hnone := hd.no_forwarded_gets (by simp [hst]) j
      grind
  | putSNotLast hpop hst | putSLastMS hpop hst =>
      -- an L1 that a forwarded GETS is about has no PUTS in the request network
      have hput := (ha.request_shape r).put_state _ hpop.mem rfl
      have hputs := (ha.request_shape r).puts_state hpop.mem
      have htaken := fun h => (ho.facts (halive h) r).taken
      have hgetm := (ha.balanced r).not_granted
      have hgets : 0 < mentions (.GETS r) s.forwards → s.state r = .IS_D ∧
          ¬ (r, .GETS) ∈ s.requests := by
        intro hpos
        have hb := ha.balanced r
        have hcount := tally_pos (p := Request.isGETS) (k := r) (l := s.requests)
        simp only [Balanced, sharedPending] at hb
        grind
      have hrequest := tally_isGETS_le (i := r) (l := s.forwards)
      by_cases hjr : j = r <;> grind

/-- Whoever reads after a step may read. -/
theorem Step.may_read [Inhabited D] {label : Option (Directory.Event × N)}
    (h : Step useMap s label s')
    (ha : s.Accounting) (hd : s.DowngradeBalanced) (ho : s.Ownership) (hr : s.Readership) (j : N)
    (hj : s'.Reads j) : s'.MayRead j := by
  cases h with
  | cpu h => exact h.may_read ha hr.reader j hj
  | forward h => exact h.may_read ha hd ho hr j hj
  | response h => exact h.may_read hr.reader j hj
  | request h => exact h.may_read ha ho hr j hj
  | data h => exact h.may_read hr.reader j hj
  | memory h => exact h.may_read ha hr.reader j hj

/-- The sharers cover those that the directory sends copies to. -/
theorem Step.sharers_cover [Inhabited D] {label : Option (Directory.Event × N)}
    (h : Step useMap s label s')
    (ha : s.Accounting) (hd : s.DowngradeBalanced) (ho : s.Ownership)
    (halive : (∃ p, s'.Authority p) → ∃ p, s.Authority p) (hr : s.Readership) (j : N) :
    ((∃ p, s'.Authority p) → 0 < tally Forward.isGETS j s'.forwards → j ∈ s'.sharers) ∧
      (0 < mentions (.GETS j) s'.forwards → j ∈ s'.sharers) := by
  have hold := fun h => hr.downgraded (halive h) j
  have hold' := hr.requestor j
  cases h with
  | cpu h => cases h <;> exact ⟨hold, hold'⟩
  | forward h =>
      cases h with
      | invI hpop | invS hpop | invSM_AD hpop | invSI_A hpop | wbAckI hpop | wbAck hpop
      | fwdGetSM hpop | fwdGetSMI_A hpop | fwdGetMM hpop | fwdGetMMI_A hpop =>
          have hcount := hpop.removed.tally Forward.isGETS j
          have hmentions := hpop.removed.mentions (.GETS j)
          grind
  | response h => cases h <;> exact ⟨hold, hold'⟩
  | request h => exact h.sharers_cover ha hd ho halive hr j
  | data h => cases h <;> exact ⟨hold, hold'⟩
  | memory h => cases h <;> grind

/-- Nobody reads at the start. -/
theorem Initial.readership (h : Initial s) : s.Readership where
  downgraded := by simp [h.forwards]
  requestor := by simp [h.forwards]
  reader := by simp [Reads, h.state]

/-- Step lemma. -/
theorem Step.readership [Inhabited D] {label : Option (Directory.Event × N)}
    (h : Step useMap s label s')
    (hskips : s.Avoids Trigger.skipsDowngrade label) (ha : s.Accounting)
    (hd : s.DowngradeBalanced) (ho : s.Ownership) (hr : s.Readership) : s'.Readership :=
  have hcover := h.sharers_cover ha hd ho (h.transfer hskips ha hd ho).alive hr
  { downgraded := fun halive i => (hcover i).1 halive
    requestor := fun r => (hcover r).2
    reader := h.may_read ha hd ho hr }

/-- Runs that never take a PUTM in MS_D have their readers among the sharers. -/
theorem Readership.of_run [Inhabited D] {allowed : Block N D → Option (Directory.Event × N) → Prop}
    (hallowed : ∀ s label, allowed s label → s.Avoids Trigger.skipsDowngrade label)
    (h : (system useMap).Run allowed s) : s.Readership :=
  h.invariant (fun _ (hinit : Initial _) => hinit.readership) fun s label _ hrun hs hlabel hstep =>
    Step.readership hstep (hallowed s label hlabel) (Accounting.of_run hrun)
      (DowngradeBalanced.of_run hallowed hrun) (Ownership.of_run hallowed hrun) hs

end Ece552.Msi.Block
