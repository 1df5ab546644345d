import Ece552.Msi.DataValue

/-!
# The sharers and the owner that the directory lists

An L1 that has been granted the line is listed as the owner or is about to lose the line. A listed
sharer has a copy, gets one, or has a writeback in the request network, by which it will be removed
from the list. The transition that takes the PUTM of a downgraded owner in MS_M forgets to remove.
-/

namespace Ece552.Msi.Block

open Library
open Directory (Trigger)

variable {N D : Type} [DecidableEq N] {s s' : Block N D} {useMap : Bool}

/-- A sharer that is listed for a forwarded GETS, or will be removed from the list. -/
@[grind =] def Forwarded (s : Block N D) (i : N) : Prop :=
  0 < mentions (.GETS i) s.forwards ∨ 0 < tally Request.isPut i s.requests ∨
    0 < tally Forward.isGETS i s.forwards

/-- A sharer that is listed with good reason. -/
@[grind =] def Registered (s : Block N D) (i : N) : Prop :=
  s.state i = .S ∨ s.state i = .SM_AD ∨
    (s.state i = .IS_D ∧ tally Request.isGETS i s.requests = 0) ∨
    0 < tally Request.isPut i s.requests ∨ 0 < tally Forward.isGETS i s.forwards

/-- What the lists of the directory say of the L1s. -/
structure ListsExact (s : Block N D) : Prop where
  granted : ∀ i, s.Granted i → i ∈ s.owner ∨ 0 < tally Forward.isRequest i s.forwards
  downgraded : ∀ i, 0 < tally Forward.isGETS i s.forwards → s.state i = .MI_A →
    0 < tally Request.isPUTM i s.requests
  forwarding : s.dir = .MS_D → s.downgrades = [] → ∀ i, i ∈ s.sharers → s.Forwarded i
  sharer : ∀ i, i ∈ s.sharers → s.Registered i

/-! ## The owner -/

/-- An L1 that gets data for a store was granted the line. -/
theorem Balanced.granted_of_data {i : N} {value : D} {ackCount : Int} (h : s.Balanced i)
    (hmem : (i, .DATA value ackCount) ∈ s.responses) :
    tally Request.isGETM i s.requests = 0 := by
  have hpos : 0 < tally Response.isData i s.responses := tally_pos.mpr ⟨_, hmem, rfl⟩
  have := h.getm_or_data
  omega

/-- An L1 with a writeback in the request network is not granted the line. -/
theorem Accounting.put_not_granted {i : N} {m : Request D} (ha : s.Accounting)
    (hmem : (i, m) ∈ s.requests) (hput : m.isPut = true) : ¬ s.Granted i := by
  have hgetm : (i, .GETM) ∈ s.requests → ¬ s.Granted i := (ha.balanced i).not_granted
  rcases (ha.request_shape i).put_state m hmem hput with h | h | h | h | h | h <;> grind

theorem Step.granted_listed [Inhabited D] {label : Option (Directory.Event × N)}
    (h : Step useMap s label s')
    (ha : s.Accounting)
    (hs : ∀ i, s.Granted i → i ∈ s.owner ∨ 0 < tally Forward.isRequest i s.forwards) (j : N)
    (hj : s'.Granted j) : j ∈ s'.owner ∨ 0 < tally Forward.isRequest j s'.forwards := by
  have hold := hs j
  cases h with
  | cpu h =>
      cases h with
      | @loadI i hst | @storeI i hst | @storeS i hst | @storeM i value hst | @replacementS i hst
      | @replacementM i hst => by_cases hji : j = i <;> grind
  | forward h =>
      cases h with
      | @invI i r rest hpop hst | @invS i r rest hpop hst | @invSM_AD i r rest hpop hst
      | @invSI_A i r rest hpop hst | @wbAckI i rest hpop hst | @wbAck i rest hpop hst
      | @fwdGetSM i r rest hpop hst | @fwdGetSMI_A i r rest hpop hst
      | @fwdGetMM i r rest hpop hst | @fwdGetMMI_A i r rest hpop hst =>
          have hcount := hpop.removed.tally Forward.isRequest j
          by_cases hji : j = i <;> grind
  | response h =>
      cases h with
      | @dataIS_D i value rest hremoved hst | @dataLast i value stored ackCount rest hremoved hst
      | @dataAckCntIM_AD i value ackCount rest hremoved hst
      | @dataAckCntSM_AD i value ackCount rest hremoved hst =>
          have hdata := (ha.balanced i).granted_of_data hremoved.mem
          by_cases hji : j = i <;> grind
      | @invAck i rest hremoved hst | @invAckAll i stored rest hremoved hst =>
          by_cases hji : j = i <;> grind
  | @request _ event r h =>
      have hshape := ha.dir_shape
      cases h with
      | putMOwner hpop hst howner =>
          -- the owner has sent a writeback, so it is not granted the line any more
          have hput := ha.put_not_granted hpop.mem rfl
          have hcount := hpop.removed.tally Request.isGETM j
          simp only [DirShape, hst] at hshape
          obtain ⟨-, -, owner, helems⟩ := hshape
          have honly : ∀ i, i ∈ s.owner → i = owner := fun i hi => by
            simpa [helems] using NetDest.mem_elems.mpr hi
          grind
      | getMI hpop hst | getMS hpop hst =>
          have hcount := hpop.removed.tally Request.isGETM j
          simp only [DirShape, hst] at hshape
          grind
      | getSI hpop | putSLastI hpop | getSS hpop | putSNotLast hpop | putSLastS hpop | putMS hpop
      | getSM hpop | getMM hpop | putSM hpop | putMNotOwner hpop | putMMS_D hpop
      | putMMS_M hpop =>
          have hcount := hpop.removed.tally Request.isGETM j
          grind
      | putSLastMS => grind
  | data h => cases h <;> exact hold hj
  | memory h => cases h <;> grind

/-! ## The sharers -/

/-- The states in which the directory lists no sharers. -/
theorem Accounting.unshared (ha : s.Accounting)
    (hdir : s.dir = .I ∨ s.dir = .M ∨ s.dir = .IM_M ∨ s.dir = .MI_M) : s.sharers = .empty := by
  have hshape := ha.dir_shape
  unfold DirShape at hshape
  rcases hdir with hdir | hdir | hdir | hdir <;> simp only [hdir] at hshape <;> grind

/-- While an L1 has the newest data, a line with sharers is being downgraded. -/
theorem Ownership.downgrading {i c : N} (ho : s.Ownership) (ha : s.Accounting)
    (hc : s.Holds c) (hi : i ∈ s.sharers) : s.dir = .MS_D ∧ s.downgrades = [] := by
  have hdir : ¬ s.DirHolds := fun h =>
    nomatch ho.unique _ _ (show s.Authority (some c) from hc) (show s.Authority none from h)
  have hshape := ha.dir_shape
  unfold DirShape at hshape
  cases hst : s.dir <;> simp only [hst] at hshape <;> grind

/-- A forwarded GETS is in flight to an L1 whose PUTM, if it has given up the line, is too. -/
theorem Step.downgraded_putm [Inhabited D] {label : Option (Directory.Event × N)}
    (h : Step useMap s label s')
    (hskips : s.Avoids Trigger.skipsDowngrade label) (hd : s.DowngradeBalanced) (ho : s.Ownership)
    (hs : ∀ i, 0 < tally Forward.isGETS i s.forwards → s.state i = .MI_A →
      0 < tally Request.isPUTM i s.requests) (j : N)
    (hj : 0 < tally Forward.isGETS j s'.forwards) (hst' : s'.state j = .MI_A) :
    0 < tally Request.isPUTM j s'.requests := by
  have hold := hs j
  cases h with
  | cpu h =>
      cases h with
      | @loadI i hst | @storeI i hst | @storeS i hst | @storeM i value hst | @replacementS i hst
      | @replacementM i hst => by_cases hji : j = i <;> grind
  | forward h =>
      cases h with
      | @invI i r rest hpop hst | @invS i r rest hpop hst | @invSM_AD i r rest hpop hst
      | @invSI_A i r rest hpop hst | @wbAckI i rest hpop hst | @wbAck i rest hpop hst
      | @fwdGetSM i r rest hpop hst | @fwdGetSMI_A i r rest hpop hst
      | @fwdGetMM i r rest hpop hst | @fwdGetMMI_A i r rest hpop hst =>
          have hcount := hpop.removed.tally Forward.isGETS j
          by_cases hji : j = i <;> grind
  | response h =>
      cases h with
      | @dataIS_D i value rest hremoved hst | @dataLast i value stored ackCount rest hremoved hst
      | @dataAckCntIM_AD i value ackCount rest hremoved hst
      | @dataAckCntSM_AD i value ackCount rest hremoved hst | @invAck i rest hremoved hst
      | @invAckAll i stored rest hremoved hst => by_cases hji : j = i <;> grind
  | @request _ event r h =>
      have hnone := fun h => (hd.no_forwarded_gets h j).1
      have howned := ho.writeback j
      have havoid := hskips _ _ rfl
      cases h with
      | getSI hpop hst | getMI hpop hst | putSLastI hpop hst | getSS hpop hst | getMS hpop hst
      | putSNotLast hpop hst | putSLastS hpop hst | putMS hpop hst | getSM hpop hst | getMM hpop hst
      | putSM hpop hst | putMOwner hpop hst | putMNotOwner hpop hst | putMMS_D hpop hst
      | putMMS_M hpop hst =>
          have hcount := hpop.removed.tally Request.isPUTM j
          grind
      | putSLastMS hpop hst => grind
  | data h => cases h <;> exact hold hj hst'
  | memory h => cases h <;> grind

/-- The requestor of a forwarded GETS waits for it. -/
theorem Balanced.of_named_gets {i : N} (h : s.Balanced i)
    (hpos : 0 < mentions (.GETS i) s.forwards) : s.state i = .IS_D := by
  obtain ⟨k, hmem⟩ := mentions_pos.mp hpos
  exact h.of_forwarded_gets hmem

/-- At most one GETS of an L1 is in the request network. -/
theorem Balanced.gets_le {i : N} (h : s.Balanced i) : tally Request.isGETS i s.requests ≤ 1 := by
  simp only [Balanced, sharedPending] at h
  grind

/-- A PUTM is a writeback. -/
theorem tally_isPUTM_le {i : N} {l : List (N × Request D)} :
    tally Request.isPUTM i l ≤ tally Request.isPut i l := by
  unfold tally
  refine List.countP_mono_left fun y _ hy => ?_
  obtain ⟨k, m⟩ := y
  cases m <;> simp_all [Request.isPUTM, Request.isPut]

/-- The sharers of a line that is being downgraded are the requestor, the owner, and those with a
writeback in the request network. -/
theorem Step.forwarding [Inhabited D] {label : Option (Directory.Event × N)}
    (h : Step useMap s label s')
    (ha : s.Accounting)
    (hs : s.dir = .MS_D → s.downgrades = [] → ∀ i, i ∈ s.sharers → s.Forwarded i)
    (hdir' : s'.dir = .MS_D) (hdowngrades' : s'.downgrades = []) (j : N) (hj : j ∈ s'.sharers) :
    s'.Forwarded j := by
  have hold := fun h h' => hs h h' j
  cases h with
  | cpu h =>
      cases h with
      | @loadI i hst | @storeI i hst | @storeS i hst | @storeM i value hst | @replacementS i hst
      | @replacementM i hst => grind
  | forward h =>
      cases h with
      | @invI i r rest hpop hst | @invS i r rest hpop hst | @invSM_AD i r rest hpop hst
      | @invSI_A i r rest hpop hst | @wbAckI i rest hpop hst | @wbAck i rest hpop hst
      | @fwdGetMM i r rest hpop hst | @fwdGetMMI_A i r rest hpop hst =>
          have hcount := hpop.removed.tally Forward.isGETS j
          have hnamed := hpop.removed.mentions (.GETS j)
          grind
      | fwdGetSM | fwdGetSMI_A => simp at hdowngrades'
  | response h => cases h <;> exact hs hdir' hdowngrades' j hj
  | request h =>
      have hshape := ha.dir_shape
      cases h with
      | getSM hpop hst =>
          have hcount := hpop.removed.tally Request.isPut j
          simp only [DirShape, hst] at hshape
          obtain ⟨-, hsharers, owner, helems⟩ := hshape
          have hone : s.owner.count = 1 := by simp [NetDest.count, helems]
          grind
      | getSI hpop hst | getMI hpop hst | putSLastI hpop hst | getSS hpop hst | getMS hpop hst
      | putSNotLast hpop hst | putSLastS hpop hst | putMS hpop hst | getMM hpop hst
      | putSM hpop hst | putMOwner hpop hst | putMNotOwner hpop hst | putMMS_D hpop hst
      | putMMS_M hpop hst =>
          have hcount := hpop.removed.tally Request.isPut j
          grind
      | putSLastMS hpop hst => grind
  | data h => cases h <;> grind
  | memory h => cases h <;> grind

/-- A step keeps the sharers registered, unless it forgets to remove one. -/
theorem Step.registered [Inhabited D] {label : Option (Directory.Event × N)}
    (h : Step useMap s label s')
    (hskips : s.Avoids Trigger.skipsDowngrade label)
    (hforgets : s.Avoids Trigger.forgetsSharer label) (ha : s.Accounting) (ho : s.Ownership)
    (hl : s.ListsExact) (j : N) (hj : j ∈ s'.sharers) : s'.Registered j := by
  have hold := hl.sharer j
  have hforwarded : ∀ c, s.Holds c → j ∈ s.sharers → s.Forwarded j := fun c hc hmem =>
    have hdir := ho.downgrading ha hc hmem
    hl.forwarding hdir.1 hdir.2 j hmem
  cases h with
  | cpu h =>
      have hb := (ha.balanced j).of_gets
      cases h with
      | @loadI i hst | @storeI i hst | @storeS i hst | @storeM i value hst | @replacementS i hst
      | @replacementM i hst => by_cases hji : j = i <;> grind
  | forward h =>
      have hdowngraded := hl.downgraded j
      have hput : tally Request.isPUTM j s.requests ≤ tally Request.isPut j s.requests :=
        tally_isPUTM_le
      cases h with
      | @invI i r rest hpop hst | @invS i r rest hpop hst | @invSM_AD i r rest hpop hst
      | @invSI_A i r rest hpop hst =>
          -- an invalidation names an L1 that has the newest data
          have hnamed := ha.named_holds (mentions_pos.mpr ⟨i, hpop.mem⟩)
          have hwaits := (ha.balanced j).of_named_gets
          have hcount := hpop.removed.tally Forward.isGETS j
          by_cases hji : j = i <;> grind
      | @wbAckI i rest hpop hst | @wbAck i rest hpop hst
      | @fwdGetSM i r rest hpop hst | @fwdGetSMI_A i r rest hpop hst
      | @fwdGetMM i r rest hpop hst | @fwdGetMMI_A i r rest hpop hst =>
          have hcount := hpop.removed.tally Forward.isGETS j
          by_cases hji : j = i <;> grind
  | response h =>
      cases h with
      | @dataLast i value stored ackCount rest hremoved hst
      | @dataAckCntSM_AD i value ackCount rest hremoved hst =>
          -- with data for its store in flight the L1 has the newest data
          have hpos : 0 < tally Response.isData i s.responses :=
            tally_pos.mpr ⟨_, hremoved.mem, rfl⟩
          have hholds : s.Holds i := by grind
          have hwaits := (ha.balanced j).of_named_gets
          have hlisted := hforwarded i hholds
          by_cases hji : j = i <;> grind
      | @dataIS_D i value rest hremoved hst | @dataAckCntIM_AD i value ackCount rest hremoved hst
      | @invAck i rest hremoved hst | @invAckAll i stored rest hremoved hst =>
          by_cases hji : j = i <;> grind
  | @request _ event r h =>
      have hnotMS_D := hskips _ _ rfl
      have hnotMS_M := hforgets _ _ rfl
      have hunshared := ha.unshared
      cases h with
      | getSI hpop hst | getSS hpop hst | getSM hpop hst =>
          have hst' := (ha.balanced r).of_gets hpop.mem
          have hone := (ha.balanced j).gets_le
          have hcount := hpop.removed.tally Request.isPut j
          have hgets := hpop.removed.tally Request.isGETS j
          grind
      | getMI hpop hst | putSLastI hpop hst
      | getMS hpop hst | putSNotLast hpop hst | putSLastS hpop hst | putMS hpop hst | getMM hpop hst
      | putSM hpop hst | putMOwner hpop hst | putMNotOwner hpop hst | putMMS_D hpop hst
      | putMMS_M hpop hst =>
          have hcount := hpop.removed.tally Request.isPut j
          have hgets := hpop.removed.tally Request.isGETS j
          grind
      | putSLastMS hpop hst => grind
  | data h => cases h <;> grind
  | memory h => cases h <;> grind

theorem Initial.lists_exact (h : Initial s) : s.ListsExact where
  granted := by simp [Granted, h.state]
  downgraded := by simp [h.forwards]
  forwarding := by simp [h.dir]
  sharer := by simp [h.sharers]

theorem Step.lists_exact [Inhabited D] {label : Option (Directory.Event × N)}
    (h : Step useMap s label s')
    (hskips : s.Avoids Trigger.skipsDowngrade label)
    (hforgets : s.Avoids Trigger.forgetsSharer label) (hc : s.Coherent) (hl : s.ListsExact) :
    s'.ListsExact where
  granted := h.granted_listed hc.accounting hl.granted
  downgraded := h.downgraded_putm hskips hc.downgrade hc.ownership hl.downgraded
  forwarding := h.forwarding hc.accounting hl.forwarding
  sharer := h.registered hskips hforgets hc.accounting hc.ownership hl

/-- Runs that take no PUTM in MS_D, and none of a sharer in MS_M, keep the lists exact. -/
theorem ListsExact.of_run [Inhabited D] {allowed : Block N D → Option (Directory.Event × N) → Prop}
    (hallowed : ∀ s label, allowed s label →
      s.Avoids Trigger.skipsDowngrade label ∧ s.Avoids Trigger.forgetsSharer label)
    (h : (system useMap).Run allowed s) : s.ListsExact := by
  refine h.invariant (fun _ (hinit : Initial _) => hinit.lists_exact) ?_
  intro s label s' hrun hs hlabel hstep
  obtain ⟨hskips, hforgets⟩ := hallowed s label hlabel
  exact Step.lists_exact hstep hskips hforgets
    (Coherent.of_run (fun s label h => (hallowed s label h).1) hrun) hs

/-- A copy in state S or M is listed, or about to be taken away. -/
theorem Coherent.listed {i : N} (hc : s.Coherent) (hl : s.ListsExact)
    (hi : s.state i = .S ∨ s.state i = .M) :
    i ∈ s.sharers ∨ i ∈ s.owner ∨ 0 < tally Forward.isInv i s.forwards ∨
      0 < tally Forward.isRequest i s.forwards := by
  have hgranted := hl.granted i
  have hreader := hc.readership.reader i
  grind

/-- A sharer has a copy, gets the data for one, or has sent a writeback. -/
theorem Coherent.registered {i : N} (hc : s.Coherent) (hl : s.ListsExact)
    (hdir : s.dir = .S ∨ s.dir = .M) (hi : i ∈ s.sharers) :
    s.state i = .S ∨ s.state i = .SM_AD ∨
      (s.state i = .IS_D ∧ 0 < tally Response.isData i s.responses) ∨
      0 < tally Request.isPut i s.requests := by
  have hregistered := hl.sharer i hi
  have hnone := hc.downgrade.no_forwarded_gets (by grind) i
  have hb := hc.accounting.balanced i
  simp only [Balanced, sharedPending, exclusivePending] at hb
  grind

end Ece552.Msi.Block
