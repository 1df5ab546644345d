import Ece552.Msi.Accounting

/-!
# The writeback handshake for one address

An L1 that has sent a writeback has exactly one thing coming to it: the writeback itself is still
in the request network, or the directory owes the acknowledgement until the memory answers, or the
acknowledgement is in flight. Two transitions of the directory break this: one leaves a PUTS in the
queue after acknowledging it, the other takes a PUTM and sends nothing.
-/

namespace Ece552.Msi.Block

open Library
open Directory (Trigger)

variable {N D : Type} [DecidableEq N] {s s' : Block N D} {useMap : Bool}

/-- Writebacks, acknowledgements owed for them and acknowledgements in flight. -/
def unacknowledged (s : Block N D) (i : N) : Nat :=
  tally Request.isPut i s.requests + (if s.dir = .MI_M then tally isWriteback i s.memory else 0) +
    tally Forward.isWbAck i s.forwards

/-- Whether an L1 in this state waits for a writeback to be acknowledged. -/
@[grind =] def awaitsWbAck (state : L1Cache.State) : Nat :=
  if state = .MI_A ∨ state = .SI_A ∨ state = .II_A then 1 else 0

/-- An L1 waits for as many acknowledgements as there are to come. -/
def WritebackBalanced (s : Block N D) (i : N) : Prop :=
  s.unacknowledged i = awaitsWbAck (s.state i)

/-- A writeback that is requested is awaited. -/
theorem CpuStep.writeback_balanced (h : CpuStep s s') (hs : ∀ i, s.WritebackBalanced i) (j : N) :
    s'.WritebackBalanced j := by
  have hj := hs j
  simp only [WritebackBalanced, unacknowledged] at hj ⊢
  cases h with
  | @loadI i hst | @storeI i hst | @storeS i hst | @storeM i value hst | @replacementS i hst
  | @replacementM i hst => by_cases hji : j = i <;> grind

/-- An acknowledgement that is taken is no longer awaited. -/
theorem ForwardStep.writeback_balanced [Inhabited D] (h : ForwardStep s s')
    (hs : ∀ i, s.WritebackBalanced i)
    (j : N) : s'.WritebackBalanced j := by
  have hj := hs j
  simp only [WritebackBalanced, unacknowledged] at hj ⊢
  cases h with
  | @invI i r rest hpop hst | @invS i r rest hpop hst | @invSM_AD i r rest hpop hst
  | @invSI_A i r rest hpop hst | @wbAck i rest hpop hst =>
      have hacks := hpop.removed.tally Forward.isWbAck j
      by_cases hji : j = i <;> grind
  | @wbAckI i rest hpop hst =>
      have hacks := hpop.removed.tally Forward.isWbAck i
      have hi := hs i
      simp only [WritebackBalanced, unacknowledged] at hi
      grind
  | @fwdGetSM i r rest hpop hst | @fwdGetSMI_A i r rest hpop hst | @fwdGetMM i r rest hpop hst
  | @fwdGetMMI_A i r rest hpop hst =>
      have hacks := hpop.removed.tally Forward.isWbAck j
      by_cases hji : j = i <;> grind

/-- A response neither begins nor ends a writeback. -/
theorem ResponseStep.writeback_balanced (h : ResponseStep s s') (hs : ∀ i, s.WritebackBalanced i)
    (j : N) : s'.WritebackBalanced j := by
  have hj := hs j
  simp only [WritebackBalanced, unacknowledged] at hj ⊢
  cases h with
  | @dataIS_D i value rest hremoved hst | @dataLast i value stored ackCount rest hremoved hst
  | @dataAckCntIM_AD i value ackCount rest hremoved hst
  | @dataAckCntSM_AD i value ackCount rest hremoved hst | @invAckAll i stored rest hremoved hst =>
      by_cases hji : j = i <;> grind
  | invAck => exact hj

/-- The directory acknowledges the writeback that it takes, once. -/
theorem RequestStep.writeback_balanced [Inhabited D] {event : Directory.Event} {r : N}
    (h : RequestStep useMap s event r s') (hdir : s.DirShape)
    (hrepeats : Trigger.repeatsPut ⟨s.dir, s.sharers, event, r⟩ = false)
    (hdrops : Trigger.dropsPut ⟨s.dir, s.sharers, event, r⟩ = false)
    (hs : ∀ i, s.WritebackBalanced i) (j : N) : s'.WritebackBalanced j := by
  have hj := hs j
  simp only [WritebackBalanced, unacknowledged] at hj ⊢
  cases h with
  | getSI hpop hst | getMI hpop hst | putSLastI hpop hst | getSS hpop hst | getMS hpop hst
  | putSNotLast hpop hst | putSLastS hpop hst | putMS hpop hst | getSM hpop hst | getMM hpop hst
  | putSM hpop hst | putMNotOwner hpop hst | putMMS_D hpop hst | putMMS_M hpop hst =>
      have hputs := hpop.removed.tally Request.isPut j
      grind
  | putMOwner hpop hst =>
      have hputs := hpop.removed.tally Request.isPut j
      simp only [DirShape, hst] at hdir
      grind [tally_nil]
  | putSLastMS hpop hst => grind

/-- The data of an owner is no writeback. -/
theorem DataStep.writeback_balanced {i : N} (h : DataStep s i s')
    (hs : ∀ i, s.WritebackBalanced i) (j : N) : s'.WritebackBalanced j := by
  have hj := hs j
  cases h with
  | dropped | dataMS_M => exact hj
  | dataMS_D hremoved hst =>
      simp only [WritebackBalanced, unacknowledged, hst, reduceCtorEq, if_false] at hj ⊢
      exact hj

/-- Memory that is done acknowledges the writeback. -/
theorem MemoryStep.writeback_balanced [Inhabited D] {event : Directory.Event} {r : N}
    (h : MemoryStep useMap s event r s') (hdir : s.DirShape)
    (hs : ∀ i, s.WritebackBalanced i) (j : N) : s'.WritebackBalanced j := by
  have hj := hs j
  simp only [WritebackBalanced, unacknowledged] at hj ⊢
  cases h with
  | dataIS_M hremoved hst | dataIM_M hremoved hst | ackMS_M hremoved hst => grind
  | ackMI_M hremoved hst =>
      have hwritebacks := hremoved.tally isWriteback j
      simp only [DirShape, hst] at hdir
      obtain ⟨r', value', hmemory, -⟩ := hdir
      rw [hmemory] at hremoved
      obtain ⟨-, rfl⟩ := hremoved.of_singleton
      grind [tally_nil]

/-- Step lemma. -/
theorem Step.writeback_balanced [Inhabited D] {label : Option (Directory.Event × N)}
    (h : Step useMap s label s') (hdir : s.DirShape)
    (hrepeats : s.Avoids Trigger.repeatsPut label) (hdrops : s.Avoids Trigger.dropsPut label)
    (hs : ∀ i, s.WritebackBalanced i) (j : N) : s'.WritebackBalanced j := by
  cases h with
  | cpu h => exact h.writeback_balanced hs j
  | forward h => exact h.writeback_balanced hs j
  | response h => exact h.writeback_balanced hs j
  | request h =>
      exact h.writeback_balanced hdir (hrepeats _ _ rfl) (hdrops _ _ rfl) hs j
  | data h => exact h.writeback_balanced hs j
  | memory h => exact h.writeback_balanced hdir hs j

/-- At the start nothing is written back. -/
theorem Initial.writeback_balanced (h : Initial s) (i : N) : s.WritebackBalanced i := by
  simp [WritebackBalanced, unacknowledged, awaitsWbAck, h.requests, h.forwards, h.memory, h.state]

/-- Runs that avoid the two transitions keep the handshake. -/
theorem WritebackBalanced.of_run [Inhabited D] {allowed : Block N D → Option
    (Directory.Event × N) → Prop}
    (hallowed : ∀ s label, allowed s label →
      s.Avoids Trigger.repeatsPut label ∧ s.Avoids Trigger.dropsPut label)
    (h : (system useMap).Run allowed s) (i : N) : s.WritebackBalanced i := by
  refine h.invariant (I := fun s => ∀ i, s.WritebackBalanced i)
    (fun _ (hinit : Initial _) => hinit.writeback_balanced) ?_ i
  intro s label s' hrun hs hlabel hstep
  obtain ⟨hrepeats, hdrops⟩ := hallowed s label hlabel
  exact hstep.writeback_balanced (Accounting.of_run hrun).dir_shape hrepeats hdrops hs

/-- A writeback that the directory takes leaves the queue, and is answered or will be. -/
theorem RequestStep.put_processed [Inhabited D] {event : Directory.Event} {r : N} {m : Request D}
    {rest : List (N × Request D)} (h : RequestStep useMap s event r s') (hdir : s.DirShape)
    (hrepeats : Trigger.repeatsPut ⟨s.dir, s.sharers, event, r⟩ = false)
    (hdrops : Trigger.dropsPut ⟨s.dir, s.sharers, event, r⟩ = false)
    (hpop : Popped s.requests (r, m) rest) (hput : m.isPut = true) :
    tally Request.isPut r s'.requests + 1 = tally Request.isPut r s.requests ∧
      s'.unacknowledged r = s.unacknowledged r := by
  have hhead := hpop.messages_of_self
  cases h with
  | getSI hpop' hst | getMI hpop' hst | getSS hpop' hst | getMS hpop' hst | getSM hpop' hst
  | getMM hpop' hst =>
      -- the head of the queue of an L1 is one message
      have hhead' := hpop'.messages_of_self
      obtain ⟨rfl, -⟩ := List.cons.inj (hhead.symm.trans hhead')
      cases hput
  | putSLastI hpop' hst | putSNotLast hpop' hst | putSLastS hpop' hst | putMS hpop' hst
  | putSM hpop' hst | putMNotOwner hpop' hst | putMMS_D hpop' hst | putMMS_M hpop' hst =>
      have hputs := hpop'.removed.tally Request.isPut r
      simp only [unacknowledged]
      grind
  | putMOwner hpop' hst =>
      have hputs := hpop'.removed.tally Request.isPut r
      simp only [DirShape, hst] at hdir
      simp only [unacknowledged]
      grind [tally_nil]
  | putSLastMS hpop' hst => grind

/-- The answer that was owed is sent when the memory has the data. -/
theorem MemoryStep.put_answered [Inhabited D] {event : Directory.Event} {r : N}
    (h : MemoryStep useMap s event r s') (hdir : s.DirShape) (hst : s.dir = .MI_M) :
    tally isWriteback r s.memory = 1 ∧ s'.dir = .I ∧
      tally Forward.isWbAck r s'.forwards = tally Forward.isWbAck r s.forwards + 1 := by
  cases h with
  | dataIS_M hremoved hdir' | dataIM_M hremoved hdir' | ackMS_M hremoved hdir' =>
      cases hdir'.symm.trans hst
  | ackMI_M hremoved =>
      simp only [DirShape, hst] at hdir
      obtain ⟨r', value', hmemory, -⟩ := hdir
      rw [hmemory] at hremoved
      obtain ⟨heq, -⟩ := hremoved.of_singleton
      grind

/-! ## At most one answer -/

/-- Nothing is to come to an L1 that does not wait for it, unless a writeback is taken twice. -/
theorem Step.unacknowledged_le [Inhabited D] {label : Option (Directory.Event × N)}
    (h : Step useMap s label s')
    (hdir : s.DirShape) (hrepeats : s.Avoids Trigger.repeatsPut label) (j : N) :
    s'.unacknowledged j + awaitsWbAck (s.state j) ≤
      s.unacknowledged j + awaitsWbAck (s'.state j) := by
  simp only [unacknowledged]
  cases h with
  | cpu h =>
      cases h with
      | @loadI i hst | @storeI i hst | @storeS i hst | @storeM i value hst | @replacementS i hst
      | @replacementM i hst => by_cases hji : j = i <;> grind
  | forward h =>
      cases h with
      | @invI i r rest hpop hst | @invS i r rest hpop hst | @invSM_AD i r rest hpop hst
      | @invSI_A i r rest hpop hst | @wbAckI i rest hpop hst | @wbAck i rest hpop hst
      | @fwdGetSM i r rest hpop hst | @fwdGetSMI_A i r rest hpop hst
      | @fwdGetMM i r rest hpop hst | @fwdGetMMI_A i r rest hpop hst =>
          have hacks := hpop.removed.tally Forward.isWbAck j
          by_cases hji : j = i <;> grind
  | response h =>
      cases h with
      | @dataIS_D i value rest hremoved hst | @dataLast i value stored ackCount rest hremoved hst
      | @dataAckCntIM_AD i value ackCount rest hremoved hst
      | @dataAckCntSM_AD i value ackCount rest hremoved hst | @invAck i rest hremoved hst
      | @invAckAll i stored rest hremoved hst => by_cases hji : j = i <;> grind
  | @request _ event r h =>
      have havoid := hrepeats _ _ rfl
      cases h with
      | getSI hpop hst | getMI hpop hst | putSLastI hpop hst | getSS hpop hst | getMS hpop hst
      | putSNotLast hpop hst | putSLastS hpop hst | putMS hpop hst | getSM hpop hst
      | getMM hpop hst | putSM hpop hst | putMNotOwner hpop hst | putMMS_D hpop hst
      | putMMS_M hpop hst =>
          have hputs := hpop.removed.tally Request.isPut j
          grind
      | putMOwner hpop hst =>
          have hputs := hpop.removed.tally Request.isPut j
          simp only [DirShape, hst] at hdir
          grind [tally_nil]
      | putSLastMS hpop hst => grind
  | data h =>
      cases h with
      | dropped | dataMS_M => exact le_refl _
      | dataMS_D hremoved hst => grind
  | memory h =>
      cases h with
      | dataIS_M hremoved hst | dataIM_M hremoved hst | ackMS_M hremoved hst => grind
      | ackMI_M hremoved hst =>
          have hwritebacks := hremoved.tally isWriteback j
          simp only [DirShape, hst] at hdir
          obtain ⟨r', value', hmemory, -⟩ := hdir
          rw [hmemory] at hremoved
          obtain ⟨-, rfl⟩ := hremoved.of_singleton
          grind [tally_nil]

end Ece552.Msi.Block
