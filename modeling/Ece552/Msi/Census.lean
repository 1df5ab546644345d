import Ece552.Msi.Refinement

/-!
# Counting the packets in flight

How many packets and memory requests of some types there are about an address, from, to or naming
an L1. Each count is one of the counts of the view of the address, so the accounts kept for one
address are accounts of the packets of the system.
-/

namespace Ece552.Msi

open Library Block

variable {ι δ A D : Type} [DecidableEq ι] [DecidableEq δ] [DecidableEq A]

namespace System

variable (config : Config ι δ A D) (s : System ι δ A D) (i : ι) (address : A)

/-- The state of a line in an L1. -/
def stateOf : L1Cache.State := L1Cache.getState (s.line i address)

/-- The state of a line in its directory. -/
def dirStateOf : Directory.State := Directory.getState (s.dir address)

/-- The requests from an L1. -/
def requestsFrom (types : List CoherenceRequestType) : Nat :=
  s.requestNet.inFlight.countP fun p =>
    decide (p.src = .L1Cache i ∧ p.msg.address = address ∧ p.msg.type ∈ types)

/-- The requests from any L1. -/
def requestsAbout (types : List CoherenceRequestType) : Nat :=
  s.requestNet.inFlight.countP fun p => decide (p.msg.address = address ∧ p.msg.type ∈ types)

/-- The forwards to an L1. -/
def forwardsTo (types : List CoherenceRequestType) : Nat :=
  s.forwardNet.inFlight.countP fun p =>
    decide (p.dst = .L1Cache i ∧ p.msg.address = address ∧ p.msg.type ∈ types)

/-- The forwards on behalf of an L1. -/
def forwardsNaming (types : List CoherenceRequestType) : Nat :=
  s.forwardNet.inFlight.countP fun p =>
    decide (p.msg.requestor = .L1Cache i ∧ p.msg.address = address ∧ p.msg.type ∈ types)

/-- The forwards to any L1. -/
def forwardsAbout (types : List CoherenceRequestType) : Nat :=
  s.forwardNet.inFlight.countP fun p => decide (p.msg.address = address ∧ p.msg.type ∈ types)

/-- The responses to an L1. -/
def responsesTo (types : List CoherenceResponseType) : Nat :=
  s.responseNet.inFlight.countP fun p =>
    decide (p.dst = .L1Cache i ∧ p.msg.address = address ∧ p.msg.type ∈ types)

/-- The responses to anyone. -/
def responsesAbout (types : List CoherenceResponseType) : Nat :=
  s.responseNet.inFlight.countP fun p => decide (p.msg.address = address ∧ p.msg.type ∈ types)

/-- The ack count of the data in flight from the directory to an L1. -/
def ackCountTo : Int :=
  (s.responseNet.inFlight.map fun p =>
    if p.dst = .L1Cache i ∧ p.msg.address = address ∧ p.msg.type = .DATA_FROM_DIR then
      p.msg.ackCount
    else 0).sum

/-- The memory requests queued on behalf of an L1. -/
def memoryRequestsOf (type : MemoryRequestType) : Nat :=
  (s.memQueue (config.mapAddressToDirectory address)).countP fun m =>
    decide (m.originalRequestorMachId = .L1Cache i ∧ m.address = address ∧ m.type = type)

/-- The memory requests queued. -/
def memoryRequests (type : MemoryRequestType) : Nat :=
  (s.memQueue (config.mapAddressToDirectory address)).countP fun m =>
    decide (m.address = address ∧ m.type = type)

end System

variable [Inhabited D] (config : Config ι δ A D) (image : A → D) {s : System ι δ A D} {i : ι}
  {address : A}

/-! ## Requests -/

/-- The requests for a copy are counted in the view as in the system. -/
theorem requestsFrom_eq_isGETS :
    s.requestsFrom i address [.GETS] =
      tally Request.isGETS (.L1Cache i) (view config s image address).requests := by
  refine (tally_filterMap fun p _ => ?_).symm
  obtain ⟨src, dst, a, type, requestor, data⟩ := p
  by_cases ha : a = address <;> cases type <;> simp [requestOf, ha, Request.isGETS]

/-- The requests for a line to write are counted in the view as in the system. -/
theorem requestsFrom_eq_isGETM :
    s.requestsFrom i address [.GETM] =
      tally Request.isGETM (.L1Cache i) (view config s image address).requests := by
  refine (tally_filterMap fun p _ => ?_).symm
  obtain ⟨src, dst, a, type, requestor, data⟩ := p
  by_cases ha : a = address <;> cases type <;> simp [requestOf, ha, Request.isGETM]

/-- The writebacks and give-ups of an L1 are counted in the view as in the system. -/
theorem requestsFrom_eq_isPut :
    s.requestsFrom i address [.PUTS, .PUTM] =
      tally Request.isPut (.L1Cache i) (view config s image address).requests := by
  refine (tally_filterMap fun p _ => ?_).symm
  obtain ⟨src, dst, a, type, requestor, data⟩ := p
  by_cases ha : a = address <;> cases type <;> simp [requestOf, ha, Request.isPut]

/-- So are those of all L1s. -/
theorem requestsAbout_eq_isPut :
    s.requestsAbout address [.PUTS, .PUTM] =
      tallyAll Request.isPut (view config s image address).requests := by
  refine (tally_all_filterMap fun p _ => ?_).symm
  obtain ⟨src, dst, a, type, requestor, data⟩ := p
  by_cases ha : a = address <;> cases type <;> simp [requestOf, ha, Request.isPut]

/-- The writebacks of all L1s are counted in the view as in the system. -/
theorem requestsAbout_eq_isPUTM :
    s.requestsAbout address [.PUTM] =
      tallyAll Request.isPUTM (view config s image address).requests := by
  refine (tally_all_filterMap fun p _ => ?_).symm
  obtain ⟨src, dst, a, type, requestor, data⟩ := p
  by_cases ha : a = address <;> cases type <;> simp [requestOf, ha, Request.isPUTM]

/-! ## Forwards -/

/-- The acknowledgements of writebacks are counted in the view as in the system. -/
theorem forwardsTo_eq_isWbAck :
    s.forwardsTo i address [.WB_ACK] =
      tally Forward.isWbAck (.L1Cache i) (view config s image address).forwards := by
  refine (tally_filterMap fun p _ => ?_).symm
  obtain ⟨src, dst, a, type, requestor, data⟩ := p
  by_cases ha : a = address <;> cases type <;> simp [forwardOf, ha, Forward.isWbAck]

/-- The invalidations of an L1 are counted in the view as in the system. -/
theorem forwardsTo_eq_isInv :
    s.forwardsTo i address [.INV] =
      tally Forward.isInv (.L1Cache i) (view config s image address).forwards := by
  refine (tally_filterMap fun p _ => ?_).symm
  obtain ⟨src, dst, a, type, requestor, data⟩ := p
  by_cases ha : a = address <;> cases type <;> simp [forwardOf, ha, Forward.isInv]

/-- The requests forwarded to an owner are counted in the view as in the system. -/
theorem forwardsTo_eq_isRequest :
    s.forwardsTo i address [.GETS, .GETM] =
      tally Forward.isRequest (.L1Cache i) (view config s image address).forwards := by
  refine (tally_filterMap fun p _ => ?_).symm
  obtain ⟨src, dst, a, type, requestor, data⟩ := p
  by_cases ha : a = address <;> cases type <;> simp [forwardOf, ha, Forward.isRequest]

/-- Those for a copy are counted in the view as in the system. -/
theorem forwardsTo_eq_isGETS :
    s.forwardsTo i address [.GETS] =
      tally Forward.isGETS (.L1Cache i) (view config s image address).forwards := by
  refine (tally_filterMap fun p _ => ?_).symm
  obtain ⟨src, dst, a, type, requestor, data⟩ := p
  by_cases ha : a = address <;> cases type <;> simp [forwardOf, ha, Forward.isGETS]

omit [Inhabited D] in
/-- A forward of one of the types is in flight to an L1. -/
theorem forwardsTo_pos {types : List CoherenceRequestType} :
    0 < s.forwardsTo i address types ↔ ∃ p ∈ s.forwardNet.inFlight,
      p.dst = .L1Cache i ∧ p.msg.address = address ∧ p.msg.type ∈ types := by
  simp [System.forwardsTo, List.countP_pos_iff]

/-- The forwarded requests for a copy name whoever they name in the view. -/
theorem forwardsNaming_eq_GETS :
    s.forwardsNaming i address [.GETS] =
      mentions (.GETS (.L1Cache i)) (view config s image address).forwards := by
  refine (mentions_filterMap fun p _ => ?_).symm
  obtain ⟨src, dst, a, type, requestor, data⟩ := p
  by_cases ha : a = address <;> cases type <;> simp [forwardOf, ha]

/-- The forwarded requests for a line to write name whoever they name in the view. -/
theorem forwardsNaming_eq_GETM :
    s.forwardsNaming i address [.GETM] =
      mentions (.GETM (.L1Cache i)) (view config s image address).forwards := by
  refine (mentions_filterMap fun p _ => ?_).symm
  obtain ⟨src, dst, a, type, requestor, data⟩ := p
  by_cases ha : a = address <;> cases type <;> simp [forwardOf, ha]

/-- The invalidations name whoever they name in the view. -/
theorem forwardsNaming_eq_INV :
    s.forwardsNaming i address [.INV] =
      mentions (.INV (.L1Cache i)) (view config s image address).forwards := by
  refine (mentions_filterMap fun p _ => ?_).symm
  obtain ⟨src, dst, a, type, requestor, data⟩ := p
  by_cases ha : a = address <;> cases type <;> simp [forwardOf, ha]

/-- The forwarded requests for a copy, to any owner, are counted in the view as in the system. -/
theorem forwardsAbout_eq_isGETS :
    s.forwardsAbout address [.GETS] =
      tallyAll Forward.isGETS (view config s image address).forwards := by
  refine (tally_all_filterMap fun p _ => ?_).symm
  obtain ⟨src, dst, a, type, requestor, data⟩ := p
  by_cases ha : a = address <;> cases type <;> simp [forwardOf, ha, Forward.isGETS]

/-! ## Responses -/

/-- The data sent to an L1 is counted in the view as in the system. -/
theorem responsesTo_eq_isData :
    s.responsesTo i address [.DATA_FROM_DIR, .DATA_FROM_OWNER] =
      tally Response.isData (.L1Cache i) (view config s image address).responses := by
  refine (tally_filterMap fun p _ => ?_).symm
  obtain ⟨src, dst, a, type, sender, data, ackCount⟩ := p
  by_cases ha : a = address <;> cases type <;> simp [responseOf, ha, Response.isData]

/-- The acknowledgements sent to an L1 are counted in the view as in the system. -/
theorem responsesTo_eq_isAck :
    s.responsesTo i address [.ACK] =
      tally Response.isAck (.L1Cache i) (view config s image address).responses := by
  refine (tally_filterMap fun p _ => ?_).symm
  obtain ⟨src, dst, a, type, sender, data, ackCount⟩ := p
  by_cases ha : a = address <;> cases type <;> simp [responseOf, ha, Response.isAck]

/-- The acknowledgements that the data promises add up to the same in the view. -/
theorem ackCountTo_eq :
    s.ackCountTo i address =
      total Response.ackCount (.L1Cache i) (view config s image address).responses := by
  unfold System.ackCountTo
  simp only [view, total]
  induction s.responseNet.inFlight with
  | nil => rfl
  | cons p ps ih =>
      rw [List.map_cons, List.sum_cons, ih, List.filterMap_cons]
      obtain ⟨src, dst, a, type, sender, data, ackCount⟩ := p
      by_cases ha : a = address <;> cases type <;> simp [responseOf, ha, Response.ackCount]

/-- The data that owners send to the directory are the downgrades of the view. -/
theorem responsesAbout_eq_length :
    s.responsesAbout address [.DATA] = (view config s image address).downgrades.length := by
  simp only [view, List.length_filterMap_eq_countP]
  refine List.countP_congr fun p _ => ?_
  simp [downgradeOf]

/-! ## Memory requests -/

/-- The lines that memory reads for an L1 are counted in the view as in the system. -/
theorem memoryRequestsOf_eq_isRead :
    s.memoryRequestsOf config i address .MEMORY_READ =
      tally isRead (.L1Cache i) (view config s image address).memory := by
  refine (tally_filterMap fun m _ => ?_).symm
  obtain ⟨a, type, requestor, data⟩ := m
  by_cases ha : a = address <;> cases type <;> simp [memoryOf, ha, isRead]

/-- The lines that memory writes for an L1 are counted in the view as in the system. -/
theorem memoryRequestsOf_eq_isWriteback :
    s.memoryRequestsOf config i address .MEMORY_WB =
      tally isWriteback (.L1Cache i) (view config s image address).memory := by
  refine (tally_filterMap fun m _ => ?_).symm
  obtain ⟨a, type, requestor, data⟩ := m
  by_cases ha : a = address <;> cases type <;> simp [memoryOf, ha, isWriteback]

/-- All reads of memory are counted in the view as in the system. -/
theorem memoryRequests_eq_isRead :
    s.memoryRequests config address .MEMORY_READ =
      tallyAll isRead (view config s image address).memory := by
  refine (tally_all_filterMap fun m _ => ?_).symm
  obtain ⟨a, type, requestor, data⟩ := m
  by_cases ha : a = address <;> cases type <;> simp [memoryOf, ha, isRead]

/-- All writes of memory are counted in the view as in the system. -/
theorem memoryRequests_eq_isWriteback :
    s.memoryRequests config address .MEMORY_WB =
      tallyAll isWriteback (view config s image address).memory := by
  refine (tally_all_filterMap fun m _ => ?_).symm
  obtain ⟨a, type, requestor, data⟩ := m
  by_cases ha : a = address <;> cases type <;> simp [memoryOf, ha, isWriteback]

end Ece552.Msi
