import Ece552.Library.Removal
import Ece552.Library.TransitionSystem
import Ece552.Msi.Directory
import Ece552.Msi.L1Cache

/-!
# The protocol for one address

What the machines and the networks hold for a single address, and one constructor of `Step` for
each transition of the two machines. Requests and forwards are taken in the order of sending for
each L1; responses in any order. `image` is the value of the last store performed, or the initial
memory. Deliveries, load hits and stalls are no steps here.
-/

namespace Ece552.Msi

open Library

/-- A request of an L1. -/
inductive Request (D : Type) where
  | GETS
  | GETM
  | PUTS
  | PUTM (data : D)
  deriving DecidableEq

/-- A message of the directory on the forward network. -/
inductive Forward (N : Type) where
  | GETS (requestor : N)
  | GETM (requestor : N)
  | INV (requestor : N)
  | WB_ACK
  deriving DecidableEq

/-- A response to an L1. Data from an owner has no acks to wait for. -/
inductive Response (D : Type) where
  | DATA (data : D) (ackCount : Int)
  | ACK
  deriving DecidableEq

/-! ## Kinds of messages -/

section Kinds

variable {N D : Type}

/-- A request for a shared copy. -/
@[grind =] def Request.isGETS : Request D → Bool
  | .GETS => true
  | .GETM | .PUTS | .PUTM _ => false

/-- A request for an exclusive copy. -/
@[grind =] def Request.isGETM : Request D → Bool
  | .GETM => true
  | .GETS | .PUTS | .PUTM _ => false

/-- A writeback. -/
@[grind =] def Request.isPut : Request D → Bool
  | .PUTS | .PUTM _ => true
  | .GETS | .GETM => false

/-- A writeback of a modified line. -/
@[grind =] def Request.isPUTM : Request D → Bool
  | .PUTM _ => true
  | .GETS | .GETM | .PUTS => false

/-- A forwarded request, which takes the line away from an owner. -/
@[grind =] def Forward.isRequest : Forward N → Bool
  | .GETS _ | .GETM _ => true
  | .INV _ | .WB_ACK => false

/-- A forwarded request for a shared copy. -/
@[grind =] def Forward.isGETS : Forward N → Bool
  | .GETS _ => true
  | .GETM _ | .INV _ | .WB_ACK => false

/-- An invalidation. -/
@[grind =] def Forward.isInv : Forward N → Bool
  | .INV _ => true
  | .GETS _ | .GETM _ | .WB_ACK => false

/-- An acknowledged writeback. -/
@[grind =] def Forward.isWbAck : Forward N → Bool
  | .WB_ACK => true
  | .GETS _ | .GETM _ | .INV _ => false

/-- A data message. -/
@[grind =] def Response.isData : Response D → Bool
  | .DATA _ _ => true
  | .ACK => false

/-- An acknowledged invalidation. -/
@[grind =] def Response.isAck : Response D → Bool
  | .ACK => true
  | .DATA _ _ => false

/-- The ack count of a data message. -/
@[grind =] def Response.ackCount : Response D → Int
  | .DATA _ ackCount => ackCount
  | .ACK => 0

/-- A queued memory read. -/
@[grind =] def isRead (m : MemoryRequestType × D) : Bool :=
  decide (m.1 = .MEMORY_READ)

/-- A queued memory write. -/
@[grind =] def isWriteback (m : MemoryRequestType × D) : Bool :=
  decide (m.1 = .MEMORY_WB)

end Kinds

/-- What the system holds for one address. -/
structure Block (N D : Type) where
  state : N → L1Cache.State
  data : N → D
  pendingAcks : N → Int
  requests : List (N × Request D)
  forwards : List (N × Forward N)
  responses : List (N × Response D)
  /-- The `DATA` messages to the directory, with their senders. -/
  downgrades : List (N × D)
  memory : List (N × MemoryRequestType × D)
  dir : Directory.State
  dirData : D
  sharers : NetDest N
  owner : NetDest N
  image : D

variable {N D : Type} [DecidableEq N] [Inhabited D]

namespace Block

/-- Change a function at one machine. -/
def setAt {α : Type} (f : N → α) (i : N) (value : α) : N → α :=
  fun j => if j = i then value else f j

/-- An array that has another value at one place. -/
@[simp, grind =] theorem setAt_apply {α : Type} (f : N → α) (i j : N) (value : α) :
    setAt f i value j = if j = i then value else f j := rfl

/-- To write what is there changes nothing. -/
@[simp] theorem set_at_eq_self {α : Type} {f : N → α} {i : N} {value : α} :
    setAt f i value = f ↔ f i = value := by
  refine ⟨fun h => ?_, fun h => funext fun j => ?_⟩
  · have hi := congrFun h i
    simpa using hi.symm
  · by_cases hj : j = i <;> simp [hj, h]

/-- What is left of the data block of an entry that ends in state I. -/
def forget (useMap : Bool) (data : D) : D := if useMap then default else data

/-- The line is gone from an L1. -/
def invalidate (s : Block N D) (i : N) : Block N D :=
  { s with
    state := setAt s.state i .I
    data := setAt s.data i default
    pendingAcks := setAt s.pendingAcks i 0 }

/-- An L1 completes a store in state M. -/
def performStore (s : Block N D) (i : N) (value : D) : Block N D :=
  { s with
    state := setAt s.state i .M
    data := setAt s.data i value
    pendingAcks := setAt s.pendingAcks i 0
    image := value }

section Fields

variable (s : Block N D) (i : N) (value : D)

/-- An invalidation takes the L1 to I. -/
@[simp, grind =] theorem invalidate_state (j : N) :
    (s.invalidate i).state j = if j = i then .I else s.state j := rfl

/-- An invalidation clears the data of the L1. -/
@[simp, grind =] theorem invalidate_data (j : N) :
    (s.invalidate i).data j = if j = i then default else s.data j := rfl

/-- An invalidation leaves no acknowledgements pending. -/
@[simp, grind =] theorem invalidate_pending_acks (j : N) :
    (s.invalidate i).pendingAcks j = if j = i then 0 else s.pendingAcks j := rfl

@[simp, grind =] theorem invalidate_requests : (s.invalidate i).requests = s.requests := rfl

@[simp, grind =] theorem invalidate_forwards : (s.invalidate i).forwards = s.forwards := rfl

@[simp, grind =] theorem invalidate_responses : (s.invalidate i).responses = s.responses := rfl

@[simp, grind =] theorem invalidate_downgrades : (s.invalidate i).downgrades = s.downgrades := rfl

@[simp, grind =] theorem invalidate_memory : (s.invalidate i).memory = s.memory := rfl

@[simp, grind =] theorem invalidate_dir : (s.invalidate i).dir = s.dir := rfl

@[simp, grind =] theorem invalidate_dir_data : (s.invalidate i).dirData = s.dirData := rfl

@[simp, grind =] theorem invalidate_sharers : (s.invalidate i).sharers = s.sharers := rfl

@[simp, grind =] theorem invalidate_owner : (s.invalidate i).owner = s.owner := rfl

@[simp, grind =] theorem invalidate_image : (s.invalidate i).image = s.image := rfl

omit [Inhabited D]

/-- A store takes the L1 to M. -/
@[simp, grind =] theorem perform_store_state (j : N) :
    (s.performStore i value).state j = if j = i then .M else s.state j := rfl

/-- A store leaves the value with the L1. -/
@[simp, grind =] theorem perform_store_data (j : N) :
    (s.performStore i value).data j = if j = i then value else s.data j := rfl

/-- A store is done when no acknowledgements are pending. -/
@[simp, grind =] theorem perform_store_pending_acks (j : N) :
    (s.performStore i value).pendingAcks j = if j = i then 0 else s.pendingAcks j := rfl

@[simp, grind =] theorem perform_store_requests :
    (s.performStore i value).requests = s.requests := rfl

@[simp, grind =] theorem perform_store_forwards :
    (s.performStore i value).forwards = s.forwards := rfl

@[simp, grind =] theorem perform_store_responses :
    (s.performStore i value).responses = s.responses := rfl

@[simp, grind =] theorem perform_store_downgrades :
    (s.performStore i value).downgrades = s.downgrades := rfl

@[simp, grind =] theorem perform_store_memory :
    (s.performStore i value).memory = s.memory := rfl

@[simp, grind =] theorem perform_store_dir : (s.performStore i value).dir = s.dir := rfl

@[simp, grind =] theorem perform_store_dir_data :
    (s.performStore i value).dirData = s.dirData := rfl

@[simp, grind =] theorem perform_store_sharers :
    (s.performStore i value).sharers = s.sharers := rfl

@[simp, grind =] theorem perform_store_owner : (s.performStore i value).owner = s.owner := rfl

/-- The value that was stored is the last one from then on. -/
@[simp, grind =] theorem perform_store_image : (s.performStore i value).image = value := rfl

end Fields

/-- The packets of a multicast. -/
def multicast (destination : NetDest N) (m : Forward N) : List (N × Forward N) :=
  destination.elems.map (·, m)

/-- A multicast mentions its message once for every destination. -/
@[simp, grind =] theorem mentions_multicast (destination : NetDest N) (m m' : Forward N) :
    mentions m (multicast destination m') = if m' = m then destination.count else 0 :=
  mentions_map destination.elems m m'

omit [DecidableEq N] in
/-- A multicast counts once for every destination. -/
@[simp, grind =] theorem tally_all_multicast (p : Forward N → Bool) (destination : NetDest N)
    (m : Forward N) :
    tallyAll p (multicast destination m) = if p m = true then destination.count else 0 :=
  tally_all_map p destination.elems m

/-- A multicast adds one message for each destination. -/
@[grind =] theorem tally_multicast (p : Forward N → Bool) (destination : NetDest N)
    (m : Forward N) (i : N) :
    tally p i (multicast destination m) = if i ∈ destination ∧ p m = true then 1 else 0 := by
  have hcount : destination.elems.countP (fun k => decide (k = i)) =
      if i ∈ destination then 1 else 0 := by
    have hnodup := destination.nodup.count (a := i)
    rw [List.count_eq_countP] at hnodup
    simpa [beq_eq_decide] using hnodup
  by_cases hm : p m = true <;>
    simp [tally, multicast, List.countP_map, Function.comp_def, hm, hcount]

omit [DecidableEq N] in
/-- A multicast has the message for every destination. -/
@[simp, grind =] theorem mem_multicast {destination : NetDest N} {m m' : Forward N} {i : N} :
    (i, m) ∈ multicast destination m' ↔ m = m' ∧ i ∈ destination := by
  simp only [multicast, List.mem_map, Prod.mk.injEq, NetDest.mem_elems]
  constructor
  · rintro ⟨k, hk, rfl, rfl⟩
    exact ⟨rfl, hk⟩
  · rintro ⟨rfl, hi⟩
    exact ⟨i, hi, rfl, rfl⟩

/-- The transitions of an L1 on events of its processor. -/
inductive CpuStep : Block N D → Block N D → Prop where
  | loadI {s : Block N D} {i : N} : s.state i = .I →
      CpuStep s { s with
        state := setAt s.state i .IS_D
        requests := s.requests ++ [(i, .GETS)] }
  | storeI {s : Block N D} {i : N} : s.state i = .I →
      CpuStep s { s with
        state := setAt s.state i .IM_AD
        requests := s.requests ++ [(i, .GETM)] }
  | storeS {s : Block N D} {i : N} : s.state i = .S →
      CpuStep s { s with
        state := setAt s.state i .SM_AD
        requests := s.requests ++ [(i, .GETM)] }
  | storeM {s : Block N D} {i : N} {value : D} : s.state i = .M →
      CpuStep s (s.performStore i value)
  | replacementS {s : Block N D} {i : N} : s.state i = .S →
      CpuStep s { s with
        state := setAt s.state i .SI_A
        requests := s.requests ++ [(i, .PUTS)] }
  | replacementM {s : Block N D} {i : N} : s.state i = .M →
      CpuStep s { s with
        state := setAt s.state i .MI_A
        requests := s.requests ++ [(i, .PUTM (s.data i))] }

/-- The transitions of an L1 on messages of the forward network. -/
inductive ForwardStep : Block N D → Block N D → Prop where
  | invI {s : Block N D} {i r : N} {rest : List (N × Forward N)} :
      Popped s.forwards (i, .INV r) rest → s.state i = .I →
      ForwardStep s { s with forwards := rest, responses := s.responses ++ [(r, .ACK)] }
  | invS {s : Block N D} {i r : N} {rest : List (N × Forward N)} :
      Popped s.forwards (i, .INV r) rest → s.state i = .S →
      ForwardStep s
        { s.invalidate i with forwards := rest, responses := s.responses ++ [(r, .ACK)] }
  | invSM_AD {s : Block N D} {i r : N} {rest : List (N × Forward N)} :
      Popped s.forwards (i, .INV r) rest → s.state i = .SM_AD →
      ForwardStep s { s with
        state := setAt s.state i .IM_AD
        forwards := rest
        responses := s.responses ++ [(r, .ACK)] }
  | invSI_A {s : Block N D} {i r : N} {rest : List (N × Forward N)} :
      Popped s.forwards (i, .INV r) rest → s.state i = .SI_A →
      ForwardStep s { s with
        state := setAt s.state i .II_A
        forwards := rest
        responses := s.responses ++ [(r, .ACK)] }
  | wbAckI {s : Block N D} {i : N} {rest : List (N × Forward N)} :
      Popped s.forwards (i, .WB_ACK) rest → s.state i = .I →
      ForwardStep s { s with forwards := rest }
  | wbAck {s : Block N D} {i : N} {rest : List (N × Forward N)} :
      Popped s.forwards (i, .WB_ACK) rest → s.state i ∈ [L1Cache.State.MI_A, .SI_A, .II_A] →
      ForwardStep s { s.invalidate i with forwards := rest }
  | fwdGetSM {s : Block N D} {i r : N} {rest : List (N × Forward N)} :
      Popped s.forwards (i, .GETS r) rest → s.state i = .M →
      ForwardStep s { s with
        state := setAt s.state i .S
        forwards := rest
        responses := s.responses ++ [(r, .DATA (s.data i) 0)]
        downgrades := s.downgrades ++ [(i, s.data i)] }
  | fwdGetSMI_A {s : Block N D} {i r : N} {rest : List (N × Forward N)} :
      Popped s.forwards (i, .GETS r) rest → s.state i = .MI_A →
      ForwardStep s { s with
        state := setAt s.state i .SI_A
        forwards := rest
        responses := s.responses ++ [(r, .DATA (s.data i) 0)]
        downgrades := s.downgrades ++ [(i, s.data i)] }
  | fwdGetMM {s : Block N D} {i r : N} {rest : List (N × Forward N)} :
      Popped s.forwards (i, .GETM r) rest → s.state i = .M →
      ForwardStep s { s.invalidate i with
        forwards := rest
        responses := s.responses ++ [(r, .DATA (s.data i) 0)] }
  | fwdGetMMI_A {s : Block N D} {i r : N} {rest : List (N × Forward N)} :
      Popped s.forwards (i, .GETM r) rest → s.state i = .MI_A →
      ForwardStep s { s with
        state := setAt s.state i .II_A
        forwards := rest
        responses := s.responses ++ [(r, .DATA (s.data i) 0)] }

/-- The transitions of an L1 on responses. -/
inductive ResponseStep : Block N D → Block N D → Prop where
  | dataIS_D {s : Block N D} {i : N} {value : D} {rest : List (N × Response D)} :
      Removed s.responses (i, .DATA value 0) rest → s.state i = .IS_D →
      ResponseStep s { s with
        state := setAt s.state i .S
        data := setAt s.data i value
        pendingAcks := setAt s.pendingAcks i 0
        responses := rest }
  | dataLast {s : Block N D} {i : N} {value stored : D} {ackCount : Int}
      {rest : List (N × Response D)} :
      Removed s.responses (i, .DATA value ackCount) rest →
      s.state i ∈ [L1Cache.State.IM_AD, .SM_AD] →
      ackCount = 0 ∨ s.pendingAcks i - ackCount = 0 →
      ResponseStep s { s.performStore i stored with responses := rest }
  | dataAckCntIM_AD {s : Block N D} {i : N} {value : D} {ackCount : Int}
      {rest : List (N × Response D)} :
      Removed s.responses (i, .DATA value ackCount) rest → s.state i = .IM_AD →
      ackCount ≠ 0 → s.pendingAcks i - ackCount ≠ 0 →
      ResponseStep s { s with
        state := setAt s.state i .IM_A
        data := setAt s.data i value
        pendingAcks := setAt s.pendingAcks i (s.pendingAcks i - ackCount)
        responses := rest }
  | dataAckCntSM_AD {s : Block N D} {i : N} {value : D} {ackCount : Int}
      {rest : List (N × Response D)} :
      Removed s.responses (i, .DATA value ackCount) rest → s.state i = .SM_AD →
      ackCount ≠ 0 → s.pendingAcks i - ackCount ≠ 0 →
      ResponseStep s { s with
        state := setAt s.state i .SM_A
        data := setAt s.data i value
        pendingAcks := setAt s.pendingAcks i (s.pendingAcks i - ackCount)
        responses := rest }
  | invAck {s : Block N D} {i : N} {rest : List (N × Response D)} :
      Removed s.responses (i, .ACK) rest →
      s.state i ∈ [L1Cache.State.IM_AD, .IM_A, .SM_AD, .SM_A] → s.pendingAcks i - 1 ≠ 0 →
      ResponseStep s { s with
        pendingAcks := setAt s.pendingAcks i (s.pendingAcks i - 1)
        responses := rest }
  | invAckAll {s : Block N D} {i : N} {stored : D} {rest : List (N × Response D)} :
      Removed s.responses (i, .ACK) rest →
      s.state i ∈ [L1Cache.State.IM_A, .SM_A] → s.pendingAcks i - 1 = 0 →
      ResponseStep s { s.performStore i stored with responses := rest }

/-- The transitions of the directory on requests, with the event and the requestor. -/
inductive RequestStep (useMap : Bool) : Block N D → Directory.Event → N → Block N D → Prop where
  | getSI {s : Block N D} {r : N} {rest : List (N × Request D)} :
      Popped s.requests (r, .GETS) rest → s.dir = .I →
      RequestStep useMap s .GETS r { s with
        requests := rest
        memory := s.memory ++ [(r, .MEMORY_READ, s.dirData)]
        dir := .IS_M
        sharers := s.sharers.add r }
  | getMI {s : Block N D} {r : N} {rest : List (N × Request D)} :
      Popped s.requests (r, .GETM) rest → s.dir = .I →
      RequestStep useMap s .GETM r { s with
        requests := rest
        memory := s.memory ++ [(r, .MEMORY_READ, s.dirData)]
        dir := .IM_M
        owner := NetDest.empty.add r }
  | putSLastI {s : Block N D} {r : N} {rest : List (N × Request D)} :
      Popped s.requests (r, .PUTS) rest → s.dir = .I →
      RequestStep useMap s .PUTS_Last r { s with
        requests := rest
        forwards := s.forwards ++ [(r, .WB_ACK)]
        dirData := forget useMap s.dirData }
  | getSS {s : Block N D} {r : N} {rest : List (N × Request D)} :
      Popped s.requests (r, .GETS) rest → s.dir = .S →
      RequestStep useMap s .GETS r { s with
        requests := rest
        responses := s.responses ++ [(r, .DATA s.dirData 0)]
        sharers := s.sharers.add r }
  | getMS {s : Block N D} {r : N} {rest : List (N × Request D)} :
      Popped s.requests (r, .GETM) rest → s.dir = .S →
      RequestStep useMap s .GETM r { s with
        requests := rest
        forwards := s.forwards ++ multicast (s.sharers.remove r) (.INV r)
        responses := s.responses ++ [(r, .DATA s.dirData (-(s.sharers.remove r).count))]
        dir := .M
        sharers := .empty
        owner := NetDest.empty.add r }
  | putSNotLast {s : Block N D} {r : N} {rest : List (N × Request D)} :
      Popped s.requests (r, .PUTS) rest → s.dir ∈ [Directory.State.S, .MS_D, .MS_M] →
      2 ≤ s.sharers.count →
      RequestStep useMap s .PUTS_NotLast r { s with
        requests := rest
        forwards := s.forwards ++ [(r, .WB_ACK)]
        sharers := s.sharers.remove r }
  | putSLastS {s : Block N D} {r : N} {rest : List (N × Request D)} :
      Popped s.requests (r, .PUTS) rest → s.dir = .S → (s.sharers.remove r).count = 0 →
      RequestStep useMap s .PUTS_Last r { s with
        requests := rest
        forwards := s.forwards ++ [(r, .WB_ACK)]
        dir := .I
        dirData := forget useMap s.dirData
        sharers := .empty }
  | putMS {s : Block N D} {r : N} {value : D} {rest : List (N × Request D)} :
      Popped s.requests (r, .PUTM value) rest → s.dir = .S → ¬ r ∈ s.owner →
      RequestStep useMap s .PUTM_NotOwner r { s with
        requests := rest
        forwards := s.forwards ++ [(r, .WB_ACK)]
        sharers := s.sharers.remove r }
  | getSM {s : Block N D} {r : N} {rest : List (N × Request D)} :
      Popped s.requests (r, .GETS) rest → s.dir = .M →
      RequestStep useMap s .GETS r { s with
        requests := rest
        forwards := s.forwards ++ multicast s.owner (.GETS r)
        dir := .MS_D
        sharers := (s.sharers.add r).addNetDest s.owner
        owner := .empty }
  | getMM {s : Block N D} {r : N} {rest : List (N × Request D)} :
      Popped s.requests (r, .GETM) rest → s.dir = .M →
      RequestStep useMap s .GETM r { s with
        requests := rest
        forwards := s.forwards ++ multicast s.owner (.GETM r)
        owner := NetDest.empty.add r }
  | putSM {s : Block N D} {r : N} {event : Directory.Event} {rest : List (N × Request D)} :
      Popped s.requests (r, .PUTS) rest → s.dir ∈ [Directory.State.M, .MI_M] →
      event ∈ [Directory.Event.PUTS_Last, .PUTS_NotLast] →
      RequestStep useMap s event r { s with
        requests := rest
        forwards := s.forwards ++ [(r, .WB_ACK)] }
  | putMOwner {s : Block N D} {r : N} {value : D} {rest : List (N × Request D)} :
      Popped s.requests (r, .PUTM value) rest → s.dir = .M → r ∈ s.owner →
      RequestStep useMap s .PUTM_Owner r { s with
        requests := rest
        memory := s.memory ++ [(r, .MEMORY_WB, value)]
        dir := .MI_M
        dirData := value
        owner := .empty }
  | putMNotOwner {s : Block N D} {r : N} {value : D} {rest : List (N × Request D)} :
      Popped s.requests (r, .PUTM value) rest → s.dir ∈ [Directory.State.M, .MI_M] →
      ¬ r ∈ s.owner →
      RequestStep useMap s .PUTM_NotOwner r { s with
        requests := rest
        forwards := s.forwards ++ [(r, .WB_ACK)]
        dirData := value }
  /-- The request stays at the head of the queue. -/
  | putSLastMS {s : Block N D} {r : N} {rest : List (N × Request D)} :
      Popped s.requests (r, .PUTS) rest → s.dir ∈ [Directory.State.MS_D, .MS_M] →
      s.sharers.count < 2 →
      RequestStep useMap s .PUTS_Last r { s with
        forwards := s.forwards ++ [(r, .WB_ACK)]
        sharers := s.sharers.remove r }
  | putMMS_D {s : Block N D} {r : N} {value : D} {rest : List (N × Request D)} :
      Popped s.requests (r, .PUTM value) rest → s.dir = .MS_D → ¬ r ∈ s.owner →
      RequestStep useMap s .PUTM_NotOwner r { s with
        requests := rest
        forwards := s.forwards ++ [(r, .WB_ACK)]
        memory := s.memory ++ [(r, .MEMORY_WB, value)]
        dir := .MS_M
        dirData := value }
  /-- No acknowledgement is sent. -/
  | putMMS_M {s : Block N D} {r : N} {value : D} {rest : List (N × Request D)} :
      Popped s.requests (r, .PUTM value) rest → s.dir = .MS_M → ¬ r ∈ s.owner →
      RequestStep useMap s .PUTM_NotOwner r { s with requests := rest }

/-- The transitions of the directory on data of a downgraded owner, with its sender. -/
inductive DataStep : Block N D → N → Block N D → Prop where
  | dropped {s : Block N D} {i : N} {value : D} {rest : List (N × D)} :
      Removed s.downgrades (i, value) rest → s.dir ∈ [Directory.State.S, .M] →
      DataStep s i { s with downgrades := rest }
  | dataMS_D {s : Block N D} {i : N} {value : D} {rest : List (N × D)} :
      Removed s.downgrades (i, value) rest → s.dir = .MS_D →
      DataStep s i { s with
        downgrades := rest
        memory := s.memory ++ [(i, .MEMORY_WB, value)]
        dir := .MS_M
        dirData := value }
  | dataMS_M {s : Block N D} {i : N} {value : D} {rest : List (N × D)} :
      Removed s.downgrades (i, value) rest → s.dir = .MS_M →
      DataStep s i { s with downgrades := rest, dirData := value }

/-- The transitions of the directory on memory replies, with the event and the requestor. -/
inductive MemoryStep (useMap : Bool) : Block N D → Directory.Event → N → Block N D → Prop where
  | dataIS_M {s : Block N D} {r : N} {value : D} {rest : List (N × MemoryRequestType × D)} :
      Removed s.memory (r, .MEMORY_READ, value) rest → s.dir = .IS_M →
      MemoryStep useMap s .Memory_Data r { s with
        responses := s.responses ++ [(r, .DATA value 0)]
        memory := rest
        dir := .S }
  | dataIM_M {s : Block N D} {r : N} {value : D} {rest : List (N × MemoryRequestType × D)} :
      Removed s.memory (r, .MEMORY_READ, value) rest → s.dir = .IM_M →
      MemoryStep useMap s .Memory_Data r { s with
        responses := s.responses ++ [(r, .DATA value 0)]
        memory := rest
        dir := .M }
  | ackMS_M {s : Block N D} {r : N} {value : D} {rest : List (N × MemoryRequestType × D)} :
      Removed s.memory (r, .MEMORY_WB, value) rest → s.dir = .MS_M →
      MemoryStep useMap s .Memory_Ack r { s with memory := rest, dir := .S }
  | ackMI_M {s : Block N D} {r : N} {value : D} {rest : List (N × MemoryRequestType × D)} :
      Removed s.memory (r, .MEMORY_WB, value) rest → s.dir = .MI_M →
      MemoryStep useMap s .Memory_Ack r { s with
        forwards := s.forwards ++ [(r, .WB_ACK)]
        memory := rest
        dir := .I
        dirData := forget useMap s.dirData }

/-- A step, labelled with the event and the requestor when it is the directory's. -/
inductive Step (useMap : Bool) :
    Block N D → Option (Directory.Event × N) → Block N D → Prop where
  | cpu {s s' : Block N D} : CpuStep s s' → Step useMap s none s'
  | forward {s s' : Block N D} : ForwardStep s s' → Step useMap s none s'
  | response {s s' : Block N D} : ResponseStep s s' → Step useMap s none s'
  | request {s s' : Block N D} {event : Directory.Event} {r : N} :
      RequestStep useMap s event r s' → Step useMap s (some (event, r)) s'
  | data {s s' : Block N D} {i : N} : DataStep s i s' → Step useMap s (some (.Data, i)) s'
  | memory {s s' : Block N D} {event : Directory.Event} {r : N} :
      MemoryStep useMap s event r s' → Step useMap s (some (event, r)) s'

/-- A step of the directory avoids what `bad` singles out. -/
def Avoids (bad : Directory.Trigger N → Bool) (s : Block N D)
    (label : Option (Directory.Event × N)) : Prop :=
  ∀ event r, label = some (event, r) → bad ⟨s.dir, s.sharers, event, r⟩ = false

omit [DecidableEq N] [Inhabited D] in
/-- To avoid either of two things is to avoid both. -/
theorem Avoids.of_or {p q : Directory.Trigger N → Bool} {s : Block N D}
    {label : Option (Directory.Event × N)} (h : s.Avoids (fun t => p t || q t) label) :
    s.Avoids p label ∧ s.Avoids q label :=
  ⟨fun event r hlabel => (Bool.or_eq_false_iff.mp (h event r hlabel)).1,
    fun event r hlabel => (Bool.or_eq_false_iff.mp (h event r hlabel)).2⟩

/-- Nothing cached, nothing in flight, and the directory holds the last value stored. -/
structure Initial (s : Block N D) : Prop where
  state : ∀ i, s.state i = .I
  pendingAcks : ∀ i, s.pendingAcks i = 0
  requests : s.requests = []
  forwards : s.forwards = []
  responses : s.responses = []
  downgrades : s.downgrades = []
  memory : s.memory = []
  dir : s.dir = .I
  dirData : s.dirData = s.image
  sharers : s.sharers = .empty
  owner : s.owner = .empty

/-- The transition system of one address. -/
def system (useMap : Bool) :
    TransitionSystem (Block N D) (Option (Directory.Event × N)) where
  init := Initial
  next := Step useMap

end Block

end Ece552.Msi
