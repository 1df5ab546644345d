import Ece552.Msi.Messages

/-!
# The directory machine

The states, events, actions and transitions of `MSI-dir.sm`. A `Line` is what the machine keeps
for one address: the directory entry and the TBE when allocated. `getDirectoryEntry` allocates
an entry on the first access, so every address has one. With `useMap` the entries live in a map
from which `invalidateBlock` removes them; the entry allocated next starts with a cleared data
block. `doTransition` looks the transition up, runs its actions in order and calls `setState`
last, whose assertions can still stop the simulation.
-/

namespace Ece552.Msi.Directory

open Library

/-- The directory states. -/
inductive State where
  | I | M | S | IM_M | IS_M | MS_M | MS_D | MI_M
  deriving DecidableEq, Repr

/-- The directory events. -/
inductive Event where
  | GETM | GETS
  | PUTM | PUTM_Owner | PUTM_NotOwner
  | PUTS_NotLast | PUTS_Last | PUT_Ack
  | Memory_Data | Memory_Ack
  | Data
  deriving DecidableEq, Repr

/-- A directory entry. -/
structure Entry (N D : Type) where
  directoryState : State := .I
  dataBlk : D
  sharers : NetDest N := .empty
  owner : NetDest N := .empty

/-- A transient block entry. -/
structure TBE (D : Type) where
  tbeState : State := .I
  dataBlk : D
  deriving DecidableEq

/-- What the machine keeps for one address. -/
structure Line (N D : Type) where
  entry : Entry N D
  tbe : Option (TBE D) := none

variable {N A D : Type}

/-- The TBE is asked first, then the directory entry. -/
def getState (line : Line N D) : State :=
  match line.tbe with
  | some tbe => tbe.tbeState
  | none => line.entry.directoryState

section SetState

variable [Inhabited D]

/-- `DirectoryMemory::invalidateBlock`: only a map forgets the entry. -/
def invalidateBlock (useMap : Bool) (entry : Entry N D) : Entry N D :=
  if useMap then { dataBlk := default } else entry

/-- The state is written to the TBE and to the entry, whose owner and sharers are checked in the
states M and I. -/
def setState (useMap : Bool) (line : Line N D) (state : State) : Except Fault (Line N D) := do
  let tbe := line.tbe.map fun tbe => { tbe with tbeState := state }
  if state = .M then
    assertThat "setState" (line.entry.owner.count = 1)
    assertThat "setState" (line.entry.sharers.count = 0)
  let entry : Entry N D := { line.entry with directoryState := state }
  if state = .I then
    assertThat "setState" (entry.owner.count = 0)
    assertThat "setState" (entry.sharers.count = 0)
    .ok ⟨invalidateBlock useMap entry, tbe⟩
  else
    .ok ⟨entry, tbe⟩

end SetState

/-! ## In-ports -/

/-- The buffers that the machine dequeues. -/
inductive InPort where
  | requestToDir | responseToDir | memBuffer
  deriving DecidableEq, Repr

/-- The message that an in-port peeks at. -/
inductive InMsg (N A D : Type) where
  | request (msg : RequestMsg N A D)
  | response (msg : ResponseMsg N A D)
  | memory (msg : MemoryMsg N A D)

/-- The event that `responseQueue_in` triggers. -/
def responseQueue_in (msg : ResponseMsg N A D) : Except Fault Event :=
  match msg.type with
  | .DATA => .ok .Data
  | _ => .error (.error "Directory: Invalid response message")

/-- The event that `requestQueue_in` triggers. -/
def requestQueue_in [DecidableEq N] (line : Line N D) (msg : RequestMsg N A D) :
    Except Fault Event :=
  match msg.type with
  | .GETS => .ok .GETS
  | .GETM => .ok .GETM
  | .PUTM =>
      if line.entry.owner.isElement msg.requestor then .ok .PUTM_Owner else .ok .PUTM_NotOwner
  | .PUTS => if line.entry.sharers.count < 2 then .ok .PUTS_Last else .ok .PUTS_NotLast
  | _ => .error (.error "Invalid message")

/-- The event that `memQueue_in` triggers. -/
def memQueue_in (msg : MemoryMsg N A D) : Event :=
  match msg.type with
  | .MEMORY_READ => .Memory_Data
  | .MEMORY_WB => .Memory_Ack

/-! ## Actions -/

/-- What an action reads: the machine, the address and the peeked message. -/
structure Env (N A D : Type) where
  machineID : N
  address : A
  useMap : Bool
  inMsg : InMsg N A D

/-- What an action changes: the line, the messages put on the two networks and in the memory
queue, and the buffers dequeued. -/
structure Ctx (N A D : Type) where
  line : Line N D
  forwardFromDir : List (Packet N (RequestMsg N A D)) := []
  responseFromDir : List (Packet N (ResponseMsg N A D)) := []
  memBuffer : List (MemoryMsg N A D) := []
  dequeued : List InPort := []

/-- An action of the machine. -/
abbrev Action (N A D : Type) := Env N A D → Ctx N A D → Except Fault (Ctx N A D)

/-- Peek at the requests. -/
def Env.peekRequest (env : Env N A D) : Except Fault (RequestMsg N A D) :=
  match env.inMsg with
  | .request msg => .ok msg
  | _ => .error (.assertion "requestQueue_in.isReady")

/-- Peek at the responses. -/
def Env.peekResponse (env : Env N A D) : Except Fault (ResponseMsg N A D) :=
  match env.inMsg with
  | .response msg => .ok msg
  | _ => .error (.assertion "responseQueue_in.isReady")

/-- Peek at the memory replies. -/
def Env.peekMemory (env : Env N A D) : Except Fault (MemoryMsg N A D) :=
  match env.inMsg with
  | .memory msg => .ok msg
  | _ => .error (.assertion "memQueue_in.isReady")

/-- Change the directory entry. -/
def Ctx.updateEntry (ctx : Ctx N A D) (f : Entry N D → Entry N D) : Ctx N A D :=
  { ctx with line := { ctx.line with entry := f ctx.line.entry } }

/-- Put a forwarded request on the forward network, one packet for each destination. -/
def enqueueForward (type : CoherenceRequestType) (requestor : N) (destination : NetDest N)
    (dataBlk : D) (env : Env N A D) (ctx : Ctx N A D) : Ctx N A D :=
  { ctx with
    forwardFromDir := ctx.forwardFromDir ++ destination.elems.map fun dst =>
      ⟨env.machineID, dst, ⟨env.address, type, requestor, dataBlk⟩⟩ }

/-- Put a data response on the response network. -/
def enqueueData (destination : N) (dataBlk : D) (ackCount : Int) (env : Env N A D)
    (ctx : Ctx N A D) : Ctx N A D :=
  { ctx with
    responseFromDir := ctx.responseFromDir ++
      [⟨env.machineID, destination,
        ⟨env.address, .DATA_FROM_DIR, env.machineID, dataBlk, ackCount⟩⟩] }

/-- Queue an off-chip memory request. -/
def enqueueMemory (type : MemoryRequestType) (originalRequestor : N) (dataBlk : D)
    (env : Env N A D) (ctx : Ctx N A D) : Ctx N A D :=
  { ctx with memBuffer := ctx.memBuffer ++ [⟨env.address, type, originalRequestor, dataBlk⟩] }

/-- Dequeue an in-port. -/
def dequeue (port : InPort) (ctx : Ctx N A D) : Ctx N A D :=
  { ctx with dequeued := ctx.dequeued ++ [port] }

section Actions

variable [DecidableEq N] [Inhabited D]

/-- Remove Request sharer from list. -/
def kk_removeRequestSharer : Action N A D := fun env ctx => do
  let msg ← env.peekRequest
  .ok (ctx.updateEntry fun entry => { entry with sharers := entry.sharers.remove msg.requestor })

/-- Add Requestor to sharers list; got incoming request. -/
def ars2_addRequestorToSharers : Action N A D := fun env ctx => do
  let msg ← env.peekRequest
  .ok (ctx.updateEntry fun entry => { entry with sharers := entry.sharers.add msg.requestor })

/-- Add Owner to sharers list. -/
def aos_addOwnertoSharers : Action N A D := fun env ctx => do
  let _ ← env.peekRequest
  .ok (ctx.updateEntry fun entry => { entry with sharers := entry.sharers.addNetDest entry.owner })

/-- Send writeback ack to requestor; triggered from incoming request. -/
def a_sendWriteBackAck : Action N A D := fun env ctx => do
  let msg ← env.peekRequest
  .ok (enqueueForward .WB_ACK env.machineID (NetDest.empty.add msg.requestor) default env ctx)

/-- Send writeback ack to requestor; triggered after memory WB ack. -/
def la_sendWriteBackAck : Action N A D := fun env ctx => do
  let msg ← env.peekMemory
  .ok (enqueueForward .WB_ACK msg.originalRequestorMachId
    (NetDest.empty.add msg.originalRequestorMachId) default env ctx)

/-- Clear the owner field. -/
def c_clearOwner : Action N A D := fun _ ctx =>
  .ok (ctx.updateEntry fun entry => { entry with owner := entry.owner.clear })

/-- Clear the sharers field. -/
def cs_clearSharers : Action N A D := fun _ ctx =>
  .ok (ctx.updateEntry fun entry => { entry with sharers := entry.sharers.clear })

/-- Send data to requestor after retrieving data block from memory. -/
def d_sendData : Action N A D := fun env ctx => do
  let msg ← env.peekMemory
  .ok (enqueueData msg.originalRequestorMachId msg.dataBlk 0 env ctx)

/-- Send Shared data to requestor with 0 Ack Count. -/
def ds_sendSharedData : Action N A D := fun env ctx => do
  let msg ← env.peekRequest
  .ok (enqueueData msg.requestor ctx.line.entry.dataBlk 0 env ctx)

/-- The requestor is not invalidated when it is itself a sharer. -/
def ds2_sendSharedData : Action N A D := fun env ctx => do
  let msg ← env.peekRequest
  let sharers := ctx.line.entry.sharers
  let ackCount : Int := if sharers.isElement msg.requestor then 1 - sharers.count
    else 0 - sharers.count
  .ok (enqueueData msg.requestor ctx.line.entry.dataBlk ackCount env ctx)

/-- The owner is now the requestor. -/
def e_ownerIsRequestor : Action N A D := fun env ctx => do
  let msg ← env.peekRequest
  .ok (ctx.updateEntry fun entry => { entry with owner := entry.owner.clear.add msg.requestor })

/-- Forward request to owner. -/
def f_forwardRequest : Action N A D := fun env ctx => do
  let msg ← env.peekRequest
  .ok (enqueueForward msg.type msg.requestor ctx.line.entry.owner default env ctx)

/-- Pop incoming request queue. -/
def i_popIncomingRequestQueue : Action N A D := fun _ ctx => .ok (dequeue .requestToDir ctx)

/-- Pop incoming response queue. -/
def pr_popIncomingResponseQueue : Action N A D := fun _ ctx => .ok (dequeue .responseToDir ctx)

/-- Write PUTM data to directory. -/
def pl_writeDataToDirectory : Action N A D := fun env ctx => do
  let msg ← env.peekRequest
  .ok (ctx.updateEntry fun entry => { entry with dataBlk := msg.dataBlk })

/-- Write data to directory. -/
def pl2_writeDataToDirectory : Action N A D := fun env ctx => do
  let msg ← env.peekResponse
  .ok (ctx.updateEntry fun entry => { entry with dataBlk := msg.dataBlk })

/-- `TBETable::allocate` asserts that the address has no TBE. -/
def vv_allocateTBEFromRequestNet : Action N A D := fun env ctx => do
  let msg ← env.peekRequest
  assertThat "TBETable.allocate" (ctx.line.tbe.isNone = true)
  .ok { ctx with line := { ctx.line with tbe := some { dataBlk := msg.dataBlk } } }

/-- `TBETable::deallocate` asserts that the address has a TBE. -/
def w_deallocateTBE : Action N A D := fun _ ctx => do
  assertThat "TBETable.deallocate" (ctx.line.tbe.isSome = true)
  .ok { ctx with line := { ctx.line with tbe := none } }

/-- Queue off-chip fetch request. -/
def qf_queueMemoryFetchRequest : Action N A D := fun env ctx => do
  let msg ← env.peekRequest
  .ok (enqueueMemory .MEMORY_READ msg.requestor ctx.line.entry.dataBlk env ctx)

/-- Write PUTM data to memory from requestQueue. -/
def lq_queueMemoryWBRequest : Action N A D := fun env ctx => do
  let msg ← env.peekRequest
  .ok (enqueueMemory .MEMORY_WB msg.requestor msg.dataBlk env ctx)

/-- Write data to memory from responseQueue. -/
def lq2_queueMemoryWBRequest : Action N A D := fun env ctx => do
  let msg ← env.peekResponse
  .ok (enqueueMemory .MEMORY_WB msg.sender msg.dataBlk env ctx)

/-- Pop off-chip request queue. -/
def qm_popMemQueue : Action N A D := fun _ ctx => .ok (dequeue .memBuffer ctx)

/-- Invalidate sharers for request. -/
def fwm_sendFwdInvToSharersMinusRequestor : Action N A D := fun env ctx => do
  let msg ← env.peekRequest
  let sharers := ctx.line.entry.sharers
  let destination := if sharers.isElement msg.requestor then sharers.remove msg.requestor
    else sharers
  .ok (enqueueForward .INV msg.requestor destination default env ctx)

/-! ## Transitions -/

/-- A declared transition: a stall, or actions and the next state. -/
inductive Transition (N A D : Type) where
  | z_stall
  | run (next : State) (actions : List (Action N A D))

/-- The transitions of the machine. -/
def transition : State → Event → Option (Transition N A D)
  | .I, .GETS => some (.run .IS_M
      [vv_allocateTBEFromRequestNet, ars2_addRequestorToSharers, qf_queueMemoryFetchRequest,
        i_popIncomingRequestQueue])
  | .I, .GETM => some (.run .IM_M
      [vv_allocateTBEFromRequestNet, qf_queueMemoryFetchRequest, e_ownerIsRequestor,
        i_popIncomingRequestQueue])
  | .I, .PUTS_Last => some (.run .I [a_sendWriteBackAck, i_popIncomingRequestQueue])
  | .IS_M, .Memory_Data => some (.run .S [w_deallocateTBE, d_sendData, qm_popMemQueue])
  | .IM_M, .Memory_Data => some (.run .M [w_deallocateTBE, d_sendData, qm_popMemQueue])
  | .S, .GETS => some (.run .S
      [ars2_addRequestorToSharers, ds_sendSharedData, i_popIncomingRequestQueue])
  | .S, .GETM => some (.run .M
      [ds2_sendSharedData, fwm_sendFwdInvToSharersMinusRequestor, cs_clearSharers,
        e_ownerIsRequestor, i_popIncomingRequestQueue])
  | .S, .PUTS_NotLast => some (.run .S
      [kk_removeRequestSharer, a_sendWriteBackAck, i_popIncomingRequestQueue])
  | .MS_D, .PUTS_NotLast => some (.run .MS_D
      [kk_removeRequestSharer, a_sendWriteBackAck, i_popIncomingRequestQueue])
  | .MS_M, .PUTS_NotLast => some (.run .MS_M
      [kk_removeRequestSharer, a_sendWriteBackAck, i_popIncomingRequestQueue])
  | .S, .PUTS_Last => some (.run .I
      [kk_removeRequestSharer, a_sendWriteBackAck, i_popIncomingRequestQueue])
  | .S, .PUTM_NotOwner => some (.run .S
      [kk_removeRequestSharer, a_sendWriteBackAck, i_popIncomingRequestQueue])
  | .S, .Data => some (.run .S [pr_popIncomingResponseQueue])
  | .M, .GETS => some (.run .MS_D
      [f_forwardRequest, ars2_addRequestorToSharers, aos_addOwnertoSharers, c_clearOwner,
        vv_allocateTBEFromRequestNet, i_popIncomingRequestQueue])
  | .M, .GETM => some (.run .M
      [f_forwardRequest, e_ownerIsRequestor, i_popIncomingRequestQueue])
  | .M, .PUTS_NotLast | .M, .PUTS_Last => some (.run .M
      [a_sendWriteBackAck, i_popIncomingRequestQueue])
  | .MI_M, .PUTS_NotLast | .MI_M, .PUTS_Last => some (.run .MI_M
      [a_sendWriteBackAck, i_popIncomingRequestQueue])
  | .M, .PUTM_Owner => some (.run .MI_M
      [pl_writeDataToDirectory, lq_queueMemoryWBRequest, c_clearOwner,
        vv_allocateTBEFromRequestNet, i_popIncomingRequestQueue])
  | .M, .PUTM_NotOwner => some (.run .M
      [pl_writeDataToDirectory, a_sendWriteBackAck, i_popIncomingRequestQueue])
  | .MI_M, .PUTM_NotOwner => some (.run .MI_M
      [pl_writeDataToDirectory, a_sendWriteBackAck, i_popIncomingRequestQueue])
  | .M, .Data => some (.run .M [pr_popIncomingResponseQueue])
  -- these two leave the message at the head of the request queue
  | .MS_D, .PUTS_Last => some (.run .MS_D [kk_removeRequestSharer, a_sendWriteBackAck])
  | .MS_M, .PUTS_Last => some (.run .MS_M [kk_removeRequestSharer, a_sendWriteBackAck])
  | .MS_D, .PUTM_NotOwner => some (.run .MS_M
      [pl_writeDataToDirectory, lq_queueMemoryWBRequest, a_sendWriteBackAck,
        i_popIncomingRequestQueue])
  | .MS_D, .Data => some (.run .MS_M
      [lq2_queueMemoryWBRequest, pl2_writeDataToDirectory, pr_popIncomingResponseQueue])
  | .MS_M, .PUTM_NotOwner => some (.run .MS_M [i_popIncomingRequestQueue])
  | .MS_M, .Data => some (.run .MS_M [pl2_writeDataToDirectory, pr_popIncomingResponseQueue])
  | .MS_M, .Memory_Ack => some (.run .S [w_deallocateTBE, qm_popMemQueue])
  | .MI_M, .Memory_Ack => some (.run .I [la_sendWriteBackAck, w_deallocateTBE, qm_popMemQueue])
  -- the stalls
  | .IS_M, .GETM | .IM_M, .GETM | .MS_D, .GETM | .MS_M, .GETM | .MI_M, .GETM => some .z_stall
  | .IS_M, .GETS | .IM_M, .GETS | .MS_D, .GETS | .MS_M, .GETS | .MI_M, .GETS => some .z_stall
  | _, _ => none

/-- Run the actions of a transition in order. -/
def runActions (env : Env N A D) : List (Action N A D) → Ctx N A D → Except Fault (Ctx N A D)
  | [], ctx => .ok ctx
  | action :: actions, ctx => do
      let ctx ← action env ctx
      runActions env actions ctx

/-- The generated controller: look the transition up, run its actions, set the next state. -/
def doTransition (env : Env N A D) (line : Line N D) (event : Event) : Outcome (Ctx N A D) :=
  match (transition (getState line) event : Option (Transition N A D)) with
  | none => .fault .invalidTransition
  | some .z_stall => .stall
  | some (.run next actions) => .ofExcept do
      let ctx ← runActions env actions { line := line }
      let line ← setState env.useMap ctx.line next
      .ok { ctx with line := line }

/-- Trigger the event that an in-port computed, unless computing it failed. -/
def trigger (env : Env N A D) (line : Line N D) (event : Except Fault Event) :
    Outcome (Ctx N A D) :=
  match event with
  | .ok event => doTransition env line event
  | .error fault => .fault fault

end Actions

/-! ## Triggered events -/

/-- What decides the transition that a triggered event takes: the state and the sharers of the
line, the event, and the machine whose message triggers it. -/
structure Trigger (N : Type) where
  state : State
  sharers : NetDest N
  event : Event
  requestor : N

namespace Trigger

/-- A PUTS of the last sharer that arrives while a downgrade is answered or written back: it is
acknowledged and stays at the head of the queue. -/
@[grind =] def repeatsPut (t : Trigger N) : Bool :=
  decide ((t.state = .MS_D ∨ t.state = .MS_M) ∧ t.event = .PUTS_Last)

/-- A PUTM that arrives while a downgraded line is written back: it is taken without an answer. -/
@[grind =] def dropsPut (t : Trigger N) : Bool :=
  decide (t.state = .MS_M ∧ t.event = .PUTM_NotOwner)

/-- A PUTM in MS_D: it is taken for the data of the downgrade, which is still outstanding. -/
@[grind =] def skipsDowngrade (t : Trigger N) : Bool :=
  decide (t.state = .MS_D ∧ t.event = .PUTM_NotOwner)

/-- A PUTM of an earlier owner that arrives while a newer writeback is in progress: its data
replaces the newer one. -/
@[grind =] def overwritesWriteback (t : Trigger N) : Bool :=
  decide (t.state = .MI_M ∧ t.event = .PUTM_NotOwner)

/-- The directory leaves the state I while `puts` writebacks are on their way to it, or enters it
while `putms` writebacks of a modified line are. -/
@[grind =] def strandsPut (t : Trigger N) (puts putms : Nat) : Bool :=
  decide ((t.state = .I ∧ (t.event = .GETS ∨ t.event = .GETM) ∧ 0 < puts) ∨
    (((t.state = .S ∧ t.event = .PUTS_Last) ∨ (t.state = .MI_M ∧ t.event = .Memory_Ack)) ∧
      0 < putms))

variable [DecidableEq N]

/-- The only sharer gives the line up, and the directory stays in the state S or goes on to it. -/
@[grind =] def emptiesSharers (t : Trigger N) : Bool :=
  decide (((t.state = .S ∧ t.event = .PUTM_NotOwner) ∨
    ((t.state = .MS_D ∨ t.state = .MS_M) ∧ t.event = .PUTS_Last)) ∧
      (t.sharers.remove t.requestor).count = 0)

/-- The PUTM of a downgraded owner is taken without its removal from the sharers. -/
@[grind =] def forgetsSharer (t : Trigger N) : Bool :=
  decide (t.state = .MS_M ∧ t.event = .PUTM_NotOwner ∧ t.requestor ∈ t.sharers)

/-- A PUTS that the number of sharers calls the last one comes from elsewhere than the sharer. -/
@[grind =] def notTheSharer (t : Trigger N) : Bool :=
  decide (t.state = .S ∧ t.event = .PUTS_Last ∧ (t.sharers.remove t.requestor).count ≠ 0)

end Trigger

end Ece552.Msi.Directory
