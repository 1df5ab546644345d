import Ece552.Msi.Messages
import Mathlib.Data.List.AList

/-!
# The L1 cache machine

The states, events, actions and transitions of `MSI-cache.sm`. A `Line` is what the machine
keeps for one address: the cache entry and the TBE, each when allocated. The pointers
`cache_entry` and `tbe` of an action always equal these lookups, since every action that
allocates or deallocates also sets or unsets the pointer. `doTransition` is the generated
controller: it looks the transition up, runs its actions in order and calls `setState` last.
The sequencer's write request is the function `Env.write`, which `writeCallback` applies to the
data block in place.
-/

namespace Ece552.Msi.L1Cache

open Library

/-- The cache states. -/
inductive State where
  | I | S | M | IS_D | IM_AD | IM_A | SM_AD | SM_A | MI_A | SI_A | II_A
  deriving DecidableEq, Repr

/-- The cache events. -/
inductive Event where
  | Load | Ifetch | Store | Replacement
  | Fwd_GetS | Fwd_GetM | Inv | WB_Ack
  | Inv_Ack | Inv_Ack_all
  | Data_from_Dir_No_Acks | Data_from_Dir_Ack_Cnt | Data_from_Dir_Ack_Cnt_Last | Data_from_Owner
  deriving DecidableEq, Repr

/-- The access permissions that the states map to. -/
inductive AccessPermission where
  | Read_Only | Read_Write | Invalid | NotPresent | Busy
  deriving DecidableEq, Repr

/-- `L1Cache_State_to_permission`. -/
def State.toPermission : State → AccessPermission
  | .I => .Invalid
  | .S => .Read_Only
  | .M => .Read_Write
  | _ => .Busy

/-- The states of an L1 that waits for a message. -/
def State.isTransient : State → Bool
  | .I | .S | .M => false
  | .IS_D | .IM_AD | .IM_A | .SM_AD | .SM_A | .MI_A | .SI_A | .II_A => true

/-- A cache entry. -/
structure Entry (D : Type) where
  cacheState : State := .I
  dataBlk : D
  deriving DecidableEq

/-- A transient block entry. -/
structure TBE (D : Type) where
  tbeState : State := .I
  dataBlk : D
  pendingAcks : Int := 0
  deriving DecidableEq

/-- What the machine keeps for one address. -/
structure Line (D : Type) where
  cacheEntry : Option (Entry D)
  tbe : Option (TBE D)
  deriving DecidableEq

variable {N A D : Type}

/-- The TBE is asked first, then the cache. -/
def getState (line : Line D) : State :=
  match line.tbe, line.cacheEntry with
  | some tbe, _ => tbe.tbeState
  | none, some entry => entry.cacheState
  | none, none => .I

/-- The state is written to whichever of the two is allocated. -/
def setState (line : Line D) (state : State) : Line D where
  cacheEntry := line.cacheEntry.map fun entry => { entry with cacheState := state }
  tbe := line.tbe.map fun tbe => { tbe with tbeState := state }

/-- `getAccessPermission`, in the same order as `getState`. -/
def getAccessPermission (line : Line D) : AccessPermission :=
  match line.tbe, line.cacheEntry with
  | some tbe, _ => tbe.tbeState.toPermission
  | none, some entry => entry.cacheState.toPermission
  | none, none => .NotPresent

/-- Reads a field of the TBE, which has to be valid. -/
def getPendingAcks (tbe : Option (TBE D)) : Except Fault Int :=
  match tbe with
  | some tbe => .ok tbe.pendingAcks
  | none => .error .nullPointer

/-! ## In-ports -/

/-- The buffers that the machine dequeues. -/
inductive InPort where
  | mandatoryQueue | forwardToCache | responseToCache
  deriving DecidableEq, Repr

/-- The message that an in-port peeks at. -/
inductive InMsg (N A D : Type) where
  | mandatory (msg : RubyRequest A)
  | forward (msg : RequestMsg N A D)
  | response (msg : ResponseMsg N A D)

/-- `mandatory_request_type_to_event`. -/
def mandatory_request_type_to_event : RubyRequestType → Event
  | .LD => .Load
  | .IFETCH => .Ifetch
  | .ST | .ATOMIC => .Store

/-- The event that `forwardRequestNetwork_in` triggers. -/
def forwardRequestNetwork_in (msg : RequestMsg N A D) : Except Fault Event :=
  match msg.type with
  | .GETM => .ok .Fwd_GetM
  | .GETS => .ok .Fwd_GetS
  | .INV => .ok .Inv
  | .WB_ACK => .ok .WB_Ack
  | _ => .error (.error "MSI_example L1 - Unexpected message in forwardToCache buffer")

/-- The event that `responseNetwork_in` triggers. -/
def responseNetwork_in (tbe : Option (TBE D)) (msg : ResponseMsg N A D) : Except Fault Event :=
  match msg.type with
  | .DATA_FROM_DIR =>
      if msg.ackCount = 0 then .ok .Data_from_Dir_No_Acks
      else do
        let pendingAcks ← getPendingAcks tbe
        if pendingAcks - msg.ackCount = 0 then .ok .Data_from_Dir_Ack_Cnt_Last
        else .ok .Data_from_Dir_Ack_Cnt
  | .DATA_FROM_OWNER => .ok .Data_from_Owner
  | .ACK => do
      let pendingAcks ← getPendingAcks tbe
      if pendingAcks - msg.ackCount = 0 then .ok .Inv_Ack_all else .ok .Inv_Ack
  | _ => .error (.error "MSI_example L1 - Unexpected message in reponseToCache buffer")

/-! ## Actions -/

/-- What the sequencer is told. -/
inductive Callback (D : Type) where
  | readCallback (data : D)
  | writeCallback (data : D)
  | evictionCallback
  deriving DecidableEq

/-- The value that a line was last written, if the sequencer is told of a store at all. -/
def lastWritten (value : D) (callbacks : List (Callback D)) : D :=
  callbacks.foldl (fun value callback =>
    match callback with
    | .writeCallback data => data
    | .readCallback _ | .evictionCallback => value) value

/-- What an action reads: the machine, the address and its directory, whether the set of the
address has room, the peeked message, and the write request of the sequencer. -/
structure Env (N A D : Type) where
  machineID : N
  address : A
  directory : N
  cacheAvail : Bool
  sendEvictions : Bool
  inMsg : InMsg N A D
  write : D → D

/-- What an action changes: the line, the messages put on the two networks, the buffers
dequeued and the sequencer callbacks. -/
structure Ctx (N A D : Type) where
  line : Line D
  requestFromCache : List (Packet N (RequestMsg N A D)) := []
  responseFromCache : List (Packet N (ResponseMsg N A D)) := []
  dequeued : List InPort := []
  callbacks : List (Callback D) := []

/-- An action of the machine. -/
abbrev Action (N A D : Type) := Env N A D → Ctx N A D → Except Fault (Ctx N A D)

/-- Peek at the mandatory queue. -/
def Env.peekMandatory (env : Env N A D) : Except Fault (RubyRequest A) :=
  match env.inMsg with
  | .mandatory msg => .ok msg
  | _ => .error (.assertion "mandatoryQueue_in.isReady")

/-- Peek at the forwarded requests. -/
def Env.peekForward (env : Env N A D) : Except Fault (RequestMsg N A D) :=
  match env.inMsg with
  | .forward msg => .ok msg
  | _ => .error (.assertion "forwardRequestNetwork_in.isReady")

/-- Peek at the responses. -/
def Env.peekResponse (env : Env N A D) : Except Fault (ResponseMsg N A D) :=
  match env.inMsg with
  | .response msg => .ok msg
  | _ => .error (.assertion "responseNetwork_in.isReady")

/-- A valid cache entry, or the failed assertion of the named action. -/
def Ctx.validEntry (ctx : Ctx N A D) (action : String) : Except Fault (Entry D) :=
  match ctx.line.cacheEntry with
  | some entry => .ok entry
  | none => .error (.assertion action)

/-- A valid TBE, or the failed assertion of the named action. -/
def Ctx.validTBE (ctx : Ctx N A D) (action : String) : Except Fault (TBE D) :=
  match ctx.line.tbe with
  | some tbe => .ok tbe
  | none => .error (.assertion action)

/-- Put a request to the directory on the request network. -/
def enqueueRequest (type : CoherenceRequestType) (dataBlk : D) (env : Env N A D)
    (ctx : Ctx N A D) : Ctx N A D :=
  { ctx with
    requestFromCache := ctx.requestFromCache ++
      [⟨env.machineID, env.directory, ⟨env.address, type, env.machineID, dataBlk⟩⟩] }

/-- Put a response on the response network. -/
def enqueueResponse (type : CoherenceResponseType) (destination : N) (dataBlk : D)
    (ackCount : Int) (env : Env N A D) (ctx : Ctx N A D) : Ctx N A D :=
  { ctx with
    responseFromCache := ctx.responseFromCache ++
      [⟨env.machineID, destination, ⟨env.address, type, env.machineID, dataBlk, ackCount⟩⟩] }

/-- Dequeue an in-port. -/
def dequeue (port : InPort) (ctx : Ctx N A D) : Ctx N A D :=
  { ctx with dequeued := ctx.dequeued ++ [port] }

section Actions

variable [Inhabited D]

/-- Issue a request for read-only access. -/
def as_issueGetS : Action N A D := fun env ctx => .ok (enqueueRequest .GETS default env ctx)

/-- Issue a request for read-write access. -/
def am_issueGetM : Action N A D := fun env ctx => .ok (enqueueRequest .GETM default env ctx)

/-- Issue a PUTS request. -/
def bs_issuePUTS : Action N A D := fun env ctx => do
  let entry ← ctx.validEntry "bs_issuePUTS"
  .ok (enqueueRequest .PUTS entry.dataBlk env ctx)

/-- Issue a PUTM request. -/
def bm_issuePUTM : Action N A D := fun env ctx => do
  let entry ← ctx.validEntry "bm_issuePUTM"
  .ok (enqueueRequest .PUTM entry.dataBlk env ctx)

/-- Send data from cache to requestor. -/
def e_sendDataFromCacheToRequestor : Action N A D := fun env ctx => do
  let msg ← env.peekForward
  let entry ← ctx.validEntry "e_sendDataFromCacheToRequestor"
  .ok (enqueueResponse .DATA_FROM_OWNER msg.requestor entry.dataBlk 0 env ctx)

/-- Send data from TBE to requestor. -/
def ee_sendDataFromTBEToRequestor : Action N A D := fun env ctx => do
  let msg ← env.peekForward
  let tbe ← ctx.validTBE "ee_sendDataFromTBEToRequestor"
  .ok (enqueueResponse .DATA_FROM_OWNER msg.requestor tbe.dataBlk 0 env ctx)

/-- Send data from cache to directory. -/
def de_sendDataFromCacheToDir : Action N A D := fun env ctx => do
  let entry ← ctx.validEntry "de_sendDataFromCacheToDir"
  .ok (enqueueResponse .DATA env.directory entry.dataBlk 0 env ctx)

/-- Send data from TBE to directory. -/
def dee_sendDataFromTBEToDir : Action N A D := fun env ctx => do
  let tbe ← ctx.validTBE "dee_sendDataFromTBEToDir"
  .ok (enqueueResponse .DATA env.directory tbe.dataBlk 0 env ctx)

/-- Send Invalidation Acknowledgement to Requestor. -/
def fi_sendInvAck : Action N A D := fun env ctx => do
  let msg ← env.peekForward
  .ok (enqueueResponse .ACK msg.requestor default 1 env ctx)

/-- `cacheMemory.allocate` asserts that the set has room. -/
def i_allocateL1CacheBlock : Action N A D := fun env ctx =>
  match ctx.line.cacheEntry with
  | some _ =>
      if getAccessPermission ctx.line = .Invalid then .ok ctx
      else .error (.error
        "Should not get an allocate request for a block that has not Invalid permissions")
  | none => do
      assertThat "CacheMemory.allocate" (env.cacheAvail = true)
      .ok { ctx with line := { ctx.line with cacheEntry := some { dataBlk := default } } }

/-- Deallocate a cache block. -/
def h_deallocateL1CacheBlock : Action N A D := fun _ ctx =>
  .ok { ctx with line := { ctx.line with cacheEntry := none } }

/-- Pop the mandatory request queue. -/
def m_popMandatoryQueue : Action N A D := fun _ ctx => .ok (dequeue .mandatoryQueue ctx)

/-- Pop the response queue. -/
def n_popResponseQueue : Action N A D := fun _ ctx => .ok (dequeue .responseToCache ctx)

/-- Pop the forwarded request queue. -/
def o_popForwardedRequestQueue : Action N A D := fun _ ctx => .ok (dequeue .forwardToCache ctx)

/-- Profiling only peeks at the mandatory queue. -/
def p_profileMiss : Action N A D := fun env ctx => do
  let _ ← env.peekMandatory
  .ok ctx

/-- Notify sequencer the load completed. -/
def r_load_hit : Action N A D := fun _ ctx => do
  let entry ← ctx.validEntry "r_load_hit"
  .ok { ctx with callbacks := ctx.callbacks ++ [.readCallback entry.dataBlk] }

/-- External load completed. -/
def rx_load_hit : Action N A D := fun env ctx => do
  let _ ← env.peekResponse
  let entry ← ctx.validEntry "rx_load_hit"
  .ok { ctx with callbacks := ctx.callbacks ++ [.readCallback entry.dataBlk] }

/-- `writeCallback` stores the bytes of the write request in the data block it is given. -/
def writeCallback (entry : Entry D) (env : Env N A D) (ctx : Ctx N A D) : Ctx N A D :=
  { ctx with
    line := { ctx.line with cacheEntry := some { entry with dataBlk := env.write entry.dataBlk } }
    callbacks := ctx.callbacks ++ [.writeCallback (env.write entry.dataBlk)] }

/-- Notify sequencer that store completed. -/
def s_store_hit : Action N A D := fun env ctx => do
  let entry ← ctx.validEntry "s_store_hit"
  .ok (writeCallback entry env ctx)

/-- External store completed. -/
def sx_store_hit : Action N A D := fun env ctx => do
  let _ ← env.peekResponse
  let entry ← ctx.validEntry "sx_store_hit"
  .ok (writeCallback entry env ctx)

/-- Write data to the cache. -/
def u_writeDataToCache : Action N A D := fun env ctx => do
  let msg ← env.peekResponse
  let entry ← ctx.validEntry "u_writeDataToCache"
  .ok { ctx with
    line := { ctx.line with cacheEntry := some { entry with dataBlk := msg.dataBlk } } }

/-- Update ack count. -/
def q_updateAckCount : Action N A D := fun env ctx => do
  let msg ← env.peekResponse
  let tbe ← ctx.validTBE "q_updateAckCount"
  .ok { ctx with
    line := { ctx.line with
      tbe := some { tbe with pendingAcks := tbe.pendingAcks - msg.ackCount } } }

/-- Sends eviction information to the processor. -/
def forward_eviction_to_cpu : Action N A D := fun env ctx =>
  if env.sendEvictions then .ok { ctx with callbacks := ctx.callbacks ++ [.evictionCallback] }
  else .ok ctx

/-- `TBETable::allocate` asserts that the address has no TBE. -/
def v_allocateTBE : Action N A D := fun _ ctx => do
  assertThat "TBETable.allocate" (ctx.line.tbe.isNone = true)
  .ok { ctx with line := { ctx.line with tbe := some { dataBlk := default } } }

/-- `TBETable::deallocate` asserts that the address has a TBE. -/
def w_deallocateTBE : Action N A D := fun _ ctx => do
  assertThat "TBETable.deallocate" (ctx.line.tbe.isSome = true)
  .ok { ctx with line := { ctx.line with tbe := none } }

/-- Copy data from cache to TBE. -/
def x_copyDataFromCacheToTBE : Action N A D := fun _ ctx => do
  let entry ← ctx.validEntry "x_copyDataFromCacheToTBE"
  let tbe ← ctx.validTBE "x_copyDataFromCacheToTBE"
  .ok { ctx with line := { ctx.line with tbe := some { tbe with dataBlk := entry.dataBlk } } }

/-! ## Transitions -/

/-- A declared transition: a stall, or actions and the next state. -/
inductive Transition (N A D : Type) where
  | z_stall
  | run (next : State) (actions : List (Action N A D))

/-- The transitions of the machine. -/
def transition : State → Event → Option (Transition N A D)
  | .I, .Load | .I, .Ifetch => some (.run .IS_D
      [i_allocateL1CacheBlock, as_issueGetS, p_profileMiss, v_allocateTBE, m_popMandatoryQueue])
  | .I, .Store => some (.run .IM_AD
      [i_allocateL1CacheBlock, am_issueGetM, p_profileMiss, v_allocateTBE, m_popMandatoryQueue])
  | .I, .Inv => some (.run .I [fi_sendInvAck, o_popForwardedRequestQueue])
  | .I, .WB_Ack => some (.run .I [o_popForwardedRequestQueue])
  | .IS_D, .Data_from_Dir_No_Acks | .IS_D, .Data_from_Owner => some (.run .S
      [u_writeDataToCache, rx_load_hit, w_deallocateTBE, n_popResponseQueue])
  | .IM_AD, .Data_from_Dir_No_Acks | .IM_AD, .Data_from_Owner
  | .SM_AD, .Data_from_Dir_No_Acks | .SM_AD, .Data_from_Owner => some (.run .M
      [u_writeDataToCache, sx_store_hit, w_deallocateTBE, n_popResponseQueue])
  | .IM_AD, .Data_from_Dir_Ack_Cnt => some (.run .IM_A
      [u_writeDataToCache, q_updateAckCount, n_popResponseQueue])
  | .IM_AD, .Data_from_Dir_Ack_Cnt_Last => some (.run .M
      [u_writeDataToCache, q_updateAckCount, w_deallocateTBE, sx_store_hit, n_popResponseQueue])
  | .IM_AD, .Inv_Ack => some (.run .IM_AD [q_updateAckCount, n_popResponseQueue])
  | .IM_A, .Inv_Ack => some (.run .IM_A [q_updateAckCount, n_popResponseQueue])
  | .SM_AD, .Inv_Ack => some (.run .SM_AD [q_updateAckCount, n_popResponseQueue])
  | .SM_A, .Inv_Ack => some (.run .SM_A [q_updateAckCount, n_popResponseQueue])
  | .IM_A, .Inv_Ack_all | .SM_A, .Inv_Ack_all => some (.run .M
      [q_updateAckCount, w_deallocateTBE, sx_store_hit, n_popResponseQueue])
  | .S, .Load | .S, .Ifetch => some (.run .S [r_load_hit, m_popMandatoryQueue])
  | .SM_AD, .Load | .SM_AD, .Ifetch => some (.run .SM_AD [r_load_hit, m_popMandatoryQueue])
  | .SM_A, .Load | .SM_A, .Ifetch => some (.run .SM_A [r_load_hit, m_popMandatoryQueue])
  | .M, .Load | .M, .Ifetch => some (.run .M [r_load_hit, m_popMandatoryQueue])
  | .S, .Store => some (.run .SM_AD
      [am_issueGetM, p_profileMiss, v_allocateTBE, x_copyDataFromCacheToTBE, m_popMandatoryQueue])
  | .S, .Replacement => some (.run .SI_A [bs_issuePUTS, v_allocateTBE, x_copyDataFromCacheToTBE])
  | .S, .Inv => some (.run .I
      [fi_sendInvAck, h_deallocateL1CacheBlock, forward_eviction_to_cpu,
        o_popForwardedRequestQueue])
  | .SM_AD, .Inv => some (.run .IM_AD [fi_sendInvAck, o_popForwardedRequestQueue])
  | .SM_AD, .Data_from_Dir_Ack_Cnt => some (.run .SM_A
      [u_writeDataToCache, q_updateAckCount, n_popResponseQueue])
  | .SM_AD, .Data_from_Dir_Ack_Cnt_Last => some (.run .M
      [u_writeDataToCache, q_updateAckCount, w_deallocateTBE, sx_store_hit, n_popResponseQueue])
  | .M, .Store => some (.run .M [s_store_hit, m_popMandatoryQueue])
  | .M, .Replacement => some (.run .MI_A [bm_issuePUTM, v_allocateTBE, x_copyDataFromCacheToTBE])
  | .M, .Fwd_GetS => some (.run .S
      [e_sendDataFromCacheToRequestor, de_sendDataFromCacheToDir, o_popForwardedRequestQueue])
  | .M, .Fwd_GetM => some (.run .I
      [forward_eviction_to_cpu, e_sendDataFromCacheToRequestor, h_deallocateL1CacheBlock,
        o_popForwardedRequestQueue])
  | .MI_A, .Fwd_GetS => some (.run .SI_A
      [ee_sendDataFromTBEToRequestor, dee_sendDataFromTBEToDir, o_popForwardedRequestQueue])
  | .MI_A, .Fwd_GetM => some (.run .II_A
      [ee_sendDataFromTBEToRequestor, o_popForwardedRequestQueue])
  | .MI_A, .WB_Ack | .SI_A, .WB_Ack | .II_A, .WB_Ack => some (.run .I
      [forward_eviction_to_cpu, w_deallocateTBE, h_deallocateL1CacheBlock,
        o_popForwardedRequestQueue])
  | .SI_A, .Inv => some (.run .II_A [fi_sendInvAck, o_popForwardedRequestQueue])
  -- the stalls
  | .IS_D, .Load | .IM_AD, .Load | .IM_A, .Load | .MI_A, .Load | .SI_A, .Load | .II_A, .Load
  | .IS_D, .Ifetch | .IM_AD, .Ifetch | .IM_A, .Ifetch | .MI_A, .Ifetch | .SI_A, .Ifetch
  | .II_A, .Ifetch => some .z_stall
  | .IS_D, .Store | .IM_AD, .Store | .IM_A, .Store | .SM_AD, .Store | .SM_A, .Store
  | .MI_A, .Store | .SI_A, .Store | .II_A, .Store => some .z_stall
  | .IS_D, .Replacement | .IM_AD, .Replacement | .IM_A, .Replacement | .SM_AD, .Replacement
  | .SM_A, .Replacement | .MI_A, .Replacement | .SI_A, .Replacement
  | .II_A, .Replacement => some .z_stall
  | .IM_AD, .Fwd_GetS | .IM_A, .Fwd_GetS | .SM_AD, .Fwd_GetS | .SM_A, .Fwd_GetS => some .z_stall
  | .IM_AD, .Fwd_GetM | .IM_A, .Fwd_GetM | .SM_AD, .Fwd_GetM | .SM_A, .Fwd_GetM => some .z_stall
  | .IS_D, .Inv => some .z_stall
  | _, _ => none

/-- Run the actions of a transition in order. -/
def runActions (env : Env N A D) : List (Action N A D) → Ctx N A D → Except Fault (Ctx N A D)
  | [], ctx => .ok ctx
  | action :: actions, ctx => do
      let ctx ← action env ctx
      runActions env actions ctx

/-- The generated controller: look the transition up, run its actions, set the next state. -/
def doTransition (env : Env N A D) (line : Line D) (event : Event) : Outcome (Ctx N A D) :=
  match (transition (getState line) event : Option (Transition N A D)) with
  | none => .fault .invalidTransition
  | some .z_stall => .stall
  | some (.run next actions) => .ofExcept do
      let ctx ← runActions env actions { line := line }
      .ok { ctx with line := setState ctx.line next }

/-- Trigger the event that an in-port computed, unless computing it failed. -/
def trigger (env : Env N A D) (line : Line D) (event : Except Fault Event) :
    Outcome (Ctx N A D) :=
  match event with
  | .ok event => doTransition env line event
  | .error fault => .fault fault

end Actions

/-! ## The machine -/

/-- The geometry of `cacheMemory` and whether evictions are reported to the processor. -/
structure Config (A : Type) where
  addressToCacheSet : A → Nat
  cacheAssoc : Nat
  sendEvictions : Bool

/-- The machine: the resident lines of `cacheMemory` and the TBE table. -/
structure Machine (A D : Type) where
  cacheMemory : AList fun _ : A => Entry D
  TBEs : A → Option (TBE D)

/-- An empty machine. -/
def Machine.initial : Machine A D := ⟨∅, fun _ => none⟩

variable [DecidableEq A]

/-- The line of an address. -/
def Machine.line (machine : Machine A D) (address : A) : Line D :=
  ⟨machine.cacheMemory.lookup address, machine.TBEs address⟩

/-- Write the line of an address back. -/
def Machine.setLine (machine : Machine A D) (address : A) (line : Line D) : Machine A D where
  cacheMemory := match line.cacheEntry with
    | some entry => machine.cacheMemory.insert address entry
    | none => machine.cacheMemory.erase address
  TBEs := Function.update machine.TBEs address line.tbe

/-- `CacheMemory::cacheAvail`: the address is resident or its set has an unused way. -/
def Machine.cacheAvail (config : Config A) (machine : Machine A D) (address : A) : Bool :=
  decide (address ∈ machine.cacheMemory) ||
    decide ((machine.cacheMemory.keys.filter fun other =>
      config.addressToCacheSet other = config.addressToCacheSet address).length <
        config.cacheAssoc)

/-- Whether `victim` is a line that `cacheProbe` may return for the address: the replacement
policy picks any resident line of the set. -/
def Machine.isVictim (config : Config A) (machine : Machine A D) (address victim : A) : Bool :=
  decide (victim ∈ machine.cacheMemory) &&
    decide (config.addressToCacheSet victim = config.addressToCacheSet address)

/-- The line that is set. -/
@[simp] theorem Machine.line_setLine_self (machine : Machine A D) (address : A) (line : Line D) :
    (machine.setLine address line).line address = line := by
  obtain ⟨entry, tbe⟩ := line
  cases entry <;> simp [Machine.line, Machine.setLine]

/-- The other lines stay as they are. -/
theorem Machine.line_setLine_ne (machine : Machine A D) {address other : A} (line : Line D)
    (h : other ≠ address) : (machine.setLine address line).line other = machine.line other := by
  obtain ⟨entry, tbe⟩ := line
  cases entry <;> simp [Machine.line, Machine.setLine, h]

end Ece552.Msi.L1Cache
