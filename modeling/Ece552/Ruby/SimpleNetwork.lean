import Ece552.Library.HopNetwork
import Ece552.Library.TransitionSystem
import Ece552.Ruby.MessageBuffer
import Mathlib.Data.List.Perm.Basic
import Mathlib.Logic.Function.Basic

/-!
# The simple network

The switches, the throttles and the buffers between them. A perfect switch moves messages from its
in-ports to the intermediate queues of its links and splits them on the way; the throttle of a link
moves them on at the bandwidth of the link. A step of the system is a wakeup that was scheduled for
now, a send or a receive of a controller, or the next cycle. A switch or router goes by its
identifier in the topology, and a link of a switch by the identifier at its other end.
-/

namespace Ece552.Ruby

open Library

/-- The buffers of a network, by what they connect, and their virtual network. -/
inductive Queue where
  /-- `m_toNetQueues[node][vnet]` -/
  | toNet (node : Nat) (vnet : Nat)
  /-- `m_fromNetQueues[node][vnet]` -/
  | fromNet (node : Nat) (vnet : Nat)
  /-- From the throttle of a switch to the next switch. -/
  | link (src dest : Nat) (vnet : Nat)
  /-- From a perfect switch to the throttle of one of its links. -/
  | intermediate (src dest : Nat) (vnet : Nat)
  deriving DecidableEq

/-- Who is woken up. -/
inductive Consumer where
  | perfectSwitch (switch : Nat)
  | throttle (switch dest : Nat)
  | controller (node : Nat)
  deriving DecidableEq

/-- The sizes of messages. -/
inductive MessageSizeType where
  | Undefined | Control | Data | Request_Control | Reissue_Control | Response_Data
  | ResponseL2hit_Data | ResponseLocal_Data | Response_Control | Writeback_Data | Writeback_Control
  | Broadcast_Control | Multicast_Control | Forwarded_Control | Invalidate_Control
  | Unblock_Control | Persistent_Control | Completion_Control
  deriving DecidableEq

/-- What the network knows of a message. -/
structure NetworkMessage (M : Type) where
  m_Destination : NetDest
  /-- `none` as long as `m_internal_dest_valid` is false. -/
  m_internal_dest : Option NetDest := none
  m_MessageSize : MessageSizeType
  body : M

/-- The nodes that a message is still for: all its destinations, or those of the copy. -/
def NetworkMessage.getInternalDestination {M : Type} (m : NetworkMessage M) : NetDest :=
  m.m_internal_dest.getD m.m_Destination

/-- The message with the destinations that one link is responsible for. -/
def setInternalDestination {M : Type} (m : Message (NetworkMessage M)) (dsts : NetDest) :
    Message (NetworkMessage M) :=
  { m with content := { m.content with m_internal_dest := some dsts } }

/-- A link, and how much waits behind it. -/
structure LinkOrder where
  m_link : MadeLink
  m_value : Int

/-- The network as it is configured and wired. -/
structure SimpleNetwork where
  m_nodes : Nat
  m_virtual_networks : Nat
  /-- The links in the order of the calls of `makeLink`. -/
  links : List MadeLink
  m_ordered : Nat → Bool
  /-- Does a controller listen to this virtual network? -/
  listens : Nat → Nat → Bool
  m_buffer_size : Nat := 0
  m_endpoint_bandwidth : Nat := 1000
  m_adaptive_routing : Bool := false
  m_control_msg_size : Nat := 8
  m_data_msg_size : Nat := 72
  randomization : Bool := false
  /-- The values of the calls of `random()`. -/
  random : Nat → Nat := fun _ => 0
  /-- `std::sort` by `m_value`: in which order it puts equal values is its own choice. -/
  sort : List LinkOrder → List LinkOrder
  sort_perm : ∀ l, (sort l).Perm l

/-- What changes in a network as it runs. -/
structure NetworkState (M : Type) where
  buffers : Queue → MessageBuffer (NetworkMessage M)
  m_pending_message_count : Nat → Nat → Int := fun _ _ => 0
  /-- An index into the in-ports of a switch. -/
  m_round_robin_start : Nat → Nat := fun _ => 0
  m_units_remaining : Nat → Nat → Nat → Nat := fun _ _ _ => 0
  m_wakeups_wo_switch : Consumer → Nat := fun _ => 0
  /-- How many values of `random` were drawn. -/
  draws : Nat := 0
  /-- The wakeups that are scheduled, with their times. -/
  scheduled : Finset (Nat × Consumer) := ∅
  now : Nat := 0

namespace SimpleNetwork

variable {M : Type} (N : SimpleNetwork)

/-- The links to a switch, which are all but those of `makeOutLink`. -/
def switched : List MadeLink :=
  N.links.filter fun l => 2 * N.m_nodes ≤ l.dest

/-- The other ends of the links into a switch, in the order of its in-ports. -/
def inPorts (sw : Nat) : List Nat :=
  (N.switched.filter fun l => l.dest = sw).map (·.src)

/-- The links out of a switch, in the order of its out-ports, with their routing table entries. -/
def outLinks (sw : Nat) : List MadeLink :=
  N.links.filter fun l => l.src = sw

/-- The links with a throttle, which are all but those of `makeInLink`. -/
def throttled : List MadeLink :=
  N.links.filter fun l => N.m_nodes ≤ l.src

/-- `m_in[incoming][vnet]` of a switch. -/
def inQueue (incoming sw : Nat) (vnet : Nat) : Queue :=
  if incoming < N.m_nodes then .toNet incoming vnet else .link incoming sw vnet

/-- The queue behind the throttle of a link. -/
def outQueue (sw dest : Nat) (vnet : Nat) : Queue :=
  if dest < 2 * N.m_nodes then .fromNet (dest - N.m_nodes) vnet else .link sw dest vnet

/-- The consumer of a queue. That of a queue from a node is the switch to which the node is
linked. -/
def consumer : Queue → Option Consumer
  | .toNet node _ => (N.links.find? fun l => l.src = node).map fun l => .perfectSwitch l.dest
  | .fromNet node vnet => if N.listens node vnet then some (.controller node) else none
  | .link _ dest _ => some (.perfectSwitch dest)
  | .intermediate src dest _ => some (.throttle src dest)

/-- The virtual network that a queue reports to its consumer. -/
def vnetOf : Queue → Nat
  | .toNet _ vnet | .link _ _ vnet | .fromNet _ vnet | .intermediate _ _ vnet => vnet

/-- What a buffer reads of the time. -/
def clock (now : Nat) : Clock where
  now := now
  randomization := N.randomization

/-! ## Operations on one buffer -/

/-- `scheduleEventAbsolute` -/
def schedule (s : NetworkState M) (time : Nat) (c : Consumer) : NetworkState M :=
  { s with scheduled := insert (time, c) s.scheduled }

/-- The buffer of a queue is another one. -/
def setBuffer (s : NetworkState M) (q : Queue) (b : MessageBuffer (NetworkMessage M)) :
    NetworkState M :=
  { s with buffers := Function.update s.buffers q b }

/-- The count of a perfect switch changes by this number. -/
def addPending (s : NetworkState M) (sw : Nat) (vnet : Nat) (n : Int) : NetworkState M :=
  { s with m_pending_message_count := fun a v =>
      s.m_pending_message_count a v + if a = sw ∧ v = vnet then n else 0 }

/-- `storeEventInfo`, which only a perfect switch listens to. -/
def storeEventInfo (s : NetworkState M) (c : Consumer) (vnet : Nat) : NetworkState M :=
  match c with
  | .perfectSwitch sw => addPending s sw vnet 1
  | .throttle _ _ | .controller _ => s

/-- `enqueue` on one of the buffers, with the wakeup of its consumer. -/
def enqueueAt (s : NetworkState M) (q : Queue) (message : Message (NetworkMessage M))
    (delta : Nat := 1) : Except Fault (NetworkState M) := do
  let e ← (s.buffers q).enqueue (N.clock s.now) (fun k => N.random (s.draws + k)) message delta
  match N.consumer q with
  | none => .error (.panic "No consumer")
  | some c =>
      let s := setBuffer { s with draws := s.draws + e.draws } q e.buffer
      pure (storeEventInfo (schedule s e.arrival_time c) c (vnetOf q))

/-- Take the first message of a buffer. -/
def popAt (s : NetworkState M) (q : Queue) : Except Fault (NetworkState M) := do
  let b ← (s.buffers q).pop s.now
  pure (setBuffer s q b)

/-! ## The perfect switch -/

/-- The number of wakeups after which the priority is turned around. -/
def PRIORITY_SWITCH_LIMIT : Nat := 128

/-- The virtual networks in the order of their priority, which is the other way round once in a
while. -/
def vnetOrder (s : NetworkState M) (c : Consumer) : NetworkState M × List Nat :=
  let wakeups := s.m_wakeups_wo_switch c + 1
  if wakeups > PRIORITY_SWITCH_LIMIT then
    ({ s with m_wakeups_wo_switch := Function.update s.m_wakeups_wo_switch c 0 },
      List.range N.m_virtual_networks)
  else
    ({ s with m_wakeups_wo_switch := Function.update s.m_wakeups_wo_switch c wakeups },
      (List.range N.m_virtual_networks).reverse)

/-- The sizes of the queues of an out-port added up. -/
def outQueueLength (sw dest : Nat) (s : NetworkState M) : List Nat → Int × NetworkState M
  | [] => (0, s)
  | v :: vnets =>
      let q := Queue.intermediate sw dest v
      let (size, b) := (s.buffers q).getSize s.now
      let (sizes, s) := outQueueLength sw dest (setBuffer s q b) vnets
      (size + sizes, s)

/-- How clogged each link is, with a random number in the low bits. -/
def measureLinks (sw : Nat) (s : NetworkState M) :
    List MadeLink → List LinkOrder × NetworkState M
  | [] => ([], s)
  | l :: links =>
      let (out_queue_length, s) :=
        outQueueLength sw l.dest s (List.range N.m_virtual_networks)
      let value := out_queue_length * 2 ^ 8 + (N.random s.draws &&& 0xff : Nat)
      let (orders, s) := measureLinks sw { s with draws := s.draws + 1 } links
      (⟨l, value⟩ :: orders, s)

/-- The links of a switch in the order in which they are looked at for a message. -/
def linkOrder (s : NetworkState M) (sw : Nat) (vnet : Nat) :
    List MadeLink × NetworkState M :=
  if N.m_adaptive_routing && !N.m_ordered vnet then
    let (orders, s) := N.measureLinks sw s (N.outLinks sw)
    ((N.sort orders).map (·.m_link), s)
  else (N.outLinks sw, s)

/-- The links that take a message, each with the destinations that it takes, and the destinations
that no link takes. -/
def route : List MadeLink → NetDest → List (MadeLink × NetDest) × NetDest
  | [], msg_dsts => ([], msg_dsts)
  | l :: links, msg_dsts =>
      if msg_dsts ∩ l.routing_table_entry = ∅ then route links msg_dsts
      else
        let (outputs, left) := route links (msg_dsts \ l.routing_table_entry)
        ((l, msg_dsts ∩ l.routing_table_entry) :: outputs, left)

/-- One round of the loop over the messages of an in-port: `true` if a message has moved, `false`
if it has to wait for a slot. -/
def moveHead (s : NetworkState M) (incoming sw : Nat) (vnet : Nat) :
    Except Fault (Bool × NetworkState M) := do
  let q := N.inQueue incoming sw vnet
  let message ← (s.buffers q).peekMsgPtr s.now
  let (links, s) := N.linkOrder s sw vnet
  let (outputs, left) := route links message.content.getInternalDestination
  assertThat "msg_dsts.count() == 0" (left.card = 0)
  if outputs.all fun out =>
      (s.buffers (.intermediate sw out.1.dest vnet)).areNSlotsAvailable s.now 1 then do
    let s ← outputs.foldlM (fun s out =>
      N.enqueueAt s (.intermediate sw out.1.dest vnet) (setInternalDestination message out.2)) s
    let s ← popAt s q
    pure (true, addPending s sw vnet (-1))
  else pure (false, schedule s (s.now + 1) (.perfectSwitch sw))

/-- `while (m_in[incoming][vnet]->isReady())`. Each round takes one of the messages. -/
def drainPort (incoming sw : Nat) (vnet : Nat) :
    Nat → NetworkState M → Except Fault (NetworkState M)
  | 0, s => pure s
  | fuel + 1, s =>
      if (s.buffers (N.inQueue incoming sw vnet)).isReady s.now then do
        let (moved, s) ← N.moveHead s incoming sw vnet
        if moved then drainPort incoming sw vnet fuel s else pure s
      else pure s

/-- The in-ports in the order of round robin scheduling: `incoming++` before each of them. -/
def roundRobin (ports : Nat) : Nat → Nat → List Nat
  | 0, _ => []
  | counter + 1, incoming =>
      let incoming := if incoming + 1 ≥ ports then 0 else incoming + 1
      incoming :: roundRobin ports counter incoming

/-- One round of the loop over the virtual networks. -/
def switchVnet (sw : Nat) (s : NetworkState M) (vnet : Nat) :
    Except Fault (NetworkState M) :=
  let ports := N.inPorts sw
  let start := s.m_round_robin_start sw
  let next := if start + 1 ≥ ports.length then 0 else start + 1
  let s := { s with m_round_robin_start := Function.update s.m_round_robin_start sw next }
  if 0 < s.m_pending_message_count sw vnet then
    ((roundRobin ports.length ports.length start).filterMap (ports[·]?)).foldlM (fun s incoming =>
      N.drainPort incoming sw vnet
        (s.buffers (N.inQueue incoming sw vnet)).m_prio_heap.length s) s
  else pure s

/-- `PerfectSwitch::wakeup` -/
def switchWakeup (s : NetworkState M) (sw : Nat) : Except Fault (NetworkState M) :=
  let (s, vnets) := N.vnetOrder s (.perfectSwitch sw)
  vnets.foldlM (N.switchVnet sw) s

/-! ## The throttle -/

/-- The units of bandwidth of a byte. -/
def MESSAGE_SIZE_MULTIPLIER : Nat := 1000

/-- The bytes of a message of a size. -/
def MessageSizeType_to_int : MessageSizeType → Except Fault Nat
  | .Undefined => .error (.panic "Can't convert Undefined MessageSizeType to integer")
  | .Control | .Request_Control | .Reissue_Control | .Response_Control | .Writeback_Control
  | .Broadcast_Control | .Multicast_Control | .Forwarded_Control | .Invalidate_Control
  | .Unblock_Control | .Persistent_Control | .Completion_Control => .ok N.m_control_msg_size
  | .Data | .Response_Data | .ResponseLocal_Data | .ResponseL2hit_Data | .Writeback_Data =>
      .ok N.m_data_msg_size

/-- The units of bandwidth that a message takes. -/
def network_message_to_size (m : NetworkMessage M) : Except Fault Nat := do
  let size ← N.MessageSizeType_to_int m.m_MessageSize
  pure (size * MESSAGE_SIZE_MULTIPLIER)

/-- The units of bandwidth of a link in a cycle. -/
def getLinkBandwidth (l : MadeLink) : Nat := N.m_endpoint_bandwidth * l.link.m_bw_multiplier

/-- What is left to transfer on a link is another number. -/
def setUnits (s : NetworkState M) (l : MadeLink) (vnet units : Nat) : NetworkState M :=
  { s with m_units_remaining := fun a b v =>
      if a = l.src ∧ b = l.dest ∧ v = vnet then units else s.m_units_remaining a b v }

/-- Is there a message or the rest of one to transfer? -/
def transferWaits (s : NetworkState M) (l : MadeLink) (vnet : Nat) : Bool :=
  (s.buffers (.intermediate l.src l.dest vnet)).isReady s.now ||
    decide (0 < s.m_units_remaining l.src l.dest vnet)

/-- Is there room behind the link? -/
def transferFits (s : NetworkState M) (l : MadeLink) (vnet : Nat) : Bool :=
  (s.buffers (N.outQueue l.src l.dest vnet)).areNSlotsAvailable s.now 1

/-- Move the next message over the link. -/
def startTransfer (s : NetworkState M) (l : MadeLink) (vnet : Nat) :
    Except Fault (NetworkState M) := do
  let q := Queue.intermediate l.src l.dest vnet
  let message ← (s.buffers q).peekMsgPtr s.now
  let size ← N.network_message_to_size message.content
  let s := setUnits s l vnet (s.m_units_remaining l.src l.dest vnet + size)
  let s ← N.enqueueAt s (N.outQueue l.src l.dest vnet) message l.link.m_latency
  popAt s q

/-- Is the previous message done, and is there another one? -/
def startIfDone (s : NetworkState M) (l : MadeLink) (vnet : Nat) :
    Except Fault (NetworkState M) :=
  if decide (s.m_units_remaining l.src l.dest vnet = 0) &&
      (s.buffers (.intermediate l.src l.dest vnet)).isReady s.now then
    N.startTransfer s l vnet
  else pure s

/-- `while (bw_remaining > 0 && ...)`, with the bandwidth that remains. Each round takes a message
or ends the transfer of one. -/
def transferLoop (l : MadeLink) (vnet : Nat) :
    Nat → NetworkState M → Nat → Except Fault (NetworkState M × Nat)
  | 0, s, bw_remaining => pure (s, bw_remaining)
  | fuel + 1, s, bw_remaining =>
      if decide (0 < bw_remaining) && transferWaits s l vnet && N.transferFits s l vnet then do
        let s ← N.startIfDone s l vnet
        -- `max(0, diff)` and `max(0, -diff)`
        let units := s.m_units_remaining l.src l.dest vnet
        transferLoop l vnet fuel (setUnits s l vnet (units - bw_remaining)) (bw_remaining - units)
      else pure (s, bw_remaining)

/-- The variables of the loop over the virtual networks. -/
structure ThrottleLoop (M : Type) where
  state : NetworkState M
  bw_remaining : Nat
  schedule_wakeup : Bool

/-- What a throttle does for a virtual network, as long as there is bandwidth. -/
def throttleVnet (l : MadeLink) (loop : ThrottleLoop M) (vnet : Nat) :
    Except Fault (ThrottleLoop M) := do
  let fuel := (loop.state.buffers (.intermediate l.src l.dest vnet)).m_prio_heap.length + 2
  let (s, bw_remaining) ← N.transferLoop l vnet fuel loop.state loop.bw_remaining
  pure
    { state := s
      bw_remaining := bw_remaining
      schedule_wakeup := loop.schedule_wakeup ||
        (decide (0 < bw_remaining) && transferWaits s l vnet && !N.transferFits s l vnet) }

/-- `Throttle::wakeup` -/
def throttleWakeup (s : NetworkState M) (l : MadeLink) : Except Fault (NetworkState M) := do
  assertThat "getLinkBandwidth() > 0" (0 < N.getLinkBandwidth l)
  let (s, vnets) := N.vnetOrder s (.throttle l.src l.dest)
  let loop ← vnets.foldlM (N.throttleVnet l) ⟨s, N.getLinkBandwidth l, false⟩
  if decide (0 < loop.bw_remaining) && !loop.schedule_wakeup then
    pure loop.state
  else
    pure (schedule loop.state (loop.state.now + 1) (.throttle l.src l.dest))

/-! ## The system -/

/-- A buffer as it is set up. -/
def initialBuffer : Queue → MessageBuffer (NetworkMessage M)
  | .toNet _ vnet => { m_ordering_set := true, m_strict_fifo := N.m_ordered vnet }
  | .fromNet node vnet =>
      { m_ordering_set := N.listens node vnet, m_strict_fifo := N.m_ordered vnet }
  | .link _ _ _ | .intermediate _ _ _ =>
      { m_ordering_set := true, m_strict_fifo := true
        m_max_size := if 0 < N.m_buffer_size then N.m_buffer_size else -1 }

/-- The network at the start: all buffers are empty, and nobody is scheduled. -/
def initial : NetworkState M where
  buffers := N.initialBuffer

/-- The wakeup of a consumer. What a controller does then is up to the controller. -/
def wakeup (s : NetworkState M) : Consumer → Except Fault (NetworkState M)
  | .perfectSwitch sw => N.switchWakeup s sw
  | .throttle src dest =>
      match N.throttled.find? fun l => l.src = src ∧ l.dest = dest with
      | some l => N.throttleWakeup s l
      | none => pure s
  | .controller _ => pure s

/-- `RubyEventQueueNode::process` -/
def process (s : NetworkState M) (c : Consumer) : Except Fault (NetworkState M) := do
  let now := s.now
  let s ← N.wakeup s c
  pure { s with scheduled := s.scheduled.erase (now, c) }

end SimpleNetwork

/-- A network together with what its controllers have sent and received so far on each virtual
network. -/
structure NetworkSystem (M : Type) where
  state : NetworkState M
  log : Nat → List (NetEvent Nat M) := fun _ => []

namespace NetworkSystem

variable {M : Type}

/-- What happens next: a controller sends or receives, a consumer wakes up, or time goes on. -/
inductive Label (M : Type) where
  | send (node : Nat) (vnet : Nat) (message : NetworkMessage M) (delta : Nat)
  | receive (node : Nat) (vnet : Nat)
  | wakeup (c : Consumer)
  | tick

/-- The logs with one more event. -/
def record (log : Nat → List (NetEvent Nat M)) (vnet : Nat) (e : NetEvent Nat M) :
    Nat → List (NetEvent Nat M) :=
  Function.update log vnet (log vnet ++ [e])

/-- One step, if it can happen. `source` says which node a message is from. Time goes on when all
wakeups of the cycle are done. -/
def step (N : SimpleNetwork) (source : M → Nat) (st : NetworkSystem M) :
    Label M → Except Fault (Option (NetworkSystem M))
  | .send node vnet message delta =>
      if node < N.m_nodes ∧ vnet < N.m_virtual_networks ∧ message.m_internal_dest = none ∧
          source message.body = node then do
        let s ← N.enqueueAt st.state (.toNet node vnet) ⟨message, st.state.now, 0⟩ delta
        pure (some ⟨s, record st.log vnet (.sent node message.m_Destination message.body)⟩)
      else pure none
  | .receive node vnet =>
      if (st.state.buffers (.fromNet node vnet)).isReady st.state.now then do
        let message ← (st.state.buffers (.fromNet node vnet)).peekMsgPtr st.state.now
        let s ← SimpleNetwork.popAt st.state (.fromNet node vnet)
        let body := message.content.body
        pure (some ⟨s, record st.log vnet (.received node (source body) body)⟩)
      else pure none
  | .wakeup c =>
      if (st.state.now, c) ∈ st.state.scheduled then do
        let s ← N.process st.state c
        pure (some { st with state := s })
      else pure none
  | .tick =>
      if st.state.scheduled.filter (fun e => e.1 = st.state.now) = ∅ then
        pure (some { st with state := { st.state with now := st.state.now + 1 } })
      else pure none

/-- Steps one after the other, if they can happen. -/
def steps (N : SimpleNetwork) (source : M → Nat) :
    List (Label M) → NetworkSystem M → Option (NetworkSystem M)
  | [], st => some st
  | label :: labels, st =>
      match st.step N source label with
      | .ok (some st') => steps N source labels st'
      | _ => none

end NetworkSystem

/-- The network as a transition system. -/
def simpleNetwork {M : Type} (N : SimpleNetwork) (source : M → Nat) :
    TransitionSystem (NetworkSystem M) (NetworkSystem.Label M) where
  init := fun st => st = { state := N.initial }
  next := fun st label st' => st.step N source label = .ok (some st')

/-- Steps that are allowed make a run longer. -/
theorem NetworkSystem.steps_run {M : Type} {N : SimpleNetwork} {source : M → Nat}
    {allowed : NetworkSystem M → Label M → Prop} {labels : List (Label M)}
    {st st' : NetworkSystem M} (hrun : (simpleNetwork N source).Run allowed st)
    (hlabels : ∀ label ∈ labels, ∀ st, allowed st label)
    (h : steps N source labels st = some st') : (simpleNetwork N source).Run allowed st' := by
  induction labels generalizing st with
  | nil => exact Option.some.inj h ▸ hrun
  | cons label labels ih =>
      simp only [steps] at h
      split at h
      · next st₁ hstep =>
        exact ih (.step hrun (hlabels label List.mem_cons_self st) hstep)
          (fun label hlabel => hlabels label (List.mem_cons_of_mem _ hlabel)) h
      · cases h

end Ece552.Ruby
