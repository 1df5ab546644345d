import Ece552.Msi.System
import Ece552.Ruby.Routing

/-!
# The protocol on the simple network

The machines connected by switches, throttles and buffers in place of channels. A controller peeks
at the buffers of its node, does what the machine does, enqueues messages that may be for several
nodes, and dequeues; the network goes on with wakeups and ticks in between. Message sizes and
latencies are left to the label, and so is which packets share a message.
-/

namespace Ece552.Msi

open Library Ruby
open Directory (Trigger)

/-! ## Messages -/

section Messages

variable {N A D M : Type}

/-- A message of the protocol, by the buffers it goes through. -/
inductive ProtocolMsg (N A D : Type) where
  | request (msg : RequestMsg N A D)
  | forward (msg : RequestMsg N A D)
  | response (msg : ResponseMsg N A D)
  deriving DecidableEq

namespace ProtocolMsg

/-- The `virtual_network` of the buffers. -/
def virtual_network : ProtocolMsg N A D → Nat
  | request _ => 2
  | forward _ => 3
  | response _ => 4

/-- The request, if it is one. -/
def request? : ProtocolMsg N A D → Option (RequestMsg N A D)
  | request msg => some msg
  | forward _ | response _ => none

/-- The forward, if it is one. -/
def forward? : ProtocolMsg N A D → Option (RequestMsg N A D)
  | forward msg => some msg
  | request _ | response _ => none

/-- The response, if it is one. -/
def response? : ProtocolMsg N A D → Option (ResponseMsg N A D)
  | response msg => some msg
  | request _ | forward _ => none

end ProtocolMsg

/-- What the network transports. -/
structure Body (N A D : Type) where
  sender : N
  msg : ProtocolMsg N A D

/-- An `enqueue` of an action. -/
structure Enqueue (N A D : Type) where
  destination : NetDest N
  msg : ProtocolMsg N A D
  messageSize : MessageSizeType
  latency : Nat

/-- The packets of the messages of one kind: one for each destination. -/
def packets (pick : ProtocolMsg N A D → Option M) (sender : N) (sent : List (Enqueue N A D)) :
    List (Packet N M) :=
  sent.flatMap fun e =>
    match pick e.msg with
    | some msg => e.destination.elems.map fun dst => ⟨sender, dst, msg⟩
    | none => []

end Messages

/-! ## The system -/

variable {ι δ A D : Type} [DecidableEq ι] [DecidableEq δ]

/-- A network with the virtual networks of the protocol. -/
structure Interconnect (ι δ : Type) where
  network : SimpleNetwork
  topology : Topology
  built : network.Built topology
  /-- The numbers of the machines, which `MachineType_base_number` makes unique. -/
  node : MachineID ι δ → Nat
  node_inj : Function.Injective node
  ordered : ∀ v ∈ [2, 3, 4], network.m_ordered v = true

/-- Which node a message is from. -/
def Interconnect.source (net : Interconnect ι δ) (body : Body (MachineID ι δ) A D) : Nat :=
  net.node body.sender

/-- The machines and the network between them. -/
structure Networked (ι δ A D : Type) where
  l1 : ι → L1Cache.Machine A D
  dir : A → Directory.Line (MachineID ι δ) D
  memQueue : δ → List (MemoryMsg (MachineID ι δ) A D)
  network : NetworkSystem (Body (MachineID ι δ) A D)

namespace Networked

/-- What happens next: a machine wakes up and enqueues messages, or the network goes on. -/
inductive Label (ι δ A D : Type) where
  | controller (label : Msi.Label ι δ A D) (sent : List (Enqueue (MachineID ι δ) A D))
  | wakeup (c : Consumer)
  | tick

/-- Nothing cached, nothing in the buffers. -/
def initial [Inhabited D] (config : Config ι δ A D) (net : Interconnect ι δ) :
    Networked ι δ A D where
  l1 := fun _ => .initial
  dir := fun address => { entry := { dataBlk := config.initialData address } }
  memQueue := fun _ => []
  network := { state := net.network.initial }

/-- The machines with channels between them. -/
def via (s : Networked ι δ A D)
    (requestNet forwardNet : Network (MachineID ι δ) (RequestMsg (MachineID ι δ) A D))
    (responseNet : Network (MachineID ι δ) (ResponseMsg (MachineID ι δ) A D)) : System ι δ A D where
  l1 := s.l1
  dir := s.dir
  memQueue := s.memQueue
  requestNet := requestNet
  forwardNet := forwardNet
  responseNet := responseNet

/-- The machines by themselves. -/
def machines (s : Networked ι δ A D) : System ι δ A D := s.via .empty .empty .empty

/-- The message that a machine finds at the head of one of its buffers. -/
def peek (net : Interconnect ι δ) (s : Networked ι δ A D) (m : MachineID ι δ) (v : Nat) :
    Option (ProtocolMsg (MachineID ι δ) A D) :=
  match (s.network.state.buffers (.fromNet (net.node m) v)).peekMsgPtr s.network.state.now with
  | .ok message => some message.content.body.msg
  | .error _ => none

/-- What an `enqueue` does to the network. -/
def sendLabel (net : Interconnect ι δ) (m : MachineID ι δ) (e : Enqueue (MachineID ι δ) A D) :
    NetworkSystem.Label (Body (MachineID ι δ) A D) :=
  .send (net.node m) e.msg.virtual_network
    { m_Destination := (e.destination.elems.map net.node).toFinset
      m_MessageSize := e.messageSize
      body := ⟨m, e.msg⟩ } e.latency

/-- The network after a machine has enqueued messages and dequeued from virtual networks. -/
def exchange (net : Interconnect ι δ) (s : Networked ι δ A D) (m : MachineID ι δ)
    (sent : List (Enqueue (MachineID ι δ) A D)) (dequeued : List Nat) :
    Option (NetworkSystem (Body (MachineID ι δ) A D)) :=
  NetworkSystem.steps net.network net.source
    (sent.map (sendLabel net m) ++ dequeued.map (.receive (net.node m) ·)) s.network

end Networked

/-- The virtual networks that a transition of an L1 dequeues from. -/
def L1Cache.Ctx.virtual_networks {N A D : Type} (ctx : L1Cache.Ctx N A D) : List Nat :=
  (if .forwardToCache ∈ ctx.dequeued then [3] else []) ++
    if .responseToCache ∈ ctx.dequeued then [4] else []

/-- The virtual networks that a transition of a directory dequeues from. -/
def Directory.Ctx.virtual_networks {N A D : Type} (ctx : Directory.Ctx N A D) : List Nat :=
  (if .requestToDir ∈ ctx.dequeued then [2] else []) ++
    if .responseToDir ∈ ctx.dequeued then [4] else []

namespace Networked

variable [DecidableEq A] [DecidableEq D] [Inhabited D]

/-- Trigger an event at an L1. The messages have to be those that the actions enqueue. -/
def l1Trigger (config : Config ι δ A D) (net : Interconnect ι δ) (s : Networked ι δ A D)
    (sent : List (Enqueue (MachineID ι δ) A D)) (i : ι) (address : A)
    (inMsg : L1Cache.InMsg (MachineID ι δ) A D) (write : D → D)
    (event : Except Fault L1Cache.Event) :
    Option (Networked ι δ A D × List (A × L1Cache.Callback D)) :=
  match L1Cache.trigger (l1Env config s.machines i address inMsg write)
      (s.machines.line i address) event with
  | .valid ctx =>
      if packets ProtocolMsg.request? (.L1Cache i) sent = ctx.requestFromCache ∧
          packets ProtocolMsg.forward? (.L1Cache i) sent = [] ∧
          packets ProtocolMsg.response? (.L1Cache i) sent = ctx.responseFromCache then
        (s.exchange net (.L1Cache i) sent ctx.virtual_networks).map fun network =>
          ({ s with l1 := (s.machines.commitL1 i address ctx).l1, network := network },
            ctx.callbacks.map (address, ·))
      else none
  | _ => none

/-- Trigger an event at the directory of an address. -/
def dirTrigger (config : Config ι δ A D) (net : Interconnect ι δ) (s : Networked ι δ A D)
    (sent : List (Enqueue (MachineID ι δ) A D)) (d : δ) (index : Nat) (address : A)
    (inMsg : Directory.InMsg (MachineID ι δ) A D) (event : Except Fault Directory.Event) :
    Option (Networked ι δ A D × List (A × L1Cache.Callback D)) :=
  if config.mapAddressToDirectory address = d then
    match Directory.trigger ⟨.Directory d, address, config.useMap, inMsg⟩ (s.dir address) event with
    | .valid ctx =>
        if packets ProtocolMsg.request? (.Directory d) sent = [] ∧
            packets ProtocolMsg.forward? (.Directory d) sent = ctx.forwardFromDir ∧
            packets ProtocolMsg.response? (.Directory d) sent = ctx.responseFromDir then
          (s.exchange net (.Directory d) sent ctx.virtual_networks).map fun network =>
            ({ s with
              dir := (s.machines.commitDir d index address ctx).dir
              memQueue := (s.machines.commitDir d index address ctx).memQueue
              network := network }, [])
        else none
    | _ => none
  else none

/-- What a machine does when it wakes up. -/
def controller (config : Config ι δ A D) (net : Interconnect ι δ) (s : Networked ι δ A D)
    (sent : List (Enqueue (MachineID ι δ) A D)) :
    Msi.Label ι δ A D → Option (Networked ι δ A D × List (A × L1Cache.Callback D))
  | .mandatory i request victim write =>
      match mandatoryQueue_in (config.l1 i) (s.l1 i) request victim with
      | none => none
      | some (event, address) =>
          s.l1Trigger config net sent i address (.mandatory request) write (.ok event)
  | .forward i =>
      match (s.peek net (.L1Cache i) 3).bind ProtocolMsg.forward? with
      | none => none
      | some msg =>
          s.l1Trigger config net sent i msg.address (.forward msg) id
            (L1Cache.forwardRequestNetwork_in msg)
  | .response i write =>
      match (s.peek net (.L1Cache i) 4).bind ProtocolMsg.response? with
      | none => none
      | some msg =>
          s.l1Trigger config net sent i msg.address (.response msg) write
            (L1Cache.responseNetwork_in (s.machines.line i msg.address).tbe msg)
  | .dirRequest d =>
      match (s.peek net (.Directory d) 2).bind ProtocolMsg.request? with
      | none => none
      | some msg =>
          s.dirTrigger config net sent d 0 msg.address (.request msg)
            (Directory.requestQueue_in (s.dir msg.address) msg)
  | .dirResponse d =>
      match (s.peek net (.Directory d) 4).bind ProtocolMsg.response? with
      | none => none
      | some msg =>
          s.dirTrigger config net sent d 0 msg.address (.response msg)
            (Directory.responseQueue_in msg)
  | .dirMemory d index =>
      match (s.memQueue d)[index]? with
      | none => none
      | some msg =>
          s.dirTrigger config net sent d index msg.address (.memory msg)
            (.ok (Directory.memQueue_in msg))
  | .deliverRequest _ _ | .deliverForward _ _ | .deliverResponse _ _ => none

/-- A step of the network by itself. -/
def inside (net : Interconnect ι δ) (s : Networked ι δ A D)
    (label : NetworkSystem.Label (Body (MachineID ι δ) A D)) :
    Option (Networked ι δ A D × List (A × L1Cache.Callback D)) :=
  match s.network.step net.network net.source label with
  | .ok (some network) => some ({ s with network := network }, [])
  | _ => none

/-- One step, with what the sequencers are told. -/
def step (config : Config ι δ A D) (net : Interconnect ι δ) (s : Networked ι δ A D) :
    Label ι δ A D → Option (Networked ι δ A D × List (A × L1Cache.Callback D))
  | .controller label sent => s.controller config net sent label
  | .wakeup c => s.inside net (.wakeup c)
  | .tick => s.inside net .tick

/-- The directory event that a machine triggers, with its address and the machine it is about. -/
def dirEvent (net : Interconnect ι δ) (s : Networked ι δ A D) :
    Msi.Label ι δ A D → Option (A × Directory.Event × MachineID ι δ)
  | .dirRequest d => do
      let msg ← (s.peek net (.Directory d) 2).bind ProtocolMsg.request?
      let event ← (Directory.requestQueue_in (s.dir msg.address) msg).toOption
      some (msg.address, event, msg.requestor)
  | .dirResponse d => do
      let msg ← (s.peek net (.Directory d) 4).bind ProtocolMsg.response?
      let event ← (Directory.responseQueue_in msg).toOption
      some (msg.address, event, msg.sender)
  | .dirMemory d index => do
      let msg ← (s.memQueue d)[index]?
      some (msg.address, Directory.memQueue_in msg, msg.originalRequestorMachId)
  | _ => none

/-- A step of the directory avoids what `bad` singles out. -/
def Avoids (bad : Trigger (MachineID ι δ) → Bool) (net : Interconnect ι δ)
    (s : Networked ι δ A D) : Label ι δ A D → Prop
  | .controller label _ => ∀ address event r, s.dirEvent net label = some (address, event, r) →
      bad ⟨Directory.getState (s.dir address), (s.dir address).entry.sharers, event, r⟩ = false
  | .wakeup _ | .tick => True

end Networked

/-- The protocol on the network, together with the value last stored at each address. -/
def networked [DecidableEq A] [DecidableEq D] [Inhabited D] (config : Config ι δ A D)
    (net : Interconnect ι δ) :
    TransitionSystem (Networked ι δ A D × (A → D)) (Networked.Label ι δ A D) where
  init := fun s => s = (.initial config net, config.initialData)
  next := fun s l s' => ∃ system callbacks, s.1.step config net l = some (system, callbacks) ∧
    s' = (system, observe s.2 callbacks)

/-! ## Replaying labels -/

variable [DecidableEq A] [DecidableEq D] [Inhabited D] {config : Config ι δ A D}
  {net : Interconnect ι δ} {bad : Trigger (MachineID ι δ) → Bool} {S : Networked ι δ A D × (A → D)}

namespace Networked

/-- Only the messages of the directories have to be looked at. -/
instance decidableAvoids (bad : Trigger (MachineID ι δ) → Bool) (net : Interconnect ι δ)
    (s : Networked ι δ A D) (label : Label ι δ A D) : Decidable (s.Avoids bad net label) :=
  match label with
  | .wakeup _ => isTrue trivial
  | .tick => isTrue trivial
  | .controller label _ =>
      match h : s.dirEvent net label with
      | none => isTrue fun _ _ _ h' => by cases h.symm.trans h'
      | some (address, event, r) =>
          if hbad : bad ⟨Directory.getState (s.dir address), (s.dir address).entry.sharers, event,
              r⟩ = false then
            isTrue fun _ _ _ h' => by cases h.symm.trans h'; exact hbad
          else isFalse fun h' => hbad (h' address event r h)

/-- Follow a list of labels as long as the steps are possible and avoid something. -/
def replay (config : Config ι δ A D) (net : Interconnect ι δ)
    (bad : Trigger (MachineID ι δ) → Bool) (S : Networked ι δ A D × (A → D)) :
    List (Label ι δ A D) → Networked ι δ A D × (A → D)
  | [] => S
  | label :: labels =>
      if S.1.Avoids bad net label then
        match S.1.step config net label with
        | some (s', callbacks) => replay config net bad (s', observe S.2 callbacks) labels
        | none => S
      else S

/-- Following labels makes a run longer. -/
theorem run_replay (labels : List (Label ι δ A D))
    (h : (networked config net).Run (fun s l => s.1.Avoids bad net l) S) :
    (networked config net).Run (fun s l => s.1.Avoids bad net l)
      (replay config net bad S labels) := by
  induction labels generalizing S with
  | nil => exact h
  | cons label labels ih =>
      rw [replay]
      split
      · next havoids =>
        split
        · next s' callbacks hstep => exact ih (h.step havoids ⟨s', callbacks, hstep, rfl⟩)
        · exact h
      · exact h

end Networked

end Ece552.Msi
