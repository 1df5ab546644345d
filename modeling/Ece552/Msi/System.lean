import Ece552.Library.TransitionSystem
import Ece552.Msi.Directory
import Ece552.Msi.L1Cache
import Mathlib.Algebra.GroupWithZero.Nat
import Mathlib.Logic.Function.Basic

/-!
# The MSI system

The L1 machines, the directories, their memory queues and the three virtual networks put
together. A label says which in-port of which machine wakes up, or which channel of which
network delivers its next message; `step` computes what follows. A stall, a missing transition,
a failed assertion or an empty buffer is no step. Every request of the local processor can be at
the head of a mandatory queue at any time, and the replacement policy may pick any line of a
full set.
-/

namespace Ece552.Msi

open Library

/-- The geometry of the caches, the interleaving of addresses over the directories, and the
initial memory, which a directory that keeps its entries in a map does not read. -/
structure Config (ι δ A D : Type) where
  l1 : ι → L1Cache.Config A
  mapAddressToDirectory : A → δ
  useMap : Bool
  memory : A → D

/-- What the directory entries hold at first: a map starts with cleared data blocks. -/
def Config.initialData {ι δ A D : Type} [Inhabited D] (config : Config ι δ A D) : A → D :=
  if config.useMap then fun _ => default else config.memory

/-- The state of the whole system. -/
structure System (ι δ A D : Type) [DecidableEq ι] [DecidableEq δ] where
  l1 : ι → L1Cache.Machine A D
  dir : A → Directory.Line (MachineID ι δ) D
  memQueue : δ → List (MemoryMsg (MachineID ι δ) A D)
  requestNet : Network (MachineID ι δ) (RequestMsg (MachineID ι δ) A D)
  forwardNet : Network (MachineID ι δ) (RequestMsg (MachineID ι δ) A D)
  responseNet : Network (MachineID ι δ) (ResponseMsg (MachineID ι δ) A D)

/-- What happens next: an in-port of a machine wakes up, or a channel delivers a message. -/
inductive Label (ι δ A D : Type) where
  /-- The processor's request, the victim should the set be full, and the effect of a store. -/
  | mandatory (i : ι) (request : RubyRequest A) (victim : A) (write : D → D)
  | forward (i : ι)
  /-- The effect is that of the outstanding store, should the response complete one. -/
  | response (i : ι) (write : D → D)
  | dirRequest (d : δ)
  | dirResponse (d : δ)
  /-- The reply to the queued memory request with this index. -/
  | dirMemory (d : δ) (index : Nat)
  | deliverRequest (src dst : MachineID ι δ)
  | deliverForward (src dst : MachineID ι δ)
  | deliverResponse (src dst : MachineID ι δ)

variable {ι δ A D : Type} [DecidableEq ι] [DecidableEq δ]

namespace System

/-- Nothing cached, nothing in flight. -/
def initial [Inhabited D] (config : Config ι δ A D) : System ι δ A D where
  l1 := fun _ => .initial
  dir := fun address => { entry := { dataBlk := config.initialData address } }
  memQueue := fun _ => []
  requestNet := .empty
  forwardNet := .empty
  responseNet := .empty

variable [DecidableEq A]

/-- The line of an address in an L1. -/
def line (s : System ι δ A D) (i : ι) (address : A) : L1Cache.Line D := (s.l1 i).line address

/-- What an L1 changes when a transition has run. -/
def commitL1 (s : System ι δ A D) (i : ι) (address : A)
    (ctx : L1Cache.Ctx (MachineID ι δ) A D) : System ι δ A D :=
  { s with
    l1 := Function.update s.l1 i ((s.l1 i).setLine address ctx.line)
    requestNet := s.requestNet.send ctx.requestFromCache
    forwardNet :=
      if .forwardToCache ∈ ctx.dequeued then s.forwardNet.pop (.L1Cache i) else s.forwardNet
    responseNet :=
      (if .responseToCache ∈ ctx.dequeued then s.responseNet.pop (.L1Cache i)
        else s.responseNet).send ctx.responseFromCache }

/-- What a directory changes when a transition has run. The index is that of the memory reply. -/
def commitDir (s : System ι δ A D) (d : δ) (index : Nat) (address : A)
    (ctx : Directory.Ctx (MachineID ι δ) A D) : System ι δ A D :=
  { s with
    dir := Function.update s.dir address ctx.line
    memQueue := Function.update s.memQueue d
      ((if .memBuffer ∈ ctx.dequeued then (s.memQueue d).eraseIdx index
        else s.memQueue d) ++ ctx.memBuffer)
    requestNet :=
      if .requestToDir ∈ ctx.dequeued then s.requestNet.pop (.Directory d) else s.requestNet
    forwardNet := s.forwardNet.send ctx.forwardFromDir
    responseNet :=
      (if .responseToDir ∈ ctx.dequeued then s.responseNet.pop (.Directory d)
        else s.responseNet).send ctx.responseFromDir }

end System

/-- The state after a step and what the sequencers are told, for which address. -/
structure StepResult (ι δ A D : Type) [DecidableEq ι] [DecidableEq δ] where
  system : System ι δ A D
  callbacks : List (A × L1Cache.Callback D) := []

variable [DecidableEq A] [Inhabited D]

/-- The event and the address that `mandatoryQueue_in` triggers, when the victim is a line that
`cacheProbe` can return. -/
def mandatoryQueue_in (config : L1Cache.Config A) (machine : L1Cache.Machine A D)
    (request : RubyRequest A) (victim : A) : Option (L1Cache.Event × A) :=
  let address := request.lineAddress
  if (machine.line address).cacheEntry.isNone && !machine.cacheAvail config address then
    if machine.isVictim config address victim then some (.Replacement, victim) else none
  else some (L1Cache.mandatory_request_type_to_event request.type, address)

/-- What the actions of an L1 read. -/
def l1Env (config : Config ι δ A D) (s : System ι δ A D) (i : ι) (address : A)
    (inMsg : L1Cache.InMsg (MachineID ι δ) A D) (write : D → D) :
    L1Cache.Env (MachineID ι δ) A D where
  machineID := .L1Cache i
  address := address
  directory := .Directory (config.mapAddressToDirectory address)
  cacheAvail := (s.l1 i).cacheAvail (config.l1 i) address
  sendEvictions := (config.l1 i).sendEvictions
  inMsg := inMsg
  write := write

/-- Trigger an event at an L1. -/
def l1Trigger (config : Config ι δ A D) (s : System ι δ A D) (i : ι) (address : A)
    (inMsg : L1Cache.InMsg (MachineID ι δ) A D) (write : D → D)
    (event : Except Fault L1Cache.Event) : Outcome (StepResult ι δ A D) :=
  (L1Cache.trigger (l1Env config s i address inMsg write) (s.line i address) event).map fun ctx =>
    ⟨s.commitL1 i address ctx, ctx.callbacks.map (address, ·)⟩

/-- Trigger an event at a directory, which has to be the one of the address. -/
def dirTrigger (config : Config ι δ A D) (s : System ι δ A D) (d : δ) (index : Nat) (address : A)
    (inMsg : Directory.InMsg (MachineID ι δ) A D) (event : Except Fault Directory.Event) :
    Outcome (StepResult ι δ A D) :=
  if config.mapAddressToDirectory address = d then
    (Directory.trigger ⟨.Directory d, address, config.useMap, inMsg⟩ (s.dir address) event).map
      fun ctx => { system := s.commitDir d index address ctx }
  else .fault (.assertion "DirectoryMemory.lookup")

/-- What happens at a label. -/
def step (config : Config ι δ A D) (s : System ι δ A D) :
    Label ι δ A D → Outcome (StepResult ι δ A D)
  | .mandatory i request victim write =>
      match mandatoryQueue_in (config.l1 i) (s.l1 i) request victim with
      | none => .idle
      | some (event, address) => l1Trigger config s i address (.mandatory request) write (.ok event)
  | .forward i =>
      match s.forwardNet.head (.L1Cache i) with
      | none => .idle
      | some p =>
          l1Trigger config s i p.msg.address (.forward p.msg) id
            (L1Cache.forwardRequestNetwork_in p.msg)
  | .response i write =>
      match s.responseNet.head (.L1Cache i) with
      | none => .idle
      | some p =>
          l1Trigger config s i p.msg.address (.response p.msg) write
            (L1Cache.responseNetwork_in (s.line i p.msg.address).tbe p.msg)
  | .dirRequest d =>
      match s.requestNet.head (.Directory d) with
      | none => .idle
      | some p =>
          dirTrigger config s d 0 p.msg.address (.request p.msg)
            (Directory.requestQueue_in (s.dir p.msg.address) p.msg)
  | .dirResponse d =>
      match s.responseNet.head (.Directory d) with
      | none => .idle
      | some p =>
          dirTrigger config s d 0 p.msg.address (.response p.msg) (Directory.responseQueue_in p.msg)
  | .dirMemory d index =>
      match (s.memQueue d)[index]? with
      | none => .idle
      | some msg =>
          dirTrigger config s d index msg.address (.memory msg) (.ok (Directory.memQueue_in msg))
  | .deliverRequest src dst =>
      match s.requestNet.deliver src dst with
      | none => .idle
      | some net => .valid { system := { s with requestNet := net } }
  | .deliverForward src dst =>
      match s.forwardNet.deliver src dst with
      | none => .idle
      | some net => .valid { system := { s with forwardNet := net } }
  | .deliverResponse src dst =>
      match s.responseNet.deliver src dst with
      | none => .idle
      | some net => .valid { system := { s with responseNet := net } }

/-- The directory event that a label triggers, with its address and the machine it is about. -/
def dirEvent (s : System ι δ A D) :
    Label ι δ A D → Option (A × Directory.Event × MachineID ι δ)
  | .dirRequest d => do
      let p ← s.requestNet.head (.Directory d)
      let event ← (Directory.requestQueue_in (s.dir p.msg.address) p.msg).toOption
      some (p.msg.address, event, p.msg.requestor)
  | .dirResponse d => do
      let p ← s.responseNet.head (.Directory d)
      let event ← (Directory.responseQueue_in p.msg).toOption
      some (p.msg.address, event, p.msg.sender)
  | .dirMemory d index => do
      let msg ← (s.memQueue d)[index]?
      some (msg.address, Directory.memQueue_in msg, msg.originalRequestorMachId)
  | _ => none

/-- A step of the directory avoids what `bad` singles out. -/
def System.Avoids (bad : Directory.Trigger (MachineID ι δ) → Bool) (s : System ι δ A D)
    (l : Label ι δ A D) : Prop :=
  ∀ address event r, dirEvent s l = some (address, event, r) →
    bad ⟨Directory.getState (s.dir address), (s.dir address).entry.sharers, event, r⟩ = false

/-- The transition system of the configuration. -/
def msi (config : Config ι δ A D) : TransitionSystem (System ι δ A D) (Label ι δ A D) where
  init := fun s => s = .initial config
  next := fun s l s' => ∃ result, step config s l = .valid result ∧ result.system = s'

/-- The values last stored, after the sequencers have been told of more stores. -/
def observe (image : A → D) (callbacks : List (A × L1Cache.Callback D)) : A → D :=
  fun address => L1Cache.lastWritten (image address)
    (callbacks.filterMap fun callback => if callback.1 = address then some callback.2 else none)

/-- The system together with the value last stored at each address, or the initial one. -/
def observed (config : Config ι δ A D) :
    TransitionSystem (System ι δ A D × (A → D)) (Label ι δ A D) where
  init := fun s => s = (.initial config, config.initialData)
  next := fun s l s' => ∃ result, step config s.1 l = .valid result ∧
    s' = (result.system, observe s.2 result.callbacks)

/-- Only the messages of the directories have to be looked at. -/
instance (bad : Directory.Trigger (MachineID ι δ) → Bool) (s : System ι δ A D)
    (l : Label ι δ A D) : Decidable (s.Avoids bad l) :=
  match h : dirEvent s l with
  | none => isTrue fun _ _ _ h' => by simp [h] at h'
  | some (address, event, r) =>
      if hbad : bad ⟨Directory.getState (s.dir address), (s.dir address).entry.sharers, event, r⟩ =
          false then
        isTrue fun _ _ _ h' => by cases h.symm.trans h'; exact hbad
      else isFalse fun h' => hbad (h' address event r h)

/-- An observed run is a run. -/
theorem run_of_observed {config : Config ι δ A D} {allowed : System ι δ A D → Label ι δ A D → Prop}
    {s : System ι δ A D × (A → D)} (h : (observed config).Run (fun s l => allowed s.1 l) s) :
    (msi config).Run allowed s.1 := by
  refine h.simulates Prod.fst ?_ ?_
  · rintro _ rfl
    rfl
  · rintro s l _ - hallowed ⟨result, hstep, rfl⟩
    exact Or.inr ⟨l, hallowed, result, hstep, rfl⟩

/-! ## Replaying labels -/

section Replay

variable (config : Config ι δ A D) (allowed : System ι δ A D → Label ι δ A D → Prop)
  [∀ s l, Decidable (allowed s l)]

/-- Follow a list of labels as long as the steps are valid and allowed. -/
def replay (s : System ι δ A D × (A → D)) : List (Label ι δ A D) → System ι δ A D × (A → D)
  | [] => s
  | l :: ls =>
      if allowed s.1 l then
        match step config s.1 l with
        | .valid result => replay (result.system, observe s.2 result.callbacks) ls
        | _ => s
      else s

variable {config allowed} in
/-- Following labels extends a run. -/
theorem run_replay {s : System ι δ A D × (A → D)} (ls : List (Label ι δ A D))
    (h : (observed config).Run (fun s l => allowed s.1 l) s) :
    (observed config).Run (fun s l => allowed s.1 l) (replay config allowed s ls) := by
  induction ls generalizing s with
  | nil => exact h
  | cons l ls ih =>
      rw [replay]
      split
      · next hallowed =>
          split
          · next result hstep => exact ih (h.step hallowed ⟨result, hstep, rfl⟩)
          · exact h
      · exact h

/-- The state after a list of labels. -/
def reached (ls : List (Label ι δ A D)) : System ι δ A D × (A → D) :=
  replay config allowed (.initial config, config.initialData) ls

variable {config allowed} in

/-- The state after a list of labels is reached by a run that is observed. -/
theorem observed_reached (ls : List (Label ι δ A D)) :
    (observed config).Run (fun s l => allowed s.1 l) (reached config allowed ls) :=
  run_replay ls (.init rfl)

variable {config allowed} in

/-- The state after a list of labels is reached. -/
theorem run_reached (ls : List (Label ι δ A D)) :
    (msi config).Run allowed (reached config allowed ls).1 :=
  run_of_observed (observed_reached ls)

end Replay

/-! ## A small system -/

namespace Sample

-- the literals of `Fin 2` and `Fin 3` mean the same in every module

/-- There are two addresses. -/
scoped instance neZero_two : NeZero 2 := ⟨by decide⟩

/-- There are three L1s. -/
scoped instance neZero_three : NeZero 3 := ⟨by decide⟩

/-- Three L1s with room for one line, one directory, and two addresses. -/
def config : Config (Fin 3) Unit (Fin 2) Nat where
  l1 := fun _ => { addressToCacheSet := fun _ => 0, cacheAssoc := 1, sendEvictions := false }
  mapAddressToDirectory := fun _ => ()
  useMap := false
  memory := fun _ => 0

/-- A label of the small system. -/
abbrev Step := Label (Fin 3) Unit (Fin 2) Nat

/-- An L1 stores a value at address 0. -/
def store (i : Fin 3) (value : Nat) : Step := .mandatory i ⟨0, .ST⟩ 0 fun _ => value

/-- An L1 loads address 0. -/
def load (i : Fin 3) : Step := .mandatory i ⟨0, .LD⟩ 0 id

/-- An L1 loads address 1, for which it evicts address 0. -/
def evict (i : Fin 3) : Step := .mandatory i ⟨1, .LD⟩ 0 id

/-- The next request of an L1 is taken by the directory. -/
def request (i : Fin 3) : List Step :=
  [.deliverRequest (.L1Cache i) (.Directory ()), .dirRequest ()]

/-- The memory answers its oldest request. -/
def memory : List Step := [.dirMemory () 0]

/-- The next forward is taken by an L1. -/
def forward (i : Fin 3) : List Step := [.deliverForward (.Directory ()) (.L1Cache i), .forward i]

/-- The next response of the directory is taken by an L1 that stores a value. -/
def data (i : Fin 3) (value : Nat) : List Step :=
  [.deliverResponse (.Directory ()) (.L1Cache i), .response i fun _ => value]

/-- The next response of an L1 is taken by another one that stores a value. -/
def response (i j : Fin 3) (value : Nat) : List Step :=
  [.deliverResponse (.L1Cache i) (.L1Cache j), .response j fun _ => value]

/-- The data of an L1 is taken by the directory. -/
def downgrade (i : Fin 3) : List Step :=
  [.deliverResponse (.L1Cache i) (.Directory ()), .dirResponse ()]

end Sample

end Ece552.Msi
