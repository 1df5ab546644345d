import Ece552.Library.TransitionSystem
import Ece552.Msi.Allocation
import Ece552.Msi.CacheMemory

/-!
# The bookkeeping of an L1

The controller of an L1 on its own: its cache memory, its TBE table, and what a wakeup of one of its
in-ports does to them. Nothing is assumed about the messages that arrive, nor about the way that
the replacement policy picks. `bookkeeping_of_reachable` says what holds in every state that it
reaches, as long as it has transitions for the events: which of the entry and the TBE of an address
exist, and that no action or allocation fails. It rests on `Line.Booked`, which each transition
keeps at its own address.
-/

namespace Ece552.Msi.L1Cache

open Library

variable {N A D : Type}

/-- What an L1 is configured with: its name, the directory of each address, and its cache. -/
structure Controller (N A : Type) where
  machineID : N
  mapAddressToDirectory : A → N
  config : Config A

/-- What wakes the controller up: a request of the processor, with the way that the replacement
policy picks should the set be full, or a message of one of the two networks. The effect of a store
is that of the request itself, or of the outstanding one that a response completes. -/
inductive Wakeup (l1 : Controller N A) (D : Type) where
  | mandatory (request : RubyRequest A) (victim : Fin l1.config.cacheAssoc) (write : D → D)
  | forward (msg : RequestMsg N A D)
  | response (msg : ResponseMsg N A D) (write : D → D)

/-- The message at the head of the buffer. -/
def Wakeup.inMsg {l1 : Controller N A} : Wakeup l1 D → InMsg N A D
  | .mandatory request _ _ => .mandatory request
  | .forward msg => .forward msg
  | .response msg _ => .response msg

/-- What a store writes; a forward writes nothing. -/
def Wakeup.write {l1 : Controller N A} : Wakeup l1 D → D → D
  | .mandatory _ _ write | .response _ write => write
  | .forward _ => id

/-- The structures that the controller keeps. -/
structure Structures (l1 : Controller N A) (D : Type) where
  cacheMemory : CacheMemory l1.config D
  TBEs : A → Option (TBE D)

/-- A call of an action. -/
structure Call (N A D : Type) where
  action : Action N A D
  env : Env N A D
  ctx : Ctx N A D

/-- The calls that running the actions makes, up to the first that fails. -/
def calls (env : Env N A D) : List (Action N A D) → Ctx N A D → List (Call N A D)
  | [], _ => []
  | action :: actions, ctx =>
      ⟨action, env, ctx⟩ :: match action env ctx with
        | .ok ctx => calls env actions ctx
        | .error _ => []

namespace Structures

variable {l1 : Controller N A}

/-- Nothing is cached. -/
def initial : Structures l1 D := ⟨.empty, fun _ => none⟩

/-- The line of an address. -/
def line (s : Structures l1 D) (address : A) : Line D :=
  ⟨s.cacheMemory.lookup address, s.TBEs address⟩

/-- The state of an address. -/
def stateOf (s : Structures l1 D) (address : A) : State := getState (s.line address)

variable [DecidableEq A]

/-- The event that an in-port triggers, and for which address. -/
def inPort (s : Structures l1 D) : Wakeup l1 D → Except Fault (Event × A)
  | .mandatory request victim _ =>
      let address := request.lineAddress
      if (s.cacheMemory.lookup address).isNone && !s.cacheMemory.cacheAvail address then do
        let victim ← s.cacheMemory.cacheProbe address victim
        .ok (.Replacement, victim)
      else .ok (mandatory_request_type_to_event request.type, address)
  | .forward msg => do
      let event ← forwardRequestNetwork_in msg
      .ok (event, msg.address)
  | .response msg _ => do
      let event ← responseNetwork_in (s.TBEs msg.address) msg
      .ok (event, msg.address)

/-- What the actions read. -/
def env (s : Structures l1 D) (w : Wakeup l1 D) (address : A) : Env N A D where
  machineID := l1.machineID
  address := address
  directory := l1.mapAddressToDirectory address
  cacheAvail := s.cacheMemory.cacheAvail address
  sendEvictions := l1.config.sendEvictions
  inMsg := w.inMsg
  write := w.write

/-- What a transition leaves of the structures when it ends with `line`. -/
def update (s : Structures l1 D) (address : A) (line : Line D) :
    Except Fault (Structures l1 D) := do
  let cacheMemory ← s.cacheMemory.update address line.cacheEntry
  .ok ⟨cacheMemory, Function.update s.TBEs address line.tbe⟩

variable [Inhabited D]

/-- The transition that is declared for an event at an address. -/
def transitionAt (s : Structures l1 D) (event : Event) (address : A) : Option (Transition N A D) :=
  transition (s.stateOf address) event

/-- Trigger the event of an in-port. -/
def wakeup (s : Structures l1 D) (w : Wakeup l1 D) : Outcome (Structures l1 D) :=
  match s.inPort w with
  | .error fault => .fault fault
  | .ok (event, address) =>
      match doTransition (s.env w address) (s.line address) event with
      | .valid ctx => .ofExcept (s.update address ctx.line)
      | .stall => .stall
      | .fault fault => .fault fault
      | .idle => .idle

/-- The calls of actions that a wakeup makes. -/
def calls (s : Structures l1 D) (w : Wakeup l1 D) : List (Call N A D) :=
  match s.inPort w with
  | .error _ => []
  | .ok (event, address) =>
      match s.transitionAt event address with
      | none | some .z_stall => []
      | some (.run _ actions) =>
          L1Cache.calls (s.env w address) actions { line := s.line address }

/-- The cache memory at the time of a call: so far the transition has changed nothing but the entry
of its address. -/
def memoryAt (s : Structures l1 D) (call : Call N A D) : Except Fault (CacheMemory l1.config D) :=
  s.cacheMemory.update call.env.address call.ctx.line.cacheEntry

end Structures

/-- A controller and the wakeups that its transitions accept. -/
def Controller.alone [DecidableEq A] [Inhabited D] (l1 : Controller N A) :
    TransitionSystem (Structures l1 D) (Wakeup l1 D) where
  init := fun s => s = .initial
  next := fun s w s' => s.wakeup w = .valid s'

/-! ## In-ports -/

section InPorts

variable [DecidableEq A] {l1 : Controller N A} {s : Structures l1 D} {w : Wakeup l1 D}
  {event : Event} {address : A}

omit [DecidableEq A] in
/-- A forward triggers an event of its port. -/
theorem port_of_forward {msg : RequestMsg N A D} (h : forwardRequestNetwork_in msg = .ok event) :
    event.port = .forwardToCache := by
  rw [forwardRequestNetwork_in] at h
  split at h <;> cases h <;> rfl

omit [DecidableEq A] in
/-- A response triggers an event of its port. -/
theorem port_of_response {tbe : Option (TBE D)} {msg : ResponseMsg N A D}
    (h : responseNetwork_in tbe msg = .ok event) : event.port = .responseToCache := by
  rw [responseNetwork_in] at h
  split at h
  · split at h
    · cases h
      rfl
    · obtain ⟨acks, -, h⟩ := bind_eq_ok.mp h
      split at h <;> cases h <;> rfl
  · cases h
    rfl
  · obtain ⟨acks, -, h⟩ := bind_eq_ok.mp h
    split at h <;> cases h <;> rfl
  · exact nomatch h

namespace Structures

/-- What `mandatoryQueue_in` triggers: a replacement of a resident address, or the request, whose
address is then resident or has room. -/
theorem mandatory_spec (s : Structures l1 D) (request : RubyRequest A)
    (victim : Fin l1.config.cacheAssoc) (write : D → D) :
    (∃ other, s.inPort (.mandatory request victim write) = .ok (.Replacement, other) ∧
      (s.cacheMemory.lookup other).isSome = true) ∨
    (s.inPort (.mandatory request victim write) =
        .ok (mandatory_request_type_to_event request.type, request.lineAddress) ∧
      (s.cacheMemory.lookup request.lineAddress = none →
        s.cacheMemory.cacheAvail request.lineAddress = true)) := by
  rw [inPort]
  split
  · next hfull =>
      obtain ⟨-, havail⟩ := (Bool.and_eq_true _ _).mp hfull
      obtain ⟨other, hprobe, -, hresident⟩ :=
        CacheMemory.probe_spec (Bool.not_eq_true' _ |>.mp havail) victim
      exact Or.inl ⟨other, by rw [hprobe]; rfl, hresident⟩
  · next hroom =>
      refine Or.inr ⟨rfl, fun hnone => ?_⟩
      by_contra havail
      exact hroom (by simp [hnone, havail])

/-- The event is one of the in-port. -/
theorem port_of_inPort (h : s.inPort w = .ok (event, address)) : w.inMsg.port = event.port := by
  cases w with
  | mandatory request victim write =>
      rcases s.mandatory_spec request victim write with ⟨other, hreplace, -⟩ | ⟨hrequest, -⟩
      · cases hreplace.symm.trans h
        rfl
      · cases hrequest.symm.trans h
        cases htype : request.type <;> rw [mandatory_request_type_to_event] <;> rfl
  | forward msg =>
      obtain ⟨event', hevent, h⟩ := bind_eq_ok.mp h
      cases h
      exact (port_of_forward hevent).symm
  | response msg write =>
      obtain ⟨event', hevent, h⟩ := bind_eq_ok.mp h
      cases h
      exact (port_of_response hevent).symm

/-- A request of the processor finds its address resident or room for it. -/
theorem avail_of_inPort (h : s.inPort w = .ok (event, address))
    (hnone : s.cacheMemory.lookup address = none) (hport : event.port = .mandatoryQueue) :
    s.cacheMemory.cacheAvail address = true := by
  rw [← port_of_inPort h] at hport
  cases w with
  | mandatory request victim write =>
      rcases s.mandatory_spec request victim write with
        ⟨other, hreplace, hsome⟩ | ⟨hrequest, havail⟩
      · cases hreplace.symm.trans h
        rw [hnone] at hsome
        exact nomatch hsome
      · cases hrequest.symm.trans h
        exact havail hnone
  | forward msg => exact nomatch hport
  | response msg write => exact nomatch hport

/-- A replacement is one of a line that is resident. -/
theorem resident_of_replacement (h : s.inPort w = .ok (.Replacement, address)) :
    (s.cacheMemory.lookup address).isSome = true := by
  have hport := port_of_inPort h
  cases w with
  | mandatory request victim write =>
      rcases s.mandatory_spec request victim write with ⟨other, hreplace, hsome⟩ | ⟨hrequest, -⟩
      · cases hreplace.symm.trans h
        exact hsome
      · have hevent := congrArg Prod.fst (Except.ok.inj (hrequest.symm.trans h))
        cases htype : request.type <;> rw [htype] at hevent <;> exact nomatch hevent
  | forward msg => exact nomatch hport
  | response msg write => exact nomatch hport

end Structures

end InPorts

/-! ## Wakeups -/

section Wakeups

variable [DecidableEq A] [Inhabited D] {l1 : Controller N A} {s s' : Structures l1 D}
  {w : Wakeup l1 D} {event : Event} {address : A}

omit [DecidableEq A] in
/-- A transition runs its actions, and writes the state. -/
theorem do_transition_of_run {env : Env N A D} {line : Line D} {next : State}
    {actions : List (Action N A D)} {ctx : Ctx N A D}
    (h : transition (getState line) event = some (.run next actions))
    (hok : runActions env actions { line := line } = .ok ctx) :
    doTransition env line event = .valid { ctx with line := setState ctx.line next } := by
  rw [doTransition, h]
  show Outcome.ofExcept (runActions env actions { line := line } >>= _) = _
  rw [hok]
  rfl

namespace Structures

omit [Inhabited D] in
/-- An update changes the line of its address only. -/
theorem line_of_update {line : Line D} (h : s.update address line = .ok s') :
    s'.line = Function.update s.line address line := by
  obtain ⟨memory, hmemory, h⟩ := bind_eq_ok.mp h
  cases h
  funext other
  show Line.mk (memory.lookup other) (Function.update s.TBEs address line.tbe other) = _
  rw [CacheMemory.lookup_of_update hmemory]
  by_cases hother : other = address
  · rw [hother, Function.update_self, Function.update_self, Function.update_self]
  · rw [Function.update_of_ne hother, Function.update_of_ne hother,
      Function.update_of_ne hother, Structures.line]

omit [Inhabited D] in
/-- A line with an entry needs a resident address or room for it. -/
theorem exists_update {line : Line D} (h : line.cacheEntry.isSome = true →
      (s.line address).cacheEntry.isSome = true ∨ s.cacheMemory.cacheAvail address = true) :
    ∃ s', s.update address line = .ok s' := by
  have hmemory : ∃ memory, s.cacheMemory.update address line.cacheEntry = .ok memory ∧
      memory.lookup = Function.update s.cacheMemory.lookup address line.cacheEntry :=
    CacheMemory.update_spec fun hentry => (h hentry).elim Or.inl CacheMemory.cache_avail_iff.mp
  obtain ⟨memory, hupdate, -⟩ := hmemory
  exact ⟨⟨memory, Function.update s.TBEs address line.tbe⟩, by rw [update, hupdate]; rfl⟩

/-- A wakeup runs the transition of its event. -/
theorem wakeup_eq (hinPort : s.inPort w = .ok (event, address)) : s.wakeup w =
    match doTransition (s.env w address) (s.line address) event with
    | .valid ctx => .ofExcept (s.update address ctx.line)
    | .stall => .stall
    | .fault fault => .fault fault
    | .idle => .idle := by
  rw [wakeup, hinPort]

/-- Every line has what its state calls for. -/
def Booked (s : Structures l1 D) : Prop := ∀ address, (s.line address).Booked

/-- The actions of a transition find what they need. -/
theorem Booked.runs (hs : s.Booked) (hinPort : s.inPort w = .ok (event, address)) {next : State}
    {actions : List (Action N A D)}
    (h : s.transitionAt event address = some (.run next actions)) :
    Runs (s.env w address) actions (s.line address).allocation next.allocation :=
  (hs address).runs h (port_of_inPort hinPort) (avail_of_inPort hinPort)

/-- A wakeup whose event has a transition ends, and leaves every line booked. -/
theorem Booked.wakeup (hs : s.Booked) (hinPort : s.inPort w = .ok (event, address)) {next : State}
    {actions : List (Action N A D)}
    (h : s.transitionAt event address = some (.run next actions)) :
    ∃ s', s.wakeup w = .valid s' ∧ s'.Booked := by
  have hrun : ∃ ctx, runActions (s.env w address) actions { line := s.line address } = .ok ctx ∧
      ctx.line.allocation = next.allocation := (hs.runs hinPort h).ok rfl
  obtain ⟨ctx, hok, hctx⟩ := hrun
  have hnext : (setState ctx.line next).allocation = next.allocation := by
    rw [allocation_setState, hctx]
  have hroom := (hs address).room h (avail_of_inPort hinPort) hnext
  obtain ⟨s', hupdate⟩ := exists_update hroom
  refine ⟨s', ?_, fun other => ?_⟩
  · rw [wakeup_eq hinPort, do_transition_of_run h hok]
    show Outcome.ofExcept (s.update address (setState ctx.line next)) = _
    rw [hupdate]
    rfl
  · rw [line_of_update hupdate]
    by_cases hother : other = address
    · rw [hother, Function.update_self]
      exact Line.booked_setState hctx
    · rw [Function.update_of_ne hother]
      exact hs other

/-- Without a transition a wakeup fails, and a stall changes nothing. -/
theorem wakeup_of_not_run (hinPort : s.inPort w = .ok (event, address)) :
    (s.transitionAt event address = none → s.wakeup w = .fault .invalidTransition) ∧
    (s.transitionAt event address = some .z_stall → s.wakeup w = .stall) := by
  refine ⟨fun h => ?_, fun h => ?_⟩
  · rw [wakeup_eq hinPort, doTransition,
      show L1Cache.transition (getState (s.line address)) event = none from h]
  · rw [wakeup_eq hinPort, doTransition,
      show L1Cache.transition (getState (s.line address)) event = some .z_stall from h]

/-- What a wakeup that changes the structures triggers. -/
theorem wakeup_cases (h : s.wakeup w = .valid s') :
    ∃ event address next actions, s.inPort w = .ok (event, address) ∧
      s.transitionAt event address = some (.run next actions) := by
  cases hinPort : s.inPort w with
  | error fault =>
      rw [wakeup, hinPort] at h
      exact nomatch h
  | ok triggered =>
      obtain ⟨event, address⟩ := triggered
      obtain ⟨hnone, hstall⟩ := wakeup_of_not_run hinPort
      cases htransition : s.transitionAt event address with
      | none => exact nomatch h.symm.trans (hnone htransition)
      | some declared =>
          cases declared with
          | z_stall => exact nomatch h.symm.trans (hstall htransition)
          | run next actions => exact ⟨event, address, next, actions, rfl, htransition⟩

/-- The calls of a wakeup are those of a transition. -/
theorem calls_cases {call : Call N A D} (h : call ∈ s.calls w) :
    ∃ event address next actions, s.inPort w = .ok (event, address) ∧
      s.transitionAt event address = some (.run next actions) ∧
      call ∈ L1Cache.calls (s.env w address) actions { line := s.line address } := by
  rw [calls] at h
  split at h
  · exact absurd h List.not_mem_nil
  · next event address hinPort =>
      split at h
      · exact absurd h List.not_mem_nil
      · exact absurd h List.not_mem_nil
      · next next actions htransition =>
          exact ⟨event, address, next, actions, hinPort, htransition, h⟩

/-- Run lemma. -/
theorem booked_of_reachable (h : l1.alone.Reachable s) : s.Booked := by
  refine h.invariant ?_ ?_
  · rintro _ rfl
    exact fun _ => Line.booked_empty
  · intro s w s' _ hs _ hstep
    obtain ⟨event, address, next, actions, hinPort, htransition⟩ := wakeup_cases hstep
    obtain ⟨s'', hwakeup, hbooked⟩ := hs.wakeup hinPort htransition
    cases hwakeup.symm.trans hstep
    exact hbooked

/-- Follow wakeups as long as they change the structures. -/
def after (s : Structures l1 D) : List (Wakeup l1 D) → Structures l1 D
  | [] => s
  | w :: ws =>
      match s.wakeup w with
      | .valid s' => s'.after ws
      | _ => s

/-- What is reached after a list of wakeups. -/
theorem reachable_after (h : l1.alone.Reachable s) (ws : List (Wakeup l1 D)) :
    l1.alone.Reachable (s.after ws) := by
  induction ws generalizing s with
  | nil => exact h
  | cons w ws ih =>
      rw [after]
      split
      · next s' hstep => exact ih (h.step trivial hstep)
      · exact h

end Structures

end Wakeups

/-! ## A small L1 -/

namespace Sample

/-- A cache with room for one line. -/
def controller : Controller Unit Nat where
  machineID := ()
  mapAddressToDirectory := fun _ => ()
  config := { addressToCacheSet := fun _ => 0, cacheAssoc := 1, sendEvictions := false }

/-- The only way of the only set. -/
def way : Fin controller.config.cacheAssoc := ⟨0, Nat.one_pos⟩

/-- Address 0 is stored and its data arrives, then address 1 is loaded. -/
def evicting : Structures controller Nat :=
  Structures.initial.after
    [.mandatory ⟨0, .ST⟩ way fun _ => 7, .response ⟨0, .DATA_FROM_DIR, (), 5, 0⟩ fun _ => 7,
      .mandatory ⟨1, .LD⟩ way id]

end Sample

/-! ## The bookkeeping -/

section Bookkeeping

variable [DecidableEq A] [Inhabited D] {l1 : Controller N A} {s : Structures l1 D}

/-- The bookkeeping of an L1. -/
structure Bookkeeping (s : Structures l1 D) : Prop where
  /-- A TBE exists exactly in the transient states. -/
  tbe : ∀ address, (s.TBEs address).isSome = true ↔ (s.stateOf address).isTransient = true
  /-- The TBE agrees with the state of the cache entry. -/
  agrees : ∀ address tbe, s.TBEs address = some tbe →
    ∃ entry, s.cacheMemory.lookup address = some entry ∧ entry.cacheState = tbe.tbeState
  /-- A cache entry exists exactly when the state is not I. -/
  entry : ∀ address, (s.cacheMemory.lookup address).isSome = true ↔ s.stateOf address ≠ .I
  /-- `i_allocateL1CacheBlock` calls `allocate` only for a set with a free way. -/
  allocate : ∀ w, ∀ call ∈ s.calls w, call.action = i_allocateL1CacheBlock →
    call.ctx.line.cacheEntry = none →
    ∃ memory, s.memoryAt call = .ok memory ∧ memory.HasFreeWay call.env.address
  /-- A replacement is triggered only for a resident block. -/
  replacement : ∀ w address, s.inPort w = .ok (.Replacement, address) →
    (s.cacheMemory.lookup address).isSome = true
  /-- No action that is called fails, so no assertion in it does. -/
  assertions : ∀ w, ∀ call ∈ s.calls w, ∃ ctx, call.action call.env call.ctx = .ok ctx
  /-- Where a transition is declared for the event the wakeup does not fail. -/
  accepted : ∀ w event address, s.inPort w = .ok (event, address) →
    s.transitionAt event address ≠ none → ∀ fault, s.wakeup w ≠ .fault fault

omit [DecidableEq A] [Inhabited D] in
/-- The calls of actions that run from allocation to allocation succeed, in their environment. -/
theorem Runs.calls_ok {env : Env N A D} {actions : List (Action N A D)} {a b : Allocation}
    (h : Runs env actions a b) {ctx : Ctx N A D} (hctx : ctx.line.allocation = a) :
    ∀ call ∈ calls env actions ctx,
      call.env = env ∧ ∃ ctx', call.action call.env call.ctx = .ok ctx' := by
  induction h generalizing ctx with
  | nil => exact fun _ hcall => absurd hcall List.not_mem_nil
  | cons haction _ ih =>
      obtain ⟨ctx', hok, hctx'⟩ := haction ctx hctx
      intro call hcall
      rw [calls, hok] at hcall
      rcases List.mem_cons.mp hcall with rfl | hcall
      · exact ⟨rfl, ctx', hok⟩
      · exact ih hctx' call hcall

omit [DecidableEq A] in
/-- Where `i_allocateL1CacheBlock` succeeds without an entry there is room. -/
theorem avail_of_allocate {env : Env N A D} {ctx ctx' : Ctx N A D}
    (h : i_allocateL1CacheBlock env ctx = .ok ctx') (hnone : ctx.line.cacheEntry = none) :
    env.cacheAvail = true := by
  rw [i_allocateL1CacheBlock, hnone] at h
  obtain ⟨_, hassert, -⟩ := bind_eq_ok.mp h
  exact assert_that_eq_ok.mp hassert

/-- In every state that an L1 reaches by events that its transitions accept its bookkeeping is
right. -/
theorem bookkeeping_of_reachable (h : l1.alone.Reachable s) : Bookkeeping s := by
  have hs := Structures.booked_of_reachable h
  have hcalls : ∀ w, ∀ call ∈ s.calls w, ∃ event address, s.inPort w = .ok (event, address) ∧
      call.env = s.env w address ∧ ∃ ctx, call.action call.env call.ctx = .ok ctx := by
    intro w call hcall
    obtain ⟨event, address, next, actions, hinPort, htransition, hcall⟩ :=
      Structures.calls_cases hcall
    exact ⟨event, address, hinPort, (hs.runs hinPort htransition).calls_ok rfl call hcall⟩
  refine ⟨fun address => ?_, fun address tbe htbe => (hs address).agrees htbe, fun address => ?_,
    fun w call hcall haction hnone => ?_, fun w address => Structures.resident_of_replacement,
    fun w call hcall => ?_, fun w event address hinPort htransition fault hfault => ?_⟩
  · rw [Structures.stateOf, ← State.allocation_tbe, ← (hs address).allocated]
    rfl
  · rw [Structures.stateOf, ne_eq, ← State.allocation_entry, ← (hs address).allocated,
      Bool.not_eq_false]
    rfl
  · obtain ⟨event, address, -, henv, ctx, hok⟩ := hcalls w call hcall
    rw [haction] at hok
    have havail := avail_of_allocate hok hnone
    rw [henv] at havail
    have hupdate : ∃ memory, s.cacheMemory.update address none = .ok memory ∧
        memory.lookup = Function.update s.cacheMemory.lookup address none :=
      CacheMemory.update_spec nofun
    obtain ⟨memory, hmemory, -⟩ := hupdate
    rw [Structures.memoryAt, hnone, henv]
    exact ⟨memory, hmemory, CacheMemory.free_way_of_update havail hmemory⟩
  · obtain ⟨_, _, -, -, hok⟩ := hcalls w call hcall
    exact hok
  · cases hdeclared : s.transitionAt event address with
    | none => exact htransition hdeclared
    | some declared =>
        cases declared with
        | z_stall =>
            exact nomatch ((Structures.wakeup_of_not_run hinPort).2 hdeclared).symm.trans hfault
        | run next actions =>
            obtain ⟨s', hwakeup, -⟩ := hs.wakeup hinPort hdeclared
            exact nomatch hwakeup.symm.trans hfault

/-- An L1 with room for one line evicts address 0, which it has modified. -/
theorem bookkeeping_of_eviction :
    Bookkeeping Sample.evicting ∧ Sample.evicting.stateOf 0 = .MI_A :=
  ⟨bookkeeping_of_reachable (Structures.reachable_after (.init rfl) _), by decide⟩

end Bookkeeping

end Ece552.Msi.L1Cache
