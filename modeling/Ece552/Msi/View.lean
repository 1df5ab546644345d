import Ece552.Msi.Block
import Ece552.Msi.System

/-!
# One address of the system

`view` picks what the system holds for one address, as a `Block`. Packets become the messages of
the block when they are well formed: requests come from an L1 and go to the directory of their
address, forwards the other way. `WellFormed` also says what an L1 has allocated in each state. A
step changes the view of the address it is about; `view_commitL1` and `view_commitDir` say how.
-/

namespace Ece552.Msi

open Library

/-! ## Lines -/

section Lines

variable {N D : Type}

/-- An L1 has an entry unless it is in state I, and a TBE in the transient states, which holds the
data of the entry while a modified line is written back. -/
inductive L1Cache.Line.WellFormed : L1Cache.Line D → Prop where
  | invalid : WellFormed ⟨none, none⟩
  | stable {state : L1Cache.State} {data : D} : state = .S ∨ state = .M →
      WellFormed ⟨some ⟨state, data⟩, none⟩
  | transient {entryState state : L1Cache.State} {data buffer : D} {pendingAcks : Int} :
      state ≠ .I ∧ state ≠ .S ∧ state ≠ .M → (state = .MI_A → buffer = data) →
      WellFormed ⟨some ⟨entryState, data⟩, some ⟨state, buffer, pendingAcks⟩⟩

/-- A line in I is well formed. -/
@[simp] theorem L1Cache.Line.well_formed_invalid :
    L1Cache.Line.WellFormed (D := D) ⟨none, none⟩ := .invalid

/-- A line without a TBE is in S or M. -/
@[simp] theorem L1Cache.Line.well_formed_stable {state : L1Cache.State} {data : D} :
    L1Cache.Line.WellFormed ⟨some ⟨state, data⟩, none⟩ ↔ state = .S ∨ state = .M :=
  ⟨fun h => by cases h; assumption, .stable⟩

/-- A line with a TBE is on its way. -/
@[simp] theorem L1Cache.Line.well_formed_transient {entryState state : L1Cache.State}
    {data buffer : D} {pendingAcks : Int} :
    L1Cache.Line.WellFormed ⟨some ⟨entryState, data⟩, some ⟨state, buffer, pendingAcks⟩⟩ ↔
      (state ≠ .I ∧ state ≠ .S ∧ state ≠ .M) ∧ (state = .MI_A → buffer = data) :=
  ⟨fun h => by cases h; exact ⟨‹_›, ‹_›⟩, fun h => .transient h.1 h.2⟩

/-- A directory has a TBE in the transient states. -/
inductive Directory.Line.WellFormed : Directory.Line N D → Prop where
  | stable {entry : Directory.Entry N D} :
      entry.directoryState = .I ∨ entry.directoryState = .S ∨ entry.directoryState = .M →
      WellFormed ⟨entry, none⟩
  | transient {entry : Directory.Entry N D} {state : Directory.State} {buffer : D} :
      state ≠ .I ∧ state ≠ .S ∧ state ≠ .M → WellFormed ⟨entry, some ⟨state, buffer⟩⟩

/-- A directory line without a TBE is in I, S or M. -/
@[simp] theorem Directory.Line.well_formed_stable {entry : Directory.Entry N D} :
    Directory.Line.WellFormed ⟨entry, none⟩ ↔
      entry.directoryState = .I ∨ entry.directoryState = .S ∨ entry.directoryState = .M :=
  ⟨fun h => by cases h; assumption, .stable⟩

/-- A directory line with a TBE is on its way. -/
@[simp] theorem Directory.Line.well_formed_transient {entry : Directory.Entry N D}
    {state : Directory.State} {buffer : D} :
    Directory.Line.WellFormed ⟨entry, some ⟨state, buffer⟩⟩ ↔
      state ≠ .I ∧ state ≠ .S ∧ state ≠ .M :=
  ⟨fun h => by cases h; assumption, .transient⟩

/-- The data block of the entry. -/
def L1Cache.Line.data [Inhabited D] (line : L1Cache.Line D) : D :=
  match line.cacheEntry with
  | some entry => entry.dataBlk
  | none => default

/-- The ack count of the TBE. -/
def L1Cache.Line.acks (line : L1Cache.Line D) : Int :=
  match line.tbe with
  | some tbe => tbe.pendingAcks
  | none => 0

end Lines

/-! ## Packets -/

section Packets

variable {ι δ A D : Type} (config : Config ι δ A D)

/-- The machine is an L1. -/
def MachineID.isCache : MachineID ι δ → Prop
  | .L1Cache _ => True
  | .Directory _ => False

/-- The machine of an L1 is one. -/
@[simp] theorem MachineID.cache_isCache {i : ι} :
    (MachineID.L1Cache i : MachineID ι δ).isCache := trivial

/-- The directory of an address. -/
def Config.home (address : A) : MachineID ι δ := .Directory (config.mapAddressToDirectory address)

/-- A request goes from the L1 that makes it to the directory of its address. -/
structure RequestOk (p : Packet (MachineID ι δ) (RequestMsg (MachineID ι δ) A D)) : Prop where
  src : p.src.isCache
  requestor : p.msg.requestor = p.src
  dst : p.dst = config.home p.msg.address
  type : p.msg.type ∈ [CoherenceRequestType.GETS, .GETM, .PUTS, .PUTM]

/-- What is right about a request. -/
theorem requestOk_iff {p : Packet (MachineID ι δ) (RequestMsg (MachineID ι δ) A D)} :
    RequestOk config p ↔ p.src.isCache ∧ p.msg.requestor = p.src ∧
      p.dst = config.home p.msg.address ∧
      p.msg.type ∈ [CoherenceRequestType.GETS, .GETM, .PUTS, .PUTM] :=
  ⟨fun h => ⟨h.src, h.requestor, h.dst, h.type⟩, fun ⟨h, h', h'', h'''⟩ => ⟨h, h', h'', h'''⟩⟩

/-- A forward goes from the directory of its address to an L1. -/
structure ForwardOk (p : Packet (MachineID ι δ) (RequestMsg (MachineID ι δ) A D)) : Prop where
  src : p.src = config.home p.msg.address
  dst : p.dst.isCache
  requestor : p.msg.type ≠ .WB_ACK → p.msg.requestor.isCache
  type : p.msg.type ∈ [CoherenceRequestType.GETS, .GETM, .INV, .WB_ACK]

/-- What is right about a forward. -/
theorem forwardOk_iff {p : Packet (MachineID ι δ) (RequestMsg (MachineID ι δ) A D)} :
    ForwardOk config p ↔ p.src = config.home p.msg.address ∧ p.dst.isCache ∧
      (p.msg.type ≠ .WB_ACK → p.msg.requestor.isCache) ∧
      p.msg.type ∈ [CoherenceRequestType.GETS, .GETM, .INV, .WB_ACK] :=
  ⟨fun h => ⟨h.src, h.dst, h.requestor, h.type⟩, fun ⟨h, h', h'', h'''⟩ => ⟨h, h', h'', h'''⟩⟩

/-- A response goes to an L1, or it is the data of an L1 for the directory of its address. -/
inductive ResponseOk : Packet (MachineID ι δ) (ResponseMsg (MachineID ι δ) A D) → Prop where
  | data {src dst : MachineID ι δ} {msg : ResponseMsg (MachineID ι δ) A D} :
      dst.isCache → msg.type = .DATA_FROM_DIR ∨ msg.type = .DATA_FROM_OWNER →
      ResponseOk ⟨src, dst, msg⟩
  | ack {src dst : MachineID ι δ} {msg : ResponseMsg (MachineID ι δ) A D} :
      dst.isCache → msg.type = .ACK → msg.ackCount = 1 → ResponseOk ⟨src, dst, msg⟩
  | downgrade {src dst : MachineID ι δ} {msg : ResponseMsg (MachineID ι δ) A D} :
      src.isCache → dst = config.home msg.address → msg.type = .DATA → msg.sender = src →
      ResponseOk ⟨src, dst, msg⟩

/-- An acknowledgement goes to an L1. -/
@[simp] theorem response_ok_ack {src dst sender : MachineID ι δ} {address : A} {data : D} :
    ResponseOk config ⟨src, dst, ⟨address, .ACK, sender, data, 1⟩⟩ ↔ dst.isCache :=
  ⟨fun h => by cases h <;> simp_all, fun h => .ack h rfl rfl⟩

/-- The data of an owner goes to an L1. -/
@[simp] theorem response_ok_data_from_owner {src dst sender : MachineID ι δ} {address : A}
    {data : D} {ackCount : Int} :
    ResponseOk config ⟨src, dst, ⟨address, .DATA_FROM_OWNER, sender, data, ackCount⟩⟩ ↔
      dst.isCache :=
  ⟨fun h => by cases h <;> simp_all, fun h => .data h (Or.inr rfl)⟩

/-- The data of the directory goes to an L1. -/
@[simp] theorem response_ok_data_from_dir {src dst sender : MachineID ι δ} {address : A}
    {data : D} {ackCount : Int} :
    ResponseOk config ⟨src, dst, ⟨address, .DATA_FROM_DIR, sender, data, ackCount⟩⟩ ↔
      dst.isCache :=
  ⟨fun h => by cases h <;> simp_all, fun h => .data h (Or.inl rfl)⟩

/-- A downgrade goes from its L1 to the home of the address. -/
@[simp] theorem response_ok_downgrade {src dst sender : MachineID ι δ} {address : A}
    {data : D} {ackCount : Int} :
    ResponseOk config ⟨src, dst, ⟨address, .DATA, sender, data, ackCount⟩⟩ ↔
      src.isCache ∧ dst = config.home address ∧ sender = src :=
  ⟨fun h => by cases h <;> simp_all, fun h => .downgrade h.1 h.2.1 rfl h.2.2⟩

variable [DecidableEq A] (address : A)

/-- The request of a packet, if it is about the address. -/
def requestOf (p : Packet (MachineID ι δ) (RequestMsg (MachineID ι δ) A D)) :
    Option (MachineID ι δ × Request D) :=
  if p.msg.address = address then
    match p.msg.type with
    | .GETS => some (p.src, .GETS)
    | .GETM => some (p.src, .GETM)
    | .PUTS => some (p.src, .PUTS)
    | .PUTM => some (p.src, .PUTM p.msg.dataBlk)
    | _ => none
  else none

/-- The forward of a packet, if it is about the address. -/
def forwardOf (p : Packet (MachineID ι δ) (RequestMsg (MachineID ι δ) A D)) :
    Option (MachineID ι δ × Forward (MachineID ι δ)) :=
  if p.msg.address = address then
    match p.msg.type with
    | .GETS => some (p.dst, .GETS p.msg.requestor)
    | .GETM => some (p.dst, .GETM p.msg.requestor)
    | .INV => some (p.dst, .INV p.msg.requestor)
    | .WB_ACK => some (p.dst, .WB_ACK)
    | _ => none
  else none

/-- The response to an L1 in a packet, if it is about the address. -/
def responseOf (p : Packet (MachineID ι δ) (ResponseMsg (MachineID ι δ) A D)) :
    Option (MachineID ι δ × Response D) :=
  if p.msg.address = address then
    match p.msg.type with
    | .DATA_FROM_DIR => some (p.dst, .DATA p.msg.dataBlk p.msg.ackCount)
    | .DATA_FROM_OWNER => some (p.dst, .DATA p.msg.dataBlk 0)
    | .ACK => some (p.dst, .ACK)
    | _ => none
  else none

/-- The data for the directory in a packet, if it is about the address. -/
def downgradeOf (p : Packet (MachineID ι δ) (ResponseMsg (MachineID ι δ) A D)) :
    Option (MachineID ι δ × D) :=
  if p.msg.address = address ∧ p.msg.type = .DATA then some (p.src, p.msg.dataBlk) else none

/-- The memory request, if it is about the address. -/
def memoryOf (m : MemoryMsg (MachineID ι δ) A D) :
    Option (MachineID ι δ × MemoryRequestType × D) :=
  if m.address = address then some (m.originalRequestorMachId, m.type, m.dataBlk) else none

end Packets

variable {ι δ A D : Type} [DecidableEq ι] [DecidableEq δ] [DecidableEq A] [Inhabited D]
  (config : Config ι δ A D)

/-! ## The view -/

/-- The state in which a machine has the line; a directory caches nothing. -/
def cacheState (s : System ι δ A D) (address : A) : MachineID ι δ → L1Cache.State
  | .L1Cache i => L1Cache.getState (s.line i address)
  | .Directory _ => .I

/-- The data of a machine's copy. -/
def cacheData (s : System ι δ A D) (address : A) : MachineID ι δ → D
  | .L1Cache i => (s.line i address).data
  | .Directory _ => default

/-- The pending acks of a machine's TBE. -/
def cacheAcks (s : System ι δ A D) (address : A) : MachineID ι δ → Int
  | .L1Cache i => (s.line i address).acks
  | .Directory _ => 0

/-- What the system holds for one address, when `image` has the values last stored. -/
def view (s : System ι δ A D) (image : A → D) (address : A) : Block (MachineID ι δ) D where
  state := cacheState s address
  data := cacheData s address
  pendingAcks := cacheAcks s address
  requests := s.requestNet.inFlight.filterMap (requestOf address)
  forwards := s.forwardNet.inFlight.filterMap (forwardOf address)
  responses := s.responseNet.inFlight.filterMap (responseOf address)
  downgrades := s.responseNet.inFlight.filterMap (downgradeOf address)
  memory := (s.memQueue (config.mapAddressToDirectory address)).filterMap (memoryOf address)
  dir := Directory.getState (s.dir address)
  dirData := (s.dir address).entry.dataBlk
  sharers := (s.dir address).entry.sharers
  owner := (s.dir address).entry.owner
  image := image address

/-- The lines and the packets in flight are well formed. -/
structure System.WellFormed (s : System ι δ A D) : Prop where
  line : ∀ i address, (s.line i address).WellFormed
  dir : ∀ address, (s.dir address).WellFormed
  sharers : ∀ address, ∀ m ∈ (s.dir address).entry.sharers, m.isCache
  owner : ∀ address, ∀ m ∈ (s.dir address).entry.owner, m.isCache
  memory : ∀ d, ∀ m ∈ s.memQueue d,
    config.mapAddressToDirectory m.address = d ∧ m.originalRequestorMachId.isCache
  request : ∀ p ∈ s.requestNet.inFlight, RequestOk config p
  forward : ∀ p ∈ s.forwardNet.inFlight, ForwardOk config p
  response : ∀ p ∈ s.responseNet.inFlight, ResponseOk config p

/-! ## Taking the head of a buffer -/

section Pop

variable {config} {s : System ι δ A D} {image : A → D} {address other : A}

omit [DecidableEq ι] [DecidableEq δ] [Inhabited D] in
/-- A request in the view is of the address, from the machine that sent it. -/
theorem fst_of_requestOf {p : Packet (MachineID ι δ) (RequestMsg (MachineID ι δ) A D)}
    {y : MachineID ι δ × Request D} (h : requestOf address p = some y) :
    p.msg.address = address ∧ y.1 = p.src := by
  unfold requestOf at h
  split at h
  · next haddress => split at h <;> simp_all <;> simp [← h]
  · cases h

omit [DecidableEq ι] [DecidableEq δ] [Inhabited D] in
/-- A forward in the view is of the address, to the machine that gets it. -/
theorem fst_of_forwardOf {p : Packet (MachineID ι δ) (RequestMsg (MachineID ι δ) A D)}
    {y : MachineID ι δ × Forward (MachineID ι δ)} (h : forwardOf address p = some y) :
    p.msg.address = address ∧ y.1 = p.dst := by
  unfold forwardOf at h
  split at h
  · next haddress => split at h <;> simp_all <;> simp [← h]
  · cases h

/-- The head of the request buffer of a directory is the oldest request of its L1. -/
theorem System.WellFormed.popped_request (hs : s.WellFormed config) (image : A → D) (address : A)
    {d : δ}
    {p : Packet (MachineID ι δ) (RequestMsg (MachineID ι δ) A D)}
    (h : s.requestNet.head (.Directory d) = some p) {y : MachineID ι δ × Request D}
    (hy : requestOf address p = some y) :
    Popped (view config s image address).requests y
      ((s.requestNet.pop (.Directory d)).inFlight.filterMap (requestOf address)) := by
  obtain ⟨hdst, before, after, hsplit, hpop, hfirst⟩ := Network.pop_spec h
  obtain ⟨haddress, hfst⟩ := fst_of_requestOf hy
  have hp := hs.request p (by simp [hsplit])
  refine ⟨before.filterMap (requestOf address), after.filterMap (requestOf address), ?_, ?_, ?_⟩
  · simp [view, hsplit, List.filterMap_append, hy]
  · simp [hpop, List.filterMap_append]
  · intro z hz heq
    obtain ⟨q, hq, hqz⟩ := List.mem_filterMap.mp hz
    obtain ⟨hqaddress, hqfst⟩ := fst_of_requestOf hqz
    have hqok := hs.request q (by simp [hsplit, hq])
    refine hfirst q hq ⟨by rw [← hqfst, heq, hfst], ?_⟩
    rw [hqok.dst, hqaddress, ← hdst, hp.dst, haddress]

/-- The head of the forward buffer of an L1 is the oldest forward for the address. -/
theorem System.WellFormed.popped_forward (hs : s.WellFormed config) (image : A → D) (address : A)
    {i : ι}
    {p : Packet (MachineID ι δ) (RequestMsg (MachineID ι δ) A D)}
    (h : s.forwardNet.head (.L1Cache i) = some p) {y : MachineID ι δ × Forward (MachineID ι δ)}
    (hy : forwardOf address p = some y) :
    Popped (view config s image address).forwards y
      ((s.forwardNet.pop (.L1Cache i)).inFlight.filterMap (forwardOf address)) := by
  obtain ⟨hdst, before, after, hsplit, hpop, hfirst⟩ := Network.pop_spec h
  obtain ⟨haddress, hfst⟩ := fst_of_forwardOf hy
  have hp := hs.forward p (by simp [hsplit])
  refine ⟨before.filterMap (forwardOf address), after.filterMap (forwardOf address), ?_, ?_, ?_⟩
  · simp [view, hsplit, List.filterMap_append, hy]
  · simp [hpop, List.filterMap_append]
  · intro z hz heq
    obtain ⟨q, hq, hqz⟩ := List.mem_filterMap.mp hz
    obtain ⟨hqaddress, hqfst⟩ := fst_of_forwardOf hqz
    have hqok := hs.forward q (by simp [hsplit, hq])
    refine hfirst q hq ⟨?_, by rw [← hqfst, heq, hfst, hdst]⟩
    rw [hqok.src, hqaddress, hp.src, haddress]

/-- Consuming the head of a buffer takes it out of the messages in flight. -/
theorem removed_of_head {M : Type} {net : Network (MachineID ι δ) M} {dst : MachineID ι δ}
    {p : Packet (MachineID ι δ) M} (h : net.head dst = some p) :
    Removed net.inFlight p (net.pop dst).inFlight := by
  obtain ⟨-, before, after, hsplit, hpop, -⟩ := Network.pop_spec h
  exact ⟨before, after, hsplit, hpop⟩

/-- What is in flight after a pop was in flight before. -/
theorem mem_of_mem_pop {M : Type} {net : Network (MachineID ι δ) M} {dst : MachineID ι δ}
    {p : Packet (MachineID ι δ) M} (h : p ∈ (net.pop dst).inFlight) : p ∈ net.inFlight := by
  cases hhead : net.head dst with
  | none => rwa [Network.pop_of_head_none hhead] at h
  | some q => exact (removed_of_head hhead).mem_of_rest h

/-- Taking a message about one address leaves the messages about another alone. -/
theorem filterMap_pop {M α : Type} {net : Network (MachineID ι δ) M} {dst : MachineID ι δ}
    {f : Packet (MachineID ι δ) M → Option α} (h : ∀ p, net.head dst = some p → f p = none) :
    (net.pop dst).inFlight.filterMap f = net.inFlight.filterMap f := by
  cases hhead : net.head dst with
  | none => rw [Network.pop_of_head_none hhead]
  | some q => exact (removed_of_head hhead).filter_map_none (h q hhead)

end Pop

/-! ## What a step writes -/

/-- The line of an L1 is replaced. -/
def Block.setLine {N : Type} [DecidableEq N] (b : Block N D) (i : N) (line : L1Cache.Line D) :
    Block N D :=
  { b with
    state := setAt b.state i (L1Cache.getState line)
    data := setAt b.data i line.data
    pendingAcks := setAt b.pendingAcks i line.acks }

section Commit

variable {config} {s : System ι δ A D} {image : A → D} {address other : A} {i : ι} {d : δ}

omit [Inhabited D] in
/-- The line of the L1 is the one that is committed. -/
@[simp] theorem line_commitL1_self (ctx : L1Cache.Ctx (MachineID ι δ) A D) :
    (s.commitL1 i address ctx).line i address = ctx.line := by
  simp [System.line, System.commitL1]

omit [Inhabited D] in
/-- The other lines stay as they are. -/
theorem line_commitL1_ne (ctx : L1Cache.Ctx (MachineID ι δ) A D) {j : ι}
    (h : j ≠ i ∨ other ≠ address) :
    (s.commitL1 i address ctx).line j other = s.line j other := by
  by_cases hj : j = i
  · subst hj
    simp [System.line, System.commitL1,
      (s.l1 j).line_setLine_ne ctx.line (h.resolve_left fun h => h rfl)]
  · simp [System.line, System.commitL1, hj]

/-- What the view says of the line of an L1. -/
theorem view_line (config : Config ι δ A D) (image : A → D) {line : L1Cache.Line D}
    (h : s.line i address = line) :
    (view config s image address).state (.L1Cache i) = L1Cache.getState line ∧
    (view config s image address).data (.L1Cache i) = line.data ∧
    (view config s image address).pendingAcks (.L1Cache i) = line.acks := by
  subst h
  exact ⟨rfl, rfl, rfl⟩

omit [Inhabited D] in
/-- The last value stored is the one that the callbacks tell of. -/
theorem observe_self {callbacks : List (L1Cache.Callback D)} :
    observe image (callbacks.map (address, ·)) address =
      L1Cache.lastWritten (image address) callbacks := by
  simp [observe, List.filterMap_map]

omit [Inhabited D] in
/-- Nothing is stored at other addresses. -/
theorem observe_ne {callbacks : List (L1Cache.Callback D)} (h : other ≠ address) :
    observe image (callbacks.map (address, ·)) other = image other := by
  simp [observe, List.filterMap_map, Ne.symm h, L1Cache.lastWritten]

/-- What a transition of an L1 does to the view of its address. -/
theorem System.WellFormed.view_commitL1 (hs : s.WellFormed config)
    (ctx : L1Cache.Ctx (MachineID ι δ) A D) :
    view config (s.commitL1 i address ctx) (observe image (ctx.callbacks.map (address, ·)))
        address =
      { (view config s image address).setLine (.L1Cache i) ctx.line with
        requests := (view config s image address).requests ++
          ctx.requestFromCache.filterMap (requestOf address)
        forwards :=
          if .forwardToCache ∈ ctx.dequeued then
            (s.forwardNet.pop (.L1Cache i)).inFlight.filterMap (forwardOf address)
          else (view config s image address).forwards
        responses :=
          (if .responseToCache ∈ ctx.dequeued then
            (s.responseNet.pop (.L1Cache i)).inFlight.filterMap (responseOf address)
          else (view config s image address).responses) ++
            ctx.responseFromCache.filterMap (responseOf address)
        downgrades := (view config s image address).downgrades ++
          ctx.responseFromCache.filterMap (downgradeOf address)
        image := L1Cache.lastWritten (view config s image address).image ctx.callbacks } := by
  have hline : ∀ j, (s.commitL1 i address ctx).line j address =
      if j = i then ctx.line else s.line j address := by
    intro j
    by_cases hj : j = i
    · subst hj
      simp
    · rw [if_neg hj, line_commitL1_ne ctx (Or.inl hj)]
  -- a response to an L1 is no data for the directory
  have hdowngrades : (s.responseNet.pop (.L1Cache i)).inFlight.filterMap (downgradeOf address) =
      s.responseNet.inFlight.filterMap (downgradeOf address) := by
    refine filterMap_pop fun p hp => ?_
    have hdst := (Network.pop_spec hp).1
    cases hs.response p (removed_of_head hp).mem with
    | data _ htype => rcases htype with htype | htype <;> simp [downgradeOf, htype]
    | ack _ htype _ => simp [downgradeOf, htype]
    | downgrade _ hhome _ _ => simp_all [Config.home]
  unfold view Block.setLine
  congr 1
  · funext m
    cases m with
    | L1Cache j => simp only [cacheState, hline, Block.setAt_apply, MachineID.L1Cache.injEq]; grind
    | Directory d => rfl
  · funext m
    cases m with
    | L1Cache j => simp only [cacheData, hline, Block.setAt_apply, MachineID.L1Cache.injEq]; grind
    | Directory d => rfl
  · funext m
    cases m with
    | L1Cache j => simp only [cacheAcks, hline, Block.setAt_apply, MachineID.L1Cache.injEq]; grind
    | Directory d => rfl
  · simp [System.commitL1, List.filterMap_append]
  · simp only [System.commitL1]
    split <;> rfl
  · simp only [System.commitL1, Network.send_in_flight, List.filterMap_append]
    split <;> rfl
  · simp only [System.commitL1, Network.send_in_flight, List.filterMap_append]
    split
    · rw [hdowngrades]
    · rfl
  · exact observe_self

/-- A transition of an L1 for an address sends well-formed packets for it, takes the head of a
buffer only for a message about it, and answers loads with the data of the line, which it does not
store to. -/
structure System.CommitsL1 (config : Config ι δ A D) (s : System ι δ A D) (i : ι) (address : A)
    (ctx : L1Cache.Ctx (MachineID ι δ) A D) : Prop where
  line : ctx.line.WellFormed
  requests : ∀ p ∈ ctx.requestFromCache, RequestOk config p ∧ p.msg.address = address
  responses : ∀ p ∈ ctx.responseFromCache, ResponseOk config p ∧ p.msg.address = address
  forward : .forwardToCache ∈ ctx.dequeued → ∀ p, s.forwardNet.head (.L1Cache i) = some p →
    p.msg.address = address
  response : .responseToCache ∈ ctx.dequeued → ∀ p, s.responseNet.head (.L1Cache i) = some p →
    p.msg.address = address
  load : ∀ data, .readCallback data ∈ ctx.callbacks → data = ctx.line.data ∧
    L1Cache.getState ctx.line ∈ [L1Cache.State.S, .SM_AD, .SM_A, .M] ∧
    ∀ value, L1Cache.lastWritten value ctx.callbacks = value

omit [DecidableEq ι] [DecidableEq δ] [Inhabited D] in
/-- A request for another address is not in the view. -/
theorem requestOf_ne {p : Packet (MachineID ι δ) (RequestMsg (MachineID ι δ) A D)}
    (h : p.msg.address ≠ address) : requestOf address p = none := if_neg h

omit [DecidableEq ι] [DecidableEq δ] [Inhabited D] in
/-- Nor is a forward for another address. -/
theorem forwardOf_ne {p : Packet (MachineID ι δ) (RequestMsg (MachineID ι δ) A D)}
    (h : p.msg.address ≠ address) : forwardOf address p = none := if_neg h

omit [DecidableEq ι] [DecidableEq δ] [Inhabited D] in
/-- Nor is a response for another address. -/
theorem responseOf_ne {p : Packet (MachineID ι δ) (ResponseMsg (MachineID ι δ) A D)}
    (h : p.msg.address ≠ address) : responseOf address p = none := if_neg h

omit [DecidableEq ι] [DecidableEq δ] [Inhabited D] in
/-- Nor is a downgrade for another address. -/
theorem downgradeOf_ne {p : Packet (MachineID ι δ) (ResponseMsg (MachineID ι δ) A D)}
    (h : p.msg.address ≠ address) : downgradeOf address p = none :=
  if_neg fun h' => h h'.1

/-- A transition of an L1 leaves the view of other addresses alone. -/
theorem System.CommitsL1.view_ne {ctx : L1Cache.Ctx (MachineID ι δ) A D}
    (h : s.CommitsL1 config i address ctx) (hne : other ≠ address) :
    view config (s.commitL1 i address ctx) (observe image (ctx.callbacks.map (address, ·))) other =
      view config s image other := by
  have hline : ∀ j, (s.commitL1 i address ctx).line j other = s.line j other :=
    fun j => line_commitL1_ne ctx (Or.inr hne)
  have hrequests : ctx.requestFromCache.filterMap (requestOf other) = [] := by
    refine List.filterMap_eq_nil_iff.mpr fun p hp => requestOf_ne ?_
    rw [(h.requests p hp).2]
    exact hne.symm
  have hresponses : ctx.responseFromCache.filterMap (responseOf other) = [] := by
    refine List.filterMap_eq_nil_iff.mpr fun p hp => responseOf_ne ?_
    rw [(h.responses p hp).2]
    exact hne.symm
  have hdowngrades : ctx.responseFromCache.filterMap (downgradeOf other) = [] := by
    refine List.filterMap_eq_nil_iff.mpr fun p hp => downgradeOf_ne ?_
    rw [(h.responses p hp).2]
    exact hne.symm
  have hforward : .forwardToCache ∈ ctx.dequeued → ∀ p, s.forwardNet.head (.L1Cache i) = some p →
      p.msg.address ≠ other := fun hd p hp => by rw [h.forward hd p hp]; exact hne.symm
  have hresponse : .responseToCache ∈ ctx.dequeued →
      ∀ p, s.responseNet.head (.L1Cache i) = some p → p.msg.address ≠ other :=
    fun hd p hp => by rw [h.response hd p hp]; exact hne.symm
  unfold view
  congr 1
  · funext m
    cases m <;> simp [cacheState, hline]
  · funext m
    cases m <;> simp [cacheData, hline]
  · funext m
    cases m <;> simp [cacheAcks, hline]
  · simp [System.commitL1, List.filterMap_append, hrequests]
  · simp only [System.commitL1]
    split
    · next hd => exact filterMap_pop fun p hp => forwardOf_ne (hforward hd p hp)
    · rfl
  · simp only [System.commitL1, Network.send_in_flight, List.filterMap_append, hresponses,
      List.append_nil]
    split
    · next hd => exact filterMap_pop fun p hp => responseOf_ne (hresponse hd p hp)
    · rfl
  · simp only [System.commitL1, Network.send_in_flight, List.filterMap_append, hdowngrades,
      List.append_nil]
    split
    · next hd => exact filterMap_pop fun p hp => downgradeOf_ne (hresponse hd p hp)
    · rfl
  · exact observe_ne hne

/-- A transition of an L1 keeps the system well formed. -/
theorem System.CommitsL1.wellFormed {ctx : L1Cache.Ctx (MachineID ι δ) A D}
    (h : s.CommitsL1 config i address ctx) (hs : s.WellFormed config) :
    (s.commitL1 i address ctx).WellFormed config where
  line := by
    intro j other
    by_cases hj : j = i ∧ other = address
    · obtain ⟨rfl, rfl⟩ := hj
      simpa using h.line
    · rw [line_commitL1_ne ctx (by tauto)]
      exact hs.line j other
  dir := hs.dir
  sharers := hs.sharers
  owner := hs.owner
  memory := hs.memory
  request := by
    intro p hp
    rcases List.mem_append.mp hp with hp | hp
    · exact hs.request p hp
    · exact (h.requests p hp).1
  forward := by
    intro p hp
    simp only [System.commitL1] at hp
    split at hp
    · exact hs.forward p (mem_of_mem_pop hp)
    · exact hs.forward p hp
  response := by
    intro p hp
    rcases List.mem_append.mp hp with hp | hp
    · split at hp
      · exact hs.response p (mem_of_mem_pop hp)
      · exact hs.response p hp
    · exact (h.responses p hp).1

/-- What the view says of the line of the directory. -/
theorem view_dir (config : Config ι δ A D) (image : A → D)
    {line : Directory.Line (MachineID ι δ) D} (h : s.dir address = line) :
    (view config s image address).dir = Directory.getState line ∧
    (view config s image address).dirData = line.entry.dataBlk ∧
    (view config s image address).sharers = line.entry.sharers ∧
    (view config s image address).owner = line.entry.owner := by
  subst h
  exact ⟨rfl, rfl, rfl, rfl⟩

/-- A transition of the directory for an address sends well-formed packets and memory requests
for it, takes a message only about it, and lists only L1s. -/
structure System.CommitsDir (config : Config ι δ A D) (s : System ι δ A D) (d : δ) (index : Nat)
    (address : A) (ctx : Directory.Ctx (MachineID ι δ) A D) : Prop where
  line : ctx.line.WellFormed
  sharers : ∀ m ∈ ctx.line.entry.sharers, m.isCache
  owner : ∀ m ∈ ctx.line.entry.owner, m.isCache
  forwards : ∀ p ∈ ctx.forwardFromDir, ForwardOk config p ∧ p.msg.address = address
  responses : ∀ p ∈ ctx.responseFromDir,
    p.dst.isCache ∧ p.msg.type = .DATA_FROM_DIR ∧ p.msg.address = address
  memory : ∀ m ∈ ctx.memBuffer, m.address = address ∧ m.originalRequestorMachId.isCache
  request : .requestToDir ∈ ctx.dequeued → ∀ p, s.requestNet.head (.Directory d) = some p →
    p.msg.address = address
  response : .responseToDir ∈ ctx.dequeued → ∀ p, s.responseNet.head (.Directory d) = some p →
    p.msg.address = address
  reply : .memBuffer ∈ ctx.dequeued → ∀ m, (s.memQueue d)[index]? = some m → m.address = address

/-- Taking the reply to a request leaves the other images alone. -/
theorem filterMap_eraseIdx {α β : Type} {l : List α} {n : Nat} {f : α → Option β}
    (h : ∀ x, l[n]? = some x → f x = none) : (l.eraseIdx n).filterMap f = l.filterMap f := by
  cases hx : l[n]? with
  | none => rw [List.eraseIdx_of_length_le (List.getElem?_eq_none_iff.mp hx)]
  | some x => exact (Removed.eraseIdx hx).filter_map_none (h x hx)

omit [Inhabited D] in
/-- A response to a directory is no response to an L1. -/
theorem System.WellFormed.responses_pop_directory (hs : s.WellFormed config) :
    (s.responseNet.pop (.Directory d)).inFlight.filterMap (responseOf address) =
      s.responseNet.inFlight.filterMap (responseOf address) := by
  refine filterMap_pop fun p hp => ?_
  have hdst := (Network.pop_spec hp).1
  cases hs.response p (removed_of_head hp).mem with
  | data hcache _ | ack hcache _ _ => simp_all [MachineID.isCache]
  | downgrade _ _ htype _ => simp [responseOf, htype]

/-- What a transition of the directory does to the view of its address. -/
theorem System.WellFormed.view_commitDir (hs : s.WellFormed config)
    (hhome : config.mapAddressToDirectory address = d)
    (ctx : Directory.Ctx (MachineID ι δ) A D) (index : Nat) :
    view config (s.commitDir d index address ctx) image address =
      { view config s image address with
        requests :=
          if .requestToDir ∈ ctx.dequeued then
            (s.requestNet.pop (.Directory d)).inFlight.filterMap (requestOf address)
          else (view config s image address).requests
        forwards := (view config s image address).forwards ++
          ctx.forwardFromDir.filterMap (forwardOf address)
        responses := (view config s image address).responses ++
          ctx.responseFromDir.filterMap (responseOf address)
        downgrades :=
          (if .responseToDir ∈ ctx.dequeued then
            (s.responseNet.pop (.Directory d)).inFlight.filterMap (downgradeOf address)
          else (view config s image address).downgrades) ++
            ctx.responseFromDir.filterMap (downgradeOf address)
        memory :=
          (if .memBuffer ∈ ctx.dequeued then
            ((s.memQueue d).eraseIdx index).filterMap (memoryOf address)
          else (view config s image address).memory) ++ ctx.memBuffer.filterMap (memoryOf address)
        dir := Directory.getState ctx.line
        dirData := ctx.line.entry.dataBlk
        sharers := ctx.line.entry.sharers
        owner := ctx.line.entry.owner } := by
  subst hhome
  unfold view
  congr 1
  · simp only [System.commitDir]
    split <;> rfl
  · simp [System.commitDir, List.filterMap_append]
  · simp only [System.commitDir, Network.send_in_flight, List.filterMap_append]
    split
    · rw [hs.responses_pop_directory]
    · rfl
  · simp only [System.commitDir, Network.send_in_flight, List.filterMap_append]
    split <;> rfl
  · simp only [System.commitDir, Function.update_self, List.filterMap_append]
    split <;> rfl
  all_goals simp [System.commitDir]

/-- A transition of the directory leaves the view of other addresses alone. -/
theorem System.CommitsDir.view_ne {ctx : Directory.Ctx (MachineID ι δ) A D} {index : Nat}
    (h : s.CommitsDir config d index address ctx) (hne : other ≠ address) :
    view config (s.commitDir d index address ctx) image other = view config s image other := by
  have hforwards : ctx.forwardFromDir.filterMap (forwardOf other) = [] := by
    refine List.filterMap_eq_nil_iff.mpr fun p hp => forwardOf_ne ?_
    rw [(h.forwards p hp).2]
    exact hne.symm
  have hresponses : ctx.responseFromDir.filterMap (responseOf other) = [] := by
    refine List.filterMap_eq_nil_iff.mpr fun p hp => responseOf_ne ?_
    rw [(h.responses p hp).2.2]
    exact hne.symm
  have hdowngrades : ctx.responseFromDir.filterMap (downgradeOf other) = [] := by
    refine List.filterMap_eq_nil_iff.mpr fun p hp => downgradeOf_ne ?_
    rw [(h.responses p hp).2.2]
    exact hne.symm
  have hmemory : ctx.memBuffer.filterMap (memoryOf other) = [] := by
    refine List.filterMap_eq_nil_iff.mpr fun m hm => if_neg ?_
    rw [(h.memory m hm).1]
    exact hne.symm
  have hrequest : .requestToDir ∈ ctx.dequeued →
      ∀ p, s.requestNet.head (.Directory d) = some p → p.msg.address ≠ other :=
    fun hd p hp => by rw [h.request hd p hp]; exact hne.symm
  have hresponse : .responseToDir ∈ ctx.dequeued →
      ∀ p, s.responseNet.head (.Directory d) = some p → p.msg.address ≠ other :=
    fun hd p hp => by rw [h.response hd p hp]; exact hne.symm
  have hreply : .memBuffer ∈ ctx.dequeued →
      ∀ m, (s.memQueue d)[index]? = some m → memoryOf other m = none :=
    fun hd m hm => if_neg (by rw [h.reply hd m hm]; exact hne.symm)
  unfold view
  congr 1
  · simp only [System.commitDir]
    split
    · next hd => exact filterMap_pop fun p hp => requestOf_ne (hrequest hd p hp)
    · rfl
  · simp [System.commitDir, List.filterMap_append, hforwards]
  · simp only [System.commitDir, Network.send_in_flight, List.filterMap_append, hresponses,
      List.append_nil]
    split
    · next hd => exact filterMap_pop fun p hp => responseOf_ne (hresponse hd p hp)
    · rfl
  · simp only [System.commitDir, Network.send_in_flight, List.filterMap_append, hdowngrades,
      List.append_nil]
    split
    · next hd => exact filterMap_pop fun p hp => downgradeOf_ne (hresponse hd p hp)
    · rfl
  · by_cases hd : config.mapAddressToDirectory other = d
    · subst hd
      simp only [System.commitDir, Function.update_self, List.filterMap_append, hmemory,
        List.append_nil]
      split
      · next hd => exact filterMap_eraseIdx (hreply hd)
      · rfl
    · simp [System.commitDir, hd]
  all_goals simp [System.commitDir, hne]

omit [Inhabited D] in
/-- A transition of the directory keeps the system well formed. -/
theorem System.CommitsDir.wellFormed {ctx : Directory.Ctx (MachineID ι δ) A D} {index : Nat}
    (h : s.CommitsDir config d index address ctx) (hs : s.WellFormed config)
    (hhome : config.mapAddressToDirectory address = d) :
    (s.commitDir d index address ctx).WellFormed config where
  line := hs.line
  dir := by
    intro other
    by_cases hother : other = address
    · subst hother
      simpa [System.commitDir] using h.line
    · simpa [System.commitDir, hother] using hs.dir other
  sharers := by
    intro other
    by_cases hother : other = address
    · subst hother
      simpa [System.commitDir] using h.sharers
    · simpa [System.commitDir, hother] using hs.sharers other
  owner := by
    intro other
    by_cases hother : other = address
    · subst hother
      simpa [System.commitDir] using h.owner
    · simpa [System.commitDir, hother] using hs.owner other
  memory := by
    intro d' m hm
    by_cases hd : d' = d
    · subst hd
      simp only [System.commitDir, Function.update_self] at hm
      rcases List.mem_append.mp hm with hm | hm
      · split at hm
        · exact hs.memory d' m (List.mem_of_mem_eraseIdx hm)
        · exact hs.memory d' m hm
      · exact ⟨(h.memory m hm).1 ▸ hhome, (h.memory m hm).2⟩
    · exact hs.memory d' m (by simpa [System.commitDir, hd] using hm)
  request := by
    intro p hp
    simp only [System.commitDir] at hp
    split at hp
    · exact hs.request p (mem_of_mem_pop hp)
    · exact hs.request p hp
  forward := by
    intro p hp
    rcases List.mem_append.mp hp with hp | hp
    · exact hs.forward p hp
    · exact (h.forwards p hp).1
  response := by
    intro p hp
    rcases List.mem_append.mp hp with hp | hp
    · split at hp
      · exact hs.response p (mem_of_mem_pop hp)
      · exact hs.response p hp
    · obtain ⟨hdst, htype, -⟩ := h.responses p hp
      exact .data hdst (Or.inl htype)

end Commit

end Ece552.Msi
