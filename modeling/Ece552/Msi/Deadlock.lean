import Ece552.Library.WaitGraph
import Ece552.Msi.Completeness
import Ece552.Msi.Waiting

/-!
# Deadlocks

A stalled message blocks everything behind it in its buffer, for other addresses too. In runs that
take the writebacks as they are meant, no in-port can move only where L1s wait for each other in a
circle: each stalls a forwarded request at the head of its buffer, and waits for what a forward in
the buffer of the next one leads to. The forwards of one directory are sent in an order in which
nobody waits for anything later, so such a circle needs two directories. Then it is possible.
-/

namespace Ece552.Msi

open Library Block Relation
open Directory (Trigger)
open scoped Sample

variable {ι δ A D : Type} [DecidableEq ι] [DecidableEq δ] [DecidableEq A] [Inhabited D]
  {config : Config ι δ A D} {s : System ι δ A D}

/-! ## What can happen next -/

/-- Something happens other than a stall. An error stops the simulation, it does not wait. -/
def Outcome.moves {α : Type} : Outcome α → Bool
  | .valid _ | .fault _ => true
  | .stall | .idle => false

/-- The label needs a request of a processor. -/
def Label.isMandatory : Label ι δ A D → Bool
  | .mandatory .. => true
  | _ => false

/-- Without a request of a processor, a message can be delivered or an in-port takes a step that is
not a stall. -/
def System.CanMove (config : Config ι δ A D) (s : System ι δ A D) : Prop :=
  ∃ l : Label ι δ A D, l.isMandatory = false ∧ (step config s l).moves = true

/-- Something can move while an L1 is in a transient state. -/
def System.DeadlockFree (config : Config ι δ A D) (s : System ι δ A D) : Prop :=
  ∀ i address, (s.stateOf i address).isTransient = true → s.CanMove config

/-- A forward is at the head of the buffer of an L1, which stalls it. -/
def System.Stalled (config : Config ι δ A D) (s : System ι δ A D)
    (p : Packet (MachineID ι δ) (RequestMsg (MachineID ι δ) A D)) : Prop :=
  ∃ i, s.forwardNet.head (.L1Cache i) = some p ∧ step config s (.forward i) = .stall

/-- The L1 that stalls `p` waits for what a forward on its behalf leads to, which is in the buffer
of the L1 that stalls `q`. -/
structure System.WaitsFor (config : Config ι δ A D) (s : System ι δ A D)
    (p q : Packet (MachineID ι δ) (RequestMsg (MachineID ι δ) A D)) : Prop where
  stalled : s.Stalled config p
  next : s.Stalled config q
  answer : ∃ w ∈ s.forwardNet.arrived, w.dst = q.dst ∧ w.msg.address = p.msg.address ∧
    w.msg.requestor = p.dst ∧ w.msg.type ∈ [CoherenceRequestType.GETM, .INV]

/-- L1s wait for each other in a circle, and stall forwards of different directories. -/
def System.CircularWait (config : Config ι δ A D) (s : System ι δ A D) : Prop :=
  ∃ p q, s.WaitsFor config p q ∧ ReflTransGen (s.WaitsFor config) q p ∧
    config.mapAddressToDirectory p.msg.address ≠ config.mapAddressToDirectory q.msg.address

/-- A writeback that is taken twice, without an answer, or for something else. -/
def upsetsPut (t : Trigger (MachineID ι δ)) : Bool := mistakesPut t || t.dropsPut

/-! ## What an in-port stalls -/

@[simp] theorem Outcome.moves_map {α β : Type} {f : α → β} {o : Outcome α} :
    (o.map f).moves = o.moves := by
  cases o <;> rfl

@[simp] theorem Outcome.moves_of_except {α : Type} {r : Except Fault α} :
    (Outcome.ofExcept r).moves = true := by
  cases r <;> rfl

/-- An L1 stalls only an event that has a stall for its transition. -/
theorem stall_of_l1Trigger {i : ι} {address : A} {inMsg : L1Cache.InMsg (MachineID ι δ) A D}
    {write : D → D} {event : Except Fault L1Cache.Event}
    (h : (l1Trigger config s i address inMsg write event).moves = false) :
    ∃ e, event = .ok e ∧ (L1Cache.transition (s.stateOf i address) e :
      Option (L1Cache.Transition (MachineID ι δ) A D)) = some .z_stall := by
  rw [l1Trigger, Outcome.moves_map] at h
  cases event with
  | error fault => cases h
  | ok e =>
      refine ⟨e, rfl, ?_⟩
      rw [L1Cache.trigger, L1Cache.doTransition] at h
      split at h
      · cases h
      · assumption
      · rw [Outcome.moves_of_except] at h
        cases h

/-- A directory stalls only an event that has a stall for its transition. -/
theorem stall_of_dirTrigger {d : δ} {index : Nat} {address : A}
    {inMsg : Directory.InMsg (MachineID ι δ) A D} {event : Except Fault Directory.Event}
    (h : (dirTrigger config s d index address inMsg event).moves = false) :
    ∃ e, event = .ok e ∧ (Directory.transition (s.dirStateOf address) e :
      Option (Directory.Transition (MachineID ι δ) A D)) = some .z_stall := by
  rw [dirTrigger] at h
  split at h
  · rw [Outcome.moves_map] at h
    cases event with
    | error fault => cases h
    | ok e =>
        refine ⟨e, rfl, ?_⟩
        rw [Directory.trigger, Directory.doTransition] at h
        split at h
        · cases h
        · assumption
        · rw [Outcome.moves_of_except] at h
          cases h
  · cases h

omit [DecidableEq A] in
/-- The events that a directory stalls are requests for the line in a transient state. -/
theorem dir_stall {N : Type} [DecidableEq N] {state : Directory.State} {e : Directory.Event}
    (h : (Directory.transition state e : Option (Directory.Transition N A D)) = some .z_stall) :
    (e = .GETS ∨ e = .GETM) ∧ state ≠ .I ∧ state ≠ .S ∧ state ≠ .M := by
  cases state <;> cases e <;>
    first
    | (cases h; done)
    | exact ⟨Or.inl rfl, nofun, nofun, nofun⟩
    | exact ⟨Or.inr rfl, nofun, nofun, nofun⟩

omit [DecidableEq A] in
/-- The events of the networks that an L1 stalls are forwarded requests while it waits for the line,
and invalidations while it waits for a copy. -/
theorem l1_stall {N : Type} {state : L1Cache.State} {e : L1Cache.Event}
    (h : (L1Cache.transition state e : Option (L1Cache.Transition N A D)) = some .z_stall) :
    e ∈ [L1Cache.Event.Load, .Ifetch, .Store, .Replacement] ∨
      (e = .Fwd_GetS ∨ e = .Fwd_GetM) ∧ Upgrading state ∨ e = .Inv ∧ state = .IS_D := by
  cases state <;> cases e <;>
    first
    | (cases h; done)
    | exact Or.inl (by decide)
    | exact Or.inr (Or.inl (by decide))
    | exact Or.inr (Or.inr (by decide))

omit [DecidableEq A] [Inhabited D] in
/-- The events of the response network. -/
theorem response_event {N : Type} {tbe : Option (L1Cache.TBE D)} {msg : ResponseMsg N A D}
    {e : L1Cache.Event} (h : L1Cache.responseNetwork_in tbe msg = .ok e) :
    e ∈ [L1Cache.Event.Inv_Ack, .Inv_Ack_all, .Data_from_Dir_No_Acks, .Data_from_Dir_Ack_Cnt,
      .Data_from_Dir_Ack_Cnt_Last, .Data_from_Owner] := by
  unfold L1Cache.responseNetwork_in at h
  cases tbe <;> simp only [L1Cache.getPendingAcks, bind, Except.bind] at h <;>
    repeat' split at h
  all_goals cases h <;> decide

omit [DecidableEq A] in
/-- An L1 stalls no response. -/
theorem response_not_stalled {N : Type} {tbe : Option (L1Cache.TBE D)} {msg : ResponseMsg N A D}
    {state : L1Cache.State} {e : L1Cache.Event} (he : L1Cache.responseNetwork_in tbe msg = .ok e) :
    (L1Cache.transition state e : Option (L1Cache.Transition N A D)) ≠ some .z_stall := by
  intro hstall
  have hevent := response_event he
  rcases l1_stall hstall with hcpu | ⟨rfl | rfl, -⟩ | ⟨rfl, -⟩
  · simp only [List.mem_cons, List.not_mem_nil, or_false] at hcpu
    rcases hcpu with rfl | rfl | rfl | rfl <;> simp at hevent
  · simp at hevent
  · simp at hevent
  · simp at hevent

/-! ## When nothing moves -/

theorem moves_of_stuck (h : ¬ s.CanMove config) {l : Label ι δ A D} (hl : l.isMandatory = false) :
    (step config s l).moves = false :=
  Bool.eq_false_iff.mpr fun hmoves => h ⟨l, hl, hmoves⟩

/-- Everything in flight has arrived. -/
structure System.Arrived (s : System ι δ A D) : Prop where
  request : ∀ p ∈ s.requestNet.inFlight, p ∈ s.requestNet.arrived
  forward : ∀ p ∈ s.forwardNet.inFlight, p ∈ s.forwardNet.arrived
  response : ∀ p ∈ s.responseNet.inFlight, p ∈ s.responseNet.arrived

theorem arrived_of_stuck (h : ¬ s.CanMove config) : s.Arrived where
  request := by
    intro p hp
    have hmoves := moves_of_stuck h (l := .deliverRequest p.src p.dst) rfl
    rw [step] at hmoves
    split at hmoves
    · next hnone => exact Network.arrived_of_no_delivery hnone hp
    · cases hmoves
  forward := by
    intro p hp
    have hmoves := moves_of_stuck h (l := .deliverForward p.src p.dst) rfl
    rw [step] at hmoves
    split at hmoves
    · next hnone => exact Network.arrived_of_no_delivery hnone hp
    · cases hmoves
  response := by
    intro p hp
    have hmoves := moves_of_stuck h (l := .deliverResponse p.src p.dst) rfl
    rw [step] at hmoves
    split at hmoves
    · next hnone => exact Network.arrived_of_no_delivery hnone hp
    · cases hmoves

/-- No response is left in flight. -/
theorem responses_of_stuck (h : ¬ s.CanMove config) : s.responseNet.inFlight = [] := by
  refine List.eq_nil_iff_forall_not_mem.mpr fun p hp => ?_
  obtain ⟨q, hq⟩ := Network.exists_head ((arrived_of_stuck h).response p hp)
  cases hdst : p.dst with
  | L1Cache i =>
      rw [hdst] at hq
      have hmoves := moves_of_stuck h (l := .response i id) rfl
      rw [step, hq] at hmoves
      obtain ⟨e, he, hstall⟩ := stall_of_l1Trigger hmoves
      exact response_not_stalled he hstall
  | Directory d =>
      rw [hdst] at hq
      have hmoves := moves_of_stuck h (l := .dirResponse d) rfl
      rw [step, hq] at hmoves
      obtain ⟨e, he, hstall⟩ := stall_of_dirTrigger hmoves
      have hdata : e = .Data := by
        unfold Directory.responseQueue_in at he
        split at he
        · exact (Except.ok.inj he).symm
        · cases he
      rcases (dir_stall hstall).1 with rfl | rfl <;> cases hdata

/-- No memory request is left. -/
theorem memory_of_stuck (h : ¬ s.CanMove config) (d : δ) : s.memQueue d = [] := by
  cases hqueue : s.memQueue d with
  | nil => rfl
  | cons m ms =>
      have hmoves := moves_of_stuck h (l := .dirMemory d 0) rfl
      rw [step, hqueue] at hmoves
      obtain ⟨e, he, hstall⟩ := stall_of_dirTrigger hmoves
      have hevent := (dir_stall hstall).1
      obtain rfl := Except.ok.inj he
      unfold Directory.memQueue_in at hevent
      split at hevent <;> rcases hevent with hevent | hevent <;> cases hevent

theorem quiet_of_stuck (h : ¬ s.CanMove config) (image : A → D) (address : A) :
    (view config s image address).Quiet where
  responses := by simp [view, responses_of_stuck h]
  downgrades := by simp [view, responses_of_stuck h]
  memory := by simp [view, memory_of_stuck h]

/-- A request that is left is behind one that its directory stalls while a line is downgraded. -/
theorem forward_of_request (h : ¬ s.CanMove config) (hs : s.WellFormed config) {image : A → D}
    (hc : ∀ address, (view config s image address).Coherent)
    {p : Packet (MachineID ι δ) (RequestMsg (MachineID ι δ) A D)}
    (hp : p ∈ s.requestNet.inFlight) : s.forwardNet.inFlight ≠ [] := by
  obtain ⟨q, hq⟩ := Network.exists_head ((arrived_of_stuck h).request p hp)
  rw [(hs.request p hp).dst, Config.home] at hq
  have hmoves := moves_of_stuck h
    (l := .dirRequest (config.mapAddressToDirectory p.msg.address)) rfl
  rw [step, hq] at hmoves
  obtain ⟨e, -, hstall⟩ := stall_of_dirTrigger hmoves
  have hwaits := (hc q.msg.address).dir_waits (quiet_of_stuck h image q.msg.address)
    (dir_stall hstall).2
  intro hnone
  exact hwaits (by simp [view, hnone])

/-- While an L1 is in a transient state a forward is left. -/
theorem forward_of_transient (h : ¬ s.CanMove config) (hs : s.WellFormed config) {image : A → D}
    (hc : ∀ address, (view config s image address).Coherent) {i : ι} {address : A}
    (hw : (view config s image address).WritebackBalanced (.L1Cache i))
    (hst : (s.stateOf i address).isTransient = true) : s.forwardNet.inFlight ≠ [] := by
  have hstate : (view config s image address).state (.L1Cache i) = s.stateOf i address := rfl
  have htransient : s.stateOf i address ≠ .I ∧ s.stateOf i address ≠ .S ∧
      s.stateOf i address ≠ .M := by
    refine ⟨?_, ?_, ?_⟩ <;> intro heq <;> rw [heq] at hst <;> cases hst
  rw [← hstate] at htransient
  rcases (hc address).waits_for_message hw (quiet_of_stuck h image address) htransient with
    hrequests | hforwards
  · obtain ⟨x, hx⟩ := List.exists_mem_of_ne_nil _ hrequests
    obtain ⟨p, hp, -⟩ := List.mem_filterMap.mp hx
    exact forward_of_request h hs hc hp
  · intro hnone
    exact hforwards (by simp [view, hnone])

omit [DecidableEq A] [Inhabited D] in
/-- The events of the forward network. -/
theorem forward_event {N : Type} {msg : RequestMsg N A D} {e : L1Cache.Event}
    (h : L1Cache.forwardRequestNetwork_in msg = .ok e) :
    (msg.type = .GETM ∧ e = .Fwd_GetM) ∨ (msg.type = .GETS ∧ e = .Fwd_GetS) ∨
      (msg.type = .INV ∧ e = .Inv) ∨ (msg.type = .WB_ACK ∧ e = .WB_Ack) := by
  unfold L1Cache.forwardRequestNetwork_in at h
  split at h
  · next htype => exact Or.inl ⟨htype, (Except.ok.inj h).symm⟩
  · next htype => exact Or.inr (Or.inl ⟨htype, (Except.ok.inj h).symm⟩)
  · next htype => exact Or.inr (Or.inr (Or.inl ⟨htype, (Except.ok.inj h).symm⟩))
  · next htype => exact Or.inr (Or.inr (Or.inr ⟨htype, (Except.ok.inj h).symm⟩))
  · cases h

/-- The head of a forward buffer is a forwarded request that its L1 stalls while it waits for the
line. -/
theorem stalled_of_head (h : ¬ s.CanMove config) {image : A → D} {i : ι}
    {p : Packet (MachineID ι δ) (RequestMsg (MachineID ι δ) A D)}
    (he : (view config s image p.msg.address).Expected)
    (hhead : s.forwardNet.head (.L1Cache i) = some p) :
    s.Stalled config p ∧
      (∃ m, forwardOf p.msg.address p = some (.L1Cache i, m) ∧ m.isRequest = true) ∧
      Upgrading (s.stateOf i p.msg.address) := by
  have hmoves := moves_of_stuck h (l := .forward i) rfl
  rw [step, hhead] at hmoves
  obtain ⟨e, hevent, hstall⟩ := stall_of_l1Trigger hmoves
  have hstalled : s.Stalled config p := by
    refine ⟨i, hhead, ?_⟩
    rw [step, hhead]
    show l1Trigger config s i p.msg.address (.forward p.msg) id _ = .stall
    rw [hevent, l1Trigger, L1Cache.trigger, L1Cache.doTransition]
    rw [System.stateOf] at hstall
    rw [hstall]
    rfl
  have hmem : p ∈ s.forwardNet.inFlight :=
    Network.mem_in_flight_of_arrived (Network.arrived_of_head hhead).1
  have hdst := (Network.arrived_of_head hhead).2
  rcases l1_stall hstall with hcpu | ⟨hrequest, hupgrading⟩ | ⟨rfl, hcopy⟩
  · rcases forward_event hevent with ⟨-, rfl⟩ | ⟨-, rfl⟩ | ⟨-, rfl⟩ | ⟨-, rfl⟩ <;> simp at hcpu
  · refine ⟨hstalled, ?_, hupgrading⟩
    rcases forward_event hevent with ⟨htype, -⟩ | ⟨htype, -⟩ | ⟨-, rfl⟩ | ⟨-, rfl⟩
    · exact ⟨.GETM p.msg.requestor, by simp [forwardOf, htype, hdst], rfl⟩
    · exact ⟨.GETS p.msg.requestor, by simp [forwardOf, htype, hdst], rfl⟩
    · simp at hrequest
    · simp at hrequest
  · -- the data for the copy is in flight, and can be taken
    have htype : p.msg.type = .INV := by
      rcases forward_event hevent with ⟨-, heq⟩ | ⟨-, heq⟩ | ⟨htype, -⟩ | ⟨-, heq⟩
      · cases heq
      · cases heq
      · exact htype
      · cases heq
    have hinv : (.L1Cache i, .INV p.msg.requestor) ∈
        (view config s image p.msg.address).forwards :=
      List.mem_filterMap.mpr ⟨p, hmem, by simp [forwardOf, htype, hdst]⟩
    have hcopied := (he.invalidated (.L1Cache i) (tally_pos.mpr ⟨_, hinv, rfl⟩)).2
    have hstate : (view config s image p.msg.address).state (.L1Cache i) = .IS_D := hcopy
    rw [Invalidatable, hstate, (quiet_of_stuck h image p.msg.address).responses] at hcopied
    simp at hcopied

/-- A forward that is left is in the buffer of an L1, which has a head. -/
theorem head_of_forward (h : ¬ s.CanMove config) (hs : s.WellFormed config)
    {w : Packet (MachineID ι δ) (RequestMsg (MachineID ι δ) A D)}
    (hw : w ∈ s.forwardNet.inFlight) :
    ∃ k q, w.dst = q.dst ∧ s.forwardNet.head (.L1Cache k) = some q := by
  obtain ⟨q, hq⟩ := Network.exists_head ((arrived_of_stuck h).forward w hw)
  have hdst := (Network.arrived_of_head hq).2
  have hcache := (hs.forward w hw).dst
  cases hk : w.dst with
  | L1Cache k =>
      rw [hk] at hq hdst
      exact ⟨k, q, hdst.symm, hq⟩
  | Directory d =>
      rw [hk] at hcache
      exact hcache.elim

omit [DecidableEq ι] [DecidableEq δ] [Inhabited D] in
/-- A packet holds a forwarded GETM or an invalidation on behalf of an L1 if it names the L1. -/
theorem forwardOf_named {address : A} {r : MachineID ι δ}
    {w : Packet (MachineID ι δ) (RequestMsg (MachineID ι δ) A D)} :
    (∃ y, forwardOf address w = some y ∧ (y.2 = .GETM r ∨ y.2 = .INV r)) ↔
      w.msg.address = address ∧ w.msg.requestor = r ∧
        w.msg.type ∈ [CoherenceRequestType.GETM, .INV] := by
  obtain ⟨src, dst, a, type, requestor, data⟩ := w
  by_cases ha : a = address
  · cases type <;> simp [forwardOf, ha]
  · simp [forwardOf, ha]

/-- An L1 that stalls the head of its forward buffer waits for another one that does. -/
theorem waits_of_stuck (h : ¬ s.CanMove config) (hs : s.WellFormed config) {image : A → D}
    (hc : ∀ address, (view config s image address).Coherent)
    (he : ∀ address, (view config s image address).Expected)
    {p : Packet (MachineID ι δ) (RequestMsg (MachineID ι δ) A D)} (hp : s.Stalled config p) :
    ∃ q, s.WaitsFor config p q := by
  obtain ⟨i, hhead, -⟩ := hp
  obtain ⟨hstalled, ⟨m, hm, hrequest⟩, hupgrading⟩ := stalled_of_head h (he p.msg.address) hhead
  obtain ⟨harrived, hdst⟩ := Network.arrived_of_head hhead
  have hmem : (.L1Cache i, m) ∈ (view config s image p.msg.address).forwards :=
    List.mem_filterMap.mpr ⟨p, Network.mem_in_flight_of_arrived harrived, hm⟩
  obtain ⟨y, hy, hkind⟩ := (hc p.msg.address).waits_for_forward (he p.msg.address)
    (quiet_of_stuck h image p.msg.address) hmem hrequest hupgrading
  obtain ⟨w, hw, hwy⟩ := List.mem_filterMap.mp hy
  obtain ⟨k, q, hqdst, hq⟩ := head_of_forward h hs hw
  refine ⟨q, hstalled, (stalled_of_head h (he q.msg.address) hq).1, w,
    (arrived_of_stuck h).forward w hw, hqdst, ?_⟩
  rw [hdst]
  exact forwardOf_named.mp ⟨y, hwy, hkind⟩

/-- Forwards of one directory are sent in an order in which an L1 waits for an earlier one. -/
theorem place_lt_of_waits (h : ¬ s.CanMove config) (hs : s.WellFormed config) {image : A → D}
    (he : ∀ address, (view config s image address).Expected)
    (ho : ∀ address, AskedInOrder (view config s image address).forwards)
    {p q : Packet (MachineID ι δ) (RequestMsg (MachineID ι δ) A D)} (hwaits : s.WaitsFor config p q)
    (hhome : config.mapAddressToDirectory p.msg.address =
      config.mapAddressToDirectory q.msg.address) :
    s.forwardNet.place q < s.forwardNet.place p := by
  obtain ⟨⟨i, hhead, -⟩, ⟨j, hq, -⟩, w, harrived, hwdst, hnames⟩ := hwaits
  obtain ⟨-, ⟨m, hm, hrequest⟩, -⟩ := stalled_of_head h (he p.msg.address) hhead
  obtain ⟨hdst, before, after, hsplit, -, hfirst⟩ := Network.pop_spec hhead
  have hw := Network.mem_in_flight_of_arrived harrived
  have hqmem := Network.mem_in_flight_of_arrived (Network.arrived_of_head hq).1
  -- the two forwards at the address of `p`
  obtain ⟨y, hwy, hkind⟩ := forwardOf_named.mpr hnames
  have hbehalf : y.2.behalf = some (.L1Cache i) := by
    rw [← hdst]
    rcases hkind with hkind | hkind <;> rw [hkind] <;> rfl
  have hforwards : (view config s image p.msg.address).forwards =
      before.filterMap (forwardOf p.msg.address) ++
        (.L1Cache i, m) :: after.filterMap (forwardOf p.msg.address) := by
    simp [view, hsplit, List.filterMap_append, hm]
  have horder := ho p.msg.address
  rw [hforwards] at horder
  have hbefore : w ∈ before := by
    rw [hsplit] at hw
    rcases List.mem_append.mp hw with hw | hw
    · exact hw
    · -- what is on behalf of the L1 is not behind `p`
      refine absurd ?_ (horder.ahead hrequest hbehalf)
      rcases List.mem_cons.mp hw with rfl | hw
      · exact List.mem_cons.mpr (Or.inl (Option.some.inj (hwy.symm.trans hm)))
      · exact List.mem_cons_of_mem _ (List.mem_filterMap.mpr ⟨w, hw, hwy⟩)
  refine Network.place_lt hsplit (hdst ▸ hfirst) hbefore ?_ hwdst
  rw [(hs.forward w hw).src, (hs.forward q hqmem).src, hnames.1, Config.home, Config.home, hhome]

/-- Runs that take the writebacks as they are meant are coherent, send what is expected and in
order, and acknowledge every writeback. -/
theorem waiting_of_run (h : (msi config).Run (System.Avoids upsetsPut) s) :
    ∃ image, ∀ address, (view config s image address).Coherent ∧
      (view config s image address).Expected ∧
      AskedInOrder (view config s image address).forwards ∧
      ∀ i, (view config s image address).WritebackBalanced i := by
  obtain ⟨image, hruns⟩ := view_of_run h
  refine ⟨image, fun address => ⟨?_, ?_, ?_, ?_⟩⟩
  · exact .of_run (fun _ _ h => h.of_or.1.of_or.2) (hruns address)
  · exact .of_run (fun _ _ h => h.of_or.1.of_or) (hruns address)
  · exact .of_run (fun _ _ h => h.of_or.1.of_or) (hruns address)
  · exact .of_run (fun _ _ h => ⟨h.of_or.1.of_or.1, h.of_or.2⟩) (hruns address)

/-- Where nothing moves while an L1 is in a transient state, L1s wait for each other. -/
theorem circular_wait_of_stuck (h : (msi config).Run (System.Avoids upsetsPut) s) {i : ι}
    {address : A} (hst : (s.stateOf i address).isTransient = true)
    (hstuck : ¬ s.CanMove config) : s.CircularWait config := by
  have hs := wellFormed_of_run h
  obtain ⟨image, hviews⟩ := waiting_of_run h
  have hc := fun address => (hviews address).1
  have he := fun address => (hviews address).2.1
  have hfinite : {p | s.Stalled config p}.Finite := by
    refine (List.finite_toSet s.forwardNet.arrived).subset ?_
    rintro p ⟨i, hhead, -⟩
    exact (Network.arrived_of_head hhead).1
  have hnonempty : {p | s.Stalled config p}.Nonempty := by
    have hw := (hviews address).2.2.2 (.L1Cache i)
    obtain ⟨w, hw⟩ := List.exists_mem_of_ne_nil _ (forward_of_transient hstuck hs hc hw hst)
    obtain ⟨k, q, -, hq⟩ := head_of_forward hstuck hs hw
    exact ⟨q, (stalled_of_head hstuck (he q.msg.address) hq).1⟩
  have hwaits : ∀ p ∈ {p | s.Stalled config p}, ∃ q ∈ {p | s.Stalled config p},
      s.WaitsFor config p q := by
    intro p hp
    obtain ⟨q, hq⟩ := waits_of_stuck hstuck hs hc he hp
    exact ⟨q, hq.next, hq⟩
  obtain ⟨p, q, hpq, hqp, hle⟩ := exists_circle s.forwardNet.place hfinite hnonempty hwaits
  refine ⟨p, q, hpq, hqp, fun hhome => Nat.not_lt.mpr hle ?_⟩
  exact place_lt_of_waits hstuck hs he (fun address => (hviews address).2.2.1) hpq hhome

/-- In runs that take the writebacks as they are meant there is no deadlock, unless L1s wait for
each other in a circle; with a single directory there is none at all. -/
theorem deadlock_free (h : (msi config).Run (System.Avoids upsetsPut) s) :
    (s.DeadlockFree config ∨ s.CircularWait config) ∧
      ((∀ d d' : δ, d = d') → s.DeadlockFree config) := by
  have hmain : s.DeadlockFree config ∨ s.CircularWait config := by
    by_contra hnone
    obtain ⟨hdeadlock, hcircle⟩ := not_or.mp hnone
    refine hdeadlock fun i address hst => ?_
    by_contra hstuck
    exact hcircle (circular_wait_of_stuck h hst hstuck)
  exact ⟨hmain, fun hone => hmain.resolve_right fun ⟨_, _, _, _, hne⟩ => hne (hone _ _)⟩

/-- While the memory reads the line for its store, an L1 waits for a step that can be taken. -/
theorem deadlock_free_reading :
    (reached Sample.config (System.Avoids upsetsPut)
      ([Sample.store 0 1] ++ Sample.request 0)).1.CanMove Sample.config :=
  (deadlock_free (run_reached _)).2 (fun _ _ => rfl) 0 0 (by decide)

/-! ## Two deadlocks -/

/-- Nothing moves when every message has arrived, only forwards are left, and all are stalled. -/
theorem not_can_move {ι δ A D : Type} [DecidableEq ι] [DecidableEq δ] [DecidableEq A] [Inhabited D]
    {config : Config ι δ A D} {s : System ι δ A D}
    (hrequest : s.requestNet.inFlight = []) (hresponse : s.responseNet.inFlight = [])
    (hmemory : ∀ d, s.memQueue d = []) (hforward : s.forwardNet.inFlight.Perm s.forwardNet.arrived)
    (hstalled : ∀ i, (step config s (.forward i)).moves = false) : ¬ s.CanMove config := by
  have hrequests := Network.arrived_eq_nil hrequest
  have hresponses := Network.arrived_eq_nil hresponse
  rintro ⟨l, hl, hmoves⟩
  cases l with
  | mandatory => cases hl
  | forward i => exact Bool.false_ne_true ((hstalled i).symm.trans hmoves)
  | response i write => simp [step, Network.head, hresponses, Outcome.moves] at hmoves
  | dirRequest d => simp [step, Network.head, hrequests, Outcome.moves] at hmoves
  | dirResponse d => simp [step, Network.head, hresponses, Outcome.moves] at hmoves
  | dirMemory d index => simp [step, hmemory, Outcome.moves] at hmoves
  | deliverRequest src dst =>
      rw [step, Network.no_delivery_of_arrived (by rw [hrequest, hrequests])] at hmoves
      cases hmoves
  | deliverForward src dst =>
      rw [step, Network.no_delivery_of_arrived hforward] at hmoves
      cases hmoves
  | deliverResponse src dst =>
      rw [step, Network.no_delivery_of_arrived (by rw [hresponse, hresponses])] at hmoves
      cases hmoves

/-- Three L1s with room for two lines, and a directory for each of two addresses. -/
def twoDirectories : Config (Fin 3) (Fin 2) (Fin 2) Nat where
  l1 := fun _ => { addressToCacheSet := fun a => a.val, cacheAssoc := 1, sendEvictions := false }
  mapAddressToDirectory := id
  useMap := false
  memory := fun _ => 0

/-- The directory of the address takes the request of an L1 that stores to it. -/
def requestOwnership (i : Fin 3) (a : Fin 2) : List (Label (Fin 3) (Fin 2) (Fin 2) Nat) :=
  [.mandatory i ⟨a, .ST⟩ a id, .deliverRequest (.L1Cache i) (.Directory a), .dirRequest a]

/-- L1 0 and L1 1 own a line each and ask for the other's. L1 2 asks for both, and what its requests
lead to arrives first. -/
def crossing : List (Label (Fin 3) (Fin 2) (Fin 2) Nat) :=
  requestOwnership 0 0 ++
    [.dirMemory 0 0, .deliverResponse (.Directory 0) (.L1Cache 0), .response 0 id] ++
    requestOwnership 1 1 ++
    [.dirMemory 1 0, .deliverResponse (.Directory 1) (.L1Cache 1), .response 1 id] ++
    requestOwnership 1 0 ++ requestOwnership 0 1 ++ requestOwnership 2 0 ++ requestOwnership 2 1 ++
    [.deliverForward (.Directory 0) (.L1Cache 1), .deliverForward (.Directory 1) (.L1Cache 0),
      .deliverForward (.Directory 0) (.L1Cache 0), .deliverForward (.Directory 1) (.L1Cache 1)]

/-- L1 0 and L1 1 wait for each other, each behind what the directory of the other line has sent on
behalf of L1 2. -/
theorem crossing_stuck :
    ¬ (reached twoDirectories (System.Avoids upsetsPut) crossing).1.CanMove twoDirectories :=
  not_can_move (by decide) (by decide) (by decide) (by decide) (by decide)

/-- The PUTM of L1 0 has been taken in MS_M, without an answer, and everyone else is served. -/
theorem forgetting_stuck :
    ¬ (reached Sample.config (fun _ _ => True) (forgetting ++ Sample.response 0 1 0)).1.CanMove
      Sample.config :=
  not_can_move (by decide) (by decide) (by decide) (by decide) (by decide)

/-- Two directories can make L1s wait for each other, and a writeback that is not acknowledged is
waited for with a single one. -/
theorem deadlock_free_fails :
    (¬ ∀ s : System (Fin 3) (Fin 2) (Fin 2) Nat, (msi twoDirectories).Reachable s →
      s.DeadlockFree twoDirectories) ∧
    ¬ ∀ s : System (Fin 3) Unit (Fin 2) Nat, (msi Sample.config).Reachable s →
      s.DeadlockFree Sample.config := by
  refine ⟨fun h => crossing_stuck ?_, fun h => forgetting_stuck ?_⟩
  · have hrun : (msi twoDirectories).Run (System.Avoids upsetsPut)
        (reached twoDirectories (System.Avoids upsetsPut) crossing).1 := run_reached _
    exact h _ hrun.reachable 0 1 (by decide)
  · exact h _ (run_reached _) 0 0 (by decide)

end Ece552.Msi
