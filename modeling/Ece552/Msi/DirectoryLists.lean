import Ece552.Msi.Census
import Ece552.Msi.Downgrade
import Ece552.Msi.SharerList

/-!
# The lists of the directory

The owner and the sharers that the directory lists go with its states, and the assertions of
`setState` hold, in runs that avoid two defects: a PUTS counted as the last one although another L1
is the sharer, and an only sharer that gives up a line which stays shared. The lists are exact
where no PUTM is taken in MS_D, and none of a sharer in MS_M.
-/

namespace Ece552.Msi

open Library Block
open Directory (Trigger)
open scoped Sample

/-! ## The assertions of `setState` -/

namespace Directory

variable {N A D : Type} [DecidableEq N] [Inhabited D]

/-- The lists that go with the states from which the states I and M are entered. -/
def Line.Listed (line : Line N D) : Prop :=
  match getState line with
  | .I | .MI_M => line.entry.owner = .empty ∧ line.entry.sharers = .empty
  | .M | .IM_M => line.entry.owner.count = 1 ∧ line.entry.sharers = .empty
  | .S => line.entry.owner = .empty
  | .IS_M | .MS_D | .MS_M => True

attribute [local simp] doTransition transition runActions setState bind Except.bind
  Outcome.ofExcept Outcome.failure Env.peekRequest Env.peekResponse Env.peekMemory Ctx.updateEntry
  enqueueForward enqueueData enqueueMemory dequeue kk_removeRequestSharer
  ars2_addRequestorToSharers aos_addOwnertoSharers a_sendWriteBackAck la_sendWriteBackAck
  c_clearOwner cs_clearSharers d_sendData ds_sendSharedData ds2_sendSharedData e_ownerIsRequestor
  f_forwardRequest i_popIncomingRequestQueue pr_popIncomingResponseQueue pl_writeDataToDirectory
  pl2_writeDataToDirectory vv_allocateTBEFromRequestNet w_deallocateTBE qf_queueMemoryFetchRequest
  lq_queueMemoryWBRequest lq2_queueMemoryWBRequest qm_popMemQueue
  fwm_sendFwdInvToSharersMinusRequestor assertThat in
/-- A transition from lists that go with the state ends in lists that pass the assertions. -/
theorem Line.Listed.asserted {env : Env N A D} {line : Line N D} {event : Event} (h : line.Listed)
    (hlast : getState line = .S → event = .PUTS_Last → ∀ msg, env.inMsg = .request msg →
      (line.entry.sharers.remove msg.requestor).count = 0) :
    (doTransition env line event).failure ≠ some (.assertion "setState") := by
  obtain ⟨id, address, useMap, inMsg⟩ := env
  obtain ⟨entry, tbe⟩ := line
  unfold Line.Listed at h
  -- only the transitions into the states I and M have lists to check
  cases hst : getState ⟨entry, tbe⟩ <;> simp only [hst] at h hlast <;> cases event <;>
    simp only [doTransition, hst, transition, Outcome.failure, ne_eq, Option.some.injEq,
      reduceCtorEq, not_false_eq_true]
  all_goals cases tbe <;> cases inMsg <;> simp_all

omit [Inhabited D] in
/-- An invalid request is an error of its own. -/
theorem requestQueue_in_error {line : Line N D} {msg : RequestMsg N A D} {fault : Fault}
    (h : requestQueue_in line msg = .error fault) : fault = .error "Invalid message" := by
  unfold requestQueue_in at h
  cases htype : msg.type <;> simp only [htype] at h <;> grind

omit [DecidableEq N] [Inhabited D] in
/-- An invalid response is an error of its own, and a valid one is data. -/
theorem responseQueue_in_eq {msg : ResponseMsg N A D} :
    responseQueue_in msg = .ok .Data ∨
      responseQueue_in msg = .error (.error "Directory: Invalid response message") := by
  unfold responseQueue_in
  cases msg.type <;> simp

end Directory

variable {ι δ A D : Type} [DecidableEq ι] [DecidableEq δ] [DecidableEq A] [Inhabited D]
  {config : Config ι δ A D} {s : System ι δ A D}

/-- The shape of the view of an address is one of the lists of its entry. -/
theorem listed_of_shape {image : A → D} {address : A}
    (h : (view config s image address).DirShape) : (s.dir address).Listed := by
  unfold DirShape at h
  unfold Directory.Line.Listed
  cases hst : Directory.getState (s.dir address) <;> simp only [view, hst] at h ⊢
  · exact ⟨h.2.2, h.2.1⟩
  · exact ⟨NetDest.count_eq_one.mpr h.2.2, h.2.1⟩
  · exact h.2
  · obtain ⟨r, value, -, hsharers, howner⟩ := h
    exact ⟨NetDest.count_eq_one.mpr ⟨r, howner⟩, hsharers⟩
  · obtain ⟨r, value, -, hsharers, howner⟩ := h
    exact ⟨howner, hsharers⟩

/-- A directory with such lists passes the assertions, whatever it triggers. -/
theorem Directory.Line.Listed.dirTrigger {d : δ} {index : Nat} {address : A}
    {inMsg : Directory.InMsg (MachineID ι δ) A D} {event : Except Fault Directory.Event}
    (h : (s.dir address).Listed)
    (hfault : ∀ fault, event = .error fault → fault ≠ .assertion "setState")
    (hlast : Directory.getState (s.dir address) = .S → event = .ok .PUTS_Last →
      ∀ msg, inMsg = .request msg →
        ((s.dir address).entry.sharers.remove msg.requestor).count = 0) :
    (dirTrigger config s d index address inMsg event).failure ≠ some (.assertion "setState") := by
  unfold Msi.dirTrigger
  split
  · rw [Outcome.failure_map]
    cases event with
    | error fault =>
        intro hfailure
        exact hfault fault rfl (Option.some.inj hfailure)
    | ok event => exact h.asserted fun hst hevent => hlast hst (congrArg Except.ok hevent)
  · simp [Outcome.failure]

/-- Either way in which the lists and the states of a directory go apart. -/
def mislists (t : Trigger (MachineID ι δ)) : Bool := t.notTheSharer || t.emptiesSharers

/-- The lists that go with the states of a directory, and the assertions that its next steps pass
if they avoid what `bad` singles out. -/
structure System.DirectoryLists (config : Config ι δ A D) (bad : Trigger (MachineID ι δ) → Bool)
    (s : System ι δ A D) : Prop where
  owner : ∀ address, (s.dir address).entry.owner.count ≤ 1
  modified : ∀ address, s.dirStateOf address = .M →
    (s.dir address).entry.owner.count = 1 ∧ (s.dir address).entry.sharers.count = 0
  invalid : ∀ address, s.dirStateOf address = .I →
    (s.dir address).entry.owner.count = 0 ∧ (s.dir address).entry.sharers.count = 0
  shared : ∀ address, s.dirStateOf address = .S →
    0 < (s.dir address).entry.sharers.count ∧ (s.dir address).entry.owner.count = 0
  asserted : ∀ d index,
    ∀ l ∈ ([.dirRequest d, .dirResponse d, .dirMemory d index] : List (Label ι δ A D)),
      s.Avoids bad l → (step config s l).failure ≠ some (.assertion "setState")

omit [Inhabited D] in
/-- An owner is alone. -/
theorem Block.DirShape.owner_count {N : Type} [DecidableEq N] {b : Block N D} (h : b.DirShape) :
    b.owner.count ≤ 1 := by
  unfold DirShape at h
  cases hst : b.dir <;> simp only [hst] at h
  · simp [h]
  · obtain ⟨-, -, r, howner⟩ := h
    simp [NetDest.count, howner]
  · simp [h]
  · obtain ⟨r, value, -, -, howner⟩ := h
    simp [NetDest.count, howner]
  · obtain ⟨r, value, -, -, howner⟩ := h
    simp [howner]
  · obtain ⟨r, value, -, howner⟩ := h
    simp [howner]
  · simp [h]
  · obtain ⟨r, value, -, -, howner⟩ := h
    simp [howner]

omit [DecidableEq A] [Inhabited D] in
/-- The request that a directory triggers, when it is a PUTS that counts as the last one. -/
theorem requestor_of_last {d : δ}
    {p : Packet (MachineID ι δ) (RequestMsg (MachineID ι δ) A D)}
    (hhead : s.requestNet.head (.Directory d) = some p)
    (havoids : s.Avoids Trigger.notTheSharer (.dirRequest d))
    (hst : Directory.getState (s.dir p.msg.address) = .S)
    (hevent : Directory.requestQueue_in (s.dir p.msg.address) p.msg = .ok .PUTS_Last) :
    ((s.dir p.msg.address).entry.sharers.remove p.msg.requestor).count = 0 := by
  have hlabel : dirEvent s (.dirRequest d) = some (p.msg.address, .PUTS_Last, p.msg.requestor) := by
    simp [dirEvent, hhead, hevent, Except.toOption]
  have hgood := havoids _ _ _ hlabel
  simpa [Trigger.notTheSharer, hst] using hgood

/-- The lists go with the states in runs that avoid both defects. -/
theorem directory_lists (h : (msi config).Run (System.Avoids mislists) s) :
    s.DirectoryLists config mislists := by
  obtain ⟨image, hruns⟩ := view_of_run h
  have hshape := fun address => (Accounting.of_run (hruns address)).dir_shape
  have hlisted := fun address => SharersListed.of_run
    (fun _ _ h => (Avoids.of_or h).2) (hruns address)
  refine ⟨fun address => (hshape address).owner_count, fun address hst => ?_,
    fun address hst => ?_, fun address hst => ?_, fun d index l hl havoids => ?_⟩
  · have hlists := listed_of_shape (hshape address)
    rw [Directory.Line.Listed, show Directory.getState (s.dir address) = .M from hst] at hlists
    simp [hlists]
  · have hlists := listed_of_shape (hshape address)
    rw [Directory.Line.Listed, show Directory.getState (s.dir address) = .I from hst] at hlists
    simp [hlists]
  · have hlists := listed_of_shape (hshape address)
    rw [Directory.Line.Listed, show Directory.getState (s.dir address) = .S from hst] at hlists
    exact ⟨hlisted address (Or.inl hst), by simp [hlists]⟩
  · simp only [List.mem_cons, List.not_mem_nil, or_false] at hl
    rcases hl with rfl | rfl | rfl
    · rw [step]
      cases hhead : s.requestNet.head (.Directory d) with
      | none => rintro ⟨⟩
      | some p =>
          refine (listed_of_shape (hshape p.msg.address)).dirTrigger ?_ ?_
          · intro fault hfault
            rw [Directory.requestQueue_in_error hfault]
            rintro ⟨⟩
          · rintro hst hevent _ ⟨⟩
            exact requestor_of_last hhead (fun address event r hlabel =>
              (Bool.or_eq_false_iff.mp (havoids address event r hlabel)).1) hst hevent
    · rw [step]
      cases hhead : s.responseNet.head (.Directory d) with
      | none => rintro ⟨⟩
      | some p =>
          refine (listed_of_shape (hshape p.msg.address)).dirTrigger ?_ ?_ <;>
            rcases Directory.responseQueue_in_eq with hevent | hevent <;> rw [hevent] <;> simp
    · rw [step]
      cases hget : (s.memQueue d)[index]? with
      | none => rintro ⟨⟩
      | some m =>
          refine (listed_of_shape (hshape m.address)).dirTrigger (by rintro _ ⟨⟩) ?_
          rintro - hevent
          rw [Directory.memQueue_in] at hevent
          cases htype : m.type <;> simp [htype] at hevent

/-- L1 0 has been invalidated when its PUTS arrives, and L1 2 is the only sharer. -/
def recounting : List Sample.Step :=
  [Sample.load 0] ++ Sample.request 0 ++ Sample.memory ++ Sample.data 0 0 ++ [Sample.evict 0] ++
    [Sample.store 1 1] ++ Sample.request 1 ++ Sample.forward 0 ++ Sample.data 1 1 ++
    Sample.response 0 1 1 ++ [Sample.load 2] ++ Sample.request 2 ++ Sample.forward 1 ++
    [Sample.evict 1] ++ Sample.request 1 ++ Sample.downgrade 1 ++ Sample.memory ++
    [.deliverRequest (.L1Cache 0) (.Directory ())]

/-- The directory counts one sharer, and enters the state I with it. -/
theorem directory_lists_fail :
    ¬ ∀ s : System (Fin 3) Unit (Fin 2) Nat, (msi Sample.config).Reachable s →
      s.DirectoryLists Sample.config (fun _ => false) := fun h =>
  (h _ (run_reached recounting)).asserted () 0 (.dirRequest ()) (by simp) (fun _ _ _ _ => rfl)
    (by decide)

/-- A line that an L1 has loaded has a sharer. -/
theorem directory_lists_loaded :
    let s := (reached Sample.config (System.Avoids mislists)
      ([Sample.load 0] ++ Sample.request 0 ++ Sample.memory)).1
    0 < (s.dir 0).entry.sharers.count ∧ (s.dir 0).entry.owner.count = 0 :=
  (directory_lists (run_reached _)).shared 0 (by decide)

/-! ## Exact lists -/

/-- Either defect that leaves a machine listed without reason, or out of the lists. -/
def strandsSharer (t : Trigger (MachineID ι δ)) : Bool := t.skipsDowngrade || t.forgetsSharer

/-- The machines listed for an address are those that have a copy, get one, or have a writeback
on its way. -/
structure System.ListsExact (s : System ι δ A D) (address : A) : Prop where
  listed : ∀ i, s.stateOf i address = .S ∨ s.stateOf i address = .M →
    .L1Cache i ∈ (s.dir address).entry.sharers ∨ .L1Cache i ∈ (s.dir address).entry.owner ∨
      0 < s.forwardsTo i address [.INV] ∨ 0 < s.forwardsTo i address [.GETM]
  registered : ∀ m ∈ (s.dir address).entry.sharers, ∃ i, m = .L1Cache i ∧
    (s.stateOf i address = .S ∨ s.stateOf i address = .SM_AD ∨
      (s.stateOf i address = .IS_D ∧
        0 < s.responsesTo i address [.DATA_FROM_DIR, .DATA_FROM_OWNER]) ∨
      0 < s.requestsFrom i address [.PUTS, .PUTM])

/-- The lists of a shared or modified line are exact in runs that avoid both defects. -/
theorem sharer_list_exact (h : (msi config).Run (System.Avoids strandsSharer) s) (address : A)
    (hdir : s.dirStateOf address = .S ∨ s.dirStateOf address = .M) : s.ListsExact address := by
  obtain ⟨image, hruns⟩ := view_of_run h
  have hc := Coherent.of_run (fun _ _ h => (Avoids.of_or h).1) (hruns address)
  have hl := Block.ListsExact.of_run (fun _ _ h => Avoids.of_or h) (hruns address)
  refine ⟨fun i hi => ?_, fun m hm => ?_⟩
  · have hlisted := hc.listed (i := MachineID.L1Cache i) hl hi
    rw [← forwardsTo_eq_isInv, ← forwardsTo_eq_isRequest] at hlisted
    refine hlisted.imp_right (Or.imp_right (Or.imp_right fun hpos => ?_))
    obtain ⟨p, hp, hdst, haddress, htype⟩ := forwardsTo_pos.mp hpos
    -- nobody is asked for a shared copy in these states
    have hnone := (hc.downgrade.no_forwarded_gets
      (fun heq => by rcases hdir with h | h <;> exact nomatch h.symm.trans heq) (.L1Cache i)).1
    rw [← forwardsTo_eq_isGETS] at hnone
    refine forwardsTo_pos.mpr ⟨p, hp, hdst, haddress, ?_⟩
    simp only [List.mem_cons, List.not_mem_nil, or_false] at htype ⊢
    refine htype.resolve_left fun hgets => ?_
    exact Nat.ne_of_gt (forwardsTo_pos.mpr ⟨p, hp, hdst, haddress, by simp [hgets]⟩) hnone
  · have hcache := (wellFormed_of_run h).sharers address m hm
    cases m with
    | Directory d => exact hcache.elim
    | L1Cache i =>
        have hregistered := hc.registered (i := MachineID.L1Cache i) hl hdir hm
        rw [← responsesTo_eq_isData, ← requestsFrom_eq_isPut] at hregistered
        exact ⟨i, rfl, hregistered⟩

/-- L1 0 has been downgraded when its PUTM arrives, before the memory answers. -/
def forgetting : List Sample.Step :=
  [Sample.store 0 1] ++ Sample.request 0 ++ Sample.memory ++ Sample.data 0 1 ++ [Sample.evict 0] ++
    [Sample.load 1] ++ Sample.request 1 ++ Sample.forward 0 ++ Sample.downgrade 0 ++
    Sample.request 0 ++ Sample.memory

/-- The directory is in state S and lists L1 0, whose writeback it has taken. -/
theorem sharer_list_exact_fails :
    ¬ ∀ s : System (Fin 3) Unit (Fin 2) Nat, (msi Sample.config).Reachable s →
      ∀ address, s.dirStateOf address = .S ∨ s.dirStateOf address = .M → s.ListsExact address :=
  fun h => by
    obtain ⟨i, heq, hi⟩ :=
      (h _ (run_reached forgetting) 0 (by decide)).registered (.L1Cache 0) (by decide)
    obtain rfl := MachineID.L1Cache.inj heq
    exact absurd hi (by decide)

/-- A sharer that has evicted the line has a writeback on its way. -/
theorem sharer_list_exact_evicted :
    let s := (reached Sample.config (System.Avoids strandsSharer)
      ([Sample.load 0] ++ Sample.request 0 ++ Sample.memory ++ Sample.data 0 0 ++
        [Sample.evict 0])).1
    MachineID.L1Cache 0 ∈ (s.dir 0).entry.sharers ∧ 0 < s.requestsFrom 0 0 [.PUTS, .PUTM] := by
  intro s
  have hrun : (msi Sample.config).Run (System.Avoids strandsSharer) s := run_reached _
  have hmem : MachineID.L1Cache 0 ∈ (s.dir 0).entry.sharers := by decide
  obtain ⟨i, heq, hi⟩ := (sharer_list_exact hrun 0 (by decide)).registered _ hmem
  obtain rfl := MachineID.L1Cache.inj heq
  refine ⟨hmem, ?_⟩
  have hst : s.stateOf 0 0 = .SI_A := by decide
  simpa [hst] using hi

end Ece552.Msi
