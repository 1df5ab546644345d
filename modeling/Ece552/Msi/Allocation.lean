import Ece552.Msi.L1Cache

/-!
# What the actions of an L1 allocate

An `Allocation` says which of the cache entry and the TBE of an address exist, and every state calls
for one: none in I, the entry in S and M, both in the transient states. `Moves` is what an action
needs allocated and what it leaves, with one lemma for each action; `transition_runs` checks the
transitions of the machine against it. A line that agrees with its state (`Booked`) therefore takes
every transition without a failed assertion, and still agrees after `setState`.
-/

namespace Ece552.Msi.L1Cache

variable {N A D : Type}

/-- What is allocated for an address. -/
structure Allocation where
  entry : Bool
  tbe : Bool
  deriving DecidableEq

/-- What a state calls for. -/
def State.allocation : State → Allocation
  | .I => ⟨false, false⟩
  | .S | .M => ⟨true, false⟩
  | .IS_D | .IM_AD | .IM_A | .SM_AD | .SM_A | .MI_A | .SI_A | .II_A => ⟨true, true⟩

/-- What a line has. -/
def Line.allocation (line : Line D) : Allocation :=
  ⟨line.cacheEntry.isSome, line.tbe.isSome⟩

/-- The line has what its state calls for, and that state is written wherever it can be. -/
structure Line.Booked (line : Line D) : Prop where
  allocated : line.allocation = (getState line).allocation
  recorded : setState line (getState line) = line

/-! ## States and what they call for -/

section Booked

variable {line : Line D} {state : State}

/-- A TBE is there in the transient states. -/
theorem State.allocation_tbe : state.allocation.tbe = state.isTransient := by
  cases state <;> rfl

/-- There is no entry in I only. -/
theorem State.allocation_entry : state.allocation.entry = false ↔ state = .I := by
  cases state <;> simp [allocation]

/-- To write the state allocates nothing. -/
@[simp] theorem allocation_setState : (setState line state).allocation = line.allocation := by
  simp [Line.allocation, setState]

/-- A state that is written where its allocation is made is read back. -/
theorem get_setState (h : line.allocation = state.allocation) :
    getState (setState line state) = state := by
  obtain ⟨_ | entry, _ | tbe⟩ := line
  · exact (State.allocation_entry.mp (congrArg Allocation.entry h).symm).symm
  all_goals rfl

/-- A line that has what its next state calls for is booked under it. -/
theorem Line.booked_setState (h : line.allocation = state.allocation) :
    (setState line state).Booked where
  allocated := by rw [allocation_setState, get_setState h, h]
  recorded := by
    rw [get_setState h]
    obtain ⟨_ | entry, _ | tbe⟩ := line <;> rfl

/-- A line without entry and TBE is in I. -/
theorem Line.booked_empty : Line.Booked (D := D) ⟨none, none⟩ := ⟨rfl, rfl⟩

/-- A TBE of a booked line agrees with its entry. -/
theorem Line.Booked.agrees (h : line.Booked) {tbe : TBE D} (htbe : line.tbe = some tbe) :
    ∃ entry, line.cacheEntry = some entry ∧ entry.cacheState = tbe.tbeState := by
  obtain ⟨_ | entry, _ | buffer⟩ := line
  · exact nomatch htbe
  · -- without an entry the state is I, which calls for no TBE
    have hstate := State.allocation_entry.mp (congrArg Allocation.entry h.allocated).symm
    have htransient := congrArg Allocation.tbe h.allocated
    rw [hstate] at htransient
    exact nomatch htransient
  · exact nomatch htbe
  · obtain rfl : buffer = tbe := Option.some.inj htbe
    have hentry := Option.some.inj (congrArg Line.cacheEntry h.recorded)
    exact ⟨entry, rfl, (congrArg Entry.cacheState hentry).symm⟩

end Booked

/-! ## Actions -/

/-- The buffer that a message is in. -/
def InMsg.port : InMsg N A D → InPort
  | .mandatory _ => .mandatoryQueue
  | .forward _ => .forwardToCache
  | .response _ => .responseToCache

/-- With `before` allocated the action succeeds, and leaves `after` allocated. -/
def Moves (env : Env N A D) (action : Action N A D) (before after : Allocation) : Prop :=
  ∀ ctx, ctx.line.allocation = before →
    ∃ ctx', action env ctx = .ok ctx' ∧ ctx'.line.allocation = after

section Actions

variable {env : Env N A D} {a : Allocation} {action : Action N A D}

/-- A message of the processor can be peeked at. -/
theorem peek_mandatory (h : env.inMsg.port = .mandatoryQueue) :
    ∃ msg, env.peekMandatory = .ok msg := by
  rw [Env.peekMandatory]
  cases hmsg : env.inMsg <;> rw [hmsg] at h
  · exact ⟨_, rfl⟩
  all_goals exact nomatch h

/-- A forward can be peeked at. -/
theorem peek_forward (h : env.inMsg.port = .forwardToCache) :
    ∃ msg, env.peekForward = .ok msg := by
  rw [Env.peekForward]
  cases hmsg : env.inMsg <;> rw [hmsg] at h
  case forward => exact ⟨_, rfl⟩
  all_goals exact nomatch h

/-- A response can be peeked at. -/
theorem peek_response (h : env.inMsg.port = .responseToCache) :
    ∃ msg, env.peekResponse = .ok msg := by
  rw [Env.peekResponse]
  cases hmsg : env.inMsg <;> rw [hmsg] at h
  case response => exact ⟨_, rfl⟩
  all_goals exact nomatch h

/-- An action that leaves the line alone. -/
theorem moves_of_keep {f : Ctx N A D → Ctx N A D} (h : ∀ ctx, action env ctx = .ok (f ctx))
    (hline : ∀ ctx, (f ctx).line = ctx.line) : Moves env action a a :=
  fun ctx hctx => ⟨f ctx, h ctx, by rw [hline, hctx]⟩

/-- An action that asserts a valid entry and deallocates nothing. -/
theorem moves_of_entry {t : Bool} {name : String} {f : Entry D → Ctx N A D → Ctx N A D}
    (h : ∀ ctx, action env ctx = ctx.validEntry name >>= fun entry => .ok (f entry ctx))
    (hline : ∀ entry ctx, ctx.line.cacheEntry = some entry →
      (f entry ctx).line.allocation = ctx.line.allocation) :
    Moves env action ⟨true, t⟩ ⟨true, t⟩ := by
  intro ctx hctx
  obtain ⟨entry, hentry⟩ := Option.isSome_iff_exists.mp (congrArg Allocation.entry hctx)
  refine ⟨f entry ctx, ?_, by rw [hline entry ctx hentry, hctx]⟩
  rw [h, Ctx.validEntry, hentry]
  rfl

/-- An action that asserts a valid TBE and deallocates nothing. -/
theorem moves_of_tbe {e : Bool} {name : String} {f : TBE D → Ctx N A D → Ctx N A D}
    (h : ∀ ctx, action env ctx = ctx.validTBE name >>= fun tbe => .ok (f tbe ctx))
    (hline : ∀ tbe ctx, ctx.line.tbe = some tbe →
      (f tbe ctx).line.allocation = ctx.line.allocation) :
    Moves env action ⟨e, true⟩ ⟨e, true⟩ := by
  intro ctx hctx
  obtain ⟨tbe, htbe⟩ := Option.isSome_iff_exists.mp (congrArg Allocation.tbe hctx)
  refine ⟨f tbe ctx, ?_, by rw [hline tbe ctx htbe, hctx]⟩
  rw [h, Ctx.validTBE, htbe]
  rfl

/-- A request for a copy allocates nothing. -/
theorem moves_as_issueGetS [Inhabited D] : Moves env as_issueGetS a a :=
  moves_of_keep (fun _ => rfl) fun _ => rfl

/-- A request for a line to write allocates nothing. -/
theorem moves_am_issueGetM [Inhabited D] : Moves env am_issueGetM a a :=
  moves_of_keep (fun _ => rfl) fun _ => rfl

/-- A copy is given up while there is an entry. -/
theorem moves_bs_issuePUTS {t : Bool} : Moves env bs_issuePUTS ⟨true, t⟩ ⟨true, t⟩ :=
  moves_of_entry (fun _ => rfl) fun _ _ _ => rfl

/-- A line is written back while there is an entry. -/
theorem moves_bm_issuePUTM {t : Bool} : Moves env bm_issuePUTM ⟨true, t⟩ ⟨true, t⟩ :=
  moves_of_entry (fun _ => rfl) fun _ _ _ => rfl

/-- Data is sent from the entry. -/
theorem moves_e_sendDataFromCacheToRequestor {t : Bool}
    (h : env.inMsg.port = .forwardToCache) :
    Moves env e_sendDataFromCacheToRequestor ⟨true, t⟩ ⟨true, t⟩ := by
  obtain ⟨msg, hmsg⟩ := peek_forward h
  exact moves_of_entry (fun _ => by rw [e_sendDataFromCacheToRequestor, hmsg]; rfl)
    fun _ _ _ => by rfl

/-- Data is sent from the TBE. -/
theorem moves_ee_sendDataFromTBEToRequestor {e : Bool}
    (h : env.inMsg.port = .forwardToCache) :
    Moves env ee_sendDataFromTBEToRequestor ⟨e, true⟩ ⟨e, true⟩ := by
  obtain ⟨msg, hmsg⟩ := peek_forward h
  exact moves_of_tbe (fun _ => by rw [ee_sendDataFromTBEToRequestor, hmsg]; rfl)
    fun _ _ _ => by rfl

/-- Data is sent to the directory from the entry. -/
theorem moves_de_sendDataFromCacheToDir {t : Bool} :
    Moves env de_sendDataFromCacheToDir ⟨true, t⟩ ⟨true, t⟩ :=
  moves_of_entry (fun _ => rfl) fun _ _ _ => rfl

/-- Data is sent to the directory from the TBE. -/
theorem moves_dee_sendDataFromTBEToDir {e : Bool} :
    Moves env dee_sendDataFromTBEToDir ⟨e, true⟩ ⟨e, true⟩ :=
  moves_of_tbe (fun _ => rfl) fun _ _ _ => rfl

/-- An invalidation is acknowledged without entry and TBE. -/
theorem moves_fi_sendInvAck [Inhabited D] (h : env.inMsg.port = .forwardToCache) :
    Moves env fi_sendInvAck a a := by
  obtain ⟨msg, hmsg⟩ := peek_forward h
  exact moves_of_keep (fun _ => by rw [fi_sendInvAck, hmsg]; rfl) fun _ => by rfl

/-- A new entry needs room in the set. -/
theorem moves_i_allocateL1CacheBlock [Inhabited D] {t : Bool} (h : env.cacheAvail = true) :
    Moves env i_allocateL1CacheBlock ⟨false, t⟩ ⟨true, t⟩ := by
  intro ctx hctx
  have hentry := Option.isSome_eq_false_iff.mp (congrArg Allocation.entry hctx)
  rw [i_allocateL1CacheBlock, Option.isNone_iff_eq_none.mp hentry]
  refine ⟨_, by rw [assert_that_of_true h]; rfl, ?_⟩
  exact congrArg (Allocation.mk true) (congrArg Allocation.tbe hctx)

/-- The entry is gone. -/
theorem moves_h_deallocateL1CacheBlock {e t : Bool} :
    Moves env h_deallocateL1CacheBlock ⟨e, t⟩ ⟨false, t⟩ :=
  fun _ hctx => ⟨_, rfl, congrArg (Allocation.mk false) (congrArg Allocation.tbe hctx)⟩

theorem moves_m_popMandatoryQueue : Moves env m_popMandatoryQueue a a :=
  moves_of_keep (fun _ => rfl) fun _ => rfl

theorem moves_n_popResponseQueue : Moves env n_popResponseQueue a a :=
  moves_of_keep (fun _ => rfl) fun _ => rfl

theorem moves_o_popForwardedRequestQueue : Moves env o_popForwardedRequestQueue a a :=
  moves_of_keep (fun _ => rfl) fun _ => rfl

/-- A miss is profiled on a request of the processor. -/
theorem moves_p_profileMiss (h : env.inMsg.port = .mandatoryQueue) :
    Moves env p_profileMiss a a := by
  obtain ⟨msg, hmsg⟩ := peek_mandatory h
  exact moves_of_keep (fun _ => by rw [p_profileMiss, hmsg]; rfl) fun _ => by rfl

/-- A load hits an entry. -/
theorem moves_r_load_hit {t : Bool} : Moves env r_load_hit ⟨true, t⟩ ⟨true, t⟩ :=
  moves_of_entry (fun _ => rfl) fun _ _ _ => rfl

/-- A load hits an entry when the response is there. -/
theorem moves_rx_load_hit {t : Bool} (h : env.inMsg.port = .responseToCache) :
    Moves env rx_load_hit ⟨true, t⟩ ⟨true, t⟩ := by
  obtain ⟨msg, hmsg⟩ := peek_response h
  exact moves_of_entry (fun _ => by rw [rx_load_hit, hmsg]; rfl) fun _ _ _ => by rfl

/-- Data that is written to an entry allocates nothing. -/
theorem allocation_write {entry : Entry D} {ctx : Ctx N A D}
    (h : ctx.line.cacheEntry = some entry) (data : D) :
    Line.allocation { ctx.line with cacheEntry := some { entry with dataBlk := data } } =
      ctx.line.allocation := by
  rw [Line.allocation, Line.allocation, h]
  rfl

/-- A store hits an entry. -/
theorem moves_s_store_hit {t : Bool} : Moves env s_store_hit ⟨true, t⟩ ⟨true, t⟩ :=
  moves_of_entry (fun _ => rfl) fun _ _ hentry => allocation_write hentry _

/-- A store hits an entry when the response is there. -/
theorem moves_sx_store_hit {t : Bool} (h : env.inMsg.port = .responseToCache) :
    Moves env sx_store_hit ⟨true, t⟩ ⟨true, t⟩ := by
  obtain ⟨msg, hmsg⟩ := peek_response h
  exact moves_of_entry (fun _ => by rw [sx_store_hit, hmsg]; rfl)
    fun _ _ hentry => allocation_write hentry _

/-- The data of a response goes to the entry. -/
theorem moves_u_writeDataToCache {t : Bool} (h : env.inMsg.port = .responseToCache) :
    Moves env u_writeDataToCache ⟨true, t⟩ ⟨true, t⟩ := by
  obtain ⟨msg, hmsg⟩ := peek_response h
  exact moves_of_entry (fun _ => by rw [u_writeDataToCache, hmsg]; rfl)
    fun _ _ hentry => allocation_write hentry _

/-- The acknowledgements are counted in the TBE. -/
theorem moves_q_updateAckCount {e : Bool} (h : env.inMsg.port = .responseToCache) :
    Moves env q_updateAckCount ⟨e, true⟩ ⟨e, true⟩ := by
  obtain ⟨msg, hmsg⟩ := peek_response h
  refine moves_of_tbe (fun _ => by rw [q_updateAckCount, hmsg]; rfl) fun _ ctx htbe => ?_
  rw [Line.allocation, Line.allocation, htbe]
  rfl

/-- The processor is told of an eviction, or not. -/
theorem moves_forward_eviction_to_cpu : Moves env forward_eviction_to_cpu a a := by
  intro ctx hctx
  rw [forward_eviction_to_cpu]
  split
  · exact ⟨_, rfl, hctx⟩
  · exact ⟨_, rfl, hctx⟩

/-- The TBE table has no second TBE for an address. -/
theorem moves_v_allocateTBE [Inhabited D]
    {e : Bool} : Moves env v_allocateTBE ⟨e, false⟩ ⟨e, true⟩ := by
  intro ctx hctx
  have htbe : ctx.line.tbe.isNone = true :=
    Option.isSome_eq_false_iff.mp (congrArg Allocation.tbe hctx)
  rw [v_allocateTBE, assert_that_of_true htbe]
  exact ⟨_, rfl, congrArg (Allocation.mk · true) (congrArg Allocation.entry hctx)⟩

/-- The TBE is gone. -/
theorem moves_w_deallocateTBE {e : Bool} : Moves env w_deallocateTBE ⟨e, true⟩ ⟨e, false⟩ := by
  intro ctx hctx
  have htbe : ctx.line.tbe.isSome = true := congrArg Allocation.tbe hctx
  rw [w_deallocateTBE, assert_that_of_true htbe]
  exact ⟨_, rfl, congrArg (Allocation.mk · false) (congrArg Allocation.entry hctx)⟩

/-- The data of the entry goes to the TBE. -/
theorem moves_x_copyDataFromCacheToTBE :
    Moves env x_copyDataFromCacheToTBE ⟨true, true⟩ ⟨true, true⟩ := by
  intro ctx hctx
  obtain ⟨entry, hentry⟩ := Option.isSome_iff_exists.mp (congrArg Allocation.entry hctx)
  obtain ⟨tbe, htbe⟩ := Option.isSome_iff_exists.mp (congrArg Allocation.tbe hctx)
  rw [x_copyDataFromCacheToTBE, Ctx.validEntry, hentry, Ctx.validTBE, htbe]
  refine ⟨_, rfl, ?_⟩
  rw [Line.allocation, hentry]
  rfl

end Actions

/-! ## Transitions -/

/-- Actions that move from allocation to allocation, each to what the next one needs. -/
inductive Runs (env : Env N A D) : List (Action N A D) → Allocation → Allocation → Prop where
  | nil {a : Allocation} : Runs env [] a a
  | cons {action : Action N A D} {actions : List (Action N A D)} {a b c : Allocation} :
      Moves env action a b → Runs env actions b c → Runs env (action :: actions) a c

/-- Such actions succeed one after the other. -/
theorem Runs.ok {env : Env N A D} {actions : List (Action N A D)} {a b : Allocation}
    (h : Runs env actions a b) {ctx : Ctx N A D} (hctx : ctx.line.allocation = a) :
    ∃ ctx', runActions env actions ctx = .ok ctx' ∧ ctx'.line.allocation = b := by
  induction h generalizing ctx with
  | nil => exact ⟨ctx, rfl, hctx⟩
  | cons haction _ ih =>
      obtain ⟨ctx', hok, hctx'⟩ := haction ctx hctx
      obtain ⟨ctx'', hrun, hctx''⟩ := ih hctx'
      refine ⟨ctx'', ?_, hctx''⟩
      rw [runActions, hok]
      exact hrun

/-- The buffer whose messages trigger an event. -/
def Event.port : Event → InPort
  | .Load | .Ifetch | .Store | .Replacement => .mandatoryQueue
  | .Fwd_GetS | .Fwd_GetM | .Inv | .WB_Ack => .forwardToCache
  | .Inv_Ack | .Inv_Ack_all | .Data_from_Dir_No_Acks | .Data_from_Dir_Ack_Cnt
  | .Data_from_Dir_Ack_Cnt_Last | .Data_from_Owner => .responseToCache

section Transitions

variable [Inhabited D] {env : Env N A D} {state next : State} {event : Event}
  {actions : List (Action N A D)}

/-- The transitions in I. Only the requests of the processor allocate an entry. -/
theorem runs_of_invalid (h : transition .I event = some (.run next actions))
    (hport : env.inMsg.port = event.port)
    (havail : event.port = .mandatoryQueue → env.cacheAvail = true) :
    Runs env actions ⟨false, false⟩ next.allocation := by
  cases event <;> cases h
  case Load | Ifetch =>
      exact .cons (moves_i_allocateL1CacheBlock (havail rfl)) <| .cons moves_as_issueGetS <|
        .cons (moves_p_profileMiss hport) <| .cons moves_v_allocateTBE <|
        .cons moves_m_popMandatoryQueue .nil
  case Store =>
      exact .cons (moves_i_allocateL1CacheBlock (havail rfl)) <| .cons moves_am_issueGetM <|
        .cons (moves_p_profileMiss hport) <| .cons moves_v_allocateTBE <|
        .cons moves_m_popMandatoryQueue .nil
  case Inv => exact .cons (moves_fi_sendInvAck hport) <| .cons moves_o_popForwardedRequestQueue .nil
  case WB_Ack => exact .cons moves_o_popForwardedRequestQueue .nil

/-- The transitions in S. -/
theorem runs_of_shared (h : transition .S event = some (.run next actions))
    (hport : env.inMsg.port = event.port) : Runs env actions ⟨true, false⟩ next.allocation := by
  cases event <;> cases h
  case Load | Ifetch => exact .cons moves_r_load_hit <| .cons moves_m_popMandatoryQueue .nil
  case Store =>
      exact .cons moves_am_issueGetM <| .cons (moves_p_profileMiss hport) <|
        .cons moves_v_allocateTBE <| .cons moves_x_copyDataFromCacheToTBE <|
        .cons moves_m_popMandatoryQueue .nil
  case Replacement =>
      exact .cons moves_bs_issuePUTS <| .cons moves_v_allocateTBE <|
        .cons moves_x_copyDataFromCacheToTBE .nil
  case Inv =>
      exact .cons (moves_fi_sendInvAck hport) <| .cons moves_h_deallocateL1CacheBlock <|
        .cons moves_forward_eviction_to_cpu <| .cons moves_o_popForwardedRequestQueue .nil

/-- The transitions in M. -/
theorem runs_of_modified (h : transition .M event = some (.run next actions))
    (hport : env.inMsg.port = event.port) : Runs env actions ⟨true, false⟩ next.allocation := by
  cases event <;> cases h
  case Load | Ifetch => exact .cons moves_r_load_hit <| .cons moves_m_popMandatoryQueue .nil
  case Store => exact .cons moves_s_store_hit <| .cons moves_m_popMandatoryQueue .nil
  case Replacement =>
      exact .cons moves_bm_issuePUTM <| .cons moves_v_allocateTBE <|
        .cons moves_x_copyDataFromCacheToTBE .nil
  case Fwd_GetS =>
      exact .cons (moves_e_sendDataFromCacheToRequestor hport) <|
        .cons moves_de_sendDataFromCacheToDir <| .cons moves_o_popForwardedRequestQueue .nil
  case Fwd_GetM =>
      exact .cons moves_forward_eviction_to_cpu <|
        .cons (moves_e_sendDataFromCacheToRequestor hport) <|
        .cons moves_h_deallocateL1CacheBlock <| .cons moves_o_popForwardedRequestQueue .nil

/-- The transitions in the transient states. -/
theorem runs_of_transient (h : transition state event = some (.run next actions))
    (hstate : state.isTransient = true) (hport : env.inMsg.port = event.port) :
    Runs env actions ⟨true, true⟩ next.allocation := by
  cases state
  case I | S | M => exact nomatch hstate
  all_goals cases event <;> cases h
  -- the data arrives
  case IS_D.Data_from_Dir_No_Acks | IS_D.Data_from_Owner =>
      exact .cons (moves_u_writeDataToCache hport) <| .cons (moves_rx_load_hit hport) <|
        .cons moves_w_deallocateTBE <| .cons moves_n_popResponseQueue .nil
  case IM_AD.Data_from_Dir_No_Acks | IM_AD.Data_from_Owner | SM_AD.Data_from_Dir_No_Acks |
      SM_AD.Data_from_Owner =>
      exact .cons (moves_u_writeDataToCache hport) <| .cons (moves_sx_store_hit hport) <|
        .cons moves_w_deallocateTBE <| .cons moves_n_popResponseQueue .nil
  case IM_AD.Data_from_Dir_Ack_Cnt | SM_AD.Data_from_Dir_Ack_Cnt =>
      exact .cons (moves_u_writeDataToCache hport) <| .cons (moves_q_updateAckCount hport) <|
        .cons moves_n_popResponseQueue .nil
  case IM_AD.Data_from_Dir_Ack_Cnt_Last | SM_AD.Data_from_Dir_Ack_Cnt_Last =>
      exact .cons (moves_u_writeDataToCache hport) <| .cons (moves_q_updateAckCount hport) <|
        .cons moves_w_deallocateTBE <| .cons (moves_sx_store_hit hport) <|
        .cons moves_n_popResponseQueue .nil
  case IM_AD.Inv_Ack | IM_A.Inv_Ack | SM_AD.Inv_Ack | SM_A.Inv_Ack =>
      exact .cons (moves_q_updateAckCount hport) <| .cons moves_n_popResponseQueue .nil
  case IM_A.Inv_Ack_all | SM_A.Inv_Ack_all =>
      exact .cons (moves_q_updateAckCount hport) <| .cons moves_w_deallocateTBE <|
        .cons (moves_sx_store_hit hport) <| .cons moves_n_popResponseQueue .nil
  -- the line is still shared
  case SM_AD.Load | SM_AD.Ifetch | SM_A.Load | SM_A.Ifetch =>
      exact .cons moves_r_load_hit <| .cons moves_m_popMandatoryQueue .nil
  case SM_AD.Inv | SI_A.Inv =>
      exact .cons (moves_fi_sendInvAck hport) <| .cons moves_o_popForwardedRequestQueue .nil
  -- the line is written back
  case MI_A.Fwd_GetS =>
      exact .cons (moves_ee_sendDataFromTBEToRequestor hport) <|
        .cons moves_dee_sendDataFromTBEToDir <| .cons moves_o_popForwardedRequestQueue .nil
  case MI_A.Fwd_GetM =>
      exact .cons (moves_ee_sendDataFromTBEToRequestor hport) <|
        .cons moves_o_popForwardedRequestQueue .nil
  case MI_A.WB_Ack | SI_A.WB_Ack | II_A.WB_Ack =>
      exact .cons moves_forward_eviction_to_cpu <| .cons moves_w_deallocateTBE <|
        .cons moves_h_deallocateL1CacheBlock <| .cons moves_o_popForwardedRequestQueue .nil

/-- The actions of a transition run from what its state calls for to what the next one does. -/
theorem transition_runs (h : transition state event = some (.run next actions))
    (hport : env.inMsg.port = event.port)
    (havail : state = .I → event.port = .mandatoryQueue → env.cacheAvail = true) :
    Runs env actions state.allocation next.allocation := by
  cases state
  case I => exact runs_of_invalid h hport (havail rfl)
  case S => exact runs_of_shared h hport
  case M => exact runs_of_modified h hport
  all_goals exact runs_of_transient h rfl hport

/-- In I the other events lead nowhere. -/
theorem port_of_invalid (h : transition .I event = some (.run next actions)) :
    event.port = .mandatoryQueue ∨ next = .I := by
  cases event <;> cases h
  case Load | Ifetch | Store => exact Or.inl rfl
  case Inv | WB_Ack => exact Or.inr rfl

/-- A transition of a booked line runs, and leaves a booked line. -/
theorem Line.Booked.runs {line : Line D} (hline : line.Booked)
    (h : transition (getState line) event = some (.run next actions))
    (hport : env.inMsg.port = event.port)
    (havail : line.cacheEntry = none → event.port = .mandatoryQueue → env.cacheAvail = true) :
    Runs env actions line.allocation next.allocation := by
  rw [hline.allocated]
  refine transition_runs h hport fun hstate => havail ?_
  have hentry := congrArg Allocation.entry hline.allocated
  rw [hstate] at hentry
  exact Option.not_isSome_iff_eq_none.mp (Bool.eq_false_iff.mp hentry)

/-- An entry that a transition leaves was there before, or there was room for it. -/
theorem Line.Booked.room {line line' : Line D} {room : Prop} (hline : line.Booked)
    (h : transition (getState line) event = some (.run next actions))
    (havail : line.cacheEntry = none → event.port = .mandatoryQueue → room)
    (hline' : line'.allocation = next.allocation) (hentry : line'.cacheEntry.isSome = true) :
    line.cacheEntry.isSome = true ∨ room := by
  by_cases hold : line.cacheEntry.isSome = true
  · exact Or.inl hold
  have hnone : line.cacheEntry = none := Option.not_isSome_iff_eq_none.mp hold
  have hstate : getState line = .I := by
    refine State.allocation_entry.mp ?_
    rw [← hline.allocated, Line.allocation, hnone]
    rfl
  rw [hstate] at h
  rcases port_of_invalid h with hport | rfl
  · exact Or.inr (havail hnone hport)
  · rw [show line'.cacheEntry.isSome = false from congrArg Allocation.entry hline'] at hentry
    exact nomatch hentry

end Transitions

end Ece552.Msi.L1Cache
