import Ece552.Msi.View

/-!
# The L1 machine as seen at one address

Each valid transition of an L1 is a step of the block of its address, or leaves the block alone
when it is a load hit. The lemmas follow the three in-ports. Every proof takes the well-formed
lines and the events apart, computes what the actions do, and names the step.
-/

namespace Ece552.Msi

open Library Block

variable {ι δ A D : Type} [DecidableEq ι] [DecidableEq δ] [DecidableEq A] [Inhabited D]
  {config : Config ι δ A D} {s : System ι δ A D} (image : A → D) {address : A} {i : ι}

omit [DecidableEq A] [Inhabited D] in
/-- Whether or not evictions are reported, the action succeeds. -/
theorem L1Cache.forward_eviction_to_cpu_eq {N : Type} (env : L1Cache.Env N A D)
    (ctx : L1Cache.Ctx N A D) :
    L1Cache.forward_eviction_to_cpu env ctx = .ok { ctx with
      callbacks := ctx.callbacks ++ if env.sendEvictions then [.evictionCallback] else [] } := by
  unfold L1Cache.forward_eviction_to_cpu
  split <;> simp

omit [Inhabited D] in
@[simp] theorem L1Cache.lastWritten_nil {value : D} : L1Cache.lastWritten value [] = value := rfl

omit [Inhabited D] in
@[simp] theorem L1Cache.lastWritten_read {value data : D} :
    L1Cache.lastWritten value [.readCallback data] = value := rfl

omit [Inhabited D] in
@[simp] theorem L1Cache.lastWritten_write {value data : D} :
    L1Cache.lastWritten value [.writeCallback data] = data := rfl

omit [Inhabited D] in
/-- Reporting an eviction writes nothing. -/
@[simp] theorem L1Cache.lastWritten_eviction {value : D} {report : Bool} :
    L1Cache.lastWritten value (if report then [.evictionCallback] else []) = value := by
  cases report <;> rfl

/-! ## Evaluation of the machine -/

section Evaluate

attribute [local simp] L1Cache.trigger L1Cache.doTransition L1Cache.transition L1Cache.getState
  L1Cache.runActions L1Cache.setState bind Except.bind Outcome.ofExcept l1Env
  L1Cache.Env.peekMandatory L1Cache.Env.peekForward L1Cache.Env.peekResponse
  L1Cache.Ctx.validEntry L1Cache.Ctx.validTBE L1Cache.enqueueRequest L1Cache.enqueueResponse
  L1Cache.dequeue L1Cache.forward_eviction_to_cpu_eq L1Cache.w_deallocateTBE
  L1Cache.Line.data L1Cache.Line.acks requestOf responseOf downgradeOf setLine

section Forward

attribute [local simp] L1Cache.forwardRequestNetwork_in L1Cache.fi_sendInvAck
  L1Cache.h_deallocateL1CacheBlock L1Cache.o_popForwardedRequestQueue
  L1Cache.e_sendDataFromCacheToRequestor L1Cache.de_sendDataFromCacheToDir
  L1Cache.ee_sendDataFromTBEToRequestor L1Cache.dee_sendDataFromTBEToDir

/-- What `forwardRequestNetwork_in` does with a GETS. -/
theorem fwdGetS_commits (hs : s.WellFormed config) {src dst requestor : MachineID ι δ}
    {value : D} {line : L1Cache.Line D}
    (hhead : s.forwardNet.head (.L1Cache i) = some ⟨src, dst, ⟨address, .GETS, requestor, value⟩⟩)
    (hl : s.line i address = line) {ctx : L1Cache.Ctx (MachineID ι δ) A D}
    (h : L1Cache.trigger (l1Env config s i address (.forward ⟨address, .GETS, requestor, value⟩) id)
      line (L1Cache.forwardRequestNetwork_in ⟨address, .GETS, requestor, value⟩) = .valid ctx) :
    s.CommitsL1 config i address ctx ∧
      ForwardStep (view config s image address)
        (view config (s.commitL1 i address ctx)
          (observe image (ctx.callbacks.map (address, ·))) address) := by
  obtain ⟨-, -, hrequestor, -⟩ := hs.forward _ (removed_of_head hhead).mem
  obtain rfl : dst = .L1Cache i := (Network.pop_spec hhead).1
  have hline := hs.line i address
  have hpop := hs.popped_forward image address hhead
    (y := (.L1Cache i, .GETS requestor)) (by simp [forwardOf])
  obtain ⟨hstate, hdata, hacks⟩ := view_line config image hl
  rw [hs.view_commitL1]
  rw [hl] at hline
  generalize view config s image address = b at *
  cases hline with
  | invalid => simp at h
  | stable hst =>
      rcases hst with rfl | rfl <;> simp at h
      subst h
      refine ⟨by constructor <;> simp_all [Config.home], ?_⟩
      convert ForwardStep.fwdGetSM hpop hstate using 1
      simp [*]
  | @transient entryState state data buffer pendingAcks hst hbuffer =>
      cases state <;> simp at hst h
      obtain rfl := hbuffer rfl
      subst h
      refine ⟨by constructor <;> simp_all [Config.home], ?_⟩
      convert ForwardStep.fwdGetSMI_A hpop hstate using 1
      simp [*]

/-- What `forwardRequestNetwork_in` does with a GETM. -/
theorem fwdGetM_commits (hs : s.WellFormed config) {src dst requestor : MachineID ι δ}
    {value : D} {line : L1Cache.Line D}
    (hhead : s.forwardNet.head (.L1Cache i) = some ⟨src, dst, ⟨address, .GETM, requestor, value⟩⟩)
    (hl : s.line i address = line) {ctx : L1Cache.Ctx (MachineID ι δ) A D}
    (h : L1Cache.trigger (l1Env config s i address (.forward ⟨address, .GETM, requestor, value⟩) id)
      line (L1Cache.forwardRequestNetwork_in ⟨address, .GETM, requestor, value⟩) = .valid ctx) :
    s.CommitsL1 config i address ctx ∧
      ForwardStep (view config s image address)
        (view config (s.commitL1 i address ctx)
          (observe image (ctx.callbacks.map (address, ·))) address) := by
  obtain ⟨-, -, hrequestor, -⟩ := hs.forward _ (removed_of_head hhead).mem
  obtain rfl : dst = .L1Cache i := (Network.pop_spec hhead).1
  have hline := hs.line i address
  have hpop := hs.popped_forward image address hhead
    (y := (.L1Cache i, .GETM requestor)) (by simp [forwardOf])
  obtain ⟨hstate, hdata, hacks⟩ := view_line config image hl
  rw [hs.view_commitL1]
  rw [hl] at hline
  generalize view config s image address = b at *
  cases hline with
  | invalid => simp at h
  | stable hst =>
      rcases hst with rfl | rfl <;> simp at h
      subst h
      refine ⟨by constructor <;> simp_all, ?_⟩
      convert ForwardStep.fwdGetMM hpop hstate using 1
      simp [invalidate, *]
  | @transient entryState state data buffer pendingAcks hst hbuffer =>
      cases state <;> simp at hst h
      obtain rfl := hbuffer rfl
      subst h
      refine ⟨by constructor <;> simp_all, ?_⟩
      convert ForwardStep.fwdGetMMI_A hpop hstate using 1
      simp [*]

/-- What `forwardRequestNetwork_in` does with an invalidation. -/
theorem inv_commits (hs : s.WellFormed config) {src dst requestor : MachineID ι δ}
    {value : D} {line : L1Cache.Line D}
    (hhead : s.forwardNet.head (.L1Cache i) = some ⟨src, dst, ⟨address, .INV, requestor, value⟩⟩)
    (hl : s.line i address = line) {ctx : L1Cache.Ctx (MachineID ι δ) A D}
    (h : L1Cache.trigger (l1Env config s i address (.forward ⟨address, .INV, requestor, value⟩) id)
      line (L1Cache.forwardRequestNetwork_in ⟨address, .INV, requestor, value⟩) = .valid ctx) :
    s.CommitsL1 config i address ctx ∧
      ForwardStep (view config s image address)
        (view config (s.commitL1 i address ctx)
          (observe image (ctx.callbacks.map (address, ·))) address) := by
  obtain ⟨-, -, hrequestor, -⟩ := hs.forward _ (removed_of_head hhead).mem
  obtain rfl : dst = .L1Cache i := (Network.pop_spec hhead).1
  have hline := hs.line i address
  have hpop := hs.popped_forward image address hhead
    (y := (.L1Cache i, .INV requestor)) (by simp [forwardOf])
  obtain ⟨hstate, hdata, hacks⟩ := view_line config image hl
  rw [hs.view_commitL1]
  rw [hl] at hline
  generalize view config s image address = b at *
  cases hline with
  | invalid =>
      simp at h
      subst h
      refine ⟨by constructor <;> simp_all, ?_⟩
      convert ForwardStep.invI hpop hstate using 1
      simp [*]
  | stable hst =>
      rcases hst with rfl | rfl <;> simp at h
      subst h
      refine ⟨by constructor <;> simp_all, ?_⟩
      convert ForwardStep.invS hpop hstate using 1
      simp [invalidate, *]
  | @transient entryState state data buffer pendingAcks hst hbuffer =>
      cases state <;> simp at hst h <;> subst h <;> refine ⟨by constructor <;> simp_all, ?_⟩
      case SM_AD =>
        convert ForwardStep.invSM_AD hpop hstate using 1
        simp [*]
      case SI_A =>
        convert ForwardStep.invSI_A hpop hstate using 1
        simp [*]

/-- What `forwardRequestNetwork_in` does with a write-back acknowledgement. -/
theorem wbAck_commits (hs : s.WellFormed config) {src dst requestor : MachineID ι δ}
    {value : D} {line : L1Cache.Line D}
    (hhead : s.forwardNet.head (.L1Cache i) =
      some ⟨src, dst, ⟨address, .WB_ACK, requestor, value⟩⟩)
    (hl : s.line i address = line) {ctx : L1Cache.Ctx (MachineID ι δ) A D}
    (h : L1Cache.trigger
      (l1Env config s i address (.forward ⟨address, .WB_ACK, requestor, value⟩) id) line
      (L1Cache.forwardRequestNetwork_in ⟨address, .WB_ACK, requestor, value⟩) = .valid ctx) :
    s.CommitsL1 config i address ctx ∧
      ForwardStep (view config s image address)
        (view config (s.commitL1 i address ctx)
          (observe image (ctx.callbacks.map (address, ·))) address) := by
  obtain rfl : dst = .L1Cache i := (Network.pop_spec hhead).1
  have hline := hs.line i address
  have hpop := hs.popped_forward image address hhead
    (y := (.L1Cache i, .WB_ACK)) (by simp [forwardOf])
  obtain ⟨hstate, hdata, hacks⟩ := view_line config image hl
  rw [hs.view_commitL1]
  rw [hl] at hline
  generalize view config s image address = b at *
  cases hline with
  | invalid =>
      simp at h
      subst h
      refine ⟨by constructor <;> simp_all, ?_⟩
      convert ForwardStep.wbAckI hpop hstate using 1
      simp [*]
  | stable hst => rcases hst with rfl | rfl <;> simp at h
  | @transient entryState state data buffer pendingAcks hst hbuffer =>
      cases state <;> simp at hst h <;> subst h <;> refine ⟨by constructor <;> simp_all, ?_⟩
      all_goals
        convert ForwardStep.wbAck hpop (by simp [hstate]) using 1
        simp [invalidate, *]

/-- What `forwardRequestNetwork_in` does. -/
theorem forward_commits (hs : s.WellFormed config) {src dst requestor : MachineID ι δ}
    {type : CoherenceRequestType} {value : D} {line : L1Cache.Line D}
    (hhead : s.forwardNet.head (.L1Cache i) = some ⟨src, dst, ⟨address, type, requestor, value⟩⟩)
    (hl : s.line i address = line) {ctx : L1Cache.Ctx (MachineID ι δ) A D}
    (h : L1Cache.trigger (l1Env config s i address (.forward ⟨address, type, requestor, value⟩) id)
      line (L1Cache.forwardRequestNetwork_in ⟨address, type, requestor, value⟩) = .valid ctx) :
    s.CommitsL1 config i address ctx ∧
      ForwardStep (view config s image address)
        (view config (s.commitL1 i address ctx)
          (observe image (ctx.callbacks.map (address, ·))) address) := by
  obtain ⟨-, -, -, htype⟩ := hs.forward _ (removed_of_head hhead).mem
  simp only [List.mem_cons, List.not_mem_nil, or_false] at htype
  rcases htype with rfl | rfl | rfl | rfl
  · exact fwdGetS_commits image hs hhead hl h
  · exact fwdGetM_commits image hs hhead hl h
  · exact inv_commits image hs hhead hl h
  · exact wbAck_commits image hs hhead hl h

end Forward

section Response

attribute [local simp] L1Cache.responseNetwork_in L1Cache.getPendingAcks
  L1Cache.u_writeDataToCache L1Cache.rx_load_hit L1Cache.sx_store_hit L1Cache.n_popResponseQueue
  L1Cache.q_updateAckCount L1Cache.writeCallback

/-- What `responseNetwork_in` does with an acknowledged invalidation. -/
theorem ack_commits (hs : s.WellFormed config) {src dst sender : MachineID ι δ} {value : D}
    {line : L1Cache.Line D} {write : D → D}
    (hhead : s.responseNet.head (.L1Cache i) = some ⟨src, dst, ⟨address, .ACK, sender, value, 1⟩⟩)
    (hl : s.line i address = line) {ctx : L1Cache.Ctx (MachineID ι δ) A D}
    (h : L1Cache.trigger
      (l1Env config s i address (.response ⟨address, .ACK, sender, value, 1⟩) write) line
      (L1Cache.responseNetwork_in line.tbe ⟨address, .ACK, sender, value, 1⟩) = .valid ctx) :
    s.CommitsL1 config i address ctx ∧
      ResponseStep (view config s image address)
        (view config (s.commitL1 i address ctx)
          (observe image (ctx.callbacks.map (address, ·))) address) := by
  obtain rfl : dst = .L1Cache i := (Network.pop_spec hhead).1
  have hline := hs.line i address
  have hremoved : Removed (view config s image address).responses (.L1Cache i, .ACK) _ :=
    (removed_of_head hhead).filter_map_some (f := responseOf address) (by simp)
  obtain ⟨hstate, hdata, hacks⟩ := view_line config image hl
  rw [hs.view_commitL1]
  rw [hl] at hline
  generalize view config s image address = b at *
  cases hline with
  | invalid | stable hst => simp at h
  | @transient entryState state data buffer pendingAcks hst hbuffer =>
      by_cases hlast : pendingAcks - 1 = 0
      · cases state <;> simp [hlast] at hst h
        all_goals
          subst h
          refine ⟨by constructor <;> simp_all, ?_⟩
          convert @ResponseStep.invAckAll _ _ _ b (.L1Cache i) (write data) _ hremoved
            (by simp [hstate]) (by simp [hacks, hlast]) using 1
          simp [performStore, *]
      · cases state <;> simp [hlast] at hst h
        all_goals
          subst h
          refine ⟨by constructor <;> simp_all, ?_⟩
          convert ResponseStep.invAck hremoved (by simp [hstate]) (by simp [hacks, hlast]) using 1
          simp [*]

/-- What `responseNetwork_in` does with data that needs no more acknowledgements. -/
theorem data_commits (hs : s.WellFormed config) {src dst sender : MachineID ι δ}
    {type : CoherenceResponseType} {value : D} {ackCount : Int} {line : L1Cache.Line D}
    {write : D → D} (htype : (type = .DATA_FROM_DIR ∧ ackCount = 0) ∨ type = .DATA_FROM_OWNER)
    (hhead : s.responseNet.head (.L1Cache i) =
      some ⟨src, dst, ⟨address, type, sender, value, ackCount⟩⟩)
    (hl : s.line i address = line) {ctx : L1Cache.Ctx (MachineID ι δ) A D}
    (h : L1Cache.trigger
      (l1Env config s i address (.response ⟨address, type, sender, value, ackCount⟩) write) line
      (L1Cache.responseNetwork_in line.tbe ⟨address, type, sender, value, ackCount⟩) = .valid ctx) :
    s.CommitsL1 config i address ctx ∧
      ResponseStep (view config s image address)
        (view config (s.commitL1 i address ctx)
          (observe image (ctx.callbacks.map (address, ·))) address) := by
  obtain rfl : dst = .L1Cache i := (Network.pop_spec hhead).1
  have hline := hs.line i address
  have hremoved : Removed (view config s image address).responses
      (.L1Cache i, .DATA value 0) _ := (removed_of_head hhead).filter_map_some
        (f := responseOf address) (by rcases htype with ⟨rfl, rfl⟩ | rfl <;> simp)
  obtain ⟨hstate, hdata, hacks⟩ := view_line config image hl
  rw [hs.view_commitL1]
  rw [hl] at hline
  generalize view config s image address = b at *
  cases hline with
  | invalid => rcases htype with ⟨rfl, rfl⟩ | rfl <;> simp at h
  | stable hst =>
      rcases hst with rfl | rfl <;> rcases htype with ⟨rfl, rfl⟩ | rfl <;> simp at h
  | @transient entryState state data buffer pendingAcks hst hbuffer =>
      rcases htype with ⟨rfl, rfl⟩ | rfl <;> cases state <;> simp at hst h <;> subst h <;>
        refine ⟨by constructor <;> simp_all, ?_⟩
      case inl.IS_D | inr.IS_D =>
        convert ResponseStep.dataIS_D hremoved (by simp [hstate]) using 1
        simp [*]
      all_goals
        convert @ResponseStep.dataLast _ _ _ b (.L1Cache i) value (write value) 0 _ hremoved
          (by simp [hstate]) (Or.inl rfl) using 1
        simp [performStore, *]

/-- What `responseNetwork_in` does with data that comes with an ack count. -/
theorem data_ack_cnt_commits (hs : s.WellFormed config) {src dst sender : MachineID ι δ}
    {value : D} {ackCount : Int} {line : L1Cache.Line D} {write : D → D} (hzero : ackCount ≠ 0)
    (hhead : s.responseNet.head (.L1Cache i) =
      some ⟨src, dst, ⟨address, .DATA_FROM_DIR, sender, value, ackCount⟩⟩)
    (hl : s.line i address = line) {ctx : L1Cache.Ctx (MachineID ι δ) A D}
    (h : L1Cache.trigger
      (l1Env config s i address
        (.response ⟨address, .DATA_FROM_DIR, sender, value, ackCount⟩) write)
      line (L1Cache.responseNetwork_in line.tbe
        ⟨address, .DATA_FROM_DIR, sender, value, ackCount⟩) = .valid ctx) :
    s.CommitsL1 config i address ctx ∧
      ResponseStep (view config s image address)
        (view config (s.commitL1 i address ctx)
          (observe image (ctx.callbacks.map (address, ·))) address) := by
  obtain rfl : dst = .L1Cache i := (Network.pop_spec hhead).1
  have hline := hs.line i address
  have hremoved : Removed (view config s image address).responses
      (.L1Cache i, .DATA value ackCount) _ :=
    (removed_of_head hhead).filter_map_some (f := responseOf address) (by simp)
  obtain ⟨hstate, hdata, hacks⟩ := view_line config image hl
  rw [hs.view_commitL1]
  rw [hl] at hline
  generalize view config s image address = b at *
  cases hline with
  | invalid | stable hst => simp [hzero] at h
  | @transient entryState state data buffer pendingAcks hst hbuffer =>
      by_cases hlast : pendingAcks - ackCount = 0
      · cases state <;> simp [hzero, hlast] at hst h
        all_goals
          subst h
          refine ⟨by constructor <;> simp_all, ?_⟩
          convert @ResponseStep.dataLast _ _ _ b (.L1Cache i) value (write value) ackCount _
            hremoved (by simp [hstate]) (Or.inr (by simp [hacks, hlast])) using 1
          simp [performStore, *]
      · cases state <;> simp [hzero, hlast] at hst h <;> subst h <;>
          refine ⟨by constructor <;> simp_all, ?_⟩
        case IM_AD =>
          convert ResponseStep.dataAckCntIM_AD hremoved hstate hzero (by simp [hacks, hlast])
            using 1
          simp [*]
        case SM_AD =>
          convert ResponseStep.dataAckCntSM_AD hremoved hstate hzero (by simp [hacks, hlast])
            using 1
          simp [*]

/-- What `responseNetwork_in` does. -/
theorem response_commits (hs : s.WellFormed config)
    {p : Packet (MachineID ι δ) (ResponseMsg (MachineID ι δ) A D)} {write : D → D}
    (hhead : s.responseNet.head (.L1Cache i) = some p) {ctx : L1Cache.Ctx (MachineID ι δ) A D}
    (h : L1Cache.trigger (l1Env config s i p.msg.address (.response p.msg) write)
      (s.line i p.msg.address)
      (L1Cache.responseNetwork_in (s.line i p.msg.address).tbe p.msg) = .valid ctx) :
    s.CommitsL1 config i p.msg.address ctx ∧
      ResponseStep (view config s image p.msg.address)
        (view config (s.commitL1 i p.msg.address ctx)
          (observe image (ctx.callbacks.map (p.msg.address, ·))) p.msg.address) := by
  have hto := (Network.pop_spec hhead).1
  cases hs.response p (removed_of_head hhead).mem with
  | @data src dst msg hdst htype =>
      obtain ⟨address, type, sender, value, ackCount⟩ := msg
      rcases htype with rfl | rfl
      · by_cases hzero : ackCount = 0
        · exact data_commits image hs (Or.inl ⟨rfl, hzero⟩) hhead rfl h
        · exact data_ack_cnt_commits image hs hzero hhead rfl h
      · exact data_commits image hs (Or.inr rfl) hhead rfl h
  | @ack src dst msg hdst htype hone =>
      obtain ⟨address, type, sender, value, ackCount⟩ := msg
      obtain rfl : type = .ACK := htype
      obtain rfl : ackCount = 1 := hone
      exact ack_commits image hs hhead rfl h
  | downgrade hsrc hdst htype hsender =>
      exact absurd (hto.symm.trans hdst) (by simp [Config.home])

end Response

section Mandatory

attribute [local simp] L1Cache.i_allocateL1CacheBlock L1Cache.as_issueGetS L1Cache.am_issueGetM
  L1Cache.bs_issuePUTS L1Cache.bm_issuePUTM L1Cache.p_profileMiss L1Cache.v_allocateTBE
  L1Cache.x_copyDataFromCacheToTBE L1Cache.m_popMandatoryQueue L1Cache.r_load_hit
  L1Cache.s_store_hit L1Cache.writeCallback assertThat

/-- What a load does: a hit leaves the block alone. -/
theorem load_commits (hs : s.WellFormed config) {request : RubyRequest A} {event : L1Cache.Event}
    {line : L1Cache.Line D} {write : D → D} (hevent : event = .Load ∨ event = .Ifetch)
    (hl : s.line i address = line) {ctx : L1Cache.Ctx (MachineID ι δ) A D}
    (h : L1Cache.trigger (l1Env config s i address (.mandatory request) write) line (.ok event) =
      .valid ctx) :
    s.CommitsL1 config i address ctx ∧
      (view config (s.commitL1 i address ctx)
          (observe image (ctx.callbacks.map (address, ·))) address = view config s image address ∨
        CpuStep (view config s image address)
          (view config (s.commitL1 i address ctx)
            (observe image (ctx.callbacks.map (address, ·))) address)) := by
  have hline := hs.line i address
  obtain ⟨hstate, hdata, hacks⟩ := view_line config image hl
  rw [hs.view_commitL1]
  rw [hl] at hline
  generalize view config s image address = b at *
  cases hline with
  | invalid =>
      by_cases havail : (s.l1 i).cacheAvail (config.l1 i) address = true <;>
        rcases hevent with rfl | rfl <;> simp [havail] at h <;> subst h
      all_goals
        refine ⟨by constructor <;> simp [requestOk_iff, Config.home], Or.inr ?_⟩
        convert CpuStep.loadI hstate using 1
        simp [*]
  | stable hst =>
      rcases hst with rfl | rfl <;> rcases hevent with rfl | rfl <;> simp at h <;> subst h
      all_goals
        refine ⟨by constructor <;> simp, Or.inl ?_⟩
        cases b
        simp_all
  | @transient entryState state data buffer pendingAcks hst hbuffer =>
      rcases hevent with rfl | rfl <;> cases state <;> simp at hst h <;> subst h
      all_goals
        refine ⟨by constructor <;> simp, Or.inl ?_⟩
        cases b
        simp_all

/-- What a store does. -/
theorem store_commits (hs : s.WellFormed config) {request : RubyRequest A}
    {line : L1Cache.Line D} {write : D → D}
    (hl : s.line i address = line) {ctx : L1Cache.Ctx (MachineID ι δ) A D}
    (h : L1Cache.trigger (l1Env config s i address (.mandatory request) write) line (.ok .Store) =
      .valid ctx) :
    s.CommitsL1 config i address ctx ∧
      CpuStep (view config s image address)
        (view config (s.commitL1 i address ctx)
          (observe image (ctx.callbacks.map (address, ·))) address) := by
  have hline := hs.line i address
  obtain ⟨hstate, hdata, hacks⟩ := view_line config image hl
  rw [hs.view_commitL1]
  rw [hl] at hline
  generalize view config s image address = b at *
  cases hline with
  | invalid =>
      by_cases havail : (s.l1 i).cacheAvail (config.l1 i) address = true <;>
        simp [havail] at h
      subst h
      refine ⟨by constructor <;> simp [requestOk_iff, Config.home], ?_⟩
      convert CpuStep.storeI hstate using 1
      simp [*]
  | @stable state data hst =>
      rcases hst with rfl | rfl <;> simp at h <;> subst h <;>
        refine ⟨by constructor <;> simp [requestOk_iff, Config.home], ?_⟩
      case inl =>
        convert CpuStep.storeS hstate using 1
        simp [*]
      case inr =>
        convert @CpuStep.storeM _ _ _ b (.L1Cache i) (write data) hstate using 1
        simp [performStore, *]
  | @transient entryState state data buffer pendingAcks hst hbuffer =>
      cases state <;> simp at hst h

/-- What the replacement of a line does. -/
theorem replacement_commits (hs : s.WellFormed config) {request : RubyRequest A}
    {line : L1Cache.Line D} {write : D → D}
    (hl : s.line i address = line) {ctx : L1Cache.Ctx (MachineID ι δ) A D}
    (h : L1Cache.trigger (l1Env config s i address (.mandatory request) write) line
      (.ok .Replacement) = .valid ctx) :
    s.CommitsL1 config i address ctx ∧
      CpuStep (view config s image address)
        (view config (s.commitL1 i address ctx)
          (observe image (ctx.callbacks.map (address, ·))) address) := by
  have hline := hs.line i address
  obtain ⟨hstate, hdata, hacks⟩ := view_line config image hl
  rw [hs.view_commitL1]
  rw [hl] at hline
  generalize view config s image address = b at *
  cases hline with
  | invalid => simp at h
  | stable hst =>
      rcases hst with rfl | rfl <;> simp at h <;> subst h <;>
        refine ⟨by constructor <;> simp [requestOk_iff, Config.home], ?_⟩
      case inl =>
        convert CpuStep.replacementS hstate using 1
        simp [*]
      case inr =>
        convert CpuStep.replacementM hstate using 1
        simp [*]
  | @transient entryState state data buffer pendingAcks hst hbuffer =>
      cases state <;> simp at hst h

/-- What `mandatoryQueue_in` does. -/
theorem mandatory_commits (hs : s.WellFormed config) {request : RubyRequest A} {victim : A}
    {event : L1Cache.Event} {write : D → D}
    (hevent : mandatoryQueue_in (config.l1 i) (s.l1 i) request victim = some (event, address))
    {ctx : L1Cache.Ctx (MachineID ι δ) A D}
    (h : L1Cache.trigger (l1Env config s i address (.mandatory request) write) (s.line i address)
      (.ok event) = .valid ctx) :
    s.CommitsL1 config i address ctx ∧
      (view config (s.commitL1 i address ctx)
          (observe image (ctx.callbacks.map (address, ·))) address = view config s image address ∨
        CpuStep (view config s image address)
          (view config (s.commitL1 i address ctx)
            (observe image (ctx.callbacks.map (address, ·))) address)) := by
  simp only [mandatoryQueue_in] at hevent
  split at hevent
  · split at hevent <;> cases hevent
    exact (replacement_commits image hs rfl h).imp_right Or.inr
  · cases hevent
    cases htype : request.type <;>
      simp only [htype, L1Cache.mandatory_request_type_to_event] at h
    case LD => exact load_commits image hs (Or.inl rfl) rfl h
    case IFETCH => exact load_commits image hs (Or.inr rfl) rfl h
    case ST | ATOMIC => exact (store_commits image hs rfl h).imp_right Or.inr

end Mandatory

end Evaluate

end Ece552.Msi
