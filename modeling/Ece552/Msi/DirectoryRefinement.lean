import Ece552.Msi.View

/-!
# The directory as seen at one address

Each valid transition of the directory is a step of the block of its address, labelled with the
event that the in-port triggers and the machine whose message does. Every proof takes the line and
the event apart, computes what the actions do, and names the step.
-/

namespace Ece552.Msi

open Library Block

variable {ι δ A D : Type} [DecidableEq ι] [DecidableEq δ] [DecidableEq A] [Inhabited D]
  {config : Config ι δ A D} {s : System ι δ A D} (image : A → D) {address : A} {d : δ}

/-- The destination set of the invalidations. -/
theorem invalidated_eq {N : Type} [DecidableEq N] (sharers : NetDest N) (r : N) :
    (if r ∈ sharers then sharers.remove r else sharers) = sharers.remove r := by
  split
  · rfl
  · next h => exact (NetDest.remove_of_not_mem h).symm

/-- The ack count is minus the number of invalidations. -/
theorem ackCount_eq {N : Type} [DecidableEq N] (sharers : NetDest N) (r : N) :
    (if r ∈ sharers then 1 - (sharers.count : Int) else -(sharers.count : Int)) =
      -((sharers.remove r).count : Int) := by
  split
  · next h =>
      have := NetDest.count_remove_of_mem h
      omega
  · next h =>
      rw [NetDest.remove_of_not_mem h]

/-- What is left of an entry that ends in state I. -/
theorem invalidateBlock_eq {N : Type} {useMap : Bool} {data : D} :
    Directory.invalidateBlock useMap (⟨.I, data, .empty, .empty⟩ : Directory.Entry N D) =
      ⟨.I, forget useMap data, .empty, .empty⟩ := by
  cases useMap <;> rfl

section Evaluate

attribute [local simp] Directory.trigger Directory.doTransition Directory.transition
  Directory.getState Directory.runActions Directory.setState invalidateBlock_eq bind
  Except.bind Outcome.ofExcept Directory.Env.peekRequest Directory.Env.peekResponse
  Directory.Env.peekMemory Directory.Ctx.updateEntry Directory.enqueueForward Directory.enqueueData
  Directory.enqueueMemory Directory.dequeue Directory.requestQueue_in
  Directory.i_popIncomingRequestQueue Directory.vv_allocateTBEFromRequestNet
  Directory.w_deallocateTBE Directory.a_sendWriteBackAck Directory.kk_removeRequestSharer
  assertThat requestOf responseOf downgradeOf forwardOf memoryOf

section Get

attribute [local simp] Directory.ars2_addRequestorToSharers Directory.qf_queueMemoryFetchRequest
  Directory.e_ownerIsRequestor Directory.ds_sendSharedData Directory.ds2_sendSharedData
  Directory.fwm_sendFwdInvToSharersMinusRequestor Directory.cs_clearSharers
  Directory.f_forwardRequest Directory.aos_addOwnertoSharers Directory.c_clearOwner

/-- What the directory does with a GETS. -/
theorem gets_commits (hs : s.WellFormed config) (hhome : config.mapAddressToDirectory address = d)
    {src dst requestor : MachineID ι δ} {value : D} {line : Directory.Line (MachineID ι δ) D}
    (hhead : s.requestNet.head (.Directory d) = some ⟨src, dst, ⟨address, .GETS, requestor, value⟩⟩)
    (hl : s.dir address = line) {ctx : Directory.Ctx (MachineID ι δ) A D}
    (h : Directory.trigger ⟨.Directory d, address, config.useMap,
      .request ⟨address, .GETS, requestor, value⟩⟩ line (.ok .GETS) = .valid ctx) :
    s.CommitsDir config d 0 address ctx ∧
      RequestStep config.useMap (view config s image address) .GETS requestor
        (view config (s.commitDir d 0 address ctx) image address) := by
  obtain ⟨hsrc, hrequestor, -, -⟩ := hs.request _ (removed_of_head hhead).mem
  obtain rfl : requestor = src := hrequestor
  have hpop := hs.popped_request image address hhead (y := (requestor, .GETS)) (by simp)
  have hline := hs.dir address
  have hsharers := hs.sharers address
  have howner := hs.owner address
  obtain ⟨hdir, hdirData, hs', ho'⟩ := view_dir config image hl
  rw [hs.view_commitDir hhome]
  rw [hl] at hline hsharers howner
  generalize view config s image address = b at *
  cases hline with
  | @stable entry hst =>
      obtain ⟨state, data, sharers, owner⟩ := entry
      rcases hst with rfl | rfl | rfl <;> simp at h <;> subst h
      · refine ⟨by constructor <;> simp_all [forwardOk_iff, Config.home], ?_⟩
        convert RequestStep.getSI hpop hdir using 1
        simp [*]
      · refine ⟨by constructor <;> simp_all [forwardOk_iff, Config.home], ?_⟩
        convert RequestStep.getSS hpop hdir using 1
        simp [*]
      · refine ⟨?_, ?_⟩
        · constructor <;> simp_all [forwardOk_iff, Config.home]
          grind
        · convert RequestStep.getSM hpop hdir using 1
          simp [multicast, Function.comp_def, *]
  | @transient entry state buffer hst => cases state <;> simp at hst h

/-- What the directory does with a GETM. -/
theorem getm_commits (hs : s.WellFormed config) (hhome : config.mapAddressToDirectory address = d)
    {src dst requestor : MachineID ι δ} {value : D} {line : Directory.Line (MachineID ι δ) D}
    (hhead : s.requestNet.head (.Directory d) = some ⟨src, dst, ⟨address, .GETM, requestor, value⟩⟩)
    (hl : s.dir address = line) {ctx : Directory.Ctx (MachineID ι δ) A D}
    (h : Directory.trigger ⟨.Directory d, address, config.useMap,
      .request ⟨address, .GETM, requestor, value⟩⟩ line (.ok .GETM) = .valid ctx) :
    s.CommitsDir config d 0 address ctx ∧
      RequestStep config.useMap (view config s image address) .GETM requestor
        (view config (s.commitDir d 0 address ctx) image address) := by
  obtain ⟨hsrc, hrequestor, -, -⟩ := hs.request _ (removed_of_head hhead).mem
  obtain rfl : requestor = src := hrequestor
  have hpop := hs.popped_request image address hhead (y := (requestor, .GETM)) (by simp)
  have hline := hs.dir address
  have hsharers := hs.sharers address
  have howner := hs.owner address
  obtain ⟨hdir, hdirData, hs', ho'⟩ := view_dir config image hl
  rw [hs.view_commitDir hhome]
  rw [hl] at hline hsharers howner
  generalize view config s image address = b at *
  cases hline with
  | @stable entry hst =>
      obtain ⟨state, data, sharers, owner⟩ := entry
      rcases hst with rfl | rfl | rfl
      · simp at h
        subst h
        refine ⟨by constructor <;> simp_all [forwardOk_iff, Config.home], ?_⟩
        convert RequestStep.getMI hpop hdir using 1
        simp [*]
      · simp [invalidated_eq, ackCount_eq] at h
        subst h
        refine ⟨?_, ?_⟩
        · constructor <;> simp_all [forwardOk_iff, Config.home]
          rintro p x - hx rfl
          simp_all
        · convert RequestStep.getMS hpop hdir using 1
          simp [multicast, Function.comp_def, *]
      · by_cases hcount : sharers.count = 0 <;> simp [hcount] at h
        subst h
        refine ⟨?_, ?_⟩
        · constructor <;> simp_all [forwardOk_iff, Config.home]
        · convert RequestStep.getMM hpop hdir using 1
          simp [multicast, Function.comp_def, *]
  | @transient entry state buffer hst => cases state <;> simp at hst h

end Get

section Put

attribute [local simp] Directory.pl_writeDataToDirectory Directory.lq_queueMemoryWBRequest
  Directory.c_clearOwner

/-- What the directory does with a PUTS of the last sharer. -/
theorem puts_last_commits (hs : s.WellFormed config)
    (hhome : config.mapAddressToDirectory address = d)
    {src dst requestor : MachineID ι δ} {value : D} {line : Directory.Line (MachineID ι δ) D}
    (hhead : s.requestNet.head (.Directory d) = some ⟨src, dst, ⟨address, .PUTS, requestor, value⟩⟩)
    (hl : s.dir address = line) (hcount : line.entry.sharers.count < 2)
    {ctx : Directory.Ctx (MachineID ι δ) A D}
    (h : Directory.trigger ⟨.Directory d, address, config.useMap,
      .request ⟨address, .PUTS, requestor, value⟩⟩ line (.ok .PUTS_Last) = .valid ctx) :
    s.CommitsDir config d 0 address ctx ∧
      RequestStep config.useMap (view config s image address) .PUTS_Last requestor
        (view config (s.commitDir d 0 address ctx) image address) := by
  obtain ⟨hsrc, hrequestor, -, -⟩ := hs.request _ (removed_of_head hhead).mem
  obtain rfl : requestor = src := hrequestor
  have hpop := hs.popped_request image address hhead (y := (requestor, .PUTS)) (by simp)
  have hline := hs.dir address
  have hsharers := hs.sharers address
  have howner := hs.owner address
  obtain ⟨hdir, hdirData, hs', ho'⟩ := view_dir config image hl
  rw [hs.view_commitDir hhome]
  rw [hl] at hline hsharers howner
  generalize view config s image address = b at *
  cases hline with
  | @stable entry hst =>
      obtain ⟨state, data, sharers, owner⟩ := entry
      rcases hst with rfl | rfl | rfl
      · by_cases howners : owner.count = 0 <;> by_cases hshared : sharers.count = 0 <;>
          simp [howners, hshared] at h
        obtain rfl := NetDest.eq_empty_of_count howners
        obtain rfl := NetDest.eq_empty_of_count hshared
        simp at h
        subst h
        refine ⟨by constructor <;> simp_all [forwardOk_iff, Config.home], ?_⟩
        convert RequestStep.putSLastI hpop hdir using 1
        simp [*]
      · by_cases howners : owner.count = 0 <;>
          by_cases hshared : (sharers.remove requestor).count = 0 <;>
            simp [howners, hshared] at h
        obtain rfl := NetDest.eq_empty_of_count howners
        simp [NetDest.eq_empty_of_count hshared] at h
        subst h
        refine ⟨by constructor <;> simp_all [forwardOk_iff, Config.home], ?_⟩
        convert RequestStep.putSLastS hpop hdir (by simp [hs', hshared]) using 1
        simp [*]
      · by_cases howners : owner.count = 1 <;> by_cases hshared : sharers.count = 0 <;>
          simp [howners, hshared] at h
        subst h
        refine ⟨by constructor <;> simp_all [forwardOk_iff, Config.home], ?_⟩
        convert @RequestStep.putSM _ _ _ _ _ b _ .PUTS_Last _ hpop (by simp [hdir])
          (by simp) using 1
        simp [*]
  | @transient entry state buffer hst =>
      obtain ⟨entryState, data, sharers, owner⟩ := entry
      cases state <;> simp at hst h <;> subst h <;>
        refine ⟨by constructor <;> simp_all [forwardOk_iff, Config.home], ?_⟩
      case MI_M =>
        convert @RequestStep.putSM _ _ _ _ _ b _ .PUTS_Last _ hpop (by simp [hdir])
          (by simp) using 1
        simp [*]
      all_goals
        convert RequestStep.putSLastMS hpop (by simp [hdir]) (by simpa [hs'] using hcount) using 1
        simp [*]

/-- What the directory does with a PUTS when other sharers are left. -/
theorem puts_notLast_commits (hs : s.WellFormed config)
    (hhome : config.mapAddressToDirectory address = d)
    {src dst requestor : MachineID ι δ} {value : D} {line : Directory.Line (MachineID ι δ) D}
    (hhead : s.requestNet.head (.Directory d) = some ⟨src, dst, ⟨address, .PUTS, requestor, value⟩⟩)
    (hl : s.dir address = line) (hcount : 2 ≤ line.entry.sharers.count)
    {ctx : Directory.Ctx (MachineID ι δ) A D}
    (h : Directory.trigger ⟨.Directory d, address, config.useMap,
      .request ⟨address, .PUTS, requestor, value⟩⟩ line (.ok .PUTS_NotLast) = .valid ctx) :
    s.CommitsDir config d 0 address ctx ∧
      RequestStep config.useMap (view config s image address) .PUTS_NotLast requestor
        (view config (s.commitDir d 0 address ctx) image address) := by
  obtain ⟨hsrc, hrequestor, -, -⟩ := hs.request _ (removed_of_head hhead).mem
  obtain rfl : requestor = src := hrequestor
  have hpop := hs.popped_request image address hhead (y := (requestor, .PUTS)) (by simp)
  have hline := hs.dir address
  have hsharers := hs.sharers address
  have howner := hs.owner address
  obtain ⟨hdir, hdirData, hs', ho'⟩ := view_dir config image hl
  rw [hs.view_commitDir hhome]
  rw [hl] at hline hsharers howner
  generalize view config s image address = b at *
  cases hline with
  | @stable entry hst =>
      obtain ⟨state, data, sharers, owner⟩ := entry
      have hcount : 2 ≤ sharers.count := hcount
      rcases hst with rfl | rfl | rfl
      · simp at h
      · simp at h
        subst h
        refine ⟨by constructor <;> simp_all [forwardOk_iff, Config.home], ?_⟩
        convert RequestStep.putSNotLast hpop (by simp [hdir]) (by simpa [hs'] using hcount) using 1
        simp [*]
      · -- state M asserts that there are no sharers
        have hshared : sharers.count ≠ 0 := by omega
        by_cases howners : owner.count = 1 <;> simp [howners, hshared] at h
  | @transient entry state buffer hst =>
      obtain ⟨entryState, data, sharers, owner⟩ := entry
      cases state <;> simp at hst h <;> subst h <;>
        refine ⟨by constructor <;> simp_all [forwardOk_iff, Config.home], ?_⟩
      case MI_M =>
        convert @RequestStep.putSM _ _ _ _ _ b _ .PUTS_NotLast _ hpop (by simp [hdir])
          (by simp) using 1
        simp [*]
      all_goals
        convert RequestStep.putSNotLast hpop (by simp [hdir]) (by simpa [hs'] using hcount) using 1
        simp [*]

/-- What the directory does with a PUTM. -/
theorem putm_commits (hs : s.WellFormed config) (hhome : config.mapAddressToDirectory address = d)
    {src dst requestor : MachineID ι δ} {value : D} {line : Directory.Line (MachineID ι δ) D}
    (hhead : s.requestNet.head (.Directory d) = some ⟨src, dst, ⟨address, .PUTM, requestor, value⟩⟩)
    (hl : s.dir address = line) {event : Directory.Event}
    (hevent : event =
      if line.entry.owner.isElement requestor then .PUTM_Owner else .PUTM_NotOwner)
    {ctx : Directory.Ctx (MachineID ι δ) A D}
    (h : Directory.trigger ⟨.Directory d, address, config.useMap,
      .request ⟨address, .PUTM, requestor, value⟩⟩ line (.ok event) = .valid ctx) :
    s.CommitsDir config d 0 address ctx ∧
      RequestStep config.useMap (view config s image address) event requestor
        (view config (s.commitDir d 0 address ctx) image address) := by
  obtain ⟨hsrc, hrequestor, -, -⟩ := hs.request _ (removed_of_head hhead).mem
  obtain rfl : requestor = src := hrequestor
  have hpop := hs.popped_request image address hhead (y := (requestor, .PUTM value)) (by simp)
  have hline := hs.dir address
  have hsharers := hs.sharers address
  have howner := hs.owner address
  obtain ⟨hdir, hdirData, hs', ho'⟩ := view_dir config image hl
  rw [hs.view_commitDir hhome]
  rw [hl] at hline hsharers howner
  generalize view config s image address = b at *
  cases hline with
  | @stable entry hst =>
      obtain ⟨state, data, sharers, owner⟩ := entry
      by_cases hmem : requestor ∈ owner
      · obtain rfl : event = .PUTM_Owner := by simpa [hmem] using hevent
        rcases hst with rfl | rfl | rfl <;> simp at h
        subst h
        refine ⟨by constructor <;> simp_all [forwardOk_iff, Config.home], ?_⟩
        convert RequestStep.putMOwner hpop hdir (by simp [ho', hmem]) using 1
        simp [*]
      · obtain rfl : event = .PUTM_NotOwner := by simpa [hmem] using hevent
        rcases hst with rfl | rfl | rfl
        · simp at h
        · simp at h
          subst h
          refine ⟨by constructor <;> simp_all [forwardOk_iff, Config.home], ?_⟩
          convert RequestStep.putMS hpop hdir (by simp [ho', hmem]) using 1
          simp [*]
        · by_cases howners : owner.count = 1 <;> by_cases hshared : sharers.count = 0 <;>
            simp [howners, hshared] at h
          subst h
          refine ⟨by constructor <;> simp_all [forwardOk_iff, Config.home], ?_⟩
          convert RequestStep.putMNotOwner hpop (by simp [hdir]) (by simp [ho', hmem]) using 1
          simp [*]
  | @transient entry state buffer hst =>
      obtain ⟨entryState, data, sharers, owner⟩ := entry
      by_cases hmem : requestor ∈ owner
      · obtain rfl : event = .PUTM_Owner := by simpa [hmem] using hevent
        cases state <;> simp at hst h
      · obtain rfl : event = .PUTM_NotOwner := by simpa [hmem] using hevent
        cases state <;> simp at hst h <;> subst h <;>
          refine ⟨by constructor <;> simp_all [forwardOk_iff, Config.home], ?_⟩
        case MI_M =>
          convert RequestStep.putMNotOwner hpop (by simp [hdir]) (by simp [ho', hmem]) using 1
          simp [*]
        case MS_D =>
          convert RequestStep.putMMS_D hpop hdir (by simp [ho', hmem]) using 1
          simp [*]
        case MS_M =>
          convert RequestStep.putMMS_M hpop hdir (by simp [ho', hmem]) using 1
          simp [*]

end Put

/-- What `requestQueue_in` does. -/
theorem request_commits (hs : s.WellFormed config)
    {p : Packet (MachineID ι δ) (RequestMsg (MachineID ι δ) A D)}
    (hhome : config.mapAddressToDirectory p.msg.address = d)
    (hhead : s.requestNet.head (.Directory d) = some p)
    {ctx : Directory.Ctx (MachineID ι δ) A D}
    (h : Directory.trigger ⟨.Directory d, p.msg.address, config.useMap, .request p.msg⟩
      (s.dir p.msg.address) (Directory.requestQueue_in (s.dir p.msg.address) p.msg) = .valid ctx) :
    s.CommitsDir config d 0 p.msg.address ctx ∧
      ∃ event, Directory.requestQueue_in (s.dir p.msg.address) p.msg = .ok event ∧
        RequestStep config.useMap (view config s image p.msg.address) event p.msg.requestor
          (view config (s.commitDir d 0 p.msg.address ctx) image p.msg.address) := by
  have htype := (hs.request p (removed_of_head hhead).mem).type
  obtain ⟨src, dst, address, type, requestor, value⟩ := p
  simp only [List.mem_cons, List.not_mem_nil, or_false] at htype
  rcases htype with rfl | rfl | rfl | rfl
  · obtain ⟨hcommits, hstep⟩ := gets_commits image hs hhome hhead rfl h
    exact ⟨hcommits, _, rfl, hstep⟩
  · obtain ⟨hcommits, hstep⟩ := getm_commits image hs hhome hhead rfl h
    exact ⟨hcommits, _, rfl, hstep⟩
  · rcases Nat.lt_or_ge (s.dir address).entry.sharers.count 2 with hcount | hcount
    · have hevent : Directory.requestQueue_in (s.dir address) ⟨address, .PUTS, requestor, value⟩ =
          .ok .PUTS_Last := by
        simp [Directory.requestQueue_in, hcount]
      rw [hevent] at h
      obtain ⟨hcommits, hstep⟩ := puts_last_commits image hs hhome hhead rfl hcount h
      exact ⟨hcommits, _, hevent, hstep⟩
    · have hevent : Directory.requestQueue_in (s.dir address) ⟨address, .PUTS, requestor, value⟩ =
          .ok .PUTS_NotLast := by
        simp [Directory.requestQueue_in, Nat.not_lt.mpr hcount]
      rw [hevent] at h
      obtain ⟨hcommits, hstep⟩ := puts_notLast_commits image hs hhome hhead rfl hcount h
      exact ⟨hcommits, _, hevent, hstep⟩
  · have hevent : Directory.requestQueue_in (s.dir address) ⟨address, .PUTM, requestor, value⟩ =
        .ok (if (s.dir address).entry.owner.isElement requestor then .PUTM_Owner
          else .PUTM_NotOwner) := by
      simp only [Directory.requestQueue_in]
      split <;> rfl
    rw [hevent] at h
    obtain ⟨hcommits, hstep⟩ := putm_commits image hs hhome hhead rfl rfl h
    exact ⟨hcommits, _, hevent, hstep⟩

section Replies

attribute [local simp] Directory.responseQueue_in Directory.pr_popIncomingResponseQueue
  Directory.lq2_queueMemoryWBRequest Directory.pl2_writeDataToDirectory Directory.memQueue_in
  Directory.d_sendData Directory.qm_popMemQueue Directory.la_sendWriteBackAck

/-- What `responseQueue_in` does. -/
theorem data_for_dir_commits (hs : s.WellFormed config)
    {p : Packet (MachineID ι δ) (ResponseMsg (MachineID ι δ) A D)}
    (hhome : config.mapAddressToDirectory p.msg.address = d)
    (hhead : s.responseNet.head (.Directory d) = some p)
    {ctx : Directory.Ctx (MachineID ι δ) A D}
    (h : Directory.trigger ⟨.Directory d, p.msg.address, config.useMap, .response p.msg⟩
      (s.dir p.msg.address) (Directory.responseQueue_in p.msg) = .valid ctx) :
    s.CommitsDir config d 0 p.msg.address ctx ∧ Directory.responseQueue_in p.msg = .ok .Data ∧
      DataStep (view config s image p.msg.address) p.msg.sender
        (view config (s.commitDir d 0 p.msg.address ctx) image p.msg.address) := by
  have hok := hs.response p (removed_of_head hhead).mem
  have hdst := (Network.pop_spec hhead).1
  obtain ⟨src, dst, address, type, sender, value, ackCount⟩ := p
  obtain ⟨hsrc, -, rfl, rfl⟩ :
      src.isCache ∧ dst = config.home address ∧ type = .DATA ∧ sender = src := by
    cases hok with
    | data hcache _ | ack hcache _ _ => simp_all [MachineID.isCache]
    | downgrade hsrc hhome htype hsender => exact ⟨hsrc, hhome, htype, hsender⟩
  have hremoved : Removed (view config s image address).downgrades (sender, value) _ :=
    (removed_of_head hhead).filter_map_some (f := downgradeOf address) (by simp)
  have hline := hs.dir address
  have hsharers := hs.sharers address
  have howner := hs.owner address
  obtain ⟨hdir, hdirData, hs', ho'⟩ := view_dir config image (rfl : s.dir address = _)
  rw [hs.view_commitDir hhome]
  simp only at h
  generalize view config s image address = b at *
  generalize s.dir address = line at *
  cases hline with
  | @stable entry hst =>
      obtain ⟨state, data, sharers, owner⟩ := entry
      rcases hst with rfl | rfl | rfl
      · simp at h
      · simp at h
        subst h
        refine ⟨by constructor <;> simp_all, rfl, ?_⟩
        convert DataStep.dropped hremoved (by simp [hdir]) using 1
        simp [*]
      · by_cases howners : owner.count = 1 <;> by_cases hshared : sharers.count = 0 <;>
          simp [howners, hshared] at h
        subst h
        refine ⟨by constructor <;> simp_all, rfl, ?_⟩
        convert DataStep.dropped hremoved (by simp [hdir]) using 1
        simp [*]
  | @transient entry state buffer hst =>
      cases state <;> simp at hst h <;> subst h <;>
        refine ⟨by constructor <;> simp_all, rfl, ?_⟩
      case MS_D =>
        convert DataStep.dataMS_D hremoved hdir using 1
        simp [*]
      case MS_M =>
        convert DataStep.dataMS_M hremoved hdir using 1
        simp [*]

/-- What `memQueue_in` does. -/
theorem memory_commits (hs : s.WellFormed config) {index : Nat}
    {m : MemoryMsg (MachineID ι δ) A D} (hhome : config.mapAddressToDirectory m.address = d)
    (hget : (s.memQueue d)[index]? = some m) {ctx : Directory.Ctx (MachineID ι δ) A D}
    (h : Directory.trigger ⟨.Directory d, m.address, config.useMap, .memory m⟩ (s.dir m.address)
      (.ok (Directory.memQueue_in m)) = .valid ctx) :
    s.CommitsDir config d index m.address ctx ∧
      MemoryStep config.useMap (view config s image m.address) (Directory.memQueue_in m)
        m.originalRequestorMachId
        (view config (s.commitDir d index m.address ctx) image m.address) := by
  obtain ⟨-, hrequestor⟩ := hs.memory d m (List.mem_of_getElem? hget)
  obtain ⟨address, type, requestor, value⟩ := m
  have hremoved : Removed (view config s image address).memory (requestor, type, value)
      (((s.memQueue d).eraseIdx index).filterMap (memoryOf address)) := by
    subst hhome
    exact (Removed.eraseIdx hget).filter_map_some (f := memoryOf address) (by simp)
  have hline := hs.dir address
  have hsharers := hs.sharers address
  have howner := hs.owner address
  obtain ⟨hdir, hdirData, hs', ho'⟩ := view_dir config image (rfl : s.dir address = _)
  rw [hs.view_commitDir hhome]
  simp only at h
  generalize view config s image address = b at *
  generalize s.dir address = line at *
  cases hline with
  | @stable entry hst =>
      obtain ⟨state, data, sharers, owner⟩ := entry
      rcases hst with rfl | rfl | rfl <;> cases type <;> simp at h
  | @transient entry state buffer hst =>
      obtain ⟨entryState, data, sharers, owner⟩ := entry
      cases type
      · cases state <;> simp at hst h
        case IM_M =>
          by_cases howners : owner.count = 1 <;> by_cases hshared : sharers.count = 0 <;>
            simp [howners, hshared] at h
          subst h
          refine ⟨by constructor <;> simp_all, ?_⟩
          convert MemoryStep.dataIM_M hremoved hdir using 1 <;> simp [*]
        case IS_M =>
          subst h
          refine ⟨by constructor <;> simp_all, ?_⟩
          convert MemoryStep.dataIS_M hremoved hdir using 1 <;> simp [*]
      · cases state <;> simp at hst h
        case MS_M =>
          subst h
          refine ⟨by constructor <;> simp_all, ?_⟩
          convert MemoryStep.ackMS_M hremoved hdir using 1 <;> simp [*]
        case MI_M =>
          by_cases howners : owner.count = 0 <;> by_cases hshared : sharers.count = 0 <;>
            simp [howners, hshared] at h
          obtain rfl := NetDest.eq_empty_of_count howners
          obtain rfl := NetDest.eq_empty_of_count hshared
          simp at h
          subst h
          refine ⟨by constructor <;> simp_all [forwardOk_iff, Config.home], ?_⟩
          convert MemoryStep.ackMI_M hremoved hdir using 1 <;> simp [*]

end Replies

end Evaluate

end Ece552.Msi
