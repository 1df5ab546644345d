import Ece552.Msi.Census
import Ece552.Msi.Downgrade
import Ece552.Msi.Writeback

/-!
# What is pending

Every run of the system keeps the accounts of the packets in flight: one obligation to supply data
for each L1 that waits for it, and as many acknowledgements to come as the TBE counts. A memory
request is pending exactly in the states of the directory that wait for it; the same is true of
downgrades and of writebacks only along runs that avoid three transitions of the directory.
-/

namespace Ece552.Msi

open Library Block
open Directory (Trigger)
open scoped Sample

variable {ι δ A D : Type} [DecidableEq ι] [DecidableEq δ] [DecidableEq A] [Inhabited D]
  {config : Config ι δ A D} {s : System ι δ A D}

/-- The accounts of a reachable state, at any address. -/
theorem accounting_of_reachable (h : (msi config).Reachable s) :
    ∃ image, ∀ address, (view config s image address).Accounting := by
  obtain ⟨image, hrun⟩ := view_of_reachable h
  exact ⟨image, fun address => .of_run (hrun address)⟩

/-! ## Requests and responses -/

/-- The pending obligations to supply an L1 with data. -/
def System.obligations (config : Config ι δ A D) (s : System ι δ A D) (i : ι) (address : A) : Nat :=
  s.requestsFrom i address [.GETS] + s.requestsFrom i address [.GETM] +
    s.memoryRequestsOf config i address .MEMORY_READ +
    (s.forwardsNaming i address [.GETS] + s.forwardsNaming i address [.GETM]) +
    s.responsesTo i address [.DATA_FROM_DIR, .DATA_FROM_OWNER]

/-- One obligation is pending for an L1 that waits for data, and none for another. -/
theorem obligation_conservation (h : (msi config).Reachable s) (i : ι) (address : A) :
    s.obligations config i address =
      if s.stateOf i address ∈ [L1Cache.State.IS_D, .IM_AD, .SM_AD] then 1 else 0 := by
  obtain ⟨image, haccounts⟩ := accounting_of_reachable h
  have hobligations := (haccounts address).obligations (i := .L1Cache i)
  rw [← requestsFrom_eq_isGETS, ← requestsFrom_eq_isGETM, ← memoryRequestsOf_eq_isRead,
    ← forwardsNaming_eq_GETS, ← forwardsNaming_eq_GETM, ← responsesTo_eq_isData] at hobligations
  rw [System.obligations, hobligations]
  show awaitsShared (s.stateOf i address) + awaitsExclusive (s.stateOf i address) = _
  cases s.stateOf i address <;> rfl

/-- While memory reads a line for the load of an L1, that is the obligation. -/
theorem obligation_conservation_read :
    (reached Sample.config (fun _ _ => True) ([Sample.load 0] ++ Sample.request 0)).1.obligations
      Sample.config 0 0 = 1 :=
  (obligation_conservation (run_reached _) 0 0).trans (by decide)

/-! ## Acknowledgements of invalidations -/

/-- The acknowledgements in flight to an L1, and the invalidations on its behalf. -/
def System.acksToCome (s : System ι δ A D) (i : ι) (address : A) : Nat :=
  s.responsesTo i address [.ACK] + s.forwardsNaming i address [.INV]

omit [Inhabited D] in
/-- An L1 has a TBE in the transient states. -/
theorem System.WellFormed.tbe {i : ι} {address : A} (h : s.WellFormed config)
    (hst : Upgrading (s.stateOf i address)) : ∃ tbe, (s.line i address).tbe = some tbe ∧
      (s.line i address).acks = tbe.pendingAcks := by
  have hline := h.line i address
  unfold System.stateOf at hst
  cases hl : s.line i address with
  | mk entry tbe =>
      rw [hl] at hline hst
      cases hline with
      | invalid => simp [Upgrading, L1Cache.getState] at hst
      | stable hstable =>
          rcases hstable with rfl | rfl <;> simp [Upgrading, L1Cache.getState] at hst
      | transient => exact ⟨_, rfl, rfl⟩

/-- What is outstanding in the view of an address. -/
theorem outstanding_eq {image : A → D} {i : ι} {address : A}
    (h : (view config s image address).Accounting) :
    (view config s image address).outstanding (.L1Cache i) =
      s.obligations config i address + s.acksToCome i address := by
  rw [outstanding, ← h.obligations, System.obligations, System.acksToCome,
    requestsFrom_eq_isGETS config image, requestsFrom_eq_isGETM config image,
    memoryRequestsOf_eq_isRead config image, forwardsNaming_eq_GETS config image,
    forwardsNaming_eq_GETM config image, responsesTo_eq_isData config image,
    responsesTo_eq_isAck config image, forwardsNaming_eq_INV config image]

/-- The TBE counts the acknowledgements to come, the store completes with the last thing
outstanding, and no counted response arrives without a TBE. -/
theorem ack_accounting (h : (msi config).Reachable s) (i : ι) (address : A) :
    (Upgrading (s.stateOf i address) → ∃ tbe, (s.line i address).tbe = some tbe ∧
      tbe.pendingAcks - s.ackCountTo i address = s.acksToCome i address) ∧
    (∀ l result, Upgrading (s.stateOf i address) → step config s l = .valid result →
      (result.system.stateOf i address = .M ↔
        result.system.obligations config i address + result.system.acksToCome i address = 0)) ∧
    (∀ p ∈ s.responseNet.inFlight, p.dst = .L1Cache i → p.msg.address = address →
      p.msg.type = .ACK ∨ (p.msg.type = .DATA_FROM_DIR ∧ p.msg.ackCount ≠ 0) →
      (s.line i address).tbe.isSome = true) := by
  obtain ⟨image, haccounts⟩ := accounting_of_reachable h
  have hwf := wellFormed_of_run h
  have ha := haccounts address
  refine ⟨fun hst => ?_, fun l result hst hstep => ?_, fun p hp hdst haddress htype => ?_⟩
  · obtain ⟨tbe, htbe, hacks⟩ := hwf.tbe hst
    have hexpected := (ha.acks_balanced (.L1Cache i)).expected
    rw [← ackCountTo_eq, ← responsesTo_eq_isAck, ← forwardsNaming_eq_INV] at hexpected
    refine ⟨tbe, htbe, ?_⟩
    rw [← hacks, System.acksToCome, Int.natCast_add]
    exact hexpected
  · have hrefines := step_refines image hwf hstep
    have hreach := h.step trivial ⟨result, hstep, rfl⟩
    have ha' : (view config result.system (observe image result.callbacks) address).Accounting := by
      rcases hrefines.view address with hsame | ⟨label, -, hstep⟩
      · exact hsame ▸ ha
      · exact ha.step hstep
    have hnext : Upgrading (result.system.stateOf i address) ∨
        result.system.stateOf i address = .M := by
      rcases hrefines.view address with hsame | ⟨label, -, hstep⟩
      · have hstate : result.system.stateOf i address = s.stateOf i address :=
          congrFun (congrArg Block.state hsame) (.L1Cache i)
        exact Or.inl (hstate.symm ▸ hst)
      · exact hstep.upgrading (i := .L1Cache i) hst
    rw [← outstanding_eq ha']
    constructor
    · exact ha'.outstanding_eq_zero (i := MachineID.L1Cache i)
    · intro hnone
      refine hnext.resolve_left fun hst' => ?_
      exact Nat.ne_of_gt (ha'.outstanding_pos (i := MachineID.L1Cache i) hst') hnone
  · have hmem : ∃ m, (.L1Cache i, m) ∈ (view config s image address).responses ∧
        (m = .ACK ∨ m.ackCount ≠ 0) := by
      rcases htype with htype | ⟨htype, hcount⟩
      · exact ⟨.ACK, List.mem_filterMap.mpr ⟨p, hp, by simp [responseOf, haddress, htype, hdst]⟩,
          Or.inl rfl⟩
      · exact ⟨.DATA p.msg.dataBlk p.msg.ackCount,
          List.mem_filterMap.mpr ⟨p, hp, by simp [responseOf, haddress, htype, hdst]⟩,
          Or.inr hcount⟩
    obtain ⟨m, hm, hcounted⟩ := hmem
    obtain ⟨tbe, htbe, -⟩ := hwf.tbe (ha.upgrading_of_response hm hcounted)
    simp [htbe]

/-- Two sharers are invalidated for a store: the data says so, and nobody has answered. -/
def invalidating : List Sample.Step :=
  [Sample.load 0] ++ Sample.request 0 ++ Sample.memory ++ Sample.data 0 0 ++
    [Sample.load 1] ++ Sample.request 1 ++ Sample.data 1 0 ++ [Sample.store 2 1] ++ Sample.request 2

theorem ack_accounting_invalidating :
    let s := (reached Sample.config (fun _ _ => True) invalidating).1
    ∃ tbe, (s.line 2 0).tbe = some tbe ∧ tbe.pendingAcks - s.ackCountTo 2 0 = 2 := by
  intro s
  have hreach : (msi Sample.config).Reachable s := run_reached invalidating
  obtain ⟨tbe, htbe, hacks⟩ := (ack_accounting hreach 2 0).1 (by decide)
  exact ⟨tbe, htbe, hacks.trans (by decide)⟩

/-! ## Memory requests and downgrades -/

/-- The forwarded GETS in flight, and the data they have produced. -/
def System.downgradesOutstanding (s : System ι δ A D) (address : A) : Nat :=
  s.forwardsAbout address [.GETS] + s.responsesAbout address [.DATA]

/-- The transient states of the directory say what is pending. -/
def System.TransientBookkeeping (config : Config ι δ A D) (s : System ι δ A D) (address : A) :
    Prop :=
  s.memoryRequests config address .MEMORY_READ =
      (if s.dirStateOf address ∈ [Directory.State.IS_M, .IM_M] then 1 else 0) ∧
    s.memoryRequests config address .MEMORY_WB =
      (if s.dirStateOf address ∈ [Directory.State.MS_M, .MI_M] then 1 else 0) ∧
    s.downgradesOutstanding address = if s.dirStateOf address = .MS_D then 1 else 0

/-- The bookkeeping is right in runs that take no PUTM in MS_D. -/
theorem transient_bookkeeping (h : (msi config).Run (System.Avoids Trigger.skipsDowngrade) s)
    (address : A) : s.TransientBookkeeping config address := by
  obtain ⟨image, hruns⟩ := view_of_run h
  have hmemory := (Accounting.of_run (hruns address)).memory_pending
  have hdowngrades := DowngradeBalanced.of_run (fun _ _ h => h) (hruns address)
  rw [System.TransientBookkeeping, memoryRequests_eq_isRead config image,
    memoryRequests_eq_isWriteback config image, System.downgradesOutstanding,
    forwardsAbout_eq_isGETS config image, responsesAbout_eq_length config image]
  exact ⟨hmemory.1, hmemory.2, hdowngrades⟩

/-- A line is read from its third owner when the directory takes the writeback of the first. -/
def skipping : List Sample.Step :=
  [Sample.store 0 1] ++ Sample.request 0 ++ Sample.memory ++ Sample.data 0 1 ++ [Sample.evict 0] ++
    [Sample.store 1 2] ++ Sample.request 1 ++ Sample.forward 0 ++ Sample.response 0 1 2 ++
    [Sample.load 2] ++ Sample.request 2 ++ Sample.request 0

/-- The directory is in MS_M and the downgrade is still outstanding. -/
theorem transient_bookkeeping_fails :
    ¬ ∀ s : System (Fin 3) Unit (Fin 2) Nat, (msi Sample.config).Reachable s →
      ∀ address, s.TransientBookkeeping Sample.config address := fun h =>
  absurd (h _ (run_reached skipping) 0).2.2 (by decide)

/-- While a downgrade is outstanding the directory waits for it. -/
theorem transient_bookkeeping_downgrade :
    (reached Sample.config (System.Avoids Trigger.skipsDowngrade)
      ([Sample.store 0 1] ++ Sample.request 0 ++ Sample.memory ++ Sample.data 0 1 ++
        [Sample.load 1] ++ Sample.request 1)).1.downgradesOutstanding 0 = 1 :=
  (transient_bookkeeping (run_reached _) 0).2.2.trans (by decide)

/-! ## Writebacks -/

/-- The acknowledgements that the directory owes an L1 until the memory answers. -/
def System.acksOwed (config : Config ι δ A D) (s : System ι δ A D) (i : ι) (address : A) : Nat :=
  if s.dirStateOf address = .MI_M then s.memoryRequestsOf config i address .MEMORY_WB else 0

/-- Either defect of the handshake: a writeback that is taken twice, or never answered. -/
def mishandlesPut (t : Trigger (MachineID ι δ)) : Bool := t.repeatsPut || t.dropsPut

/-- What an L1 has sent or is sent for its writeback, in the view of the address. -/
theorem unacknowledged_eq (config : Config ι δ A D) (image : A → D) {i : ι} {address : A} :
    s.requestsFrom i address [.PUTS, .PUTM] + s.acksOwed config i address +
      s.forwardsTo i address [.WB_ACK] =
    (view config s image address).unacknowledged (.L1Cache i) := by
  rw [requestsFrom_eq_isPut config image, forwardsTo_eq_isWbAck config image, System.acksOwed,
    memoryRequestsOf_eq_isWriteback config image]
  rfl

/-- A writeback is acknowledged once: it leaves the queue when it is taken, one acknowledgement is
sent or owed for it, what is owed is sent when the memory answers, and all the while an L1 waits for
exactly what is to come. -/
structure System.WritebackHandshake (config : Config ι δ A D)
    (bad : Trigger (MachineID ι δ) → Bool) (s : System ι δ A D) (i : ι) (address : A) : Prop where
  awaited : s.requestsFrom i address [.PUTS, .PUTM] + s.acksOwed config i address +
      s.forwardsTo i address [.WB_ACK] =
    if s.stateOf i address ∈ [L1Cache.State.MI_A, .SI_A, .II_A] then 1 else 0
  taken : ∀ d p result, s.Avoids bad (.dirRequest d) →
    s.requestNet.head (.Directory d) = some p → p.src = .L1Cache i → p.msg.address = address →
    p.msg.type ∈ [CoherenceRequestType.PUTS, .PUTM] →
    step config s (.dirRequest d) = .valid result →
    result.system.requestsFrom i address [.PUTS, .PUTM] + 1 =
        s.requestsFrom i address [.PUTS, .PUTM] ∧
      result.system.acksOwed config i address + result.system.forwardsTo i address [.WB_ACK] =
        s.acksOwed config i address + s.forwardsTo i address [.WB_ACK] + 1
  answered : ∀ d index m result, s.dirStateOf address = .MI_M → (s.memQueue d)[index]? = some m →
    m.originalRequestorMachId = .L1Cache i → m.address = address →
    step config s (.dirMemory d index) = .valid result →
    s.acksOwed config i address = 1 ∧ result.system.acksOwed config i address = 0 ∧
      result.system.forwardsTo i address [.WB_ACK] = s.forwardsTo i address [.WB_ACK] + 1

/-- The handshake is right in runs that neither take a writeback twice nor drop one. -/
theorem writeback_handshake (h : (msi config).Run (System.Avoids mishandlesPut) s) (i : ι)
    (address : A) : s.WritebackHandshake config mishandlesPut i address := by
  obtain ⟨image, hruns⟩ := view_of_run h
  have hwf := wellFormed_of_run h
  have ha := Accounting.of_run (hruns address)
  refine ⟨?_, fun d p result hallowed hhead hsrc haddress htype hstep => ?_,
    fun d index m result hst hget hrequestor haddress hstep => ?_⟩
  · rw [unacknowledged_eq config image,
      WritebackBalanced.of_run (fun _ _ h => h.of_or) (hruns address)]
    show awaitsWbAck (s.stateOf i address) = _
    cases s.stateOf i address <;> rfl
  · subst haddress
    simp only [step, hhead] at hstep
    obtain ⟨hhome, ctx, hctx, rfl⟩ := dirTrigger_valid hstep
    obtain ⟨-, event, hevent, hstep⟩ := request_commits image hwf hhome hhead hctx
    obtain ⟨m, hm, hput⟩ : ∃ m, requestOf p.msg.address p = some (.L1Cache i, m) ∧
        m.isPut = true := by
      simp only [List.mem_cons, List.not_mem_nil, or_false] at htype
      rcases htype with htype | htype <;> simp [requestOf, htype, hsrc, Request.isPut]
    have hrequestor := (hwf.request p (removed_of_head hhead).mem).requestor
    rw [hrequestor, hsrc] at hstep
    have hlabel : dirEvent s (.dirRequest d) = some (p.msg.address, event, .L1Cache i) := by
      simp [dirEvent, hhead, hevent, Except.toOption, hrequestor, hsrc]
    have hgood := Bool.or_eq_false_iff.mp (hallowed _ _ _ hlabel)
    obtain ⟨hputs, hsum⟩ := hstep.put_processed ha.dir_shape hgood.1 hgood.2
      (hwf.popped_request image p.msg.address hhead hm) hput
    rw [← requestsFrom_eq_isPut, ← requestsFrom_eq_isPut] at hputs
    rw [← unacknowledged_eq, ← unacknowledged_eq] at hsum
    refine ⟨hputs, ?_⟩
    dsimp only at hputs hsum ⊢
    omega
  · subst haddress
    simp only [step, hget] at hstep
    obtain ⟨hhome, ctx, hctx, rfl⟩ := dirTrigger_valid hstep
    obtain ⟨-, hstep⟩ := memory_commits image hwf hhome hget hctx
    rw [hrequestor] at hstep
    obtain ⟨howed, hst', hacks⟩ := hstep.put_answered ha.dir_shape hst
    rw [← forwardsTo_eq_isWbAck, ← forwardsTo_eq_isWbAck] at hacks
    rw [← memoryRequestsOf_eq_isWriteback] at howed
    refine ⟨by rw [System.acksOwed, if_pos hst, howed], ?_, hacks⟩
    rw [System.acksOwed, if_neg]
    intro h
    cases show Directory.State.I = .MI_M from hst'.symm.trans h

/-- The last sharer of a line that is downgraded has sent a writeback, and it is taken. -/
def repeating : List Sample.Step :=
  [Sample.store 0 1] ++ Sample.request 0 ++ Sample.memory ++ Sample.data 0 1 ++
    [Sample.load 1] ++ Sample.request 1 ++ Sample.forward 0 ++ Sample.response 0 1 0 ++
    [Sample.evict 1] ++ Sample.request 1 ++ [Sample.evict 0] ++ Sample.request 0

/-- The acknowledgement is in flight, and so is the writeback. -/
theorem writeback_handshake_fails :
    ¬ ∀ s : System (Fin 3) Unit (Fin 2) Nat, (msi Sample.config).Reachable s →
      ∀ i address, s.WritebackHandshake Sample.config (fun _ => false) i address := fun h =>
  absurd (h _ (run_reached repeating) 0 0).awaited (by decide)

/-- A writeback of a modified line that the directory has taken is acknowledged later. -/
theorem writeback_handshake_owed :
    let s := (reached Sample.config (System.Avoids mishandlesPut)
      ([Sample.store 0 1] ++ Sample.request 0 ++ Sample.memory ++ Sample.data 0 1 ++
        [Sample.evict 0] ++ Sample.request 0)).1
    s.requestsFrom 0 0 [.PUTS, .PUTM] + s.acksOwed Sample.config 0 0 + s.forwardsTo 0 0 [.WB_ACK] =
      1 :=
  (writeback_handshake (run_reached _) 0 0).awaited.trans (by decide)

end Ece552.Msi
