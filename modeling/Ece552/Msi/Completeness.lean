import Ece552.Msi.Arrival
import Ece552.Msi.Conservation
import Ece552.Msi.DirectoryLists

/-!
# Every event has a transition

What is at the head of a buffer triggers an event that the machine has a transition for, in runs
that avoid three things: a PUTS that is taken twice, a PUTM that is taken for the data of a
downgrade, and a writeback that finds the directory back in the state I, or on its way out of it.
-/

namespace Ece552.Msi

open Library Block
open Directory (Trigger)
open scoped Sample

variable {ι δ A D : Type} [DecidableEq ι] [DecidableEq δ] [DecidableEq A] [Inhabited D]
  {config : Config ι δ A D} {s : System ι δ A D}

/-! ## The runs -/

/-- A writeback that is taken twice, or for something else. -/
def mistakesPut (t : Trigger (MachineID ι δ)) : Bool := t.repeatsPut || t.skipsDowngrade

/-- A step of a directory leaves no writeback behind. -/
def System.KeepsPuts (s : System ι δ A D) (l : Label ι δ A D) : Prop :=
  ∀ address event r, dirEvent s l = some (address, event, r) →
    Trigger.strandsPut ⟨s.dirStateOf address, (s.dir address).entry.sharers, event, r⟩
      (s.requestsAbout address [.PUTS, .PUTM]) (s.requestsAbout address [.PUTM]) = false

/-- A step that takes the writebacks as they are meant, and leaves none behind. -/
def System.HandlesPuts (s : System ι δ A D) (l : Label ι δ A D) : Prop :=
  s.Avoids mistakesPut l ∧ s.KeepsPuts l

/-- Only the messages of the directories have to be looked at. -/
instance (s : System ι δ A D) (l : Label ι δ A D) : Decidable (s.KeepsPuts l) :=
  match h : dirEvent s l with
  | none => isTrue fun _ _ _ h' => by simp [h] at h'
  | some (address, event, r) =>
      if hkeeps : Trigger.strandsPut
          ⟨s.dirStateOf address, (s.dir address).entry.sharers, event, r⟩
          (s.requestsAbout address [.PUTS, .PUTM]) (s.requestsAbout address [.PUTM]) = false then
        isTrue fun _ _ _ h' => by cases h.symm.trans h'; exact hkeeps
      else isFalse fun h' => hkeeps (h' address event r h)

/-- Only the messages of the directories have to be looked at. -/
instance (s : System ι δ A D) (l : Label ι δ A D) : Decidable (s.HandlesPuts l) :=
  inferInstanceAs (Decidable (_ ∧ _))

/-- Such runs are coherent at every address, send what is expected, and leave no writeback. -/
theorem arrivals_of_run (h : (msi config).Run System.HandlesPuts s) :
    ∃ image, ∀ address, (view config s image address).Coherent ∧
      (view config s image address).Expected ∧ (view config s image address).PutsKept := by
  obtain ⟨image, hrun⟩ := observed_of_run h
  have hruns : ∀ address, (Block.system config.useMap).Run
      (fun b label => b.Avoids mistakesPut label ∧ b.KeepsPuts label)
      (view config s image address) := by
    refine view_of_allowed (fun s image l address label hallowed hlabel => ⟨?_, ?_⟩) hrun
    · exact fun event r h => hallowed.1 address event r (hlabel event r h)
    · intro event r h
      have hkeeps := hallowed.2 address event r (hlabel event r h)
      rwa [requestsAbout_eq_isPut config image, requestsAbout_eq_isPUTM config image] at hkeeps
  refine ⟨image, fun address => ⟨?_, ?_, ?_⟩⟩
  · exact Coherent.of_run (fun _ _ h => h.1.of_or.2) (hruns address)
  · exact Expected.of_run (fun _ _ h => h.1.of_or) (hruns address)
  · exact PutsKept.of_run (fun _ _ h => ⟨h.1.of_or.2, h.2⟩) (hruns address)

/-! ## What each in-port finds -/

/-- The event that each in-port triggers has a transition. -/
structure System.Complete (config : Config ι δ A D) (s : System ι δ A D) : Prop where
  mandatory : ∀ i request victim event address,
    mandatoryQueue_in (config.l1 i) (s.l1 i) request victim = some (event, address) →
    (L1Cache.transition (s.stateOf i address) event :
      Option (L1Cache.Transition (MachineID ι δ) A D)).isSome = true
  forward : ∀ i p, s.forwardNet.head (.L1Cache i) = some p →
    ∃ event, L1Cache.forwardRequestNetwork_in p.msg = .ok event ∧
      (L1Cache.transition (s.stateOf i p.msg.address) event :
        Option (L1Cache.Transition (MachineID ι δ) A D)).isSome = true
  response : ∀ i p, s.responseNet.head (.L1Cache i) = some p →
    ∃ event, L1Cache.responseNetwork_in (s.line i p.msg.address).tbe p.msg = .ok event ∧
      (L1Cache.transition (s.stateOf i p.msg.address) event :
        Option (L1Cache.Transition (MachineID ι δ) A D)).isSome = true
  request : ∀ d p, s.requestNet.head (.Directory d) = some p →
    ∃ event, Directory.requestQueue_in (s.dir p.msg.address) p.msg = .ok event ∧
      (Directory.transition (s.dirStateOf p.msg.address) event :
        Option (Directory.Transition (MachineID ι δ) A D)).isSome = true
  data : ∀ d p, s.responseNet.head (.Directory d) = some p →
    ∃ event, Directory.responseQueue_in p.msg = .ok event ∧
      (Directory.transition (s.dirStateOf p.msg.address) event :
        Option (Directory.Transition (MachineID ι δ) A D)).isSome = true
  memory : ∀ d, ∀ m ∈ s.memQueue d,
    (Directory.transition (s.dirStateOf m.address) (Directory.memQueue_in m) :
      Option (Directory.Transition (MachineID ι δ) A D)).isSome = true

omit [Inhabited D] in
/-- An L1 with an entry is not in state I. -/
theorem L1Cache.Line.WellFormed.not_invalid {line : L1Cache.Line D} (h : line.WellFormed)
    (hentry : line.cacheEntry ≠ none) : L1Cache.getState line ≠ .I := by
  cases h with
  | invalid => exact absurd rfl hentry
  | stable hst => rcases hst with rfl | rfl <;> nofun
  | transient hst => exact hst.1

/-- The processor finds an L1 in a state that knows its events; only an entry is replaced. -/
theorem mandatory_declared (hs : s.WellFormed config) {i : ι} {request : RubyRequest A}
    {victim address : A} {event : L1Cache.Event}
    (h : mandatoryQueue_in (config.l1 i) (s.l1 i) request victim = some (event, address)) :
    (L1Cache.transition (s.stateOf i address) event :
      Option (L1Cache.Transition (MachineID ι δ) A D)).isSome = true := by
  unfold mandatoryQueue_in at h
  dsimp only at h
  split at h
  · split at h
    · next hvictim =>
        obtain ⟨rfl, rfl⟩ := Prod.mk.inj (Option.some.inj h)
        have hentry : (s.line i victim).cacheEntry ≠ none := by
          simp only [L1Cache.Machine.isVictim, Bool.and_eq_true, decide_eq_true_eq] at hvictim
          exact fun hnone => absurd hvictim.1 (AList.lookup_eq_none.mp hnone)
        have hst := (hs.line i victim).not_invalid hentry
        unfold System.stateOf
        cases hstate : L1Cache.getState (s.line i victim) <;> first | rfl | exact absurd hstate hst
    · cases h
  · obtain ⟨rfl, rfl⟩ := Prod.mk.inj (Option.some.inj h)
    cases request.type <;> cases s.stateOf i request.lineAddress <;> rfl

section Forward

variable {image : A → D} {i : ι} {p : Packet (MachineID ι δ) (RequestMsg (MachineID ι δ) A D)}

/-- A forward finds an L1 that has, gets or gives up the line. -/
theorem forward_declared (hs : s.WellFormed config)
    (he : (view config s image p.msg.address).Expected)
    (ho : (view config s image p.msg.address).Ownership)
    (hhead : s.forwardNet.head (.L1Cache i) = some p) :
    ∃ event, L1Cache.forwardRequestNetwork_in p.msg = .ok event ∧
      (L1Cache.transition (s.stateOf i p.msg.address) event :
        Option (L1Cache.Transition (MachineID ι δ) A D)).isSome = true := by
  have hp := (removed_of_head hhead).mem
  have hdst := (Network.pop_spec hhead).1
  have hmem : ∀ m, forwardOf p.msg.address p = some (.L1Cache i, m) →
      (.L1Cache i, m) ∈ (view config s image p.msg.address).forwards := fun m hm =>
    List.mem_filterMap.mpr ⟨p, hp, hm⟩
  have hstate : (view config s image p.msg.address).state (.L1Cache i) =
      s.stateOf i p.msg.address := rfl
  have htype := (hs.forward p hp).type
  simp only [List.mem_cons, List.not_mem_nil, or_false] at htype
  rcases htype with htype | htype | htype | htype
  · have hst := he.of_request ho (hmem (.GETS p.msg.requestor) (by simp [forwardOf, htype, hdst]))
      rfl
    rw [hstate, Upgrading] at hst
    refine ⟨.Fwd_GetS, by simp [L1Cache.forwardRequestNetwork_in, htype], ?_⟩
    rcases hst with hst | hst | hst | hst | hst | hst <;> rw [hst] <;> rfl
  · have hst := he.of_request ho (hmem (.GETM p.msg.requestor) (by simp [forwardOf, htype, hdst]))
      rfl
    rw [hstate, Upgrading] at hst
    refine ⟨.Fwd_GetM, by simp [L1Cache.forwardRequestNetwork_in, htype], ?_⟩
    rcases hst with hst | hst | hst | hst | hst | hst <;> rw [hst] <;> rfl
  · have hst := he.of_inv (hmem (.INV p.msg.requestor) (by simp [forwardOf, htype, hdst]))
    rw [hstate] at hst
    refine ⟨.Inv, by simp [L1Cache.forwardRequestNetwork_in, htype], ?_⟩
    rcases hst with hst | hst | hst | hst <;> rw [hst] <;> rfl
  · have hst := he.of_ack (hmem .WB_ACK (by simp [forwardOf, htype, hdst]))
    rw [hstate] at hst
    refine ⟨.WB_Ack, by simp [L1Cache.forwardRequestNetwork_in, htype], ?_⟩
    rcases hst with hst | hst | hst <;> rw [hst] <;> rfl

end Forward

section Response

variable {image : A → D} {i : ι} {p : Packet (MachineID ι δ) (ResponseMsg (MachineID ι δ) A D)}

/-- A response finds an L1 that waits for it. -/
theorem response_declared (hs : s.WellFormed config)
    (ha : (view config s image p.msg.address).Accounting)
    (hhead : s.responseNet.head (.L1Cache i) = some p) :
    ∃ event, L1Cache.responseNetwork_in (s.line i p.msg.address).tbe p.msg = .ok event ∧
      (L1Cache.transition (s.stateOf i p.msg.address) event :
        Option (L1Cache.Transition (MachineID ι δ) A D)).isSome = true := by
  have hp := (removed_of_head hhead).mem
  have hdst := (Network.pop_spec hhead).1
  have hmem : ∀ m, responseOf p.msg.address p = some (.L1Cache i, m) →
      (.L1Cache i, m) ∈ (view config s image p.msg.address).responses := fun m hm =>
    List.mem_filterMap.mpr ⟨p, hp, hm⟩
  have hstate : (view config s image p.msg.address).state (.L1Cache i) =
      s.stateOf i p.msg.address := rfl
  have hok := hs.response p hp
  obtain ⟨src, dst, msg⟩ := p
  dsimp only at hdst hmem hstate ⊢
  subst hdst
  cases hok with
  | data hcache htype =>
      rcases htype with htype | htype
      · have hresponse := hmem (.DATA msg.dataBlk msg.ackCount) (by simp [responseOf, htype])
        by_cases hzero : msg.ackCount = 0
        · have hst := (ha.balanced _).awaits_data hresponse
          rw [hstate] at hst
          refine ⟨.Data_from_Dir_No_Acks, by simp [L1Cache.responseNetwork_in, htype, hzero], ?_⟩
          rcases hst with hst | hst | hst <;> rw [hst] <;> rfl
        · -- an ack count is sent to an L1 that waits for exclusive access
          have hst := ((ha.acks_balanced _).ack_count _ _ hresponse).2 hzero
          rw [hstate] at hst
          obtain ⟨tbe, htbe, -⟩ := hs.tbe (hst.elim Or.inl fun h => Or.inr (Or.inr (Or.inl h)))
          by_cases hlast : tbe.pendingAcks - msg.ackCount = 0
          · refine ⟨.Data_from_Dir_Ack_Cnt_Last, ?_, ?_⟩
            · simp [L1Cache.responseNetwork_in, htype, hzero, htbe, L1Cache.getPendingAcks, bind,
                Except.bind, hlast]
            · rcases hst with hst | hst <;> rw [hst] <;> rfl
          · refine ⟨.Data_from_Dir_Ack_Cnt, ?_, ?_⟩
            · simp [L1Cache.responseNetwork_in, htype, hzero, htbe, L1Cache.getPendingAcks, bind,
                Except.bind, hlast]
            · rcases hst with hst | hst <;> rw [hst] <;> rfl
      · have hst := (ha.balanced _).awaits_data
          (hmem (.DATA msg.dataBlk 0) (by simp [responseOf, htype]))
        rw [hstate] at hst
        refine ⟨.Data_from_Owner, by simp [L1Cache.responseNetwork_in, htype], ?_⟩
        rcases hst with hst | hst | hst <;> rw [hst] <;> rfl
  | ack hcache htype hone =>
      have hst := ha.upgrading_of_response (hmem .ACK (by simp [responseOf, htype])) (Or.inl rfl)
      rw [hstate] at hst
      obtain ⟨tbe, htbe, hacks⟩ := hs.tbe hst
      have hsign := (ha.acks_balanced (.L1Cache i)).sign.1
      by_cases hlast : tbe.pendingAcks - msg.ackCount = 0
      · -- the last acknowledgement comes after the data
        have hpending : (view config s image msg.address).pendingAcks (.L1Cache i) = 1 := by
          show (s.line i msg.address).acks = 1
          omega
        rw [hstate, hpending] at hsign
        refine ⟨.Inv_Ack_all, ?_, ?_⟩
        · simp [L1Cache.responseNetwork_in, htype, htbe, L1Cache.getPendingAcks, bind,
            Except.bind, hlast]
        · rcases hst with hst | hst | hst | hst
          · exact absurd (hsign (Or.inl hst)) (by decide)
          · rw [hst]
            rfl
          · exact absurd (hsign (Or.inr hst)) (by decide)
          · rw [hst]
            rfl
      · refine ⟨.Inv_Ack, ?_, ?_⟩
        · simp [L1Cache.responseNetwork_in, htype, htbe, L1Cache.getPendingAcks, bind,
            Except.bind, hlast]
        · rcases hst with hst | hst | hst | hst <;> rw [hst] <;> rfl
  | downgrade hsrc hhome htype hsender => cases hhome

end Response

section Directory

variable {image : A → D} {d : δ}

/-- A request finds the directory in a state that takes it or lets it wait. -/
theorem request_declared (hs : s.WellFormed config)
    {p : Packet (MachineID ι δ) (RequestMsg (MachineID ι δ) A D)}
    (ha : (view config s image p.msg.address).Accounting)
    (hk : (view config s image p.msg.address).PutsKept)
    (hhead : s.requestNet.head (.Directory d) = some p) :
    ∃ event, Directory.requestQueue_in (s.dir p.msg.address) p.msg = .ok event ∧
      (Directory.transition (s.dirStateOf p.msg.address) event :
        Option (Directory.Transition (MachineID ι δ) A D)).isSome = true := by
  have hp := (removed_of_head hhead).mem
  have hput : ∀ q : Request D → Bool, (∃ k m, requestOf p.msg.address p = some (k, m) ∧
      q m = true) → tallyAll q (view config s image p.msg.address).requests ≠ 0 := by
    rintro q ⟨k, m, hm, hq⟩
    exact Nat.ne_of_gt (tally_all_pos.mpr ⟨k, m, List.mem_filterMap.mpr ⟨p, hp, hm⟩, hq⟩)
  have hdir : (view config s image p.msg.address).dir = s.dirStateOf p.msg.address := rfl
  have hshape := ha.dir_shape
  have hmodified := hk.modified
  have hany := hk.any
  rw [hdir] at hmodified hany
  rw [DirShape, hdir] at hshape
  have htype := (hs.request p hp).type
  simp only [List.mem_cons, List.not_mem_nil, or_false] at htype
  rcases htype with htype | htype | htype | htype
  · refine ⟨.GETS, by simp [Directory.requestQueue_in, htype], ?_⟩
    cases s.dirStateOf p.msg.address <;> rfl
  · refine ⟨.GETM, by simp [Directory.requestQueue_in, htype], ?_⟩
    cases s.dirStateOf p.msg.address <;> rfl
  · have hnot := fun h => hput Request.isPut
      ⟨p.src, .PUTS, by simp [requestOf, htype], rfl⟩ (hany h)
    by_cases hcount : (s.dir p.msg.address).entry.sharers.count < 2
    · refine ⟨.PUTS_Last, by simp [Directory.requestQueue_in, htype, hcount], ?_⟩
      cases hst : s.dirStateOf p.msg.address <;> simp [hst] at hnot <;> rfl
    · refine ⟨.PUTS_NotLast, by simp [Directory.requestQueue_in, htype, hcount], ?_⟩
      have hsharers : (view config s image p.msg.address).sharers =
        (s.dir p.msg.address).entry.sharers := rfl
      cases hst : s.dirStateOf p.msg.address <;> simp [hst, hsharers] at hnot hshape <;>
        first | rfl | simp [hshape] at hcount
  · have hnot := fun h => hput Request.isPut
      ⟨p.src, .PUTM p.msg.dataBlk, by simp [requestOf, htype], rfl⟩ (hany h)
    have hnotI := fun h => hput Request.isPUTM
      ⟨p.src, .PUTM p.msg.dataBlk, by simp [requestOf, htype], rfl⟩ (hmodified h)
    by_cases howner : p.msg.requestor ∈ (s.dir p.msg.address).entry.owner
    · refine ⟨.PUTM_Owner, by simp [Directory.requestQueue_in, htype, howner], ?_⟩
      have heq : (view config s image p.msg.address).owner =
        (s.dir p.msg.address).entry.owner := rfl
      cases hst : s.dirStateOf p.msg.address <;> simp [hst, heq] at hnot hnotI hshape <;>
        first | rfl | simp [hshape] at howner
    · refine ⟨.PUTM_NotOwner, by simp [Directory.requestQueue_in, htype, howner], ?_⟩
      cases hst : s.dirStateOf p.msg.address <;> simp [hst] at hnot hnotI <;> rfl

/-- Data finds the directory waiting for a downgrade. -/
theorem data_declared (hs : s.WellFormed config)
    {p : Packet (MachineID ι δ) (ResponseMsg (MachineID ι δ) A D)}
    (hd : (view config s image p.msg.address).DowngradeBalanced)
    (hhead : s.responseNet.head (.Directory d) = some p) :
    ∃ event, Directory.responseQueue_in p.msg = .ok event ∧
      (Directory.transition (s.dirStateOf p.msg.address) event :
        Option (Directory.Transition (MachineID ι δ) A D)).isSome = true := by
  have hp := (removed_of_head hhead).mem
  have hdst := (Network.pop_spec hhead).1
  have htype : p.msg.type = .DATA := by
    obtain ⟨src, dst, msg⟩ := p
    dsimp only at hdst
    subst hdst
    cases hs.response _ hp with
    | data hcache | ack hcache => exact hcache.elim
    | downgrade hsrc hhome htype hsender => exact htype
  refine ⟨.Data, by simp [Directory.responseQueue_in, htype], ?_⟩
  have hst : s.dirStateOf p.msg.address = .MS_D := by
    by_contra hne
    have hmem : (p.src, p.msg.dataBlk) ∈ (view config s image p.msg.address).downgrades :=
      List.mem_filterMap.mpr ⟨p, hp, by simp [downgradeOf, htype]⟩
    rw [hd.downgrades_of_ne hne] at hmem
    exact absurd hmem List.not_mem_nil
  rw [hst]
  rfl

/-- A memory reply finds the directory waiting for it. -/
theorem memory_declared (hs : s.WellFormed config) {m : MemoryMsg (MachineID ι δ) A D}
    (ha : (view config s image m.address).Accounting) (hm : m ∈ s.memQueue d) :
    (Directory.transition (s.dirStateOf m.address) (Directory.memQueue_in m) :
      Option (Directory.Transition (MachineID ι δ) A D)).isSome = true := by
  obtain ⟨hhome, -⟩ := hs.memory d m hm
  have hmem : (m.originalRequestorMachId, m.type, m.dataBlk) ∈
      (view config s image m.address).memory :=
    List.mem_filterMap.mpr ⟨m, hhome ▸ hm, by simp [memoryOf]⟩
  have hpending := ha.memory_pending
  rw [show (view config s image m.address).dir = s.dirStateOf m.address from rfl] at hpending
  unfold Directory.memQueue_in
  cases htype : m.type with
  | MEMORY_READ =>
      have hpos := tally_all_pos.mpr ⟨_, _, hmem, show isRead (m.type, m.dataBlk) = true by
        simp [isRead, htype]⟩
      rw [hpending.1] at hpos
      cases hst : s.dirStateOf m.address <;> simp [hst] at hpos <;> rfl
  | MEMORY_WB =>
      have hpos := tally_all_pos.mpr ⟨_, _, hmem, show isWriteback (m.type, m.dataBlk) = true by
        simp [isWriteback, htype]⟩
      rw [hpending.2] at hpos
      cases hst : s.dirStateOf m.address <;> simp [hst] at hpos <;> rfl

end Directory

/-- Every event has a transition in runs that handle the writebacks. -/
theorem complete_of_run (h : (msi config).Run System.HandlesPuts s) : s.Complete config := by
  have hs := wellFormed_of_run h
  obtain ⟨image, hviews⟩ := arrivals_of_run h
  refine ⟨fun i request victim event address hevent => mandatory_declared hs hevent,
    fun i p hhead => ?_, fun i p hhead => ?_, fun d p hhead => ?_, fun d p hhead => ?_,
    fun d m hm => ?_⟩
  · obtain ⟨hc, he, -⟩ := hviews p.msg.address
    exact forward_declared hs he hc.ownership hhead
  · exact response_declared hs (hviews p.msg.address).1.accounting hhead
  · obtain ⟨hc, -, hk⟩ := hviews p.msg.address
    exact request_declared hs hc.accounting hk hhead
  · exact data_declared hs (hviews p.msg.address).1.downgrade hhead
  · exact memory_declared hs (hviews m.address).1.accounting hm

/-- L1 1 has taken the line from L1 0 and written it back when the PUTM of L1 0 arrives. -/
def outlasting : List Sample.Step :=
  [Sample.store 0 1] ++ Sample.request 0 ++ Sample.memory ++ Sample.data 0 1 ++ [Sample.evict 0] ++
    [Sample.store 1 2] ++ Sample.request 1 ++ Sample.forward 0 ++ Sample.response 0 1 2 ++
    [Sample.evict 1] ++ Sample.request 1 ++ Sample.memory ++
    [.deliverRequest (.L1Cache 0) (.Directory ())]

/-- The directory is in state I, which has no transition for the PUTM. -/
theorem complete_fails :
    ¬ ∀ s : System (Fin 3) Unit (Fin 2) Nat, (msi Sample.config).Reachable s →
      s.Complete Sample.config := fun h => by
  obtain ⟨event, hevent, hsome⟩ := (h _ (run_reached outlasting)).request ()
    ⟨.L1Cache 0, .Directory (), ⟨0, .PUTM, .L1Cache 0, 1⟩⟩ (by decide)
  have hstale : Directory.requestQueue_in
      ((reached Sample.config (fun _ _ => True) outlasting).1.dir 0)
      ⟨0, .PUTM, .L1Cache 0, 1⟩ = .ok .PUTM_NotOwner := by decide
  obtain rfl := Except.ok.inj (hevent.symm.trans hstale)
  exact absurd hsome (by decide)

/-- A writeback of a modified line that the directory still has an owner for is taken. -/
theorem complete_writeback :
    let s := (reached Sample.config System.HandlesPuts
      ([Sample.store 0 1] ++ Sample.request 0 ++ Sample.memory ++ Sample.data 0 1 ++
        [Sample.evict 0, .deliverRequest (.L1Cache 0) (.Directory ())])).1
    ∃ event, Directory.requestQueue_in (s.dir 0)
        ⟨0, .PUTM, .L1Cache 0, 1⟩ = .ok event ∧
      (Directory.transition (s.dirStateOf 0) event :
        Option (Directory.Transition (MachineID (Fin 3) Unit) (Fin 2) Nat)).isSome = true :=
  (complete_of_run (run_reached _)).request ()
    ⟨.L1Cache 0, .Directory (), ⟨0, .PUTM, .L1Cache 0, 1⟩⟩ (by decide)

end Ece552.Msi
