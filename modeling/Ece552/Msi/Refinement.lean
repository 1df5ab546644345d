import Ece552.Msi.CacheRefinement
import Ece552.Msi.DirectoryRefinement

/-!
# The system refines the protocol for each address

A step of the system is, at every address, a step of the protocol for that address or no step at
all: `step_view`. So a run of the system is a run at every address, and what holds along the runs
for one address holds of the system. `observed` keeps the values last stored beside the system;
every run can be so observed.
-/

namespace Ece552.Msi

open Library Block

variable {ι δ A D : Type} [DecidableEq ι] [DecidableEq δ] [DecidableEq A] [Inhabited D]
  {config : Config ι δ A D} {s : System ι δ A D} {image : A → D}

/-! ## Steps -/

/-- The label at one address of a step of the system. -/
def LabelledBy (s : System ι δ A D) (l : Label ι δ A D) (address : A)
    (label : Option (Directory.Event × MachineID ι δ)) : Prop :=
  ∀ event r, label = some (event, r) → dirEvent s l = some (address, event, r)

/-- What a step does at one address. -/
def StepsAt (config : Config ι δ A D) (s : System ι δ A D) (image : A → D) (l : Label ι δ A D)
    (s' : System ι δ A D) (image' : A → D) (address : A) : Prop :=
  view config s' image' address = view config s image address ∨
    ∃ label, LabelledBy s l address label ∧
      Block.Step config.useMap (view config s image address) label (view config s' image' address)

/-- What a step keeps and does. -/
structure Refines (config : Config ι δ A D) (s : System ι δ A D) (image : A → D)
    (l : Label ι δ A D) (result : StepResult ι δ A D) : Prop where
  wellFormed : result.system.WellFormed config
  view : ∀ address, StepsAt config s image l result.system (observe image result.callbacks) address
  load : ∀ address data, (address, .readCallback data) ∈ result.callbacks →
    observe image result.callbacks address = image address ∧
      ∃ i, data = cacheData result.system address (.L1Cache i) ∧
        cacheState result.system address (.L1Cache i) ∈ [L1Cache.State.S, .SM_AD, .SM_A, .M]

/-- A transition of an L1. -/
theorem System.CommitsL1.refines {i : ι} {address : A} {l : Label ι δ A D}
    {ctx : L1Cache.Ctx (MachineID ι δ) A D} (h : s.CommitsL1 config i address ctx)
    (hs : s.WellFormed config)
    (hview : StepsAt config s image l (s.commitL1 i address ctx)
      (observe image (ctx.callbacks.map (address, ·))) address) :
    Refines config s image l
      ⟨s.commitL1 i address ctx, ctx.callbacks.map (address, ·)⟩ where
  wellFormed := h.wellFormed hs
  view := by
    intro other
    by_cases hother : other = address
    · exact hother ▸ hview
    · exact Or.inl (h.view_ne hother)
  load := by
    intro other data hmem
    obtain ⟨callback, hcallback, heq⟩ := List.mem_map.mp hmem
    obtain ⟨rfl, rfl⟩ := Prod.mk.inj heq
    obtain ⟨hdata, hstate, hlast⟩ := h.load data hcallback
    exact ⟨observe_self.trans (hlast _), i, by simpa [cacheData] using hdata,
      by simpa [cacheState] using hstate⟩

/-- A transition of the directory. -/
theorem System.CommitsDir.refines {d : δ} {index : Nat} {address : A} {l : Label ι δ A D}
    {ctx : Directory.Ctx (MachineID ι δ) A D} (h : s.CommitsDir config d index address ctx)
    (hs : s.WellFormed config) (hhome : config.mapAddressToDirectory address = d)
    (hview : StepsAt config s image l (s.commitDir d index address ctx) image address) :
    Refines config s image l { system := s.commitDir d index address ctx } where
  wellFormed := h.wellFormed hs hhome
  view := by
    intro other
    by_cases hother : other = address
    · exact hother ▸ hview
    · exact Or.inl (h.view_ne hother)
  load := by simp

/-- A delivery changes no view. -/
theorem Refines.of_delivery {l : Label ι δ A D} {s' : System ι δ A D} (hs : s.WellFormed config)
    (hl1 : s'.l1 = s.l1) (hdir : s'.dir = s.dir) (hmemory : s'.memQueue = s.memQueue)
    (hrequest : s'.requestNet.inFlight = s.requestNet.inFlight)
    (hforward : s'.forwardNet.inFlight = s.forwardNet.inFlight)
    (hresponse : s'.responseNet.inFlight = s.responseNet.inFlight) :
    Refines config s image l { system := s' } where
  wellFormed :=
    { line := fun i address => by simpa only [System.line, hl1] using hs.line i address
      dir := by simpa only [hdir] using hs.dir
      sharers := by simpa only [hdir] using hs.sharers
      owner := by simpa only [hdir] using hs.owner
      memory := by simpa only [hmemory] using hs.memory
      request := by simpa only [hrequest] using hs.request
      forward := by simpa only [hforward] using hs.forward
      response := by simpa only [hresponse] using hs.response }
  view := by
    intro address
    refine Or.inl ?_
    have hline : ∀ i, s'.line i address = s.line i address := fun i => by
      simp only [System.line, hl1]
    unfold Msi.view
    congr 1
    · funext m
      cases m <;> simp [cacheState, hline]
    · funext m
      cases m <;> simp [cacheData, hline]
    · funext m
      cases m <;> simp [cacheAcks, hline]
    all_goals simp only [hdir, hmemory, hrequest, hforward, hresponse]
  load := by simp

/-- The result of a valid trigger at an L1. -/
theorem l1Trigger_valid {i : ι} {address : A} {inMsg : L1Cache.InMsg (MachineID ι δ) A D}
    {write : D → D} {event : Except Fault L1Cache.Event} {result : StepResult ι δ A D}
    (h : l1Trigger config s i address inMsg write event = .valid result) :
    ∃ ctx, L1Cache.trigger (l1Env config s i address inMsg write) (s.line i address) event =
      .valid ctx ∧ ⟨s.commitL1 i address ctx, ctx.callbacks.map (address, ·)⟩ = result := by
  simpa [l1Trigger] using h

/-- The result of a valid trigger at a directory. -/
theorem dirTrigger_valid {d : δ} {index : Nat} {address : A}
    {inMsg : Directory.InMsg (MachineID ι δ) A D} {event : Except Fault Directory.Event}
    {result : StepResult ι δ A D}
    (h : dirTrigger config s d index address inMsg event = .valid result) :
    config.mapAddressToDirectory address = d ∧
      ∃ ctx, Directory.trigger ⟨.Directory d, address, config.useMap, inMsg⟩ (s.dir address) event =
        .valid ctx ∧ { system := s.commitDir d index address ctx } = result := by
  unfold dirTrigger at h
  split at h
  · next hhome => exact ⟨hhome, by simpa using h⟩
  · cases h

/-- A step of the system refines the protocol for each address. -/
theorem step_refines (image : A → D) {l : Label ι δ A D} {result : StepResult ι δ A D}
    (hs : s.WellFormed config) (h : step config s l = .valid result) :
    Refines config s image l result := by
  cases l with
  | mandatory i request victim write =>
      simp only [step] at h
      split at h
      · cases h
      · next event address hevent =>
          obtain ⟨ctx, hctx, rfl⟩ := l1Trigger_valid h
          obtain ⟨hcommits, hview⟩ := mandatory_commits image hs hevent hctx
          exact hcommits.refines hs (hview.imp_right fun hstep => ⟨none, nofun, .cpu hstep⟩)
  | forward i =>
      simp only [step] at h
      split at h
      · cases h
      · next p hhead =>
          obtain ⟨ctx, hctx, rfl⟩ := l1Trigger_valid h
          obtain ⟨hcommits, hstep⟩ := forward_commits image hs hhead rfl hctx
          exact hcommits.refines hs (Or.inr ⟨none, nofun, .forward hstep⟩)
  | response i write =>
      simp only [step] at h
      split at h
      · cases h
      · next p hhead =>
          obtain ⟨ctx, hctx, rfl⟩ := l1Trigger_valid h
          obtain ⟨hcommits, hstep⟩ := response_commits image hs hhead hctx
          exact hcommits.refines hs (Or.inr ⟨none, nofun, .response hstep⟩)
  | dirRequest d =>
      simp only [step] at h
      split at h
      · cases h
      · next p hhead =>
          obtain ⟨hhome, ctx, hctx, rfl⟩ := dirTrigger_valid h
          obtain ⟨hcommits, event, hevent, hstep⟩ :=
            request_commits image hs hhome hhead hctx
          refine hcommits.refines hs hhome
            (Or.inr ⟨some (event, p.msg.requestor), ?_, .request hstep⟩)
          intro _ _ heq
          cases heq
          simp [dirEvent, hhead, hevent, Except.toOption]
  | dirResponse d =>
      simp only [step] at h
      split at h
      · cases h
      · next p hhead =>
          obtain ⟨hhome, ctx, hctx, rfl⟩ := dirTrigger_valid h
          obtain ⟨hcommits, hevent, hstep⟩ := data_for_dir_commits image hs hhome hhead hctx
          refine hcommits.refines hs hhome (Or.inr ⟨some (.Data, p.msg.sender), ?_, .data hstep⟩)
          intro _ _ heq
          cases heq
          simp [dirEvent, hhead, hevent, Except.toOption]
  | dirMemory d index =>
      simp only [step] at h
      split at h
      · cases h
      · next m hget =>
          obtain ⟨hhome, ctx, hctx, rfl⟩ := dirTrigger_valid h
          obtain ⟨hcommits, hstep⟩ := memory_commits image hs hhome hget hctx
          refine hcommits.refines hs hhome
            (Or.inr ⟨some (Directory.memQueue_in m, m.originalRequestorMachId), ?_, .memory hstep⟩)
          intro _ _ heq
          cases heq
          simp [dirEvent, hget]
  | deliverRequest src dst =>
      simp only [step] at h
      split at h <;> cases h
      next net hnet => exact .of_delivery hs rfl rfl rfl (Network.deliver_in_flight hnet) rfl rfl
  | deliverForward src dst =>
      simp only [step] at h
      split at h <;> cases h
      next net hnet => exact .of_delivery hs rfl rfl rfl rfl (Network.deliver_in_flight hnet) rfl
  | deliverResponse src dst =>
      simp only [step] at h
      split at h <;> cases h
      next net hnet => exact .of_delivery hs rfl rfl rfl rfl rfl (Network.deliver_in_flight hnet)

/-! ## Runs -/

variable {bad : Directory.Trigger (MachineID ι δ) → Bool}

theorem initial_wellFormed : (System.initial config).WellFormed config where
  line := fun _ _ => .invalid
  dir := fun _ => .stable (Or.inl rfl)
  sharers := by simp [System.initial]
  owner := by simp [System.initial]
  memory := by simp [System.initial]
  request := by simp [System.initial]
  forward := by simp [System.initial]
  response := by simp [System.initial]

theorem initial_view (address : A) :
    Block.Initial (view config (.initial config) config.initialData address) where
  state := by rintro (i | d) <;> rfl
  pendingAcks := by rintro (i | d) <;> rfl
  requests := rfl
  forwards := rfl
  responses := rfl
  downgrades := rfl
  memory := rfl
  dir := rfl
  dirData := rfl
  sharers := rfl
  owner := rfl

/-- Every run keeps the system well formed. -/
theorem wellFormed_of_run {allowed : System ι δ A D → Label ι δ A D → Prop}
    (h : (msi config).Run allowed s) : s.WellFormed config := by
  refine h.invariant (I := fun s => s.WellFormed config) ?_ ?_
  · rintro _ rfl
    exact initial_wellFormed
  · rintro s l s' - hs - ⟨result, hstep, rfl⟩
    -- the values last stored do not matter here
    exact (step_refines config.initialData hs hstep).wellFormed

/-- Every run can be observed. -/
theorem observed_of_run {allowed : System ι δ A D → Label ι δ A D → Prop}
    (h : (msi config).Run allowed s) :
    ∃ image, (observed config).Run (fun s l => allowed s.1 l) (s, image) := by
  refine h.invariant
    (I := fun s => ∃ image, (observed config).Run (fun s l => allowed s.1 l) (s, image)) ?_ ?_
  · rintro _ rfl
    exact ⟨_, .init rfl⟩
  · rintro s l s' - ⟨image, hrun⟩ hallowed ⟨result, hstep, rfl⟩
    exact ⟨_, hrun.step hallowed ⟨result, hstep, rfl⟩⟩

/-- An observed run is a run at every address, whose steps are allowed there. -/
theorem view_of_allowed {allowed : System ι δ A D → Label ι δ A D → Prop}
    {allowedAt : Block (MachineID ι δ) D → Option (Directory.Event × MachineID ι δ) → Prop}
    (hallowed : ∀ s image l address label, allowed s l → LabelledBy s l address label →
      allowedAt (view config s image address) label)
    {s : System ι δ A D × (A → D)} (h : (observed config).Run (fun s l => allowed s.1 l) s)
    (address : A) : (Block.system config.useMap).Run allowedAt (view config s.1 s.2 address) := by
  refine h.simulates (fun s => view config s.1 s.2 address) ?_ ?_
  · rintro _ rfl
    exact initial_view address
  · rintro s l _ hrun hl ⟨result, hstep, rfl⟩
    have hs := wellFormed_of_run (run_of_observed hrun)
    rcases (step_refines s.2 hs hstep).view address with hsame | ⟨label, hlabel, hstep⟩
    · exact Or.inl hsame
    · exact Or.inr ⟨label, hallowed _ _ _ _ _ hl hlabel, hstep⟩

/-- An observed run that avoids something is a run at every address that avoids it. -/
theorem view_of_observed {s : System ι δ A D × (A → D)}
    (h : (observed config).Run (fun s l => s.1.Avoids bad l) s) (address : A) :
    (Block.system config.useMap).Run (fun b label => b.Avoids bad label)
      (view config s.1 s.2 address) :=
  view_of_allowed (fun _ _ _ address _ havoids hlabel event r h =>
    havoids address event r (hlabel event r h)) h address

/-- A run that avoids something is a run at every address that avoids it. -/
theorem view_of_run (h : (msi config).Run (System.Avoids bad) s) :
    ∃ image, ∀ address, (Block.system config.useMap).Run (fun b label => b.Avoids bad label)
      (view config s image address) := by
  obtain ⟨image, hrun⟩ := observed_of_run h
  exact ⟨image, view_of_observed hrun⟩

/-- A reachable state is reached by a run at every address. -/
theorem view_of_reachable (h : (msi config).Reachable s) :
    ∃ image, ∀ address, (Block.system config.useMap).Run
      (fun b label => b.Avoids (fun _ => false) label) (view config s image address) :=
  view_of_run (h.mono fun _ _ _ _ _ _ _ => rfl)

end Ece552.Msi
