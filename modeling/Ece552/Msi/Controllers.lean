import Ece552.Msi.Bookkeeping
import Ece552.Msi.System

/-!
# The controllers of the system

The system keeps the resident lines of an L1 as an association list, the controller in the ways of
its cache memory. A controller represents a machine when both have the same lines; then they have
the same room (`Represents.avail`), their processors' requests trigger the same events
(`Represents.mandatory_iff`), and a transition keeps them together. So each L1 of a run of the
system is represented by a controller that is reached on its own, and what holds of the latter holds
in the system.
-/

namespace Ece552.Msi

open Library
open scoped Sample

namespace L1Cache

variable {N A D : Type} [DecidableEq A] {l1 : Controller N A}
  {s s' : Structures l1 D} {machine : Machine A D} {address : A}

/-- The controller has the lines of the machine. -/
def Structures.Represents (s : Structures l1 D) (machine : Machine A D) : Prop :=
  ∀ address, s.line address = machine.line address

/-- The resident addresses of the set of an address. -/
def Machine.residents (config : Config A) (machine : Machine A D) (address : A) : List A :=
  machine.cacheMemory.keys.filter fun other =>
    config.addressToCacheSet other = config.addressToCacheSet address

omit [DecidableEq A] in
theorem Machine.nodup_residents (config : Config A) (machine : Machine A D) (address : A) :
    (machine.residents config address).Nodup :=
  machine.cacheMemory.keys_nodup.filter _

namespace Structures.Represents

variable (h : s.Represents machine)

include h

theorem lookup (address : A) :
    s.cacheMemory.lookup address = machine.cacheMemory.lookup address :=
  congrArg Line.cacheEntry (h address)

theorem mem_iff : address ∈ machine.cacheMemory ↔ (s.cacheMemory.lookup address).isSome = true := by
  rw [h.lookup, AList.lookup_isSome]

theorem mem_residents {other : A} : other ∈ machine.residents l1.config address ↔
    l1.config.addressToCacheSet other = l1.config.addressToCacheSet address ∧
      (s.cacheMemory.find other).isSome = true := by
  rw [Machine.residents, List.mem_filter, decide_eq_true_eq, ← AList.mem_keys, h.mem_iff,
    CacheMemory.lookup_eq, Option.isSome_map, and_comm]

/-- A set has no more resident lines than ways. -/
theorem length_residents_le (address : A) :
    (machine.residents l1.config address).length ≤ l1.config.cacheAssoc :=
  SetAssociative.length_le (machine.nodup_residents l1.config address) fun _ => h.mem_residents

/-- The machine and the controller have the same room. -/
theorem avail (address : A) :
    machine.cacheAvail l1.config address = s.cacheMemory.cacheAvail address := by
  have hroom : (machine.residents l1.config address).length < l1.config.cacheAssoc ↔
      s.cacheMemory.HasFreeWay address :=
    SetAssociative.room_iff (machine.nodup_residents l1.config address) fun _ => h.mem_residents
  rw [Bool.eq_iff_iff, CacheMemory.cache_avail_iff, ← h.mem_iff, ← hroom,
    Machine.cacheAvail, Bool.or_eq_true, decide_eq_true_eq, decide_eq_true_eq]
  rfl

/-- In a full set the replacement policy can pick exactly the resident lines of the set. -/
theorem victim_iff {request victim : A} (hfull : s.cacheMemory.cacheAvail request = false) :
    (∃ way, s.cacheMemory.cacheProbe request way = .ok victim) ↔
      machine.isVictim l1.config request victim = true := by
  rw [Machine.isVictim, Bool.and_eq_true, decide_eq_true_eq, decide_eq_true_eq, h.mem_iff]
  constructor
  · rintro ⟨way, hway⟩
    obtain ⟨other, hprobe, hset, hresident⟩ := CacheMemory.probe_spec hfull way
    cases hprobe.symm.trans hway
    exact ⟨hresident, hset⟩
  · rintro ⟨hresident, hset⟩
    rw [CacheMemory.lookup_eq, Option.isSome_map] at hresident
    obtain ⟨slot, hslot⟩ := Option.isSome_iff_exists.mp hresident
    obtain ⟨rfl, way, -, hway⟩ := SetAssociative.ways_of_find hslot
    refine ⟨way, ?_⟩
    rw [CacheMemory.cacheProbe, hfull, if_neg Bool.false_ne_true, ← hset, hway]

/-- A request of the processor triggers the same events in both. -/
theorem mandatory_iff {request : RubyRequest A} {write : D → D} {event : Event} :
    (∃ way, s.inPort (.mandatory request way write) = .ok (event, address)) ↔
      ∃ victim, mandatoryQueue_in l1.config machine request victim = some (event, address) := by
  have hentry : (machine.line request.lineAddress).cacheEntry =
      s.cacheMemory.lookup request.lineAddress := (h.lookup _).symm
  simp only [Structures.inPort, mandatoryQueue_in, hentry, h.avail]
  by_cases hroom : s.cacheMemory.cacheAvail request.lineAddress = true
  · simp only [hroom, Bool.not_true, Bool.and_false, Bool.false_eq_true, if_false]
    have hway : ∃ _ : Fin l1.config.cacheAssoc, True := by
      obtain ⟨way, -, -⟩ := List.any_eq_true.mp hroom
      exact ⟨way, trivial⟩
    constructor
    · rintro ⟨_, heq⟩
      exact ⟨request.lineAddress, congrArg some (Except.ok.inj heq)⟩
    · rintro ⟨_, heq⟩
      exact hway.imp fun _ _ => congrArg Except.ok (Option.some.inj heq)
  · have hfull : s.cacheMemory.cacheAvail request.lineAddress = false :=
      Bool.eq_false_iff.mpr hroom
    have hnone : (s.cacheMemory.lookup request.lineAddress).isNone = true := by
      rw [Option.isNone_iff_eq_none, ← Option.not_isSome_iff_eq_none]
      exact fun hresident => hroom (CacheMemory.cache_avail_iff.mpr (Or.inl hresident))
    simp only [hfull, hnone, Bool.not_false, Bool.and_true, if_true]
    constructor
    · rintro ⟨way, hway⟩
      obtain ⟨victim, hprobe, heq⟩ := bind_eq_ok.mp hway
      obtain ⟨rfl, rfl⟩ := Prod.mk.inj (Except.ok.inj heq)
      exact ⟨victim, if_pos ((h.victim_iff hfull).mp ⟨way, hprobe⟩)⟩
    · rintro ⟨victim, hvictim⟩
      split at hvictim
      · next hpick =>
          obtain ⟨rfl, rfl⟩ := Prod.mk.inj (Option.some.inj hvictim)
          obtain ⟨way, hprobe⟩ := (h.victim_iff hfull).mpr hpick
          exact ⟨way, by rw [hprobe]; rfl⟩
      · cases hvictim

/-- An update keeps the two together. -/
theorem update {line : Line D} (hupdate : s.update address line = .ok s') :
    s'.Represents (machine.setLine address line) := by
  intro other
  rw [Structures.line_of_update hupdate]
  by_cases hother : other = address
  · rw [hother, Function.update_self, Machine.line_setLine_self]
  · rw [Function.update_of_ne hother, Machine.line_setLine_ne _ _ hother, h other]

end Structures.Represents

omit [DecidableEq A] in
theorem run_of_do_transition [Inhabited D] {env : Env N A D} {line : Line D} {event : Event}
    {ctx : Ctx N A D}
    (h : doTransition env line event = .valid ctx) :
    ∃ next actions, (transition (getState line) event : Option (Transition N A D)) =
      some (.run next actions) := by
  rw [doTransition] at h
  split at h
  · cases h
  · cases h
  · next next actions htransition => exact ⟨next, actions, htransition⟩

/-- A booked controller follows a transition of its machine. -/
theorem Structures.Booked.follows [Inhabited D] (hs : s.Booked) (h : s.Represents machine)
    {w : Wakeup l1 D}
    {event : Event} (hinPort : s.inPort w = .ok (event, address)) {ctx : Ctx N A D}
    (hctx : doTransition (s.env w address) (machine.line address) event = .valid ctx) :
    ∃ s', s.wakeup w = .valid s' ∧ s'.Represents (machine.setLine address ctx.line) := by
  rw [← h address] at hctx
  obtain ⟨next, actions, htransition⟩ := run_of_do_transition hctx
  obtain ⟨s', hwakeup, -⟩ := hs.wakeup hinPort htransition
  refine ⟨s', hwakeup, h.update ?_⟩
  rw [wakeup_eq hinPort, hctx] at hwakeup
  exact Outcome.of_except_eq_valid.mp hwakeup

end L1Cache

/-! ## The L1s of the system -/

variable {ι δ A D : Type} [DecidableEq ι] [DecidableEq δ] [DecidableEq A] [Inhabited D]
  {config : Config ι δ A D} {s : System ι δ A D} {i : ι}

/-- The controller of an L1. -/
def Config.controller (config : Config ι δ A D) (i : ι) :
    L1Cache.Controller (MachineID ι δ) A where
  machineID := .L1Cache i
  mapAddressToDirectory := fun address => .Directory (config.mapAddressToDirectory address)
  config := config.l1 i

/-- The L1 has a controller that is reached on its own. -/
def System.Controlled (config : Config ι δ A D) (s : System ι δ A D) (i : ι) : Prop :=
  ∃ structures : L1Cache.Structures (config.controller i) D,
    (config.controller i).alone.Reachable structures ∧ structures.Represents (s.l1 i)

/-- An event that is triggered at an L1. -/
theorem l1_of_trigger {address : A} {inMsg : L1Cache.InMsg (MachineID ι δ) A D} {write : D → D}
    {event : Except Fault L1Cache.Event} {result : StepResult ι δ A D}
    (h : l1Trigger config s i address inMsg write event = .valid result) :
    ∃ event' ctx, event = .ok event' ∧
      L1Cache.doTransition (l1Env config s i address inMsg write) (s.line i address) event' =
        .valid ctx ∧
      result.system.l1 = Function.update s.l1 i ((s.l1 i).setLine address ctx.line) := by
  obtain ⟨ctx, htrigger, rfl⟩ := Outcome.map_eq_valid.mp h
  cases event with
  | error fault => exact nomatch htrigger
  | ok event => exact ⟨event, ctx, rfl, htrigger, rfl⟩

/-- The controller of an L1 takes every step of its machine. -/
theorem controlled_of_trigger {address : A} {inMsg : L1Cache.InMsg (MachineID ι δ) A D}
    {write : D → D} {event : Except Fault L1Cache.Event} {result : StepResult ι δ A D}
    (h : l1Trigger config s i address inMsg write event = .valid result)
    {structures : L1Cache.Structures (config.controller i) D}
    (hreachable : (config.controller i).alone.Reachable structures)
    (hrepresents : structures.Represents (s.l1 i))
    {w : L1Cache.Wakeup (config.controller i) D} (hmsg : w.inMsg = inMsg) (hwrite : w.write = write)
    (hinPort : ∀ event', event = .ok event' → structures.inPort w = .ok (event', address)) :
    result.system.Controlled config i := by
  obtain ⟨event', ctx, hevent, htransition, hl1⟩ := l1_of_trigger h
  have henv : l1Env config s i address inMsg write = structures.env w address := by
    rw [l1Env, L1Cache.Structures.env, hmsg, hwrite,
      show (s.l1 i).cacheAvail (config.l1 i) address = _ from hrepresents.avail address]
    rfl
  rw [henv] at htransition
  obtain ⟨structures', hwakeup, hrepresents'⟩ :=
    (L1Cache.Structures.booked_of_reachable hreachable).follows hrepresents
      (hinPort event' hevent) htransition
  refine ⟨structures', hreachable.step trivial hwakeup, ?_⟩
  rw [hl1, Function.update_self]
  exact hrepresents'

theorem l1_of_dirTrigger {d : δ} {index : Nat} {address : A}
    {inMsg : Directory.InMsg (MachineID ι δ) A D} {event : Except Fault Directory.Event}
    {result : StepResult ι δ A D}
    (h : dirTrigger config s d index address inMsg event = .valid result) :
    result.system.l1 = s.l1 := by
  rw [dirTrigger] at h
  split at h
  · obtain ⟨ctx, -, rfl⟩ := Outcome.map_eq_valid.mp h
    rfl
  · exact nomatch h

/-- The event at one L1 changes no other one. -/
theorem l1_of_trigger_ne {address : A} {inMsg : L1Cache.InMsg (MachineID ι δ) A D} {write : D → D}
    {event : Except Fault L1Cache.Event} {result : StepResult ι δ A D} {j : ι}
    (h : l1Trigger config s j address inMsg write event = .valid result) (hij : i ≠ j) :
    result.system.l1 i = s.l1 i := by
  obtain ⟨-, ctx, -, -, hl1⟩ := l1_of_trigger h
  rw [hl1, Function.update_of_ne hij]

theorem System.Controlled.congr {s' : System ι δ A D} (h : s.Controlled config i)
    (hl1 : s'.l1 i = s.l1 i) : s'.Controlled config i := by
  rw [System.Controlled, hl1]
  exact h

/-- A step of the system is one of the controller of its L1, and leaves the others alone. -/
theorem System.Controlled.step (h : s.Controlled config i) {l : Label ι δ A D}
    {result : StepResult ι δ A D} (hstep : step config s l = .valid result) :
    result.system.Controlled config i := by
  obtain ⟨structures, hreachable, hrepresents⟩ := h
  have hsame : result.system.l1 i = s.l1 i → result.system.Controlled config i :=
    System.Controlled.congr ⟨structures, hreachable, hrepresents⟩
  cases l with
  | mandatory j request victim write =>
      rw [Msi.step] at hstep
      split at hstep
      · exact nomatch hstep
      · next event address hevent =>
          by_cases hij : i = j
          · subst hij
            have hways : ∃ way, structures.inPort (.mandatory request way write) =
                .ok (event, address) := hrepresents.mandatory_iff.mpr ⟨victim, hevent⟩
            obtain ⟨way, hway⟩ := hways
            exact controlled_of_trigger hstep hreachable hrepresents
              (w := .mandatory request way write) rfl rfl fun _ h => Except.ok.inj h ▸ hway
          · exact hsame (l1_of_trigger_ne hstep hij)
  | forward j =>
      rw [Msi.step] at hstep
      split at hstep
      · exact nomatch hstep
      · next p hhead =>
          by_cases hij : i = j
          · subst hij
            refine controlled_of_trigger hstep hreachable hrepresents (w := .forward p.msg) rfl rfl
              fun event hevent => ?_
            rw [L1Cache.Structures.inPort, hevent]
            rfl
          · exact hsame (l1_of_trigger_ne hstep hij)
  | response j write =>
      rw [Msi.step] at hstep
      split at hstep
      · exact nomatch hstep
      · next p hhead =>
          by_cases hij : i = j
          · subst hij
            refine controlled_of_trigger hstep hreachable hrepresents (w := .response p.msg write)
              rfl rfl fun event hevent => ?_
            have htbe : structures.TBEs p.msg.address = (s.line i p.msg.address).tbe :=
              congrArg L1Cache.Line.tbe (hrepresents _)
            rw [L1Cache.Structures.inPort, htbe, hevent]
            rfl
          · exact hsame (l1_of_trigger_ne hstep hij)
  | dirRequest d | dirResponse d =>
      rw [Msi.step] at hstep
      split at hstep
      · exact nomatch hstep
      · exact hsame (congrFun (l1_of_dirTrigger hstep) i)
  | dirMemory d index =>
      rw [Msi.step] at hstep
      split at hstep
      · exact nomatch hstep
      · exact hsame (congrFun (l1_of_dirTrigger hstep) i)
  | deliverRequest src dst | deliverForward src dst | deliverResponse src dst =>
      rw [Msi.step] at hstep
      split at hstep
      · exact nomatch hstep
      · cases hstep
        exact hsame rfl

/-- Every L1 of a run is represented by a controller that is reached on its own. -/
theorem controlled_of_run (h : (msi config).Reachable s) (i : ι) : s.Controlled config i := by
  refine h.invariant (I := fun s => s.Controlled config i) ?_ ?_
  · rintro _ rfl
    exact ⟨.initial, .init rfl, fun _ => rfl⟩
  · rintro s l _ - hs - ⟨result, hstep, rfl⟩
    exact hs.step hstep

/-- At each point of a run every L1 is a controller that is reached on its own and keeps its lines
in the ways of its cache memory. So it has no more lines of a set than ways, and each line has what
its state calls for. -/
theorem l1_is_controlled (h : (msi config).Reachable s) (i : ι) :
    s.Controlled config i ∧ ∀ address, (s.line i address).Booked ∧
      ((s.l1 i).residents (config.l1 i) address).length ≤ (config.l1 i).cacheAssoc := by
  obtain ⟨structures, hreachable, hrepresents⟩ := controlled_of_run h i
  refine ⟨⟨structures, hreachable, hrepresents⟩, fun address => ⟨?_, ?_⟩⟩
  · rw [System.line, ← hrepresents address]
    exact L1Cache.Structures.booked_of_reachable hreachable address
  · exact hrepresents.length_residents_le address

/-- The first L1 has loaded address 0. -/
def Sample.loaded : System (Fin 3) Unit (Fin 2) Nat :=
  (reached Sample.config (fun _ _ => True)
    ([Sample.load 0] ++ Sample.request 0 ++ Sample.memory ++ Sample.data 0 0)).1

/-- It has room for one line. -/
theorem l1_is_controlled_load : Sample.loaded.Controlled Sample.config 0 ∧
    ((Sample.loaded.l1 0).residents (Sample.config.l1 0) 0).length = 1 := by
  have hrun : (msi Sample.config).Reachable Sample.loaded := run_reached _
  obtain ⟨hcontrolled, hlines⟩ := l1_is_controlled hrun 0
  refine ⟨hcontrolled, le_antisymm (hlines 0).2 ?_⟩
  decide

end Ece552.Msi
