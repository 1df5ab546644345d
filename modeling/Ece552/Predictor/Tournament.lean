import Ece552.Library.EventLog
import Ece552.Predictor.Machine

/-!
# The counters of the tournament predictor

The budget of the tournament predictor allows 2 bits for a counter, but the code saturates its
counters at `Q4_SATURATING_COUNTER_MAX_STATES`. `TwoBitCounters` says what 2-bit counters do. As
long as no counter is moved up from 3, the tables are those of 2-bit counters.
-/

namespace Ece552.Predictor.Tournament

open Library

/-! ## What a branch teaches the tables -/

/-- The entries that a branch uses, whether the prediction was correct, and the outcome. -/
structure Event where
  chooserIndex : Fin Q4_CHOOSER_ROWS
  chosen : Chosen
  correct : Bool
  taken : Bool

namespace Event

variable (e : Event)

/-- The chooser moves towards the component that was right. -/
def chooserUpdate : Option (Fin Q4_CHOOSER_ROWS × Bool) :=
  some (e.chooserIndex, e.correct == e.chosen.usingSimple)

/-- The update of the simple predictor. -/
def simpleUpdate : Option (Fin Q4_SIMPLE_PRIVATE_PREDICTOR_ROWS × Bool) :=
  match e.chosen with
  | .simple index => some (index, e.taken)
  | .twoLevel .. => none

/-- The update of the two-level predictor. -/
def l2Update :
    Option ((Fin Q4_L2_PRIVATE_PREDICTOR_NUM × Fin Q4_L2_PRIVATE_PREDICTOR_ROWS) × Bool) :=
  match e.chosen with
  | .simple _ => none
  | .twoLevel _ entry => some (entry, e.taken)

end Event

/-- What a branch does, from the choice to the outcome. -/
def event (s : Tournament) (b : Branch) : Except Fault Event := do
  let (chooserIndex, chosen) ← s.choose b
  .ok ⟨chooserIndex, chosen, correct (s.prediction chosen) b.taken, b.taken⟩

/-- A branch, with a record of what it did. -/
def stepLog (run : Tournament × List Event) (b : Branch) :
    Except Fault (Tournament × List Event) := do
  let e ← run.1.event b
  let s ← run.1.step b
  .ok (s, run.2 ++ [e])

/-- A run that keeps a log of its events. -/
def runLog (branches : List Branch) : Except Fault (Tournament × List Event) :=
  branches.foldlM stepLog (init, [])

section Table

variable {κ : Type*} [DecidableEq κ]

/-- A table of 2-bit counters before and after a branch, when these are the updates so far. -/
structure TwoBitTable (updates : List (κ × Bool)) (table table' : κ → Nat) : Prop where
  range : ∀ k, table' k ≤ 3
  /-- at most one counter changes -/
  one : ∀ k k', table' k ≠ table k → table' k' ≠ table k' → k = k'
  near : ∀ k, table' k ≤ table k + 1 ∧ table k ≤ table' k + 1
  /-- two outcomes flip the prediction, after any number of opposite ones -/
  flips : ∀ k earlier n outcome,
    outcomesAt k updates = earlier ++ List.replicate n (!outcome) ++ [outcome, outcome] →
    decide (Q4_SATURATING_COUNTER_THRESHOLD ≤ table' k) = outcome

end Table

/-- A branch behind others leaves 2-bit counters in all tables. -/
def TwoBitCounters (older : List Branch) (b : Branch) : Prop :=
  ∃ s log s' log', runLog older = .ok (s, log) ∧ runLog (older ++ [b]) = .ok (s', log') ∧
    TwoBitTable (log'.filterMap Event.chooserUpdate) s.chooser s'.chooser ∧
    TwoBitTable (log'.filterMap Event.simpleUpdate)
      s.simplePrivatePredictor s'.simplePrivatePredictor ∧
    TwoBitTable (log'.filterMap Event.l2Update) s.l2PrivatePredictor s'.l2PrivatePredictor

/-- No counter is moved up from 3: that of the chosen component not by a taken branch, and that of
the chooser not by a correct prediction. -/
def HasRoom (older : List Branch) (b : Branch) : Prop :=
  ∀ s chooserIndex chosen, run older = .ok s → s.choose b = .ok (chooserIndex, chosen) →
    (s.prediction chosen = 3 → b.taken = false) ∧
    (s.chooser chooserIndex = 3 → correct (s.prediction chosen) b.taken = false)

/-! ## One table -/

section Table

variable {κ : Type*} [DecidableEq κ] {updates : List (κ × Bool)} {update : Option (κ × Bool)}

/-- The table of 2-bit counters after these updates. -/
def twoBit (updates : List (κ × Bool)) : κ → Nat :=
  updates.foldl (bump 3) fun _ => Q4_SATURATING_COUNTER_THRESHOLD

/-- A 2-bit counter is at most 3. -/
theorem two_bit_le (updates : List (κ × Bool)) (k : κ) : twoBit updates k ≤ 3 := by
  rw [twoBit, foldl_bump]
  exact foldl_saturate_le (Nat.le_of_ble_eq_true rfl) _

/-- The table after the update of a branch, if there is one. -/
def adjusted (update : Option (κ × Bool)) (table : κ → Nat) : κ → Nat :=
  update.toList.foldl (bump Q4_SATURATING_COUNTER_MAX_STATES) table

/-- The update does not move a counter up from 3. -/
def Room (update : Option (κ × Bool)) (table : κ → Nat) : Prop :=
  ∀ u ∈ update, table u.1 = 3 → u.2 = false

/-- A counter that is adjusted is at most 3 if there was room. -/
theorem adjusted_le_iff {table : κ → Nat} (h : ∀ k, table k ≤ 3) :
    (∀ k, adjusted update table k ≤ 3) ↔ Room update table := by
  cases update with
  | none => exact iff_of_true h fun u hu => nomatch hu
  | some u =>
      have hself : adjusted (some u) table u.1 =
          saturate Q4_SATURATING_COUNTER_MAX_STATES (table u.1) u.2 := bump_self ..
      have hiff : saturate Q4_SATURATING_COUNTER_MAX_STATES (table u.1) u.2 ≤ 3 ↔
          (table u.1 = 3 → u.2 = false) := saturate_le_iff (h u.1) (Nat.lt_succ_self 3)
      constructor
      · intro hle u' hu'
        obtain rfl : u = u' := Option.some.inj hu'
        exact hiff.mp (hself ▸ hle u.1)
      · intro hroom k
        by_cases hk : k = u.1
        · rw [hk, hself]
          exact hiff.mpr (hroom u rfl)
        · exact (bump_of_ne hk).trans_le (h k)

/-- Where there was room, a counter is adjusted as a 2-bit counter. -/
theorem adjusted_eq_two_bit (hroom : Room update (twoBit updates)) :
    adjusted update (twoBit updates) = twoBit (updates ++ update.toList) := by
  cases update with
  | none => rw [Option.toList_none, List.append_nil]; rfl
  | some u =>
      have hmoved : saturate Q4_SATURATING_COUNTER_MAX_STATES (twoBit updates u.1) u.2 =
          saturate 3 (twoBit updates u.1) u.2 :=
        saturate_eq_of_room (two_bit_le updates u.1) (Nat.lt_succ_self 3) (hroom u rfl)
      show Function.update (twoBit updates) u.1 _ = (updates ++ [u]).foldl (bump 3) _
      rw [hmoved, List.foldl_append]
      rfl

/-- 2-bit counters have all that is said of them. -/
theorem two_bit_table (updates : List (κ × Bool)) (update : Option (κ × Bool)) :
    TwoBitTable (updates ++ update.toList) (twoBit updates)
      (twoBit (updates ++ update.toList)) := by
  have hsame : ∀ k, (∀ u ∈ update, k ≠ u.1) →
      twoBit (updates ++ update.toList) k = twoBit updates k := by
    intro k hk
    rw [twoBit, List.foldl_append]
    cases update with
    | none => rfl
    | some u => exact bump_of_ne (hk u rfl)
  refine ⟨two_bit_le _, ?_, ?_, ?_⟩
  · intro k k' hk hk'
    cases update with
    | none => exact absurd (hsame k fun u hu => nomatch hu) hk
    | some u =>
        have hu : ∀ k, twoBit (updates ++ [u]) k ≠ twoBit updates k → k = u.1 := by
          intro k hne
          by_contra hku
          refine hne (hsame k fun u' hu' => ?_)
          rwa [← Option.some.inj hu']
        exact (hu k hk).trans (hu k' hk').symm
  · intro k
    by_cases hk : ∀ u ∈ update, k ≠ u.1
    · rw [hsame k hk]
      omega
    · push Not at hk
      obtain ⟨u, hu, rfl⟩ := hk
      rw [Option.mem_def.mp hu, twoBit, Option.toList_some, List.foldl_append]
      show bump 3 (twoBit updates) u u.1 ≤ _ ∧ _ ≤ bump 3 (twoBit updates) u u.1 + 1
      rw [bump_self]
      exact saturate_near 3 _ u.2
  · intro k earlier n outcome hlog
    rw [twoBit, foldl_bump, hlog, List.foldl_append]
    exact foldl_replicate_predicts (foldl_saturate_le (Nat.le_of_ble_eq_true rfl) _)
      (Nat.le_of_ble_eq_true rfl) (Nat.lt_of_lt_of_le (Nat.lt_succ_self 3) (Nat.le_refl 4)) outcome

end Table

/-! ## One branch -/

variable {older branches : List Branch} {b : Branch} {s s' : Tournament} {log : List Event}
variable {e : Event}

/-- All indices into the tables are in their bounds: the second-level predictor always looks up its
first column, since the mask clears the lower bits of each history. -/
structure Indexed (s : Tournament) : Prop where
  global : s.globalHistoryRegister ≤ Q4_GLOBAL_HISTORY_REGISTER_MASK
  history : ∀ i, s.privateBranchHistory i = 0

/-- What is chosen for a branch. -/
theorem choose_cases (h : s.Indexed) (b : Branch) : ∃ i,
    (Q4_SATURATING_COUNTER_THRESHOLD ≤ s.chooser i ∧
      ∃ index, s.choose b = .ok (i, .simple index)) ∨
    (s.chooser i < Q4_SATURATING_COUNTER_THRESHOLD ∧
      ∃ history num, s.choose b = .ok (i, .twoLevel history (num, 0))) := by
  have hlt : ∀ {mask : Addr} {n : Nat}, mask.toNat < n → pcBits b.pc mask OFFSET < n :=
    fun hmask => Nat.lt_of_le_of_lt (pc_bits_le ..) hmask
  obtain ⟨i, hi⟩ : ∃ i, chooserIndex b = .ok i := ⟨_, element_of_lt (hlt (Nat.lt_succ_self _))⟩
  refine ⟨i, ?_⟩
  rw [choose, hi]
  by_cases hchoice : Q4_SATURATING_COUNTER_THRESHOLD ≤ s.chooser i
  case pos =>
    have hindex : (pcBits b.pc Q4_SIMPLE_PRIVATE_PREDICTOR_PC_MASK OFFSET <<<
        Q4_GLOBAL_HISTORY_REGISTER_SIZE) ||| s.globalHistoryRegister <
        Q4_SIMPLE_PRIVATE_PREDICTOR_ROWS := by
      have hbits : pcBits b.pc Q4_SIMPLE_PRIVATE_PREDICTOR_PC_MASK OFFSET ≤ 63 := pc_bits_le ..
      have hglobal : s.globalHistoryRegister < 2 ^ 14 := by
        have := h.global
        simp only [Q4_GLOBAL_HISTORY_REGISTER_MASK] at this
        omega
      refine Nat.or_lt_two_pow ?_ hglobal
      rw [Nat.shiftLeft_eq]
      simp only [Q4_GLOBAL_HISTORY_REGISTER_SIZE]
      omega
    refine Or.inl ⟨hchoice, ⟨_, hindex⟩, ?_⟩
    show (if _ then _ else _) = _
    rw [if_pos hchoice, element_of_lt hindex]
    rfl
  case neg =>
    obtain ⟨num, hnum⟩ : ∃ num, element Q4_L2_PRIVATE_PREDICTOR_NUM
        (pcBits b.pc Q4_L2_PRIVATE_PREDICTOR_NUM_MASK OFFSET) = .ok num :=
      ⟨_, element_of_lt (hlt (Nat.lt_succ_self _))⟩
    obtain ⟨history, hhistory⟩ : ∃ history, element Q4_PRIVATE_BRANCH_HISTORY_ROWS
        (pcBits b.pc Q4_PRIVATE_BRANCH_HISTORY_MASK OFFSET) = .ok history :=
      ⟨_, element_of_lt (hlt (Nat.lt_succ_self _))⟩
    refine Or.inr ⟨Nat.lt_of_not_le hchoice, history, num, ?_⟩
    show (if _ then _ else _) = _
    rw [if_neg hchoice, hnum, hhistory]
    show (element _ (s.privateBranchHistory history) >>= _) = _
    rw [h.history]
    rfl

/-- The state after an event. -/
def apply (s : Tournament) (e : Event) : Tournament where
  chooser := adjusted e.chooserUpdate s.chooser
  globalHistoryRegister :=
    ((s.globalHistoryRegister <<< 1) + e.taken.toNat) &&& Q4_GLOBAL_HISTORY_REGISTER_MASK
  simplePrivatePredictor := adjusted e.simpleUpdate s.simplePrivatePredictor
  privateBranchHistory :=
    match e.chosen with
    | .simple _ => s.privateBranchHistory
    | .twoLevel history (_, index) => Function.update s.privateBranchHistory history
        (((index.val <<< 1) + e.taken.toNat) &&& Q4_L2_PRIVATE_PREDICTOR_ROWS_MASK)
  l2PrivatePredictor := adjusted e.l2Update s.l2PrivatePredictor
  simNumMispredOpenend :=
    if e.correct then s.simNumMispredOpenend else s.simNumMispredOpenend + 1

/-- A branch that is recorded has a choice. -/
theorem exists_choice (h : s.event b = .ok e) :
    ∃ i chosen, s.choose b = .ok (i, chosen) := by
  rw [event] at h
  obtain ⟨choice, hchoose, -⟩ := bind_eq_ok.mp h
  exact ⟨choice.1, choice.2, hchoose⟩

/-- A branch does what is recorded. -/
theorem step_of_event (h : s.event b = .ok e) : s.step b = .ok (s.apply e) := by
  obtain ⟨i, chosen, hchoose⟩ := exists_choice h
  rw [event, hchoose] at h
  obtain rfl := Except.ok.inj h
  rw [step, hchoose]
  cases chosen <;> rfl

/-- An outcome that is shifted into an empty history is masked out. -/
theorem shift_in_zero (taken : Bool) :
    ((0 <<< 1) + taken.toNat) &&& Q4_L2_PRIVATE_PREDICTOR_ROWS_MASK = 0 := by
  cases taken <;> rfl

/-- With indices in range every branch can be recorded. -/
theorem exists_event (h : s.Indexed) (b : Branch) :
    ∃ e, s.event b = .ok e ∧ (s.apply e).Indexed := by
  have hglobal : ∀ n, n &&& Q4_GLOBAL_HISTORY_REGISTER_MASK ≤ Q4_GLOBAL_HISTORY_REGISTER_MASK :=
    fun n => Nat.and_le_right
  obtain ⟨i, ⟨-, index, hchoose⟩ | ⟨-, history, num, hchoose⟩⟩ := choose_cases h b
  · refine ⟨_, by rw [event, hchoose]; rfl, hglobal _, ?_⟩
    exact h.history
  · refine ⟨_, by rw [event, hchoose]; rfl, hglobal _, fun j => ?_⟩
    show Function.update s.privateBranchHistory history _ j = 0
    by_cases hj : j = history
    · rw [hj, Function.update_self]
      exact shift_in_zero b.taken
    · rw [Function.update_of_ne hj, h.history]

/-- The condition on the branch says that there is room in all three tables. -/
theorem room_iff (h : s.Indexed) {chooserIndex : Fin Q4_CHOOSER_ROWS} {chosen : Chosen}
    (hchoose : s.choose b = .ok (chooserIndex, chosen)) (hevent : s.event b = .ok e) :
    Room e.chooserUpdate s.chooser ∧ Room e.simpleUpdate s.simplePrivatePredictor ∧
      Room e.l2Update s.l2PrivatePredictor ↔
    (s.prediction chosen = 3 → b.taken = false) ∧
      (s.chooser chooserIndex = 3 → correct (s.prediction chosen) b.taken = false) := by
  have hnone : ∀ {κ : Type} {table : κ → Nat}, Room none table := fun u hu => nomatch hu
  have hsome : ∀ {κ : Type} {table : κ → Nat} {u : κ × Bool},
      Room (some u) table ↔ (table u.1 = 3 → u.2 = false) :=
    ⟨fun hroom => hroom _ rfl, fun hroom u' hu' => Option.some.inj hu' ▸ hroom⟩
  rw [event, hchoose] at hevent
  obtain rfl := Except.ok.inj hevent
  obtain ⟨i, ⟨hchoice, index, hcase⟩ | ⟨hchoice, history, num, hcase⟩⟩ := choose_cases h b
  · obtain ⟨rfl, rfl⟩ := Prod.mk.inj (Except.ok.inj (hchoose.symm.trans hcase))
    have hup : ∀ c : Bool, (c == Chosen.usingSimple (.simple index)) = c := fun c => by
      cases c <;> rfl
    show Room (some (chooserIndex, _ == _)) _ ∧ Room (some (index, b.taken)) _ ∧ Room none _ ↔ _
    rw [hsome, hsome, hup]
    exact ⟨fun hroom => ⟨hroom.2.1, hroom.1⟩, fun hroom => ⟨hroom.2, hroom.1, hnone⟩⟩
  · obtain ⟨rfl, rfl⟩ := Prod.mk.inj (Except.ok.inj (hchoose.symm.trans hcase))
    have hne : s.chooser chooserIndex ≠ 3 := by
      simp only [Q4_SATURATING_COUNTER_THRESHOLD] at hchoice
      omega
    show Room (some (chooserIndex, _ == _)) _ ∧ Room none _ ∧
      Room (some ((num, 0), b.taken)) _ ↔ _
    rw [hsome, hsome]
    exact ⟨fun hroom => ⟨hroom.2.2, fun heq => absurd heq hne⟩,
      fun hroom => ⟨fun heq => absurd heq hne, hnone, hroom.1⟩⟩

/-! ## Runs -/

/-- The tables are those of 2-bit counters. -/
structure TwoBit (s : Tournament) (log : List Event) : Prop where
  indexed : s.Indexed
  chooser : s.chooser = twoBit (log.filterMap Event.chooserUpdate)
  simple : s.simplePrivatePredictor = twoBit (log.filterMap Event.simpleUpdate)
  l2 : s.l2PrivatePredictor = twoBit (log.filterMap Event.l2Update)

/-- All counters start as 2-bit counters do. -/
theorem two_bit_init : TwoBit init [] := ⟨⟨Nat.zero_le _, fun _ => rfl⟩, rfl, rfl, rfl⟩

/-- The last branch is recorded behind the others. -/
theorem run_log_concat : runLog (older ++ [b]) = .ok (s', log) ↔
    ∃ s log₀ e, runLog older = .ok (s, log₀) ∧ s.event b = .ok e ∧ s' = s.apply e ∧
      log = log₀ ++ [e] := by
  rw [runLog, foldlM_concat_ok]
  constructor
  · rintro ⟨⟨s, log₀⟩, hrun, hlast⟩
    rw [stepLog] at hlast
    obtain ⟨e, he, hlast⟩ := bind_eq_ok.mp hlast
    rw [step_of_event he] at hlast
    obtain ⟨hs, hlog⟩ := Prod.mk.inj (Except.ok.inj hlast)
    exact ⟨s, log₀, e, hrun, he, hs.symm, hlog.symm⟩
  · rintro ⟨s, log₀, e, hrun, he, rfl, rfl⟩
    refine ⟨(s, log₀), hrun, ?_⟩
    rw [stepLog, he, step_of_event he]
    rfl

/-- The log is kept beside the run. -/
theorem run_of_log (h : runLog branches = .ok (s, log)) : run branches = .ok s := by
  induction branches using List.reverseRecOn generalizing s log with
  | nil =>
      obtain ⟨rfl, -⟩ := Prod.mk.inj (Except.ok.inj h)
      rfl
  | append_singleton older b ih =>
      obtain ⟨s₀, log₀, e, hrun, he, rfl, -⟩ := run_log_concat.mp h
      exact foldlM_concat_ok.mpr ⟨s₀, ih hrun, step_of_event he⟩

/-- No index is out of its bounds in any run. -/
theorem exists_run_log (branches : List Branch) :
    ∃ s log, runLog branches = .ok (s, log) ∧ s.Indexed := by
  induction branches using List.reverseRecOn with
  | nil => exact ⟨init, [], rfl, two_bit_init.indexed⟩
  | append_singleton older b ih =>
      obtain ⟨s, log, hrun, hs⟩ := ih
      obtain ⟨e, he, hindexed⟩ := exists_event hs b
      exact ⟨_, _, run_log_concat.mpr ⟨s, log, e, hrun, he, rfl, rfl⟩, hindexed⟩

/-- The last event has an update, or not. -/
theorem filter_map_concat {κ : Type} (f : Event → Option (κ × Bool)) (log : List Event)
    (e : Event) : (log ++ [e]).filterMap f = log.filterMap f ++ (f e).toList := by
  rw [List.filterMap_append]
  cases hf : f e with
  | none => simp [hf]
  | some u => simp [hf]

/-- Step lemma. -/
theorem TwoBit.step (h : TwoBit s log) (hindexed : (s.apply e).Indexed)
    (hroom : Room e.chooserUpdate s.chooser ∧ Room e.simpleUpdate s.simplePrivatePredictor ∧
      Room e.l2Update s.l2PrivatePredictor) : TwoBit (s.apply e) (log ++ [e]) := by
  obtain ⟨hchooser, hsimple, hl2⟩ := hroom
  rw [h.chooser] at hchooser
  rw [h.simple] at hsimple
  rw [h.l2] at hl2
  refine ⟨hindexed, ?_, ?_, ?_⟩
  · rw [filter_map_concat, ← adjusted_eq_two_bit hchooser, apply,
      h.chooser]
  · rw [filter_map_concat, ← adjusted_eq_two_bit hsimple, apply,
      h.simple]
  · rw [filter_map_concat, ← adjusted_eq_two_bit hl2, apply, h.l2]

/-- The tables of 2-bit counters before and after an event. -/
theorem two_bit_tables (h : TwoBit s log) (h' : TwoBit s' (log ++ [e])) :
    TwoBitTable ((log ++ [e]).filterMap Event.chooserUpdate) s.chooser s'.chooser ∧
    TwoBitTable ((log ++ [e]).filterMap Event.simpleUpdate)
      s.simplePrivatePredictor s'.simplePrivatePredictor ∧
    TwoBitTable ((log ++ [e]).filterMap Event.l2Update)
      s.l2PrivatePredictor s'.l2PrivatePredictor := by
  rw [h.chooser, h.simple, h.l2, h'.chooser, h'.simple, h'.l2, filter_map_concat, filter_map_concat,
    filter_map_concat]
  exact ⟨two_bit_table _ _, two_bit_table _ _, two_bit_table _ _⟩

/-- Run lemma. -/
theorem two_bit_of_along (h : Along HasRoom branches) :
    ∃ s log, runLog branches = .ok (s, log) ∧ TwoBit s log := by
  induction branches using List.reverseRecOn with
  | nil => exact ⟨init, [], rfl, two_bit_init⟩
  | append_singleton older b ih =>
      obtain ⟨hpre, hb⟩ := along_concat.mp h
      obtain ⟨s, log, hrun, hs⟩ := ih hpre
      obtain ⟨e, he, hindexed⟩ := exists_event hs.indexed b
      obtain ⟨i, chosen, hchoose⟩ := exists_choice he
      have hroom := (room_iff hs.indexed hchoose he).mpr (hb s i chosen (run_of_log hrun) hchoose)
      exact ⟨_, _, run_log_concat.mpr ⟨s, log, e, hrun, he, rfl, rfl⟩, hs.step hindexed hroom⟩

/-! ## Main result -/

/-- All counters are 2-bit counters exactly as long as no counter that a branch uses is moved up
from 3. -/
theorem two_bit_counters_iff_has_room (branches : List Branch) :
    Along TwoBitCounters branches ↔ Along HasRoom branches := by
  refine along_congr fun older b h => ?_
  obtain ⟨s, log, hrun, hs⟩ := two_bit_of_along h
  obtain ⟨e, he, hindexed⟩ := exists_event hs.indexed b
  obtain ⟨i, chosen, hchoose⟩ := exists_choice he
  have hrun' := run_log_concat.mpr ⟨s, log, e, hrun, he, rfl, rfl⟩
  have hroom_iff := room_iff hs.indexed hchoose he
  constructor
  · rintro ⟨s₁, log₁, s', log', hrun₁, hrun₁', hchooser, hsimple, hl2⟩
    obtain ⟨rfl, rfl⟩ := Prod.mk.inj (Except.ok.inj (hrun.symm.trans hrun₁))
    obtain ⟨rfl, rfl⟩ := Prod.mk.inj (Except.ok.inj (hrun'.symm.trans hrun₁'))
    intro s₂ i₂ chosen₂ hrun₂ hchoose₂
    obtain rfl : s = s₂ := Except.ok.inj ((run_of_log hrun).symm.trans hrun₂)
    obtain ⟨rfl, rfl⟩ := Prod.mk.inj (Except.ok.inj (hchoose.symm.trans hchoose₂))
    refine hroom_iff.mp ⟨?_, ?_, ?_⟩
    · exact (adjusted_le_iff (hs.chooser ▸ two_bit_le _)).mp hchooser.range
    · exact (adjusted_le_iff (hs.simple ▸ two_bit_le _)).mp hsimple.range
    · exact (adjusted_le_iff (hs.l2 ▸ two_bit_le _)).mp hl2.range
  · intro hb
    have hroom := hroom_iff.mpr (hb s i chosen (run_of_log hrun) hchoose)
    exact ⟨s, log, _, _, hrun, hrun', two_bit_tables hs (hs.step hindexed hroom)⟩

/-- Two taken branches at one address: the chooser is moved to 3 and then to 4. -/
theorem chooser_exceeds_two_bits : ¬ Along TwoBitCounters [⟨0, 64⟩, ⟨0, 64⟩] := by
  intro h
  obtain ⟨s, log, s', log', -, hrun, hchooser, -⟩ := h [⟨0, 64⟩] ⟨0, 64⟩ [] rfl
  have hfour : (run [⟨0, 64⟩, ⟨0, 64⟩]).map (fun s => s.chooser 0) = .ok 4 := rfl
  rw [show run [⟨0, 64⟩, ⟨0, 64⟩] = .ok s' from run_of_log hrun] at hfour
  have hchooser' : s'.chooser 0 = 4 := Except.ok.inj hfour
  have hrange := hchooser.range 0
  omega

end Ece552.Predictor.Tournament
