import Ece552.Library.MistakeBound
import Ece552.Predictor.Tournament
import Ece552.Predictor.TwoLevel
import Mathlib.Data.Fintype.Prod
import Mathlib.Data.Fintype.Sum

/-!
# How many branches are predicted wrongly

Each predictor is set against a rival, who guesses the outcome of every branch in any way at all. A
wrong guess of the rival is worth two mispredictions, and so is a change of his mind at one of the
counters that predict (three at those of the tournament predictor, which count to 4). As a rival may
be right about a loop with one change of mind at either end, this is what the second bit is for. The
bounds hold for the indices that the code uses, whatever its history tables are worth.
-/

namespace Ece552.Predictor

open Library

/-- A branch and what a rival guesses about it. -/
abbrev Round := Branch × Bool

/-- The branches that the rival guesses wrongly. -/
def wrongGuesses (rounds : List Round) : Nat :=
  rounds.countP fun round => decide (round.2 ≠ round.1.taken)

variable {rounds : List Round} {round : Round}

/-- The last guess counts if it is wrong. -/
theorem wrong_guesses_concat (rounds : List Round) (round : Round) :
    wrongGuesses (rounds ++ [round]) =
      wrongGuesses rounds + if round.2 = round.1.taken then 0 else 1 := by
  unfold wrongGuesses
  rw [List.countP_append, List.countP_singleton]
  by_cases h : round.2 = round.1.taken
  · simp [h]
  · simp [h]

/-- The guesses at the counters follow the rounds. -/
theorem changes_concat {κ : Type} [DecidableEq κ] (first : Bool) (guesses : List (κ × Bool))
    (guess : κ × Bool) : (guesses ++ [guess]).foldl Guesses.add ⟨fun _ => first, 0⟩ =
      (guesses.foldl Guesses.add ⟨fun _ => first, 0⟩).add guess := by
  rw [List.foldl_append]
  rfl

/-! ## The 2-bit saturating counters -/

namespace TwoBitSat

/-- The counter that predicts a branch. -/
def counterOf (b : Branch) : Fin 4096 :=
  ⟨pcBits b.pc 0x0FFF 3, Nat.lt_succ_of_le (pc_bits_le ..)⟩

/-- What the rival guesses in place of each counter. -/
def guesses (rounds : List Round) : List (Fin 4096 × Bool) :=
  rounds.map fun round => (counterOf round.1, round.2)

/-- Run lemma. -/
theorem rival_of_run {s : TwoBitSat} (h : run (rounds.map Prod.fst) = .ok s) :
    Rival 3 WEAKLY_TAKEN s.predictionTable
      ((guesses rounds).foldl Guesses.add ⟨fun _ => false, 0⟩) s.simNumMispred2bitsat
      (wrongGuesses rounds) := by
  induction rounds using List.reverseRecOn generalizing s with
  | nil =>
      obtain rfl := Except.ok.inj h
      exact .start false (by decide) rfl
  | append_singleton rounds round ih =>
      rw [List.map_append] at h
      obtain ⟨s₀, hrun, hstep⟩ := foldlM_concat_ok.mp h
      have hrival := ih hrun
      have hindex : checkIndex 4096 (pcBits round.1.pc 0x0FFF 3) = .ok (counterOf round.1) :=
        check_index_of_lt (counterOf round.1).isLt
      rw [TwoBitSat.step, hindex] at hstep
      obtain rfl := Except.ok.inj hstep
      have hnext := hrival.step (by decide) (by decide) (counterOf round.1) round.2 round.1.taken
      rw [← count_mispred_eq (hrival.range _)] at hnext
      rw [guesses, List.map_append, List.map_singleton, changes_concat, wrong_guesses_concat]
      exact hnext

end TwoBitSat

/-! ## The two-level predictor -/

namespace TwoLevel

/-- The counter that predicts a branch, when its column is in bounds. -/
def counterOf (b : Branch) : Fin 8 × Fin 64 :=
  (scheme.table b, Fin.ofNat 64 (branchHistoryTableIndex b.pc))

/-- What the rival guesses in place of each counter. -/
def guesses (rounds : List Round) : List ((Fin 8 × Fin 64) × Bool) :=
  rounds.map fun round => (counterOf round.1, round.2)

/-- Run lemma. -/
theorem rival_of_run {s : TwoLevel} (h : run (rounds.map Prod.fst) = .ok s) :
    Rival 3 WEAKLY_TAKEN s.privateHistoryTables
      ((guesses rounds).foldl Guesses.add ⟨fun _ => false, 0⟩) s.simNumMispred2level
      (wrongGuesses rounds) := by
  induction rounds using List.reverseRecOn generalizing s with
  | nil =>
      obtain rfl := Except.ok.inj h
      exact .start false (by decide) rfl
  | append_singleton rounds round ih =>
      rw [List.map_append] at h
      obtain ⟨s₀, hrun, hstep⟩ := foldlM_concat_ok.mp h
      have hrival := ih hrun
      unfold TwoLevel.step at hstep
      obtain ⟨⟨index, entry⟩, hconsult, hstep⟩ := bind_eq_ok.mp hstep
      obtain ⟨-, htable, hcolumn⟩ := consult_eq_ok.mp hconsult
      have hentry : entry = counterOf round.1 := by
        refine Prod.ext htable (Fin.ext ?_)
        have hlt := entry.2.isLt
        rw [hcolumn] at hlt ⊢
        exact (Nat.mod_eq_of_lt hlt).symm
      obtain rfl := Except.ok.inj hstep
      have hnext := hrival.step (by decide) (by decide) entry round.2 round.1.taken
      rw [← count_mispred_eq (hrival.range _)] at hnext
      rw [guesses, List.map_append, List.map_singleton, changes_concat, wrong_guesses_concat,
        ← hentry]
      exact hnext

end TwoLevel

/-! ## The tournament predictor -/

/-- The counters of both components. -/
abbrev Counter : Type := Fin Q4_SIMPLE_PRIVATE_PREDICTOR_ROWS ⊕
  Fin Q4_L2_PRIVATE_PREDICTOR_NUM × Fin Q4_L2_PRIVATE_PREDICTOR_ROWS

/-- The counter that predicts. -/
def Chosen.counter : Chosen → Counter
  | .simple index => .inl index
  | .twoLevel _ entry => .inr entry

namespace Tournament

/-- The counters of both components as one bank. -/
def bank (s : Tournament) : Counter → Nat :=
  Sum.elim s.simplePrivatePredictor s.l2PrivatePredictor

/-- What the rival guesses in place of each counter. -/
def guesses (log : List Event) (rounds : List Round) : List (Counter × Bool) :=
  (log.map fun e => e.chosen.counter).zip (rounds.map Prod.snd)

/-- The counter that is chosen is counted up or down, as in a bank. -/
theorem bank_apply (s : Tournament) (e : Event) :
    (s.apply e).bank =
      bump Q4_SATURATING_COUNTER_MAX_STATES s.bank (e.chosen.counter, e.taken) := by
  obtain ⟨i, chosen, correct, taken⟩ := e
  funext k
  cases chosen with
  | simple index =>
      cases k with
      | inl j =>
          by_cases hj : j = index
          · subst hj
            rw [show Chosen.counter (.simple j) = .inl j from rfl,
              bump_self Q4_SATURATING_COUNTER_MAX_STATES s.bank (.inl j, taken)]
            exact bump_self Q4_SATURATING_COUNTER_MAX_STATES s.simplePrivatePredictor (j, taken)
          · rw [bump_of_ne fun heq => hj (Sum.inl.inj heq)]
            exact bump_of_ne hj
      | inr entry =>
          have hne : (.inr entry : Counter) ≠ .inl index := Sum.inr_ne_inl
          have hsame : bump Q4_SATURATING_COUNTER_MAX_STATES s.bank (.inl index, taken)
              (.inr entry) = s.bank (.inr entry) := bump_of_ne hne
          exact hsame.symm
  | twoLevel history entry =>
      cases k with
      | inl j =>
          have hne : (.inl j : Counter) ≠ .inr entry := Sum.inl_ne_inr
          have hsame : bump Q4_SATURATING_COUNTER_MAX_STATES s.bank (.inr entry, taken)
              (.inl j) = s.bank (.inl j) := bump_of_ne hne
          exact hsame.symm
      | inr j =>
          by_cases hj : j = entry
          · subst hj
            rw [show Chosen.counter (.twoLevel history j) = .inr j from rfl,
              bump_self Q4_SATURATING_COUNTER_MAX_STATES s.bank (.inr j, taken)]
            exact bump_self Q4_SATURATING_COUNTER_MAX_STATES s.l2PrivatePredictor (j, taken)
          · rw [bump_of_ne fun heq => hj (Sum.inr.inj heq)]
            exact bump_of_ne hj

/-- Run lemma. -/
theorem rival_of_log {s : Tournament} {log : List Event}
    (h : runLog (rounds.map Prod.fst) = .ok (s, log)) :
    log.length = rounds.length ∧
      Rival Q4_SATURATING_COUNTER_MAX_STATES Q4_SATURATING_COUNTER_THRESHOLD s.bank
        ((guesses log rounds).foldl Guesses.add ⟨fun _ => true, 0⟩) s.simNumMispredOpenend
        (wrongGuesses rounds) := by
  induction rounds using List.reverseRecOn generalizing s log with
  | nil =>
      obtain ⟨rfl, rfl⟩ := Prod.mk.inj (Except.ok.inj h)
      have hbank : init.bank = fun _ => Q4_SATURATING_COUNTER_THRESHOLD := by
        funext k
        cases k <;> rfl
      rw [hbank]
      exact ⟨rfl, .start true (by decide) rfl⟩
  | append_singleton rounds round ih =>
      rw [List.map_append] at h
      obtain ⟨s₀, log₀, e, hrun, hevent, rfl, rfl⟩ := run_log_concat.mp h
      obtain ⟨hlength, hrival⟩ := ih hrun
      unfold event at hevent
      obtain ⟨⟨i, chosen⟩, -, heq⟩ := bind_eq_ok.mp hevent
      obtain rfl := Except.ok.inj heq
      have hnext := hrival.step (by decide) (by decide) chosen.counter round.2
        round.1.taken
      have hprediction : s₀.bank chosen.counter = s₀.prediction chosen := by
        cases chosen <;> rfl
      refine ⟨by simp [hlength], ?_⟩
      have hzip : guesses (log₀ ++ [⟨i, chosen, correct (s₀.prediction chosen) round.1.taken,
          round.1.taken⟩]) (rounds ++ [round]) =
            guesses log₀ rounds ++ [(chosen.counter, round.2)] := by
        unfold guesses
        rw [List.map_append, List.map_append, List.zip_append (by simp [hlength])]
        rfl
      have hmissed : (s₀.apply ⟨i, chosen, correct (s₀.prediction chosen) round.1.taken,
          round.1.taken⟩).simNumMispredOpenend = s₀.simNumMispredOpenend +
            if decide (Q4_SATURATING_COUNTER_THRESHOLD ≤ s₀.bank chosen.counter) =
              round.1.taken then 0 else 1 := by
        show (if correct (s₀.prediction chosen) round.1.taken then s₀.simNumMispredOpenend
          else s₀.simNumMispredOpenend + 1) = _
        unfold correct
        rw [hprediction]
        by_cases hright : decide (Q4_SATURATING_COUNTER_THRESHOLD ≤ s₀.prediction chosen) =
            round.1.taken
        · rw [if_pos hright, if_pos (beq_iff_eq.mpr hright), Nat.add_zero]
        · rw [if_neg hright, if_neg fun heq => hright (beq_iff_eq.mp heq)]
      rw [hzip, changes_concat, wrong_guesses_concat, hmissed, bank_apply]
      exact hnext

end Tournament

/-! ## All predictors -/

/-- Nobody who is asked about the same branches does much better than the predictors, each wrong
guess and each change of mind at a counter being worth two mispredictions (three, for a change of
mind at the counters of the tournament predictor). A first guess that differs from what the counter
predicts at the start is a change of mind: "not taken", or "taken" in the tournament predictor. -/
theorem mistakes_of_run {s : Predictors} (h : Predictors.run (rounds.map Prod.fst) = .ok s) :
    s.twoBitSat.simNumMispred2bitsat ≤
        2 * wrongGuesses rounds + 2 * changesOfMind false (TwoBitSat.guesses rounds) ∧
      s.twoLevel.simNumMispred2level ≤
        2 * wrongGuesses rounds + 2 * changesOfMind false (TwoLevel.guesses rounds) ∧
      ∃ log, Tournament.runLog (rounds.map Prod.fst) = .ok (s.tournament, log) ∧
        s.tournament.simNumMispredOpenend ≤
          2 * wrongGuesses rounds + 3 * changesOfMind true (Tournament.guesses log rounds) := by
  obtain ⟨htwoBit, htwoLevel, htournament⟩ := Predictors.parts_of_run h
  refine ⟨(TwoBitSat.rival_of_run htwoBit).missed_le, (TwoLevel.rival_of_run htwoLevel).missed_le,
    ?_⟩
  obtain ⟨s', log, hlog, -⟩ := Tournament.exists_run_log (rounds.map Prod.fst)
  obtain rfl : s' = s.tournament := Except.ok.inj ((Tournament.run_of_log hlog).symm.trans
    htournament)
  exact ⟨log, hlog, (Tournament.rival_of_log hlog).2.missed_le⟩

/-- A loop that is left once: the rival changes his mind twice. -/
theorem mistakes_of_loop :
    ∃ s, Predictors.run [⟨0, 64⟩, ⟨0, 64⟩, ⟨0, 64⟩, ⟨0, 8⟩] = .ok s ∧
      s.twoBitSat.simNumMispred2bitsat ≤ 4 := by
  let rounds : List Round :=
    [(⟨0, 64⟩, true), (⟨0, 64⟩, true), (⟨0, 64⟩, true), (⟨0, 8⟩, false)]
  have hrun : ∃ s, Predictors.run (rounds.map Prod.fst) = .ok s := ⟨_, rfl⟩
  obtain ⟨s, hs⟩ := hrun
  refine ⟨s, hs, (mistakes_of_run hs).1.trans ?_⟩
  decide

end Ece552.Predictor
