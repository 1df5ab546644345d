import Ece552.Library.TwoLevelPrediction
import Ece552.Predictor.Tournament

/-!
# The private histories of the tournament predictor

The comment on `q4_private_branch_history` asks for the last 6 outcomes of the branches that share
an entry. `Q4_L2_PRIVATE_PREDICTOR_ROWS_MASK` is shifted by the offset of the address bits, so it
clears the three lowest bits: an outcome is lost as soon as it is shifted in. The histories are
right as long as there is nothing to remember.
-/

namespace Ece552.Predictor.Tournament

open Library

/-- The outcome that a history has to remember of an event. -/
def Event.outcomeAt (history : Fin Q4_PRIVATE_BRANCH_HISTORY_ROWS) (e : Event) : Option Bool :=
  match e.chosen with
  | .simple _ => none
  | .twoLevel own _ => if own = history then some e.taken else none

/-- The outcomes of the branches that have this history and were predicted by the two-level
predictor, the latest one first. -/
def privateOutcomes (history : Fin Q4_PRIVATE_BRANCH_HISTORY_ROWS) (log : List Event) : List Bool :=
  log.reverse.filterMap (Event.outcomeAt history)

/-- The width of a private history. -/
abbrev privateHistoryWidth : Nat := 6

/-- A branch behind others consults the counter for its history, and all histories are right behind
it. -/
def KeepsPrivateHistories (older : List Branch) (b : Branch) : Prop :=
  ∃ s log s' log', runLog older = .ok (s, log) ∧ runLog (older ++ [b]) = .ok (s', log') ∧
    (∀ i history num index, s.choose b = .ok (i, .twoLevel history (num, index)) →
      index.val = pattern privateHistoryWidth (privateOutcomes history log)) ∧
    ∀ history, s'.privateBranchHistory history =
      pattern privateHistoryWidth (privateOutcomes history log')

/-- A branch whose chooser selects the two-level predictor is not taken. -/
def NothingToRemember (older : List Branch) (b : Branch) : Prop :=
  ∀ s i, run older = .ok s → chooserIndex b = .ok i →
    s.chooser i < Q4_SATURATING_COUNTER_THRESHOLD → b.taken = false

variable {older branches : List Branch} {b : Branch} {s : Tournament} {log : List Event} {e : Event}
variable {history : Fin Q4_PRIVATE_BRANCH_HISTORY_ROWS}

/-! ## What an event adds -/

theorem private_outcomes_concat : privateOutcomes history (log ++ [e]) =
    (e.outcomeAt history).toList ++ privateOutcomes history log := by
  rw [privateOutcomes, List.reverse_append, List.filterMap_append]
  cases hout : e.outcomeAt history with
  | none => simp [hout, privateOutcomes]
  | some o => simp [hout, privateOutcomes]

/-- The chooser of the branch is the one at its own index. -/
theorem chooser_index_of_choose {i : Fin Q4_CHOOSER_ROWS} {chosen : Chosen}
    (h : s.choose b = .ok (i, chosen)) : chooserIndex b = .ok i := by
  rw [choose] at h
  obtain ⟨own, hown, h⟩ := bind_eq_ok.mp h
  have hi : own = i := by
    split at h
    · obtain ⟨index, -, h⟩ := bind_eq_ok.mp h
      exact (Prod.mk.inj (Except.ok.inj h)).1
    · obtain ⟨num, -, h⟩ := bind_eq_ok.mp h
      obtain ⟨history, -, h⟩ := bind_eq_ok.mp h
      obtain ⟨index, -, h⟩ := bind_eq_ok.mp h
      exact (Prod.mk.inj (Except.ok.inj h)).1
  rw [hown, hi]

/-- An event with its choice. -/
theorem event_cases (h : s.Indexed) (b : Branch) : ∃ i e, chooserIndex b = .ok i ∧
    s.event b = .ok e ∧ e.taken = b.taken ∧
      ((Q4_SATURATING_COUNTER_THRESHOLD ≤ s.chooser i ∧ ∃ index, e.chosen = .simple index) ∨
        (s.chooser i < Q4_SATURATING_COUNTER_THRESHOLD ∧
          ∃ history num, e.chosen = .twoLevel history (num, 0))) := by
  obtain ⟨i, ⟨hchoice, index, hchoose⟩ | ⟨hchoice, history, num, hchoose⟩⟩ := choose_cases h b
  · exact ⟨i, _, chooser_index_of_choose hchoose, by rw [event, hchoose]; rfl, rfl,
      Or.inl ⟨hchoice, index, rfl⟩⟩
  · exact ⟨i, _, chooser_index_of_choose hchoose, by rw [event, hchoose]; rfl, rfl,
      Or.inr ⟨hchoice, history, num, rfl⟩⟩

/-- The consulted counter is always the first one. -/
theorem index_of_choose (h : s.Indexed) {i : Fin Q4_CHOOSER_ROWS}
    {num : Fin Q4_L2_PRIVATE_PREDICTOR_NUM} {index : Fin Q4_L2_PRIVATE_PREDICTOR_ROWS}
    (hchoose : s.choose b = .ok (i, .twoLevel history (num, index))) : index.val = 0 := by
  obtain ⟨j, ⟨-, own, hcase⟩ | ⟨-, own, num', hcase⟩⟩ := choose_cases h b
  · exact nomatch (Prod.mk.inj (Except.ok.inj (hchoose.symm.trans hcase))).2
  · have hchosen := (Prod.mk.inj (Except.ok.inj (hchoose.symm.trans hcase))).2
    obtain ⟨-, hentry⟩ := Chosen.twoLevel.inj hchosen
    rw [(Prod.mk.inj hentry).2]
    rfl

/-! ## Runs -/

/-- Step lemma. -/
theorem outcome_of_nothing (hs : s.Indexed) (hrun : run older = .ok s) (he : s.event b = .ok e)
    (hb : NothingToRemember older b) {o : Bool} (ho : e.outcomeAt history = some o) :
    o = false := by
  obtain ⟨i, e', hi, he', htaken, hcases⟩ := event_cases hs b
  obtain rfl : e = e' := Except.ok.inj (he.symm.trans he')
  rw [Event.outcomeAt] at ho
  obtain ⟨-, index, hchosen⟩ | ⟨hchoice, own, num, hchosen⟩ := hcases
  · rw [hchosen] at ho
    exact nomatch ho
  · rw [hchosen] at ho
    simp only [Option.ite_none_right_eq_some, Option.some.injEq] at ho
    rw [← ho.2, htaken]
    exact hb s i hrun hi hchoice

/-- Run lemma: nothing was taken that a history should remember. -/
theorem outcomes_of_along (h : Along NothingToRemember branches)
    (hrun : runLog branches = .ok (s, log)) :
    ∀ o ∈ privateOutcomes history log, o = false := by
  induction branches using List.reverseRecOn generalizing s log with
  | nil =>
      obtain ⟨-, rfl⟩ := Prod.mk.inj (Except.ok.inj hrun)
      exact fun o ho => nomatch ho
  | append_singleton older b ih =>
      obtain ⟨hpre, hb⟩ := along_concat.mp h
      obtain ⟨s₀, log₀, hrun₀, hs₀⟩ := exists_run_log older
      obtain ⟨s₁, log₁, e, hrun₁, he, -, rfl⟩ := run_log_concat.mp hrun
      obtain ⟨rfl, rfl⟩ := Prod.mk.inj (Except.ok.inj (hrun₀.symm.trans hrun₁))
      intro o ho
      rw [private_outcomes_concat] at ho
      rcases List.mem_append.mp ho with hnew | hold
      · exact outcome_of_nothing hs₀ (run_of_log hrun₀) he hb (Option.mem_toList.mp hnew)
      · exact ih hpre hrun₀ o hold

/-! ## Main result -/

/-- The histories are right exactly as long as every branch that the two-level predictor predicts is
not taken. -/
theorem private_histories_iff_nothing_to_remember (branches : List Branch) :
    Along KeepsPrivateHistories branches ↔ Along NothingToRemember branches := by
  refine along_congr fun older b h => ?_
  obtain ⟨s, log, hrun, hs⟩ := exists_run_log older
  obtain ⟨i, e, hi, he, htaken, hcases⟩ := event_cases hs b
  have hrun' := run_log_concat.mpr ⟨s, log, e, hrun, he, rfl, rfl⟩
  have hs' : (s.apply e).Indexed := by
    obtain ⟨e', he', hindexed⟩ := exists_event hs b
    rwa [Except.ok.inj (he.symm.trans he')]
  constructor
  · rintro ⟨s₁, log₁, s', log', hrun₁, hrun₁', -, hafter⟩ s₂ i₂ hrun₂ hi₂ hchoice₂
    obtain ⟨rfl, rfl⟩ := Prod.mk.inj (Except.ok.inj (hrun.symm.trans hrun₁))
    obtain ⟨rfl, rfl⟩ := Prod.mk.inj (Except.ok.inj (hrun'.symm.trans hrun₁'))
    obtain rfl : s = s₂ := Except.ok.inj ((run_of_log hrun).symm.trans hrun₂)
    obtain rfl : i = i₂ := Except.ok.inj (hi.symm.trans hi₂)
    obtain ⟨hchoice, -⟩ | ⟨-, history, num, hchosen⟩ := hcases
    · exact absurd hchoice (Nat.not_le_of_lt hchoice₂)
    · -- The outcome is the lowest bit of the pattern, and the history is 0.
      have houtcome : e.outcomeAt history = some b.taken := by
        rw [Event.outcomeAt, hchosen, ← htaken]
        exact if_pos rfl
      have hzero := hafter history
      rw [hs'.history, private_outcomes_concat, houtcome, Option.toList_some,
        List.singleton_append, pattern] at hzero
      cases hb : b.taken with
      | false => rfl
      | true =>
          rw [hb, Bool.toNat_true] at hzero
          cases hzero
  · intro hb
    refine ⟨s, log, _, _, hrun, hrun', fun j history num index hchoose => ?_, fun history => ?_⟩
    · rw [index_of_choose hs hchoose, pattern_eq_zero (outcomes_of_along h hrun)]
    · rw [hs'.history,
        pattern_eq_zero (outcomes_of_along (along_concat.mpr ⟨h, hb⟩) hrun')]

/-- A branch that is not taken moves its chooser to the two-level predictor. The next outcome is
lost. -/
theorem private_history_loses_outcome : ¬ Along KeepsPrivateHistories [⟨0, 8⟩, ⟨0, 64⟩] := by
  intro h
  obtain ⟨s, log, s', log', -, hrun, -, hafter⟩ := h [⟨0, 8⟩] ⟨0, 64⟩ [] rfl
  have hvalues : (runLog [⟨0, 8⟩, ⟨0, 64⟩]).map (fun r => (r.1.privateBranchHistory 0,
      pattern privateHistoryWidth (privateOutcomes 0 r.2))) = .ok (0, 1) := rfl
  rw [show runLog [⟨0, 8⟩, ⟨0, 64⟩] = .ok (s', log') from hrun] at hvalues
  obtain ⟨hhistory, hpattern⟩ := Prod.mk.inj (Except.ok.inj hvalues)
  have hlast := hafter 0
  rw [hhistory, hpattern] at hlast
  exact nomatch hlast

end Ece552.Predictor.Tournament
