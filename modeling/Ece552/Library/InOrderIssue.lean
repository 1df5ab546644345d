import Mathlib.Data.List.Basic
import Mathlib.Data.List.Induction

/-!
# In-order issue

The cycle model of a pipeline that issues one instruction a cycle, in order. An instruction waits
until its sources are ready, which for each of them is some latency behind the issue of its last
writer. A cycle in which nothing is issued is a bubble.
-/

namespace Ece552.Library

/-- The registers that an instruction reads and writes, and when its result is ready. -/
structure Pipeline (ι ρ : Type*) where
  sources : ι → List ρ
  targets : ι → List ρ
  latency : ι → Nat

/-- The time of the last issue, when the last value of each register is ready, and the number of
bubbles. -/
structure Schedule (ρ : Type*) where
  time : Nat
  ready : ρ → Nat
  bubbles : Nat

/-- Nothing was issued, and no register waits for a value. -/
def Schedule.start {ρ : Type*} : Schedule ρ := ⟨0, fun _ => 0, 0⟩

namespace Pipeline

section Wait

variable {ι ρ : Type*} (P : Pipeline ι ρ) (s : Schedule ρ) (i : ι)

/-- The time at which an instruction is issued next. -/
def issueTime : Nat := (P.sources i).foldl (fun time r => max time (s.ready r)) (s.time + 1)

/-- The cycles for which an instruction waits for a register. -/
def wait (r : ρ) : Nat := s.ready r - (s.time + 1)

/-- The cycles for which an instruction waits. -/
def bubble : Nat := P.issueTime s i - s.time - 1

variable {P s i}

/-- An instruction is issued as soon as its sources are ready, and not with the one before. -/
theorem issue_time_le_iff {n : Nat} :
    P.issueTime s i ≤ n ↔ s.time + 1 ≤ n ∧ ∀ r ∈ P.sources i, s.ready r ≤ n := by
  rw [issueTime]
  generalize s.time + 1 = time
  induction P.sources i generalizing time with
  | nil => simp
  | cons r sources ih =>
      rw [List.foldl_cons, ih, Nat.max_le, List.forall_mem_cons, and_assoc]

/-- One instruction is issued in a cycle. -/
theorem lt_issue_time : s.time < P.issueTime s i := (issue_time_le_iff.mp (Nat.le_refl _)).1

/-- An instruction waits for the last one of its sources. -/
theorem bubble_le_iff {n : Nat} : P.bubble s i ≤ n ↔ ∀ r ∈ P.sources i, wait s r ≤ n := by
  have hlt : s.time < P.issueTime s i := lt_issue_time
  have hiff : P.issueTime s i ≤ s.time + 1 + n ↔ _ := issue_time_le_iff
  have hle : P.bubble s i ≤ n ↔ P.issueTime s i ≤ s.time + 1 + n := by
    rw [bubble]
    omega
  rw [hle, hiff]
  constructor
  · intro ⟨_, h⟩ r hr
    have hr := h r hr
    rw [wait]
    omega
  · intro h
    refine ⟨by omega, fun r hr => ?_⟩
    have hr := h r hr
    rw [wait] at hr
    omega

/-- An instruction waits for each of its sources. -/
theorem wait_le_bubble {r : ρ} (h : r ∈ P.sources i) : wait s r ≤ P.bubble s i :=
  bubble_le_iff.mp (Nat.le_refl _) r h

/-- There is a source for which it waits as long. -/
theorem exists_wait_eq_bubble (h : 0 < P.bubble s i) :
    ∃ r ∈ P.sources i, wait s r = P.bubble s i := by
  by_contra hnone
  push Not at hnone
  have hle : P.bubble s i ≤ P.bubble s i - 1 := by
    refine bubble_le_iff.mpr fun r hr => ?_
    have hmax : wait s r ≤ P.bubble s i := wait_le_bubble hr
    have hne := hnone r hr
    omega
  omega

end Wait

/-! ## Schedules -/

variable {ι ρ : Type*} [DecidableEq ρ] (P : Pipeline ι ρ) (s : Schedule ρ) (i : ι)

/-- Issue an instruction. -/
def issue : Schedule ρ where
  time := P.issueTime s i
  ready := fun r => if r ∈ P.targets i then P.issueTime s i + P.latency i else s.ready r
  bubbles := s.bubbles + (P.issueTime s i - s.time - 1)

/-- Issue a sequence of instructions. -/
def schedule (instrs : List ι) : Schedule ρ := instrs.foldl P.issue .start

/-- The last instruction is issued behind the others. -/
theorem schedule_concat (instrs : List ι) :
    P.schedule (instrs ++ [i]) = P.issue (P.schedule instrs) i := by
  rw [schedule, List.foldl_append]
  rfl

variable {P s i}

/-- The time of the issue, counted from that of the one before. -/
theorem time_issue : (P.issue s i).time = s.time + 1 + P.bubble s i := by
  have hlt : s.time < P.issueTime s i := lt_issue_time
  show P.issueTime s i = _
  rw [bubble]
  omega

/-- The bubbles before an instruction are counted. -/
theorem bubbles_issue : (P.issue s i).bubbles = s.bubbles + P.bubble s i := rfl

/-- A value that is written is ready after the latency. -/
theorem ready_issue_of_mem {r : ρ} (h : r ∈ P.targets i) :
    (P.issue s i).ready r = (P.issue s i).time + P.latency i := if_pos h

/-- Other values are ready when they were. -/
theorem ready_issue_of_not_mem {r : ρ} (h : r ∉ P.targets i) :
    (P.issue s i).ready r = s.ready r := if_neg h

/-- A value that is written needs its latency, less the cycle of the next instruction. -/
theorem wait_issue_of_mem {r : ρ} (h : r ∈ P.targets i) :
    wait (P.issue s i) r = P.latency i - 1 := by
  rw [wait, ready_issue_of_mem h]
  omega

/-- The cycles up to an issue shorten the waits for other registers. -/
theorem wait_issue_of_not_mem {r : ρ} (h : r ∉ P.targets i) :
    wait (P.issue s i) r = wait s r - (1 + P.bubble s i) := by
  rw [wait, wait, ready_issue_of_not_mem h, time_issue]
  omega

end Pipeline

end Ece552.Library
