import Ece552.Library.EventLog
import Ece552.Pipeline.Hazards

/-!
# Stalls and bubbles

The stall counters compared with the bubbles of the pipeline. The counters keep the distances
between instructions, not times: a stall does not shorten the other waits, and of several sources
only the first one is looked at. `Tracks` says what is left of the agreement between the two, which
is enough to say exactly when an instruction adds its bubbles to the counters.
-/

namespace Ece552.Pipeline

open Library

variable {q : Question} {h : Hazards} {n : Nat} {inst : Inst} {older insts : List Inst}
variable {s : Schedule Reg} {r : Reg} {i : Fin 3}

/-- The cycles that are counted. -/
def Hazards.stallCycles (h : Hazards) : Nat := h.singleCycleStalls + 2 * h.doubleCycleStalls

/-- Behind the instruction the counters of the question show the bubbles of the pipeline. -/
def CountsBubbles (q : Question) (older : List Inst) (inst : Inst) : Prop :=
  ((SimMain.run (older ++ [inst])).hazards q).stallCycles =
    (q.pipeline.schedule (older ++ [inst])).bubbles

/-- The source is a hazard behind these instructions. -/
def IsHazard (q : Question) (older : List Inst) (inst : Inst) (i : Fin 3) : Prop :=
  ((SimMain.run older).hazards q).isHazard q (older.length + 1) inst i = true

/-- The source at which the loop stops behind these instructions. -/
def firstHazard (q : Question) (older : List Inst) (inst : Inst) : Option (Fin 3) :=
  ((SimMain.run older).hazards q).hazard q (older.length + 1) inst

/-- The last instruction was stalled. -/
def Delayed (q : Question) (insts : List Inst) : Prop :=
  ∃ older prev, insts = older ++ [prev] ∧ (firstHazard q older prev).isSome

/-- The last instruction writes the register. -/
def Fresh (insts : List Inst) (r : Reg) : Prop :=
  ∃ older prev, insts = older ++ [prev] ∧ r ∈ prev.targets

/-- If the instruction has a hazard, no source is ready later than the first one that is found, and
if the instruction before it was stalled, one of the hazards is a result of that instruction. -/
def FirstIsLast (q : Question) (older : List Inst) (inst : Inst) : Prop :=
  ∀ first, firstHazard q older inst = some first →
    (∀ i, IsHazard q older inst i → ((SimMain.run older).hazards q).regReady (inst.rIn i) ≤
      ((SimMain.run older).hazards q).regReady (inst.rIn first)) ∧
    (Delayed q older → ∃ i, IsHazard q older inst i ∧ Fresh older (inst.rIn i))

/-- The last instruction is delayed if it has a hazard. -/
theorem delayed_concat : Delayed q (older ++ [inst]) ↔ (firstHazard q older inst).isSome := by
  constructor
  · rintro ⟨older', inst', heq, hsome⟩
    obtain ⟨rfl, hinst⟩ := List.append_inj' heq rfl
    obtain rfl := List.cons.inj hinst |>.1
    exact hsome
  · intro hsome
    exact ⟨older, inst, rfl, hsome⟩

/-- The values of the last instruction are fresh. -/
theorem fresh_concat : Fresh (older ++ [inst]) r ↔ r ∈ inst.targets := by
  constructor
  · rintro ⟨older', inst', heq, hmem⟩
    obtain ⟨rfl, hinst⟩ := List.append_inj' heq rfl
    obtain rfl := List.cons.inj hinst |>.1
    exact hmem
  · intro hmem
    exact ⟨older, inst, rfl, hmem⟩

/-! ## One instruction -/

/-- The number of cycles after which a register would be ready for the next instruction, by the
counters, when `n` instructions were executed. -/
def Hazards.wait (h : Hazards) (n : Nat) (r : Reg) : Nat := h.regReady r - (n + 1)

/-- The source is one that the instruction waits for. -/
def Inspects (q : Question) (inst : Inst) (i : Fin 3) : Prop :=
  inst.rIn i ≠ DNA ∧ q.skips inst i = false

/-- The sources are the registers that are inspected. -/
theorem mem_sources : r ∈ q.sources inst ↔ ∃ i, Inspects q inst i ∧ inst.rIn i = r := by
  rw [Question.sources, List.mem_filter, List.mem_map, decide_eq_true_iff]
  constructor
  · rintro ⟨⟨i, hi, rfl⟩, hr⟩
    exact ⟨i, ⟨hr, Bool.not_eq_true' _ ▸ (List.mem_filter.mp hi).2⟩, rfl⟩
  · rintro ⟨i, ⟨hr, hskips⟩, rfl⟩
    refine ⟨⟨i, List.mem_filter.mpr ⟨List.mem_finRange i, ?_⟩, rfl⟩, hr⟩
    rw [hskips]
    rfl

/-- The targets are the registers that are written. -/
theorem mem_targets : r ∈ inst.targets ↔ (r = inst.rOut 0 ∨ r = inst.rOut 1) ∧ r ≠ DNA := by
  rw [Inst.targets, List.mem_filter, List.mem_pair, decide_eq_true_iff]

/-- What is counted as a hazard: an inspected source for which the instruction waits. -/
theorem is_hazard_iff : h.isHazard q (n + 1) inst i = true ↔
    Inspects q inst i ∧ 0 < h.wait n (inst.rIn i) := by
  rw [Hazards.isHazard, Bool.and_eq_true, Bool.and_eq_true, bne_iff_ne, decide_eq_true_iff,
    Bool.not_eq_true', Inspects, Hazards.wait]
  constructor
  · rintro ⟨⟨hr, hlt⟩, hskips⟩
    exact ⟨⟨hr, hskips⟩, by omega⟩
  · rintro ⟨⟨hr, hskips⟩, hlt⟩
    exact ⟨⟨hr, by omega⟩, hskips⟩

/-- There is no hazard if no inspected source is waited for. -/
theorem hazard_eq_none :
    h.hazard q (n + 1) inst = none ↔ ∀ i, Inspects q inst i → h.wait n (inst.rIn i) = 0 := by
  rw [Hazards.hazard, List.find?_eq_none]
  constructor
  · intro hnone i hi
    have hi' := mt is_hazard_iff.mpr (hnone i (List.mem_finRange i))
    push Not at hi'
    exact Nat.le_zero.mp (hi' hi)
  · intro hzero i _ hi
    obtain ⟨hinspects, hpos⟩ := is_hazard_iff.mp hi
    exact Nat.ne_of_gt hpos (hzero i hinspects)

/-- The hazard that is found is one. -/
theorem hazard_eq_some (hi : h.hazard q (n + 1) inst = some i) :
    Inspects q inst i ∧ 0 < h.wait n (inst.rIn i) := is_hazard_iff.mp (List.find?_some hi)

/-- The cycles that an instruction adds to the counters, if they are at most two. -/
def Hazards.counted (q : Question) (h : Hazards) (n : Nat) (inst : Inst) : Nat :=
  match h.hazard q (n + 1) inst with
  | some i => h.wait n (inst.rIn i)
  | none => 0

/-- Recording a result counts no stall. -/
theorem stall_cycles_set_ready (h : Hazards) (r : Reg) (ready : Nat) :
    (h.setReady r ready).stallCycles = h.stallCycles := by
  rw [Hazards.setReady]
  split <;> rfl

/-- The stalls grow by those of the hazard that is counted. -/
theorem stall_cycles_step (hnear : ∀ r, h.wait n r ≤ 2) :
    (h.step q (n + 1) inst).stallCycles = h.stallCycles + h.counted q n inst := by
  rw [Hazards.step, Hazards.counted, stall_cycles_set_ready, stall_cycles_set_ready]
  cases hfirst : h.hazard q (n + 1) inst with
  | none => rfl
  | some i =>
      have hpos := (hazard_eq_some hfirst).2
      have hcases : h.wait n (inst.rIn i) = 1 ∨ h.wait n (inst.rIn i) = 2 := by
        have hle := hnear (inst.rIn i)
        omega
      show (if h.wait n (inst.rIn i) = 1 then _ else _) +
        2 * (if h.wait n (inst.rIn i) = 2 then _ else _) = _ + h.wait n (inst.rIn i)
      rcases hcases with hone | htwo
      · rw [hone, if_pos rfl, if_neg (by omega), Hazards.stallCycles]
        omega
      · rw [htwo, if_neg (by omega), if_pos rfl, Hazards.stallCycles]
        omega

/-- When a register is ready after a result was recorded. -/
theorem reg_ready_set_ready (h : Hazards) (r r' : Reg) (ready : Nat) :
    (h.setReady r ready).regReady r' = if r' = r ∧ r' ≠ DNA then ready else h.regReady r' := by
  rw [Hazards.setReady]
  by_cases hr : r' = r
  case neg =>
    have hne : ¬ (r' = r ∧ r' ≠ DNA) := fun heq => hr heq.1
    rw [if_neg hne]
    split
    · exact Function.update_of_ne hr _ _
    · rfl
  case pos =>
    subst hr
    by_cases hdna : r' = DNA
    · have hne : ¬ (r' = r' ∧ r' ≠ DNA) := fun heq => heq.2 hdna
      rw [if_neg hne, if_neg (not_not_intro hdna)]
    · rw [if_pos hdna, if_pos ⟨rfl, hdna⟩]
      exact Function.update_self _ _ _

/-- A register that is written. -/
theorem reg_ready_step_of_mem (hr : r ∈ inst.targets) :
    (h.step q n inst).regReady r = n + q.latency inst := by
  obtain ⟨hout | hout, hdna⟩ := mem_targets.mp hr
  · have hfirst : r = inst.rOut 0 ∧ r ≠ DNA := ⟨hout, hdna⟩
    rw [Hazards.step, reg_ready_set_ready, reg_ready_set_ready, if_pos hfirst]
    exact ite_self _
  · rw [Hazards.step, reg_ready_set_ready, if_pos ⟨hout, hdna⟩]

/-- The other registers, except for the one that is waited for, which is ready now. -/
theorem reg_ready_step_of_not_mem (hr : r ∉ inst.targets) :
    (h.step q n inst).regReady r = h.regReady r ∨
      (h.hazard q n inst).isSome ∧ (h.step q n inst).regReady r ≤ n := by
  have hout : ∀ k, ¬ (r = inst.rOut k ∧ r ≠ DNA) := by
    rintro k ⟨hk, hdna⟩
    refine hr (mem_targets.mpr ⟨?_, hdna⟩)
    match k, hk with
    | 0, hk => exact Or.inl hk
    | 1, hk => exact Or.inr hk
  rw [Hazards.step, reg_ready_set_ready, if_neg (hout 1), reg_ready_set_ready, if_neg (hout 0)]
  cases hfirst : h.hazard q n inst with
  | none => exact Or.inl rfl
  | some i =>
      show Function.update h.regReady (inst.rIn i) _ r = _ ∨ _ ∧
        Function.update h.regReady (inst.rIn i) _ r ≤ n
      by_cases hi : r = inst.rIn i
      case neg =>
        rw [Function.update_of_ne hi]
        exact Or.inl rfl
      case pos =>
        have hlt : n < h.regReady (inst.rIn i) := by
          have hfound := List.find?_some hfirst
          rw [Hazards.isHazard, Bool.and_eq_true, Bool.and_eq_true, decide_eq_true_iff] at hfound
          exact hfound.1.2
        rw [hi, Function.update_self]
        exact Or.inr ⟨rfl, by omega⟩

/-! ## What the two agree on -/

/-- The waits for the `fresh` registers are `w` cycles on both sides. The others are equal, unless
the last instruction was `delayed`: then the pipeline waits for none of them any more. -/
structure Tracks (h : Hazards) (n : Nat) (s : Schedule Reg) (fresh : Reg → Prop)
    (delayed : Prop) (w : Nat) : Prop where
  pos : 1 ≤ w
  le : w ≤ 2
  written : ∀ r, fresh r → h.wait n r = w ∧ Pipeline.wait s r = w
  stale : ∀ r, ¬ fresh r → h.wait n r ≤ 1
  same : ∀ r, ¬ fresh r → ¬ delayed → Pipeline.wait s r = h.wait n r
  elapsed : ∀ r, ¬ fresh r → delayed → Pipeline.wait s r = 0

variable {fresh : Reg → Prop} {delayed : Prop} {w : Nat}

/-- No source is waited for longer than two cycles. -/
theorem Tracks.near (ht : Tracks h n s fresh delayed w) (r : Reg) : h.wait n r ≤ 2 := by
  have hle := ht.le
  by_cases hr : fresh r
  · rw [(ht.written r hr).1]
    exact hle
  · exact (ht.stale r hr).trans (by omega)

/-- The wait that is counted covers the wait in the pipeline. -/
theorem Tracks.wait_le (ht : Tracks h n s fresh delayed w) (r : Reg) :
    Pipeline.wait s r ≤ h.wait n r := by
  by_cases hr : fresh r
  · rw [(ht.written r hr).1, (ht.written r hr).2]
  · by_cases hd : delayed
    · rw [ht.elapsed r hr hd]
      exact Nat.zero_le _
    · rw [ht.same r hr hd]

/-- Without a delay the waits are the same. -/
theorem Tracks.wait_eq (ht : Tracks h n s fresh delayed w) (hd : ¬ delayed) (r : Reg) :
    Pipeline.wait s r = h.wait n r := by
  by_cases hr : fresh r
  · rw [(ht.written r hr).1, (ht.written r hr).2]
  · exact ht.same r hr hd

/-- Both start with nothing to wait for. -/
theorem tracks_init : Tracks .init 0 .start (Fresh []) (Delayed q []) 1 where
  pos := Nat.le_refl 1
  le := Nat.le_succ 1
  written := fun _ ⟨_, _, heq, _⟩ => absurd heq.symm (List.concat_ne_nil _ _)
  stale := fun _ _ => Nat.zero_le 1
  same := fun _ _ _ => rfl
  elapsed := fun _ _ ⟨_, _, heq, _⟩ => absurd heq.symm (List.concat_ne_nil _ _)

/-- The instruction adds its bubbles to the counters if and only if the first hazard decides. -/
theorem counted_eq_bubble_iff (ht : Tracks h n s fresh delayed w) :
    h.counted q n inst = q.pipeline.bubble s inst ↔
    ∀ first, h.hazard q (n + 1) inst = some first →
      (∀ i, h.isHazard q (n + 1) inst i = true →
        h.regReady (inst.rIn i) ≤ h.regReady (inst.rIn first)) ∧
      (delayed → ∃ i, h.isHazard q (n + 1) inst i = true ∧ fresh (inst.rIn i)) := by
  have hbubble : ∀ i, Inspects q inst i →
      Pipeline.wait s (inst.rIn i) ≤ q.pipeline.bubble s inst :=
    fun i hi => Pipeline.wait_le_bubble (mem_sources.mpr ⟨i, hi, rfl⟩)
  cases hfirst : h.hazard q (n + 1) inst with
  | none =>
      -- Nobody waits.
      refine iff_of_true ?_ fun first heq => nomatch heq
      have hzero : q.pipeline.bubble s inst ≤ 0 := by
        refine Pipeline.bubble_le_iff.mpr fun r hr => ?_
        obtain ⟨i, hi, rfl⟩ := mem_sources.mp hr
        exact (ht.wait_le _).trans_eq (hazard_eq_none.mp hfirst i hi)
      rw [Hazards.counted, hfirst]
      exact (Nat.le_zero.mp hzero).symm
  | some first =>
      obtain ⟨hinspects, hpos⟩ := hazard_eq_some hfirst
      have hle_iff : ∀ i, 0 < h.wait n (inst.rIn i) →
          (h.regReady (inst.rIn i) ≤ h.regReady (inst.rIn first) ↔
            h.wait n (inst.rIn i) ≤ h.wait n (inst.rIn first)) := by
        intro i hi
        rw [Hazards.wait] at hi hpos ⊢
        rw [Hazards.wait]
        omega
      have hcounted : h.counted q n inst = h.wait n (inst.rIn first) := by
        rw [Hazards.counted, hfirst]
      rw [hcounted]
      constructor
      · intro heq first' hsome
        obtain rfl := Option.some.inj hsome
        obtain ⟨r, hr, hwait⟩ := Pipeline.exists_wait_eq_bubble (heq ▸ hpos)
        obtain ⟨i₀, hi₀, rfl⟩ := mem_sources.mp hr
        have hpos₀ : 0 < h.wait n (inst.rIn i₀) := by
          have hle := ht.wait_le (inst.rIn i₀)
          omega
        refine ⟨fun i hi => ?_, fun hd => ⟨i₀, is_hazard_iff.mpr ⟨hi₀, hpos₀⟩, ?_⟩⟩
        · obtain ⟨hinspects', hpos'⟩ := is_hazard_iff.mp hi
          refine (hle_iff i hpos').mpr ?_
          have hle := hbubble i hinspects'
          by_cases hfresh : fresh (inst.rIn i)
          · have hwaits := ht.written _ hfresh
            omega
          · have hstale := ht.stale _ hfresh
            omega
        · by_contra hfresh
          have helapsed := ht.elapsed _ hfresh hd
          omega
      · intro hcond
        obtain ⟨hlast, hfresh⟩ := hcond first rfl
        refine Nat.le_antisymm ?_ (Pipeline.bubble_le_iff.mpr fun r hr => ?_)
        · -- The pipeline waits for this source, or for a fresh one that is ready as late.
          by_cases hd : delayed
          · obtain ⟨i, hi, hi'⟩ := hfresh hd
            obtain ⟨hinspects', -⟩ := is_hazard_iff.mp hi
            have hle := hbubble i hinspects'
            have hwaits := ht.written _ hi'
            have hw := ht.pos
            by_cases hf : fresh (inst.rIn first)
            · have hwaits' := ht.written _ hf
              omega
            · have hstale := ht.stale _ hf
              omega
          · rw [← ht.wait_eq hd]
            exact hbubble first hinspects
        · obtain ⟨i, hi, rfl⟩ := mem_sources.mp hr
          by_cases hzero : h.wait n (inst.rIn i) = 0
          · exact ((ht.wait_le _).trans_eq hzero).trans (Nat.zero_le _)
          · have hpos' := Nat.pos_of_ne_zero hzero
            have hle := hlast i (is_hazard_iff.mpr ⟨hi, hpos'⟩)
            exact (ht.wait_le _).trans ((hle_iff i hpos').mp hle)

/-- A value is ready after three or two instructions. -/
theorem latency_cases (q : Question) (inst : Inst) : q.latency inst = 3 ∨ q.latency inst = 2 := by
  cases q with
  | q1 => exact Or.inl rfl
  | q2 =>
      rw [Question.latency]
      split
      · exact Or.inl rfl
      · exact Or.inr rfl

/-- Step lemma. -/
theorem Tracks.step (ht : Tracks h n s fresh delayed w)
    (hcount : h.counted q n inst = q.pipeline.bubble s inst) :
    Tracks (h.step q (n + 1) inst) (n + 1) (q.pipeline.issue s inst) (· ∈ inst.targets)
      ((h.hazard q (n + 1) inst).isSome) (q.latency inst - 1) := by
  have hlatency := latency_cases q inst
  have hold : ∀ r, r ∉ inst.targets →
      (h.step q (n + 1) inst).wait (n + 1) r = h.wait n r - 1 ∨
      (h.hazard q (n + 1) inst).isSome ∧ (h.step q (n + 1) inst).wait (n + 1) r = 0 := by
    intro r hr
    rcases reg_ready_step_of_not_mem (h := h) (n := n + 1) hr with hkeep | ⟨hsome, hnow⟩
    · refine Or.inl ?_
      rw [Hazards.wait, hkeep, Hazards.wait]
      omega
    · refine Or.inr ⟨hsome, ?_⟩
      rw [Hazards.wait]
      omega
  refine ⟨by omega, by omega, fun r hr => ⟨?_, ?_⟩, fun r hr => ?_, fun r hr hd => ?_,
    fun r hr hd => ?_⟩
  · rw [Hazards.wait, reg_ready_step_of_mem hr]
    omega
  · exact Pipeline.wait_issue_of_mem hr
  · have hnear := ht.near r
    rcases hold r hr with hkeep | ⟨-, hnow⟩
    · omega
    · omega
  · -- No stall: one cycle passes on both sides.
    have hnone : h.hazard q (n + 1) inst = none := Option.not_isSome_iff_eq_none.mp hd
    have hzero : q.pipeline.bubble s inst = 0 := by
      rw [← hcount, Hazards.counted, hnone]
    rw [Pipeline.wait_issue_of_not_mem hr, hzero]
    rcases hold r hr with hkeep | ⟨hsome, -⟩
    · rw [hkeep]
      by_cases hfresh : fresh r
      · have hwaits := ht.written r hfresh
        omega
      · have hstale := ht.stale r hfresh
        have hle := ht.wait_le r
        omega
    · exact absurd hsome hd
  · -- A stall and the next cycle are as long as any wait.
    obtain ⟨first, hfirst⟩ := Option.isSome_iff_exists.mp hd
    have hpos : 0 < q.pipeline.bubble s inst := by
      rw [← hcount, Hazards.counted, hfirst]
      exact (hazard_eq_some hfirst).2
    have hle := ht.wait_le r
    have hnear := ht.near r
    rw [Pipeline.wait_issue_of_not_mem hr]
    omega

/-! ## Runs -/

/-- The last instruction is counted behind the others. -/
theorem hazards_concat (older : List Inst) (inst : Inst) :
    (SimMain.run (older ++ [inst])).hazards q =
      ((SimMain.run older).hazards q).step q (older.length + 1) inst := by
  rw [SimMain.run_concat, ← SimMain.sim_num_insn_run]
  rfl

/-- Run lemma. -/
theorem tracks_of_along (hlast : Along (FirstIsLast q) insts) :
    ((SimMain.run insts).hazards q).stallCycles = (q.pipeline.schedule insts).bubbles ∧
    ∃ w, Tracks ((SimMain.run insts).hazards q) insts.length (q.pipeline.schedule insts)
      (Fresh insts) (Delayed q insts) w := by
  induction insts using List.reverseRecOn with
  | nil => exact ⟨rfl, 1, tracks_init⟩
  | append_singleton older inst ih =>
      obtain ⟨hpre, hinst⟩ := along_concat.mp hlast
      obtain ⟨hcount, w, ht⟩ := ih hpre
      have hadd := (counted_eq_bubble_iff ht).mpr hinst
      have hfresh : Fresh (older ++ [inst]) = (· ∈ inst.targets) :=
        funext fun r => propext fresh_concat
      have hdelayed : Delayed q (older ++ [inst]) = _ := propext delayed_concat
      rw [hazards_concat, Pipeline.schedule_concat, stall_cycles_step ht.near, hcount, hadd,
        List.length_append, hfresh, hdelayed]
      exact ⟨rfl, _, ht.step hadd⟩

/-! ## Main result -/

/-- The counters show the bubbles of the pipeline exactly as long as the first hazard of each
instruction is one that the pipeline waits for, and the last one. -/
theorem counts_bubbles_iff_first_is_last (q : Question) (insts : List Inst) :
    Along (CountsBubbles q) insts ↔ Along (FirstIsLast q) insts := by
  refine along_congr fun older inst hlast => ?_
  obtain ⟨hcount, w, ht⟩ := tracks_of_along hlast
  have hlaw : CountsBubbles q older inst ↔ ((SimMain.run older).hazards q).counted q older.length
      inst = q.pipeline.bubble (q.pipeline.schedule older) inst := by
    rw [CountsBubbles, hazards_concat, Pipeline.schedule_concat, stall_cycles_step ht.near, hcount,
      Pipeline.bubbles_issue, Nat.add_left_cancel_iff]
  exact hlaw.trans (counted_eq_bubble_iff ht)

/-- The third instruction reads the results of both others. The first source is ready after one
cycle, but the other one only after two. -/
theorem second_source_is_later :
    ¬ Along (CountsBubbles .q1)
      [⟨fun _ => DNA, fun _ => 1, false, false, false⟩,
       ⟨fun _ => DNA, fun _ => 2, false, false, false⟩,
       ⟨fun i => if i = 0 then 1 else 2, fun _ => DNA, false, false, false⟩] := by
  intro h
  have hcounts := h [_, _] _ [] rfl
  revert hcounts
  unfold CountsBubbles
  decide

end Ece552.Pipeline
