import Mathlib.Logic.Function.Basic

/-!
# Register renaming

Instructions that read and write registers, executed one after another, and the values that a
renamed execution carries along its tags. A register or an input that waits has the tag of an
instruction, whose result it gets when that is broadcast. `Carries` says which values are those of
the sequential execution, and each of the three events keeps it, in whatever order the instructions
are executed.
-/

namespace Ece552.Library

/-- What the instructions of a program read, write and compute. An instruction computes one value
for each register that it writes, and has no value for an input that it does not read. -/
structure Program (ρ ι ν : Type*) where
  reads : Nat → ι → Option ρ
  writes : Nat → ρ → Bool
  compute : Nat → (ι → Option ν) → ρ → ν

/-- The instructions that registers and inputs wait for. -/
structure Tags (ρ ι : Type*) where
  map : ρ → Option Nat
  waits : Nat → ι → Option Nat

/-- The register file, the inputs that instructions have, and the results. -/
structure Values (ρ ι ν : Type*) where
  file : ρ → ν
  operand : Nat → ι → Option ν
  result : Nat → ρ → ν

variable {ρ ι ν : Type*}

namespace Program

variable (P : Program ρ ι ν) (start : ρ → ν)

/-- The registers before an instruction, when the instructions are executed one after another. -/
def regs : Nat → ρ → ν
  | 0 => start
  | n + 1 => fun reg =>
      if P.writes n reg then P.compute n (fun a => (P.reads n a).map (regs n)) reg else regs n reg

/-- The inputs of an instruction in the sequential execution. -/
def inputs (n : Nat) (a : ι) : Option ν := (P.reads n a).map (P.regs start n)

/-- What an instruction computes in the sequential execution. -/
def value (n : Nat) : ρ → ν := P.compute n (P.inputs start n)

variable {P start}

theorem regs_succ (n : Nat) (reg : ρ) : P.regs start (n + 1) reg =
    if P.writes n reg then P.value start n reg else P.regs start n reg := rfl

/-- Instructions that write nothing leave the registers as they are. -/
theorem regs_congr {a b : Nat} (hab : a ≤ b)
    (h : ∀ n, a ≤ n → n < b → ∀ reg, P.writes n reg = false) :
    P.regs start b = P.regs start a := by
  obtain ⟨k, rfl⟩ := Nat.exists_eq_add_of_le hab
  induction k with
  | zero => rfl
  | succ k ih =>
      rw [← ih (Nat.le_add_right a k) fun n hn hlt => h n hn (Nat.lt_succ_of_lt hlt)]
      funext reg
      rw [← Nat.add_assoc, regs_succ, h (a + k) (Nat.le_add_right a k) (Nat.lt_succ_self _),
        if_neg Bool.false_ne_true]

end Program

namespace Values

variable (P : Program ρ ι ν)

/-- The result of an instruction goes to the registers and the inputs that wait for it. -/
def broadcast (tags : Tags ρ ι) (p : Nat) (v : Values ρ ι ν) : Values ρ ι ν where
  file reg := if tags.map reg = some p then v.result p reg else v.file reg
  operand j a :=
    if tags.waits j a = some p then (P.reads j a).map (v.result p) else v.operand j a
  result := v.result

/-- An instruction takes what is in the register file. -/
def take (taken : Nat → Prop) [DecidablePred taken] (v : Values ρ ι ν) : Values ρ ι ν :=
  { v with operand := fun j a => if taken j then (P.reads j a).map v.file else v.operand j a }

/-- What a register has: the result that it waits for, or its value. -/
def read (tags : Tags ρ ι) (v : Values ρ ι ν) (reg : ρ) : ν :=
  match tags.map reg with
  | none => v.file reg
  | some p => v.result p reg

/-- Instructions compute their results from the inputs that they have. -/
def execute (started : Nat → Prop) [DecidablePred started] (v : Values ρ ι ν) : Values ρ ι ν :=
  { v with result := fun j => if started j then P.compute j (v.operand j) else v.result j }

end Values

/-- The values are those of the sequential execution, in which the registers are `regs` after the
instructions that were issued: what has no tag has its value, and what has a tag waits for the
instruction that computes it. -/
structure Carries (P : Program ρ ι ν) (start : ρ → ν) (tags : Tags ρ ι)
    (issued executed : Nat → Prop) (regs : ρ → ν) (v : Values ρ ι ν) : Prop where
  file : ∀ reg, tags.map reg = none → v.file reg = regs reg
  map : ∀ reg p, tags.map reg = some p → regs reg = P.value start p reg
  operand : ∀ j a, issued j → tags.waits j a = none → v.operand j a = P.inputs start j a
  waits : ∀ j a p reg, issued j → tags.waits j a = some p → P.reads j a = some reg →
    P.regs start j reg = P.value start p reg
  result : ∀ j, executed j → v.result j = P.value start j

namespace Carries

variable {P : Program ρ ι ν} {start : ρ → ν} {tags tags' : Tags ρ ι}
  {issued issued' executed executed' : Nat → Prop} {regs : ρ → ν} {v : Values ρ ι ν}

/-- Nothing waits and nothing was issued. -/
theorem initial (hmap : ∀ reg, tags.map reg = none) (hissued : ∀ j, ¬ issued j)
    (hexecuted : ∀ j, ¬ executed j) (hfile : v.file = regs) :
    Carries P start tags issued executed regs v := by
  refine ⟨fun reg _ => congrFun hfile reg, fun reg p hp => ?_, fun j _ hj => absurd hj (hissued j),
    fun j _ _ _ hj => absurd hj (hissued j), fun j hj => absurd hj (hexecuted j)⟩
  rw [hmap reg] at hp
  exact nomatch hp

/-- With the results of all that registers wait for, they have the values of the sequential
execution. -/
theorem read (h : Carries P start tags issued executed regs v)
    (hexecuted : ∀ reg p, tags.map reg = some p → executed p) (reg : ρ) :
    v.read tags reg = regs reg := by
  rw [Values.read]
  cases htag : tags.map reg with
  | none => exact h.file reg htag
  | some p =>
      show v.result p reg = regs reg
      rw [h.result p (hexecuted reg p htag), h.map reg p htag]

/-- The values are those of the sequential execution where the tags are the same. -/
theorem congr (h : Carries P start tags issued executed regs v)
    (hmap : ∀ reg, tags'.map reg = tags.map reg)
    (hwaits : ∀ j a, tags'.waits j a = tags.waits j a) (hissued : ∀ j, issued' j → issued j)
    (hexecuted : ∀ j, executed' j → executed j) :
    Carries P start tags' issued' executed' regs v := by
  refine ⟨fun reg hreg => ?_, fun reg p hp => ?_, fun j a hj ha => ?_, fun j a p reg hj ha => ?_,
    fun j hj => h.result j (hexecuted j hj)⟩
  · rw [hmap] at hreg
    exact h.file reg hreg
  · rw [hmap] at hp
    exact h.map reg p hp
  · rw [hwaits] at ha
    exact h.operand j a (hissued j hj) ha
  · rw [hwaits] at ha
    exact h.waits j a p reg (hissued j hj) ha

/-- What waits for a result that is right gets its value. -/
theorem broadcast (h : Carries P start tags issued executed regs v) {p : Nat} (hp : executed p)
    (hmap : ∀ reg q, tags'.map reg = some q ↔ tags.map reg = some q ∧ q ≠ p)
    (hwaits : ∀ j a q, issued' j → (tags'.waits j a = some q ↔ tags.waits j a = some q ∧ q ≠ p))
    (hissued : ∀ j, issued' j → issued j) (hexecuted : ∀ j, executed' j → executed j) :
    Carries P start tags' issued' executed' regs (v.broadcast P tags p) := by
  have hvalue := h.result p hp
  refine ⟨fun reg hreg => ?_, fun reg q hq => h.map reg q ((hmap reg q).mp hq).1,
    fun j a hj ha => ?_, fun j a q reg hj ha => ?_, fun j hj => h.result j (hexecuted j hj)⟩
  · show (if tags.map reg = some p then v.result p reg else v.file reg) = regs reg
    split
    · next htag => rw [hvalue, h.map reg p htag]
    · next htag =>
        refine h.file reg (Option.eq_none_iff_forall_ne_some.mpr fun q hq => ?_)
        have hne : q ≠ p := by
          rintro rfl
          exact htag hq
        rw [(hmap reg q).mpr ⟨hq, hne⟩] at hreg
        exact nomatch hreg
  · show (if tags.waits j a = some p then (P.reads j a).map (v.result p) else v.operand j a) =
      P.inputs start j a
    split
    · next htag =>
        rw [hvalue, Program.inputs]
        cases hreads : P.reads j a with
        | none => rfl
        | some reg =>
            rw [Option.map_some, Option.map_some, h.waits j a p reg (hissued j hj) htag hreads]
    · next htag =>
        refine h.operand j a (hissued j hj) (Option.eq_none_iff_forall_ne_some.mpr fun q hq => ?_)
        have hne : q ≠ p := by
          rintro rfl
          exact htag hq
        rw [(hwaits j a q hj).mpr ⟨hq, hne⟩] at ha
        exact nomatch ha
  · exact h.waits j a q reg (hissued j hj) ((hwaits j a q hj).mp ha).1

/-- Instructions that wait for nothing compute what they compute in the sequential execution. -/
theorem execute (h : Carries P start tags issued executed regs v) {started : Nat → Prop}
    [DecidablePred started] (hstarted : ∀ j, started j → issued j ∧ ∀ a, tags.waits j a = none)
    (hmap : ∀ reg, tags'.map reg = tags.map reg)
    (hwaits : ∀ j a, tags'.waits j a = tags.waits j a) (hissued : ∀ j, issued' j → issued j)
    (hexecuted : ∀ j, executed' j → started j ∨ executed j) :
    Carries P start tags' issued' executed' regs (v.execute P started) := by
  have hsame : Carries P start tags' issued' executed regs v :=
    h.congr hmap hwaits hissued fun _ hj => hj
  refine ⟨hsame.file, hsame.map, hsame.operand, hsame.waits, fun j hj => ?_⟩
  show (if started j then P.compute j (v.operand j) else v.result j) = P.value start j
  split
  · next hs =>
      have hoperand : v.operand j = P.inputs start j :=
        funext fun a => h.operand j a (hstarted j hs).1 ((hstarted j hs).2 a)
      rw [hoperand, Program.value]
  · next hs => exact h.result j ((hexecuted j hj).resolve_left hs)

/-- An instruction that is issued next takes the tags of its inputs, or their values, and its tag
goes to the registers that it writes. -/
theorem take {n : Nat} (h : Carries P start tags issued executed (P.regs start n) v)
    {taken : Nat → Prop} [DecidablePred taken] (htaken : ∀ j, taken j ↔ j = n)
    (hmap : ∀ reg, tags'.map reg = if P.writes n reg then some n else tags.map reg)
    (hnew : ∀ a reg, P.reads n a = some reg → tags'.waits n a = tags.map reg)
    (hwaits : ∀ j a, j ≠ n → tags'.waits j a = tags.waits j a)
    (hissued : ∀ j, issued' j → j ≠ n → issued j) (hexecuted : ∀ j, executed' j → executed j) :
    Carries P start tags' issued' executed' (P.regs start (n + 1)) (v.take P taken) := by
  refine ⟨fun reg hreg => ?_, fun reg p hp => ?_, fun j a hj ha => ?_,
    fun j a p reg hj ha hreads => ?_, fun j hj => h.result j (hexecuted j hj)⟩
  · rw [hmap] at hreg
    rw [Program.regs_succ]
    split at hreg
    · exact nomatch hreg
    · next hwrites =>
        rw [if_neg hwrites]
        exact h.file reg hreg
  · rw [hmap] at hp
    rw [Program.regs_succ]
    split at hp
    · next hwrites =>
        obtain rfl := Option.some.inj hp
        rw [if_pos hwrites]
    · next hwrites =>
        rw [if_neg hwrites]
        exact h.map reg p hp
  · show (if taken j then (P.reads j a).map v.file else v.operand j a) = P.inputs start j a
    split
    · next hj' =>
        obtain rfl := (htaken j).mp hj'
        rw [Program.inputs]
        cases hreads : P.reads j a with
        | none => rfl
        | some reg =>
            rw [hnew a reg hreads] at ha
            rw [Option.map_some, Option.map_some, h.file reg ha]
    · next hj' =>
        have hne : j ≠ n := fun heq => hj' ((htaken j).mpr heq)
        rw [hwaits j a hne] at ha
        exact h.operand j a (hissued j hj hne) ha
  · by_cases hjn : j = n
    · subst hjn
      rw [hnew a reg hreads] at ha
      exact h.map reg p ha
    · rw [hwaits j a hjn] at ha
      exact h.waits j a p reg (hissued j hj hjn) ha hreads

end Carries

end Ece552.Library
