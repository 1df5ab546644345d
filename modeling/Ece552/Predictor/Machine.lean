import Ece552.Library.Outcome
import Ece552.Library.SaturatingCounter

/-!
# Branch predictors

The predictors of `sim_main` in `sim-safe.c`: predict not taken, the 2-bit saturating counters, the
two-level predictor and the tournament predictor. Each conditional branch is given to all of them in
turn. An array is a function on its indices; an index outside of the array stops the run.
-/

namespace Ece552.Predictor

open Library

/-- `md_addr_t`. -/
abbrev Addr := BitVec 32

/-- A conditional branch: its address and that of the instruction executed next. -/
structure Branch where
  pc : Addr
  npc : Addr
  deriving DecidableEq

/-- The size of an instruction. -/
abbrev SIZEOF_INST : Addr := 8

/-- The next instruction is not the one behind the branch. -/
def Branch.taken (b : Branch) : Bool := decide (b.npc ≠ b.pc + SIZEOF_INST)

/-- Why a run stops. -/
inductive Fault where
  /-- the `panic` after the check of an index -/
  | panic
  /-- an array is used outside of its bounds -/
  | outOfBounds
  deriving DecidableEq, Repr

/-! ## Indices -/

/-- Bits of the address of a branch. -/
def pcBits (pc mask : Addr) (offset : Nat) : Nat :=
  (((pc &&& (mask <<< offset)) >>> offset) &&& mask).toNat

/-- The bits of an address are no more than their mask. -/
theorem pc_bits_le (pc mask : Addr) (offset : Nat) : pcBits pc mask offset ≤ mask.toNat := by
  rw [pcBits, BitVec.toNat_and]
  exact Nat.and_le_right

/-- The bits from `offset` on, as many as the mask has. -/
theorem pc_bits_eq (pc : Addr) {mask : Addr} {offset width : Nat}
    (hmask : mask.toNat = 2 ^ width - 1) (hwidth : width + offset ≤ 32) :
    pcBits pc mask offset = pc.toNat / 2 ^ offset % 2 ^ width := by
  have hlt : (2 ^ width - 1) * 2 ^ offset < 2 ^ 32 := by
    have hpos : 0 < 2 ^ offset := Nat.two_pow_pos _
    have hpos' : 0 < 2 ^ width := Nat.two_pow_pos _
    calc (2 ^ width - 1) * 2 ^ offset
        < 2 ^ width * 2 ^ offset := Nat.mul_lt_mul_of_pos_right (by omega) hpos
      _ = 2 ^ (width + offset) := (Nat.pow_add ..).symm
      _ ≤ 2 ^ 32 := Nat.pow_le_pow_right (by omega) hwidth
  have hshift : (mask <<< offset).toNat >>> offset = 2 ^ width - 1 := by
    rw [BitVec.toNat_shiftLeft, hmask, Nat.shiftLeft_eq, Nat.mod_eq_of_lt hlt,
      Nat.shiftRight_eq_div_pow, Nat.mul_div_cancel _ (Nat.two_pow_pos _)]
  rw [pcBits, BitVec.toNat_and, BitVec.toNat_ushiftRight, BitVec.toNat_and,
    Nat.shiftRight_and_distrib, hshift, hmask, Nat.and_assoc, Nat.and_self,
    Nat.and_two_pow_sub_one_eq_mod, Nat.shiftRight_eq_div_pow]

/-- An index that the code checks before it uses it. -/
def checkIndex (n i : Nat) : Except Fault (Fin n) := if h : i < n then .ok ⟨i, h⟩ else .error .panic

/-- An index that the code does not check. -/
def element (n i : Nat) : Except Fault (Fin n) :=
  if h : i < n then .ok ⟨i, h⟩ else .error .outOfBounds

/-- An index inside of a table is one. -/
theorem check_index_of_lt {n i : Nat} (h : i < n) : checkIndex n i = .ok ⟨i, h⟩ := dif_pos h

/-- An element inside of a table is one. -/
theorem element_of_lt {n i : Nat} (h : i < n) : element n i = .ok ⟨i, h⟩ := dif_pos h

/-- The element that is found has the number asked for. -/
theorem element_eq_ok {n i : Nat} {e : Fin n} : element n i = .ok e ↔ e.val = i := by
  rw [element]
  split
  case isTrue h =>
    rw [Except.ok.injEq, Fin.ext_iff]
    exact eq_comm
  case isFalse h => exact iff_of_false (fun heq => nomatch heq) fun heq => h (heq ▸ e.isLt)

/-- The highest state of a 2-bit counter. -/
abbrev STRONGLY_TAKEN : Nat := 3

/-- The lowest state that predicts "taken". -/
abbrev WEAKLY_TAKEN : Nat := 2

/-- The highest state that predicts "not taken". -/
abbrev WEAKLY_NOT_TAKEN : Nat := 1

/-- The lowest state of a 2-bit counter. -/
abbrev STRONGLY_NOT_TAKEN : Nat := 0

/-- The number of wrong predictions after another prediction. -/
def countMispred (count prediction : Nat) (taken : Bool) : Nat :=
  if taken then
    if prediction = WEAKLY_NOT_TAKEN ∨ prediction = STRONGLY_NOT_TAKEN then count + 1 else count
  else if prediction = WEAKLY_TAKEN ∨ prediction = STRONGLY_TAKEN then count + 1 else count

/-- A prediction by a 2-bit counter is counted when it differs from the outcome. -/
theorem count_mispred_eq {c : Nat} (hc : c ≤ 3) (count : Nat) (taken : Bool) :
    countMispred count c taken =
      count + if decide (WEAKLY_TAKEN ≤ c) = taken then 0 else 1 := by
  have hcases : c = 0 ∨ c = 1 ∨ c = 2 ∨ c = 3 := by omega
  rcases hcases with rfl | rfl | rfl | rfl <;> cases taken <;> rfl

/-! ## The 2-bit saturating counters -/

/-- The 2-bit saturating counter predictor. -/
structure TwoBitSat where
  predictionTable : Fin 4096 → Nat
  simNumMispred2bitsat : Nat

namespace TwoBitSat

/-- All counters start weakly not taken. -/
def init : TwoBitSat := ⟨fun _ => WEAKLY_NOT_TAKEN, 0⟩

/-- Predict a branch, and update the counter. -/
def step (s : TwoBitSat) (b : Branch) : Except Fault TwoBitSat := do
  let index ← checkIndex 4096 (pcBits b.pc 0x0FFF 3)
  let prediction := s.predictionTable index
  .ok
    { predictionTable := bump 3 s.predictionTable (index, b.taken)
      simNumMispred2bitsat := countMispred s.simNumMispred2bitsat prediction b.taken }

/-- The predictor after a sequence of branches. -/
def run (branches : List Branch) : Except Fault TwoBitSat := branches.foldlM step init

end TwoBitSat

/-! ## The two-level predictor -/

/-- Bits 6 to 14 of the address. -/
def branchHistoryTableIndex (pc : Addr) : Nat := pcBits pc 0x01FF 6

/-- Bits 3 to 5 of the address. -/
def privateHistoryTableNumber (pc : Addr) : Nat := pcBits pc 0x0007 3

/-- The two-level predictor. -/
structure TwoLevel where
  branchHistoryTable : Fin 512 → Nat
  privateHistoryTables : Fin 8 × Fin 64 → Nat
  simNumMispred2level : Nat

namespace TwoLevel

/-- All histories start empty, and all counters weakly not taken. -/
def init : TwoLevel := ⟨fun _ => 0, fun _ => WEAKLY_NOT_TAKEN, 0⟩

/-- The entries that a branch uses: its history register, and the counter that predicts it. The
content of the register is read too, but the counter is looked up by the index of the register. -/
def consult (b : Branch) : Except Fault (Fin 512 × (Fin 8 × Fin 64)) := do
  let index ← checkIndex 512 (branchHistoryTableIndex b.pc)
  let number ← checkIndex 8 (privateHistoryTableNumber b.pc)
  let column ← element 64 index
  .ok (index, (number, column))

/-- Predict a branch, and update the counter and the history. -/
def step (s : TwoLevel) (b : Branch) : Except Fault TwoLevel := do
  let (index, entry) ← consult b
  let prediction := s.privateHistoryTables entry
  let shifted := s.branchHistoryTable index <<< 1
  .ok
    { branchHistoryTable := Function.update s.branchHistoryTable index
        ((if b.taken then shifted + 1 else shifted) &&& 0x003F)
      privateHistoryTables := bump 3 s.privateHistoryTables (entry, b.taken)
      simNumMispred2level := countMispred s.simNumMispred2level prediction b.taken }

/-- The predictor after a sequence of branches. -/
def run (branches : List Branch) : Except Fault TwoLevel := branches.foldlM step init

end TwoLevel

/-! ## The tournament predictor -/

/-- The lowest bits of an address that are the same for all instructions. -/
abbrev OFFSET : Nat := 3

/-- The count of states, at which the counters stop. -/
abbrev Q4_SATURATING_COUNTER_MAX_STATES : Nat := 4

/-- The counters predict "taken" from here on. -/
abbrev Q4_SATURATING_COUNTER_THRESHOLD : Nat := 2

/-- The number of choosers. -/
abbrev Q4_CHOOSER_ROWS : Nat := 16384

/-- The bits of the address for a chooser. -/
abbrev Q4_CHOOSER_MASK : Addr := 0x3FFF

/-- The number of counters of the simple predictor. -/
abbrev Q4_SIMPLE_PRIVATE_PREDICTOR_ROWS : Nat := 16384

/-- The bits of the address for a counter of the simple predictor. -/
abbrev Q4_SIMPLE_PRIVATE_PREDICTOR_PC_MASK : Addr := 0x003F

/-- The number of branches in the global history. -/
abbrev Q4_GLOBAL_HISTORY_REGISTER_SIZE : Nat := 8

/-- The bits of the global history. -/
abbrev Q4_GLOBAL_HISTORY_REGISTER_MASK : Nat := 0x00FF

/-- The number of private histories. -/
abbrev Q4_PRIVATE_BRANCH_HISTORY_ROWS : Nat := 8192

/-- The bits of the address for a private history. -/
abbrev Q4_PRIVATE_BRANCH_HISTORY_MASK : Addr := 0x1FFF

/-- The number of tables of the private predictor. -/
abbrev Q4_L2_PRIVATE_PREDICTOR_NUM : Nat := 8

/-- The bits of the address for a table. -/
abbrev Q4_L2_PRIVATE_PREDICTOR_NUM_MASK : Addr := 0x7

/-- The number of counters in a table. -/
abbrev Q4_L2_PRIVATE_PREDICTOR_ROWS : Nat := 64

/-- The mask of a private history, which is one for bits of the address. -/
abbrev Q4_L2_PRIVATE_PREDICTOR_ROWS_MASK : Nat := 0x3F <<< 3

/-- The tournament predictor. -/
structure Tournament where
  chooser : Fin Q4_CHOOSER_ROWS → Nat
  globalHistoryRegister : Nat
  simplePrivatePredictor : Fin Q4_SIMPLE_PRIVATE_PREDICTOR_ROWS → Nat
  privateBranchHistory : Fin Q4_PRIVATE_BRANCH_HISTORY_ROWS → Nat
  l2PrivatePredictor : Fin Q4_L2_PRIVATE_PREDICTOR_NUM × Fin Q4_L2_PRIVATE_PREDICTOR_ROWS → Nat
  simNumMispredOpenend : Nat

/-- The entries that a branch uses in the component that is chosen for it. -/
inductive Chosen where
  | simple (index : Fin Q4_SIMPLE_PRIVATE_PREDICTOR_ROWS)
  | twoLevel (history : Fin Q4_PRIVATE_BRANCH_HISTORY_ROWS)
      (entry : Fin Q4_L2_PRIVATE_PREDICTOR_NUM × Fin Q4_L2_PRIVATE_PREDICTOR_ROWS)

/-- Whether the simple predictor is chosen. -/
def Chosen.usingSimple : Chosen → Bool
  | .simple _ => true
  | .twoLevel .. => false

namespace Tournament

/-- All counters start on the threshold. -/
def init : Tournament where
  chooser := fun _ => Q4_SATURATING_COUNTER_THRESHOLD
  globalHistoryRegister := 0
  simplePrivatePredictor := fun _ => Q4_SATURATING_COUNTER_THRESHOLD
  privateBranchHistory := fun _ => 0
  l2PrivatePredictor := fun _ => Q4_SATURATING_COUNTER_THRESHOLD
  simNumMispredOpenend := 0

/-- The chooser of a branch. -/
def chooserIndex (b : Branch) : Except Fault (Fin Q4_CHOOSER_ROWS) :=
  element _ (pcBits b.pc Q4_CHOOSER_MASK OFFSET)

/-- Choose the simple or the two-level predictor. -/
def choose (s : Tournament) (b : Branch) : Except Fault (Fin Q4_CHOOSER_ROWS × Chosen) := do
  let chooserIndex ← chooserIndex b
  if Q4_SATURATING_COUNTER_THRESHOLD ≤ s.chooser chooserIndex then
    let predictorPCIndex := pcBits b.pc Q4_SIMPLE_PRIVATE_PREDICTOR_PC_MASK OFFSET
    let predictorIndex ← element _
      ((predictorPCIndex <<< Q4_GLOBAL_HISTORY_REGISTER_SIZE) ||| s.globalHistoryRegister)
    .ok (chooserIndex, .simple predictorIndex)
  else
    let predictorNum ← element _ (pcBits b.pc Q4_L2_PRIVATE_PREDICTOR_NUM_MASK OFFSET)
    let branchHistoryIndex ← element _ (pcBits b.pc Q4_PRIVATE_BRANCH_HISTORY_MASK OFFSET)
    let predictorIndex ← element _ (s.privateBranchHistory branchHistoryIndex)
    .ok (chooserIndex, .twoLevel branchHistoryIndex (predictorNum, predictorIndex))

/-- The counter that predicts a branch. -/
def prediction (s : Tournament) : Chosen → Nat
  | .simple index => s.simplePrivatePredictor index
  | .twoLevel _ entry => s.l2PrivatePredictor entry

/-- Whether a counter predicts the outcome. -/
def correct (prediction : Nat) (taken : Bool) : Bool :=
  decide (Q4_SATURATING_COUNTER_THRESHOLD ≤ prediction) == taken

/-- Adjust the counter of the chosen predictor, and the history of the two-level predictor. -/
def adjust (s : Tournament) (taken : Bool) : Chosen → Tournament
  | .simple index =>
      { s with
        simplePrivatePredictor :=
          bump Q4_SATURATING_COUNTER_MAX_STATES s.simplePrivatePredictor (index, taken) }
  | .twoLevel history (num, index) =>
      { s with
        l2PrivatePredictor :=
          bump Q4_SATURATING_COUNTER_MAX_STATES s.l2PrivatePredictor ((num, index), taken)
        privateBranchHistory := Function.update s.privateBranchHistory history
          (((index.val <<< 1) + taken.toNat) &&& Q4_L2_PRIVATE_PREDICTOR_ROWS_MASK) }

/-- Predict a branch with the chosen component, and update the tables. -/
def step (s : Tournament) (b : Branch) : Except Fault Tournament := do
  let (chooserIndex, chosen) ← s.choose b
  let correct := correct (s.prediction chosen) b.taken
  let s := { s with
    simNumMispredOpenend :=
      if correct then s.simNumMispredOpenend else s.simNumMispredOpenend + 1 }
  let s := s.adjust b.taken chosen
  .ok { s with
    globalHistoryRegister :=
      ((s.globalHistoryRegister <<< 1) + b.taken.toNat) &&& Q4_GLOBAL_HISTORY_REGISTER_MASK
    chooser := bump Q4_SATURATING_COUNTER_MAX_STATES s.chooser
      (chooserIndex, correct == chosen.usingSimple) }

/-- The predictor after a sequence of branches. -/
def run (branches : List Branch) : Except Fault Tournament := branches.foldlM step init

end Tournament

/-! ## All predictors -/

/-- The predictors that are run at once, and the branches that were counted. -/
structure Predictors where
  simNumBr : Nat
  simNumMispredStatic : Nat
  twoBitSat : TwoBitSat
  twoLevel : TwoLevel
  tournament : Tournament

namespace Predictors

/-- Nothing has been counted. -/
def init : Predictors := ⟨0, 0, .init, .init, .init⟩

/-- What `sim_main` does at a conditional branch. -/
def step (s : Predictors) (b : Branch) : Except Fault Predictors := do
  let twoBitSat ← s.twoBitSat.step b
  let twoLevel ← s.twoLevel.step b
  let tournament ← s.tournament.step b
  .ok
    { simNumBr := s.simNumBr + 1
      simNumMispredStatic :=
        if b.taken then s.simNumMispredStatic + 1 else s.simNumMispredStatic
      twoBitSat := twoBitSat
      twoLevel := twoLevel
      tournament := tournament }

/-- A run over the branches in their order. -/
def run (branches : List Branch) : Except Fault Predictors := branches.foldlM step init

/-- The predictors do not interfere: a run of all of them is a run of each. -/
theorem parts_of_run {branches : List Branch} {s : Predictors} (h : run branches = .ok s) :
    TwoBitSat.run branches = .ok s.twoBitSat ∧ TwoLevel.run branches = .ok s.twoLevel ∧
      Tournament.run branches = .ok s.tournament := by
  induction branches using List.reverseRecOn generalizing s with
  | nil =>
      obtain rfl : init = s := Except.ok.inj h
      exact ⟨rfl, rfl, rfl⟩
  | append_singleton branches b ih =>
      obtain ⟨s₀, hrun, hstep⟩ := foldlM_concat_ok.mp h
      obtain ⟨hsat, hlevel, htournament⟩ := ih hrun
      rw [step] at hstep
      obtain ⟨twoBitSat, hs, hstep⟩ := bind_eq_ok.mp hstep
      obtain ⟨twoLevel, hl, hstep⟩ := bind_eq_ok.mp hstep
      obtain ⟨tournament, ht, hstep⟩ := bind_eq_ok.mp hstep
      rw [← Except.ok.inj hstep]
      exact ⟨foldlM_concat_ok.mpr ⟨_, hsat, hs⟩, foldlM_concat_ok.mpr ⟨_, hlevel, hl⟩,
        foldlM_concat_ok.mpr ⟨_, htournament, ht⟩⟩

end Predictors

end Ece552.Predictor
