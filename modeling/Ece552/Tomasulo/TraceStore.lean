import Ece552.Tomasulo.Instr
import Mathlib.Data.List.GetD

/-!
# The trace store

The functional simulator puts its instructions in a list of blocks of a fixed size, and the timing
simulator gets them back by their index. A block is a cell of the heap, and allocating one succeeds.
`layout` says what the blocks are for the instructions put there: linked in the order in which they
were allocated, and filled up to the last one. Storing an instruction leads from one layout to the
next, and reading divides an index by the size of a block.
-/

namespace Ece552.Tomasulo.TraceStore

/-- The number of instructions in a block. -/
abbrev INSTR_TRACE_SIZE : Nat := 16384

theorem size_pos : 0 < INSTR_TRACE_SIZE := Nat.succ_pos _

variable {ι : Type}

/-- A block of the trace: `instruction_trace_t`. -/
@[ext]
structure InstructionTrace (ι : Type) where
  table : Fin INSTR_TRACE_SIZE → ι
  size : Nat
  next : Option Nat

/-- The blocks that were allocated. The address of a block is its place. -/
abbrev Heap (ι : Type) := List (InstructionTrace ι)

/-- A block just cleared, where `zero` is an instruction of zero bytes only. -/
def InstructionTrace.cleared (zero : ι) : InstructionTrace ι := ⟨fun _ => zero, 0, none⟩

/-- Store an instruction behind the others of a block. There is no room in a full one. -/
def InstructionTrace.push (trace : InstructionTrace ι) (instr : ι) : Option (InstructionTrace ι) :=
  if h : trace.size < INSTR_TRACE_SIZE then
    some { trace with
      table := Function.update trace.table ⟨trace.size, h⟩ instr
      size := trace.size + 1 }
  else none

/-- The block at which the loop of `put_instr` ends, which goes on from a full block to the next.
It comes to no block twice. -/
def firstNotFull (heap : Heap ι) : Nat → Nat → Option Nat
  | 0, _ => none
  | rounds + 1, trace => do
      let block ← heap[trace]?
      if block.size = INSTR_TRACE_SIZE then
        match block.next with
        | some next => firstNotFull heap rounds next
        | none => some trace
      else some trace

/-- Store an instruction, in a new block if all are full. -/
def putInstr (zero : ι) (heap : Heap ι) (trace : Nat) (instr : ι) : Option (Heap ι) := do
  let trace ← firstNotFull heap heap.length trace
  let block ← heap[trace]?
  if block.size = INSTR_TRACE_SIZE then do
    let next ← (InstructionTrace.cleared zero).push instr
    some (heap.set trace { block with next := some heap.length } ++ [next])
  else do
    let block ← block.push instr
    some (heap.set trace block)

/-- The address of the instruction at an index: a block and a place in its table. The next block is
asserted to be there. -/
def getInstr (heap : Heap ι) (trace : Nat) (index : Int) : Option (Nat × Int) :=
  if _h : (INSTR_TRACE_SIZE : Int) ≤ index then
    match heap[trace]? with
    | none => none
    | some block =>
        match block.next with
        | none => none
        | some next => getInstr heap next (index - INSTR_TRACE_SIZE)
  else some (trace, index)
termination_by index.toNat
decreasing_by
  rw [INSTR_TRACE_SIZE] at _h ⊢
  omega

/-- What is stored at an address. -/
def deref (heap : Heap ι) (pointer : Nat × Int) : Option ι := do
  let block ← heap[pointer.1]?
  if h : pointer.2.toNat < INSTR_TRACE_SIZE ∧ 0 ≤ pointer.2 then
    some (block.table ⟨pointer.2.toNat, h.1⟩)
  else none

/-- The trace that `sim_main` starts with, in which the first entry is skipped. -/
def start (zero : ι) : Heap ι := [{ InstructionTrace.cleared zero with size := 1 }]

/-- Store one instruction after the other. -/
def putInstrs (zero : ι) (heap : Heap ι) : List ι → Option (Heap ι)
  | [] => some heap
  | instr :: instrs => do
      let heap ← putInstr zero heap 0 instr
      putInstrs zero heap instrs

/-! ## What the blocks hold -/

/-- The number of blocks for a number of instructions. -/
def blocksFor (count : Nat) : Nat := (count + INSTR_TRACE_SIZE - 1) / INSTR_TRACE_SIZE

/-- A block of those that hold a list of instructions. -/
def blockAt (zero : ι) (filled : List ι) (blocks i : Nat) : InstructionTrace ι where
  table := fun k => filled.getD (i * INSTR_TRACE_SIZE + k) zero
  size := min INSTR_TRACE_SIZE (filled.length - i * INSTR_TRACE_SIZE)
  next := if i + 1 < blocks then some (i + 1) else none

/-- The blocks that hold a list of instructions: linked in order, cleared behind the last
instruction, and with no room left in any but the last one. -/
def layout (zero : ι) (filled : List ι) : Heap ι :=
  (List.range (blocksFor filled.length)).map (blockAt zero filled (blocksFor filled.length))

variable {zero instr : ι} {filled : List ι} {i blocks : Nat}

theorem length_layout : (layout zero filled).length = blocksFor filled.length := by
  rw [layout, List.length_map, List.length_range]

theorem getElem_layout : (layout zero filled)[i]? = if i < blocksFor filled.length then
    some (blockAt zero filled (blocksFor filled.length) i) else none := by
  split
  · next hlt => rw [layout, List.getElem?_map, List.getElem?_range hlt, Option.map_some]
  · next hle => exact List.getElem?_eq_none (length_layout.trans_le (not_lt.mp hle))

/-- An instruction behind the others changes no entry but one. -/
theorem getD_concat {j : Nat} : (filled ++ [instr]).getD j zero =
    if j = filled.length then instr else filled.getD j zero := by
  rcases Nat.lt_trichotomy j filled.length with hlt | rfl | hlt
  · rw [if_neg hlt.ne, List.getD_append _ _ _ _ hlt]
  · rw [if_pos rfl, List.getD_append_right _ _ _ _ le_rfl, Nat.sub_self]
    rfl
  · rw [if_neg hlt.ne', List.getD_eq_default _ _ hlt.le,
      List.getD_eq_default _ _ (by simpa using Nat.succ_le_of_lt hlt)]

/-- A block that is full stays as it is, but for the link to the next one. -/
theorem blockAt_concat_of_full (blocks blocks' : Nat)
    (hfull : (i + 1) * INSTR_TRACE_SIZE ≤ filled.length) :
    blockAt zero (filled ++ [instr]) blocks' i = { blockAt zero filled blocks i with
      next := if i + 1 < blocks' then some (i + 1) else none } := by
  ext k
  · have hk := k.isLt
    simp only [blockAt, getD_concat]
    rw [if_neg]
    simp only [INSTR_TRACE_SIZE] at hfull hk ⊢
    omega
  · simp only [blockAt, List.length_append, List.length_singleton]
    simp only [INSTR_TRACE_SIZE] at hfull ⊢
    omega
  · rfl

/-- A block behind the last instruction is cleared. -/
theorem blockAt_of_le (hle : filled.length ≤ i * INSTR_TRACE_SIZE) :
    blockAt zero filled (i + 1) i = .cleared zero := by
  ext k
  · exact List.getD_eq_default _ _ (hle.trans (Nat.le_add_right _ _))
  · simp only [blockAt, InstructionTrace.cleared, Nat.sub_eq_zero_of_le hle, Nat.min_zero]
  · simp only [blockAt, InstructionTrace.cleared, lt_irrefl, if_false]

/-- In a block that has room the instruction is pushed. -/
theorem push_blockAt (hle : i * INSTR_TRACE_SIZE ≤ filled.length)
    (hroom : filled.length < (i + 1) * INSTR_TRACE_SIZE) :
    (blockAt zero filled blocks i).push instr =
      some (blockAt zero (filled ++ [instr]) blocks i) := by
  have hsize : (blockAt zero filled blocks i).size = filled.length - i * INSTR_TRACE_SIZE := by
    simp only [blockAt, INSTR_TRACE_SIZE] at hroom ⊢
    omega
  have hlt : (blockAt zero filled blocks i).size < INSTR_TRACE_SIZE := by
    simp only [INSTR_TRACE_SIZE] at hle hroom hsize ⊢
    omega
  rw [InstructionTrace.push, dif_pos hlt]
  refine congrArg some ?_
  ext k
  · have hindex : k = ⟨_, hlt⟩ ↔ i * INSTR_TRACE_SIZE + k = filled.length := by
      rw [Fin.ext_iff]
      simp only [INSTR_TRACE_SIZE] at hle hsize ⊢
      omega
    show Function.update (blockAt zero filled blocks i).table _ instr k = _
    rw [Function.update_apply]
    simp only [hindex]
    simp only [blockAt, getD_concat]
  · simp only [hsize]
    simp only [blockAt, List.length_append, List.length_singleton, INSTR_TRACE_SIZE] at hle hroom ⊢
    omega
  · rfl

section Last

variable {last : Nat} (hlast : blocksFor filled.length = last + 1)

include hlast

theorem layout_eq : layout zero filled =
    (List.range last).map (blockAt zero filled (last + 1)) ++
      [blockAt zero filled (last + 1) last] := by
  rw [layout, hlast, List.range_succ, List.map_append]
  rfl

theorem set_layout (block : InstructionTrace ι) : (layout zero filled).set last block =
    (List.range last).map (blockAt zero filled (last + 1)) ++ [block] := by
  rw [layout_eq hlast, List.set_append_right _ _ (by simp)]
  simp

/-- All blocks but the last one stay as they are. -/
theorem front_concat (hblocks : last < blocks) :
    (List.range last).map (blockAt zero (filled ++ [instr]) blocks) =
      (List.range last).map (blockAt zero filled (last + 1)) := by
  refine List.map_congr_left fun i hi => ?_
  have hi := List.mem_range.mp hi
  rw [blockAt_concat_of_full (last + 1), if_pos (Nat.lt_of_le_of_lt hi hblocks)]
  · simp only [blockAt, if_pos (Nat.succ_lt_succ hi)]
  · simp only [blocksFor, INSTR_TRACE_SIZE] at hlast ⊢
    omega

/-- With room in the last block, the instruction is pushed there. -/
theorem layout_concat_of_room (hroom : filled.length < (last + 1) * INSTR_TRACE_SIZE) :
    layout zero (filled ++ [instr]) =
      (layout zero filled).set last (blockAt zero (filled ++ [instr]) (last + 1) last) := by
  have hlast' : blocksFor (filled ++ [instr]).length = last + 1 := by
    simp only [blocksFor, INSTR_TRACE_SIZE, List.length_append, List.length_singleton] at *
    omega
  rw [set_layout hlast, layout_eq hlast', front_concat hlast (Nat.lt_succ_self last)]

/-- With all blocks full, it is pushed to a new one, to which the last one is linked. -/
theorem layout_concat_of_full (hfull : filled.length = (last + 1) * INSTR_TRACE_SIZE) :
    layout zero (filled ++ [instr]) =
      (layout zero filled).set last
          { blockAt zero filled (last + 1) last with next := some (last + 1) } ++
        [blockAt zero (filled ++ [instr]) (last + 2) (last + 1)] := by
  have hlast' : blocksFor (filled ++ [instr]).length = last + 1 + 1 := by
    simp only [blocksFor, INSTR_TRACE_SIZE, List.length_append, List.length_singleton] at *
    omega
  rw [set_layout hlast, layout_eq hlast', List.range_succ, List.map_append,
    front_concat hlast (Nat.lt_add_of_pos_right Nat.two_pos), List.map_singleton,
    blockAt_concat_of_full (last + 1) _ hfull.ge, if_pos (Nat.lt_succ_self _)]

/-- The loop of `put_instr` ends at the last block. -/
theorem firstNotFull_layout (rounds : Nat) (hi : i ≤ last) (hrounds : last + 1 ≤ i + rounds) :
    firstNotFull (layout zero filled) rounds i = some last := by
  induction rounds generalizing i with
  | zero => omega
  | succ rounds ih =>
      rw [firstNotFull, getElem_layout, hlast, if_pos (Nat.lt_succ_of_le hi)]
      simp only [Option.bind_eq_bind, Option.bind_some]
      rcases Nat.lt_or_eq_of_le hi with hlt | rfl
      · -- the block is full, and linked to the next one
        have hfull : (blockAt zero filled (last + 1) i).size = INSTR_TRACE_SIZE := by
          simp only [blockAt, blocksFor, INSTR_TRACE_SIZE] at hlast ⊢
          omega
        have hnext : (blockAt zero filled (last + 1) i).next = some (i + 1) :=
          if_pos (Nat.succ_lt_succ hlt)
        rw [if_pos hfull, hnext]
        exact ih hlt (by omega)
      · have hnext : (blockAt zero filled (i + 1) i).next = none := if_neg (lt_irrefl _)
        rw [hnext]
        exact ite_self _

/-- Step lemma: storing an instruction gives the layout with one more instruction. -/
theorem putInstr_layout :
    putInstr zero (layout zero filled) 0 instr = some (layout zero (filled ++ [instr])) := by
  have hblock : (layout zero filled)[last]? = some (blockAt zero filled (last + 1) last) := by
    rw [getElem_layout, hlast, if_pos (Nat.lt_succ_self last)]
  have hpos : last * INSTR_TRACE_SIZE < filled.length ∧
      filled.length ≤ (last + 1) * INSTR_TRACE_SIZE := by
    simp only [blocksFor, INSTR_TRACE_SIZE] at hlast ⊢
    omega
  have hsize : (blockAt zero filled (last + 1) last).size = INSTR_TRACE_SIZE ↔
      filled.length = (last + 1) * INSTR_TRACE_SIZE := by
    simp only [blockAt, INSTR_TRACE_SIZE] at hpos ⊢
    omega
  have hlength : (layout zero filled).length = last + 1 := length_layout.trans hlast
  rw [putInstr, firstNotFull_layout hlast _ (Nat.zero_le last) (by omega)]
  simp only [Option.bind_eq_bind, Option.bind_some, hblock, hsize]
  by_cases hfull : filled.length = (last + 1) * INSTR_TRACE_SIZE
  · have hroom : filled.length < (last + 1 + 1) * INSTR_TRACE_SIZE :=
      hfull.trans_lt (Nat.mul_lt_mul_of_pos_right (Nat.lt_succ_self _) size_pos)
    rw [if_pos hfull, ← blockAt_of_le hfull.le, push_blockAt hfull.ge hroom,
      layout_concat_of_full hlast hfull, hlength]
    rfl
  · have hroom := Nat.lt_of_le_of_ne hpos.2 hfull
    rw [if_neg hfull, push_blockAt hpos.1.le hroom, layout_concat_of_room hlast hroom]
    rfl

end Last

/-! ## Runs -/

theorem start_eq (zero : ι) : start zero = layout zero [zero] := by
  have hone : blocksFor [zero].length = 0 + 1 := by
    simp only [blocksFor, INSTR_TRACE_SIZE, List.length_singleton]
  rw [layout_eq hone]
  refine congrArg (fun block => [block]) ?_
  ext k
  · have hdefault : ∀ j, [zero].getD j zero = zero := by
      intro j
      cases j <;> rfl
    exact (hdefault _).symm
  · rfl
  · rfl

theorem blocksFor_pos (hne : filled ≠ []) : 0 < blocksFor filled.length := by
  have hpos := List.length_pos_of_ne_nil hne
  simp only [blocksFor, INSTR_TRACE_SIZE]
  omega

/-- Run lemma. -/
theorem putInstrs_layout (insns : List ι) (hne : filled ≠ []) :
    putInstrs zero (layout zero filled) insns = some (layout zero (filled ++ insns)) := by
  induction insns generalizing filled with
  | nil => rw [putInstrs, List.append_nil]
  | cons instr insns ih =>
      obtain ⟨last, hlast⟩ := Nat.exists_eq_succ_of_ne_zero (blocksFor_pos hne).ne'
      rw [putInstrs, putInstr_layout hlast]
      simp only [Option.bind_eq_bind, Option.bind_some]
      rw [ih (by simp), List.append_assoc]
      rfl

/-! ## The reader -/

theorem getInstr_of_lt {heap : Heap ι} {trace : Nat} {index : Int}
    (hlt : index < INSTR_TRACE_SIZE) : getInstr heap trace index = some (trace, index) := by
  rw [getInstr, dif_neg (not_le.mpr hlt)]

/-- The reader divides by the size of a block. -/
theorem getInstr_layout (index : Nat) (hi : i < blocksFor filled.length) :
    getInstr (layout zero filled) i index =
      if i + index / INSTR_TRACE_SIZE < blocksFor filled.length then
        some (i + index / INSTR_TRACE_SIZE, ((index % INSTR_TRACE_SIZE : Nat) : Int))
      else none := by
  induction index using Nat.strong_induction_on generalizing i with
  | _ index ih =>
      by_cases hlt : index < INSTR_TRACE_SIZE
      · rw [getInstr_of_lt (by exact_mod_cast hlt), Nat.div_eq_of_lt hlt, Nat.mod_eq_of_lt hlt,
          Nat.add_zero, if_pos hi]
      · have hle := not_lt.mp hlt
        have hsub : (index : Int) - INSTR_TRACE_SIZE = (index - INSTR_TRACE_SIZE : Nat) :=
          (Int.ofNat_sub hle).symm
        rw [getInstr, dif_pos (by exact_mod_cast hle), getElem_layout, if_pos hi, hsub]
        rw [Nat.div_eq_sub_div size_pos hle, Nat.mod_eq_sub_mod hle]
        simp only [blockAt]
        by_cases hnext : i + 1 < blocksFor filled.length
        · rw [if_pos hnext]
          simp only
          rw [ih _ (Nat.sub_lt_of_pos_le size_pos hle) hnext, Nat.add_assoc i 1,
            Nat.add_comm 1]
        · rw [if_neg hnext, if_neg fun hlt => hnext (lt_of_le_of_lt ?_ hlt)]
          exact Nat.add_le_add_left (Nat.le_add_left 1 _) i

/-- The assertion of `get_instr` fails for an index behind the last block. -/
theorem getInstr_eq_none (hne : filled ≠ []) {index : Int} :
    getInstr (layout zero filled) 0 index = none ↔
      (layout zero filled).length * INSTR_TRACE_SIZE ≤ index := by
  rw [length_layout]
  rcases lt_or_ge index 0 with hneg | hnonneg
  · rw [getInstr_of_lt (hneg.trans (by exact_mod_cast size_pos))]
    refine ⟨(nomatch ·), fun hle => absurd (hle.trans_lt hneg) (not_lt.mpr ?_)⟩
    exact_mod_cast Nat.zero_le _
  · obtain ⟨index, rfl⟩ := Int.eq_ofNat_of_zero_le hnonneg
    rw [getInstr_layout index (blocksFor_pos hne), Nat.zero_add]
    split
    · next hlt =>
        refine ⟨(nomatch ·), fun hle => ?_⟩
        have hle : blocksFor filled.length * INSTR_TRACE_SIZE ≤ index := by exact_mod_cast hle
        exact absurd ((Nat.le_div_iff_mul_le size_pos).mpr hle) (not_le.mpr hlt)
    · next hge =>
        refine ⟨fun _ => ?_, fun _ => rfl⟩
        exact_mod_cast (Nat.le_div_iff_mul_le size_pos).mp (not_lt.mp hge)

/-- The index of a stored instruction is in a block. -/
theorem div_lt_blocksFor {index : Nat} (hlt : index < filled.length) :
    index / INSTR_TRACE_SIZE < blocksFor filled.length := by
  simp only [blocksFor, INSTR_TRACE_SIZE]
  omega

/-- What is stored at an index is at the address that the reader finds. -/
theorem deref_layout {index : Nat} (hlt : index < filled.length) :
    getInstr (layout zero filled) 0 index =
        some (index / INSTR_TRACE_SIZE, ((index % INSTR_TRACE_SIZE : Nat) : Int)) ∧
      deref (layout zero filled)
          (index / INSTR_TRACE_SIZE, ((index % INSTR_TRACE_SIZE : Nat) : Int)) =
        some filled[index] := by
  have hblock := div_lt_blocksFor hlt
  have hmod := Nat.mod_lt index size_pos
  constructor
  · rw [getInstr_layout index (Nat.zero_lt_of_lt hblock), Nat.zero_add, if_pos hblock]
  · rw [deref, getElem_layout, if_pos hblock]
    simp only [Option.bind_eq_bind, Option.bind_some, Int.toNat_natCast]
    rw [dif_pos ⟨hmod, Int.natCast_nonneg _⟩]
    simp only [blockAt, Nat.div_add_mod']
    rw [List.getD_eq_getElem _ _ hlt]

/-- A later store keeps the addresses, and what is there. -/
theorem getInstr_append (hne : filled ≠ []) (more : List ι) {index : Int} {pointer : Nat × Int}
    (h : getInstr (layout zero filled) 0 index = some pointer) :
    getInstr (layout zero (filled ++ more)) 0 index = some pointer := by
  rcases lt_or_ge index 0 with hneg | hnonneg
  · have hlt : index < INSTR_TRACE_SIZE := hneg.trans (by exact_mod_cast size_pos)
    rw [getInstr_of_lt hlt] at h ⊢
    exact h
  · obtain ⟨index, rfl⟩ := Int.eq_ofNat_of_zero_le hnonneg
    have hle : blocksFor filled.length ≤ blocksFor (filled ++ more).length := by
      simp only [blocksFor, INSTR_TRACE_SIZE, List.length_append]
      omega
    rw [getInstr_layout index (blocksFor_pos hne)] at h
    rw [getInstr_layout index ((blocksFor_pos hne).trans_le hle)]
    split at h
    · next hlt => rwa [if_pos (hlt.trans_le hle)]
    · exact nomatch h

theorem deref_append (more : List ι) {index : Nat} (hlt : index < filled.length)
    {pointer : Nat × Int} (h : getInstr (layout zero filled) 0 index = some pointer) :
    deref (layout zero (filled ++ more)) pointer = deref (layout zero filled) pointer := by
  have hlt' : index < (filled ++ more).length := by
    rw [List.length_append]
    exact Nat.lt_add_right _ hlt
  obtain rfl := Option.some.inj (h.symm.trans (deref_layout hlt).1)
  rw [(deref_layout hlt).2, (deref_layout hlt').2, List.getElem_append_left hlt]

/-- For any sequence of stores to a fresh trace: an index, counted from 1, finds the instruction
stored at that point of the sequence, later stores keep its address and what is there, and only for
an index in a block that was not allocated does the assertion fail. -/
theorem trace_store_round_trip (zero : ι) (instrs : List ι) :
    ∃ heap, putInstrs zero (start zero) instrs = some heap ∧
      (∀ k (hk : k < instrs.length), ∃ pointer, getInstr heap 0 (k + 1) = some pointer ∧
        deref heap pointer = some instrs[k]) ∧
      (∀ more, ∃ heap', putInstrs zero heap more = some heap' ∧
        ∀ index pointer, getInstr heap 0 index = some pointer →
          getInstr heap' 0 index = some pointer ∧
            (0 ≤ index → index ≤ instrs.length → deref heap' pointer = deref heap pointer)) ∧
      ∀ index, getInstr heap 0 index = none ↔ heap.length * INSTR_TRACE_SIZE ≤ index := by
  have hput : putInstrs zero (layout zero [zero]) instrs = some (layout zero ([zero] ++ instrs)) :=
    putInstrs_layout instrs (List.cons_ne_nil zero [])
  rw [← start_eq] at hput
  have hne : [zero] ++ instrs ≠ [] := List.cons_ne_nil zero instrs
  refine ⟨_, hput, fun k hk => ?_, fun more => ⟨_, putInstrs_layout more hne, ?_⟩,
    fun index => getInstr_eq_none hne⟩
  · have hlt : k + 1 < ([zero] ++ instrs).length := by simpa using hk
    exact ⟨_, (deref_layout hlt).1, (deref_layout hlt).2⟩
  · intro index pointer hpointer
    refine ⟨getInstr_append hne more hpointer, fun hnonneg hle => ?_⟩
    obtain ⟨index, rfl⟩ := Int.eq_ofNat_of_zero_le hnonneg
    refine deref_append more ?_ hpointer
    rw [List.length_append, List.length_singleton]
    omega

/-- The list that stands for a trace is what the timing simulator gets from the store, whatever was
put there before it starts. -/
theorem store_reads_trace (trace : Trace) :
    ∃ heap, putInstrs .skipped (start .skipped) trace = some heap ∧
      ∀ index : Nat, 1 ≤ index → index ≤ trace.length →
        ∃ pointer, getInstr heap 0 index = some pointer ∧
          deref heap pointer = some (Tomasulo.getInstr trace index) := by
  have hput : putInstrs .skipped (layout .skipped [.skipped]) trace =
      some (layout .skipped ([.skipped] ++ trace)) :=
    putInstrs_layout trace (List.cons_ne_nil Insn.skipped [])
  rw [← start_eq] at hput
  refine ⟨_, hput, fun index hpos hle => ?_⟩
  have hlt : index < ([Insn.skipped] ++ trace).length := by
    rw [List.length_append, List.length_singleton]
    omega
  obtain ⟨hget, hderef⟩ := @deref_layout Insn .skipped _ _ hlt
  refine ⟨_, hget, hderef.trans (congrArg some ?_)⟩
  rw [List.getElem_append_right (by simpa using hpos), Tomasulo.getInstr,
    List.getD_eq_getElem _ _ (by omega)]
  rfl

end Ece552.Tomasulo.TraceStore
