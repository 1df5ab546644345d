import Ece552.Cache.Machine

/-!
# The miss queue

The circular queue of the last demand misses, in which the open-ended prefetcher looks up what was
missed behind an address. As long as the queue is not full, its slots are the misses in their
order, and the slot behind the newest one is 0. A full queue has no such slot, and `missQueueInsert`
moves its head before it computes where to insert.
-/

namespace Ece552.Cache

open Library

variable {cfg : Config}

/-- A new cache after the insertion of these misses. -/
def missQueueOf (cfg : Config) (misses : List Addr) : Except Fault (CacheT cfg) :=
  misses.foldlM CacheT.missQueueInsert (cacheCreate cfg)

/-- The misses that the queue has room for. -/
def lastMisses (misses : List Addr) : List Addr :=
  misses.drop (misses.length - MISS_QUEUE_MAX_SIZE)

/-- What a lookup should return: an address that was missed right behind `addr`, or 0 if `addr` was
not missed, or only as the newest miss. -/
def Follows (misses : List Addr) (addr next : Addr) : Prop :=
  (∃ older newer, misses = older ++ addr :: next :: newer) ∨ addr ∉ misses.dropLast ∧ next = 0

namespace CacheT

/-- The queue holds the last misses, and the lookups find true successors. -/
structure HoldsLastMisses (cp : CacheT cfg) (misses : List Addr) : Prop where
  size : cp.missQueueSize = min misses.length MISS_QUEUE_MAX_SIZE
  holds : ((List.range cp.missQueueSize).map cp.missQueue).Perm (lastMisses misses)
  next : ∀ addr, addr ≠ 0 → ∃ next, cp.missQueueGetNextMissAddr addr = .ok next ∧
    Follows (lastMisses misses) addr next

variable {cp : CacheT cfg} {misses older : List Addr} {addr newest : Addr}

theorem miss_queue_pos : 0 < MISS_QUEUE_MAX_SIZE := Nat.zero_lt_succ _

/-! ## Insertions -/

/-- What is known of the slots after the insertion of some misses. -/
structure Filled (cp : CacheT cfg) (misses : List Addr) : Prop where
  size : cp.missQueueSize = min misses.length MISS_QUEUE_MAX_SIZE
  used : ∀ i < cp.missQueueSize, cp.missQueue i ≠ 0
  newest : ∀ a ∈ misses.getLast?, ∃ i < MISS_QUEUE_MAX_SIZE, cp.missQueue i = a
  /-- until it is full, the queue is the list of all misses -/
  list : misses.length ≤ MISS_QUEUE_MAX_SIZE →
    cp.missQueueHead = 0 ∧ ∀ i, cp.missQueue i = misses.getD i 0

theorem filled_create : (cacheCreate cfg).Filled [] where
  size := rfl
  used := fun i hi => absurd hi (Nat.not_lt_zero i)
  newest := fun _ ha => nomatch ha
  list := fun _ => ⟨rfl, fun _ => rfl⟩

theorem miss_queue_insert_ok {cp' : CacheT cfg} (hok : cp.missQueueInsert addr = .ok cp') :
    addr ≠ 0 ∧ ∃ index, index = (cp.insertHead + cp.missQueueSize) % MISS_QUEUE_MAX_SIZE ∧
      cp'.missQueue = Function.update cp.missQueue index addr ∧
      cp'.missQueueHead = cp.insertHead ∧
      cp'.missQueueSize = if cp.missQueueSize < MISS_QUEUE_MAX_SIZE then cp.missQueueSize + 1
        else cp.missQueueSize := by
  rw [missQueueInsert] at hok
  split at hok
  case isTrue hpre =>
    obtain rfl := Except.ok.inj hok
    exact ⟨hpre.1, _, rfl, rfl, rfl, rfl⟩
  case isFalse => exact nomatch hok

/-- In a queue that is not full, the next slot is the one behind the last miss. -/
theorem Filled.insert_head (h : cp.Filled misses) (hroom : misses.length < MISS_QUEUE_MAX_SIZE) :
    cp.insertHead = 0 ∧ cp.missQueueSize = misses.length := by
  have hsize := h.size
  rw [Nat.min_eq_left hroom.le] at hsize
  rw [insertHead, hsize, if_neg hroom.ne]
  exact ⟨(h.list hroom.le).1, rfl⟩

/-- Step lemma. -/
theorem Filled.insert {cp' : CacheT cfg} (h : cp.Filled misses)
    (hok : cp.missQueueInsert addr = .ok cp') : cp'.Filled (misses ++ [addr]) := by
  obtain ⟨haddr, index, hindex, hqueue, hhead, hsize'⟩ := miss_queue_insert_ok hok
  have hsize := h.size
  have hlt : index < MISS_QUEUE_MAX_SIZE := hindex ▸ Nat.mod_lt _ miss_queue_pos
  have hlength : (misses ++ [addr]).length = misses.length + 1 := List.length_append
  refine ⟨?_, fun i hi => ?_, fun a ha => ⟨index, hlt, ?_⟩, fun hle => ⟨?_, fun i => ?_⟩⟩
  · rw [hsize', hlength]
    split <;> omega
  · rw [hqueue]
    by_cases hne : i = index
    · rw [hne, Function.update_self]
      exact haddr
    · rw [Function.update_of_ne hne]
      refine h.used i ?_
      -- in a queue that grows, the only new slot is the one that is written
      rw [hsize'] at hi
      split at hi
      case isFalse => exact hi
      case isTrue hroom =>
        obtain ⟨hzero, -⟩ := h.insert_head (by omega)
        rw [hzero, Nat.zero_add, Nat.mod_eq_of_lt hroom] at hindex
        omega
  · have hlast : (misses ++ [addr]).getLast? = some addr := List.getLast?_concat
    rw [hqueue, Function.update_self]
    exact Option.some.inj (hlast.symm.trans ha)
  · rw [hhead]
    exact (h.insert_head (by omega)).1
  · obtain ⟨hzero, hfull⟩ := h.insert_head (by omega)
    have hat : index = misses.length := by
      rw [hindex, hzero, hfull, Nat.zero_add, Nat.mod_eq_of_lt (by omega)]
    rw [hqueue]
    by_cases hne : i = index
    · rw [hne, Function.update_self, hat]
      simp
    · rw [Function.update_of_ne hne, (h.list (by omega)).2]
      rcases Nat.lt_or_gt_of_ne (hat ▸ hne) with hlt | hgt
      · rw [List.getD_append _ _ _ _ hlt]
      · rw [List.getD_eq_default _ _ hgt.le, List.getD_eq_default _ _ (by omega)]

/-- Run lemma. -/
theorem filled_of_ok (hok : missQueueOf cfg misses = .ok cp) : cp.Filled misses := by
  induction misses using List.reverseRecOn generalizing cp with
  | nil =>
      obtain rfl : cacheCreate cfg = cp := Except.ok.inj hok
      exact filled_create
  | append_singleton misses a ih =>
      obtain ⟨cp₀, hok₀, hinsert⟩ := foldlM_concat_ok.mp hok
      exact (ih hok₀).insert hinsert

/-- Misses that the queue has room for can be inserted. -/
theorem exists_miss_queue (htype : cfg.prefetchType = 2) (hpos : ∀ a ∈ misses, a ≠ 0)
    (hle : misses.length ≤ MISS_QUEUE_MAX_SIZE) :
    ∃ cp : CacheT cfg, missQueueOf cfg misses = .ok cp := by
  induction misses using List.reverseRecOn with
  | nil => exact ⟨_, rfl⟩
  | append_singleton misses a ih =>
      have hlength : (misses ++ [a]).length = misses.length + 1 := List.length_append
      obtain ⟨cp, hok⟩ := ih (fun a ha => hpos a (List.mem_append_left _ ha)) (by omega)
      obtain ⟨hzero, hsize⟩ := (filled_of_ok hok).insert_head (by omega)
      have ha := hpos a (List.mem_append_right _ (List.mem_singleton_self a))
      have hroom : cp.insertHead + cp.missQueueSize < 2 ^ 31 := by
        have hcap : MISS_QUEUE_MAX_SIZE = 2048 := rfl
        omega
      exact ⟨_, foldlM_concat_ok.mpr ⟨cp, hok, if_pos ⟨ha, htype, hroom⟩⟩⟩

/-! ## Lookups -/

theorem get_next_of_found (htype : cfg.prefetchType = 2) (haddr : addr ≠ 0) {i : Nat}
    (hlt : i < MISS_QUEUE_MAX_SIZE) (hi : cp.missQueue i = addr)
    (hfirst : ∀ j < i, cp.missQueue j ≠ addr) :
    cp.missQueueGetNextMissAddr addr = .ok (cp.missQueue ((i + 1) % MISS_QUEUE_MAX_SIZE)) := by
  have hfind : (List.range MISS_QUEUE_MAX_SIZE).find? (fun i => decide (cp.missQueue i = addr)) =
      some i := by
    refine List.find?_range_eq_some.mpr ⟨decide_eq_true hi, List.mem_range.mpr hlt, fun j hj => ?_⟩
    rw [decide_eq_false (hfirst j hj)]
    rfl
  rw [missQueueGetNextMissAddr, if_pos ⟨haddr, htype⟩, hfind]

theorem get_next_of_absent (htype : cfg.prefetchType = 2) (haddr : addr ≠ 0)
    (habsent : ∀ i < MISS_QUEUE_MAX_SIZE, cp.missQueue i ≠ addr) :
    cp.missQueueGetNextMissAddr addr = .ok 0 := by
  have hfind : (List.range MISS_QUEUE_MAX_SIZE).find? (fun i => decide (cp.missQueue i = addr)) =
      none := by
    refine List.find?_range_eq_none.mpr fun i hi => ?_
    rw [decide_eq_false (habsent i hi)]
    rfl
  rw [missQueueGetNextMissAddr, if_pos ⟨haddr, htype⟩, hfind]

/-- If a slot holds an address, the lookup stops at the first such slot. -/
theorem exists_first_slot {P : Nat → Prop} (h : ∃ i < MISS_QUEUE_MAX_SIZE, P i) :
    ∃ i < MISS_QUEUE_MAX_SIZE, P i ∧ ∀ j < i, ¬ P j := by
  classical
  obtain ⟨i, hlt, hi⟩ := h
  have hex : ∃ i, P i := ⟨i, hi⟩
  exact ⟨Nat.find hex, (Nat.find_min' hex hi).trans_lt hlt, Nat.find_spec hex,
    fun j hj => Nat.find_min hex hj⟩

theorem last_misses_of_le (h : misses.length ≤ MISS_QUEUE_MAX_SIZE) :
    lastMisses misses = misses := by
  rw [lastMisses, Nat.sub_eq_zero_of_le h, List.drop_zero]

/-- A queue that is not full. -/
theorem Filled.holds_last_misses (h : cp.Filled misses) (htype : cfg.prefetchType = 2)
    (hlt : misses.length < MISS_QUEUE_MAX_SIZE) : cp.HoldsLastMisses misses := by
  have hsize := h.size
  obtain ⟨-, hlist⟩ := h.list hlt.le
  rw [Nat.min_eq_left hlt.le] at hsize
  have hget : ∀ i (hi : i < misses.length), cp.missQueue i = misses[i] := fun i hi => by
    rw [hlist, List.getD_eq_getElem _ _ hi]
  refine ⟨h.size, ?_, fun addr haddr => ?_⟩
  · rw [last_misses_of_le hlt.le, hsize]
    refine List.Perm.of_eq (List.ext_getElem (by simp) fun i hi hi' => ?_)
    rw [List.getElem_map, List.getElem_range, hget i hi']
  rw [last_misses_of_le hlt.le]
  by_cases hfound : ∃ i < MISS_QUEUE_MAX_SIZE, cp.missQueue i = addr
  case neg =>
    push Not at hfound
    refine ⟨0, get_next_of_absent htype haddr hfound, Or.inr ⟨fun hmem => ?_, rfl⟩⟩
    obtain ⟨i, hi, heq⟩ := List.getElem_of_mem (List.mem_of_mem_dropLast hmem)
    exact hfound i (hi.trans hlt) ((hget i hi).trans heq)
  case pos =>
    obtain ⟨i, hi, heq, hfirst⟩ := exists_first_slot hfound
    have hin : i < misses.length := by
      by_contra hout
      rw [hlist, List.getD_eq_default _ _ (by omega)] at heq
      exact haddr heq.symm
    have hnext : (i + 1) % MISS_QUEUE_MAX_SIZE = i + 1 := Nat.mod_eq_of_lt (by omega)
    refine ⟨_, get_next_of_found htype haddr hi heq hfirst, ?_⟩
    rw [hnext]
    by_cases hlast : i + 1 < misses.length
    case pos =>
      refine Or.inl ⟨misses.take i, misses.drop (i + 2), ?_⟩
      rw [← heq, hget i hin, hget (i + 1) hlast, ← List.drop_eq_getElem_cons hlast,
        ← List.drop_eq_getElem_cons hin, List.take_append_drop]
    case neg =>
      refine Or.inr ⟨fun hmem => ?_, ?_⟩
      · obtain ⟨j, hj, hjeq⟩ := List.getElem_of_mem hmem
        rw [List.getElem_dropLast] at hjeq
        rw [List.length_dropLast] at hj
        exact hfirst j (by omega) ((hget j (by omega)).trans hjeq)
      · rw [hlist, List.getD_eq_default _ _ (by omega)]

/-- A full queue has a successor for every address that it holds, also for the newest one. -/
theorem Filled.not_holds_last_misses (h : cp.Filled misses) (htype : cfg.prefetchType = 2)
    (hpos : ∀ a ∈ misses, a ≠ 0) (hfull : MISS_QUEUE_MAX_SIZE ≤ misses.length)
    (hlast : lastMisses misses = older ++ [newest]) (hfresh : newest ∉ older) :
    ¬ cp.HoldsLastMisses misses := by
  intro hholds
  have hsize := h.size
  rw [Nat.min_eq_right hfull] at hsize
  have hnewest : misses.getLast? = some newest := by
    have hne : misses.length - MISS_QUEUE_MAX_SIZE < misses.length :=
      Nat.sub_lt (miss_queue_pos.trans_le hfull) miss_queue_pos
    have hdrop : (lastMisses misses).getLast? = misses.getLast? := by
      rw [lastMisses, List.getLast?_drop, if_neg (Nat.not_le_of_lt hne)]
    rw [← hdrop, hlast, List.getLast?_concat]
  have haddr : newest ≠ 0 := hpos _ (List.mem_of_getLast? hnewest)
  obtain ⟨i, hi, heq, hfirst⟩ := exists_first_slot (h.newest newest hnewest)
  obtain ⟨next, hok, hfollows⟩ := hholds.next newest haddr
  rw [get_next_of_found htype haddr hi heq hfirst] at hok
  have hused := h.used ((i + 1) % MISS_QUEUE_MAX_SIZE) (hsize.symm ▸ Nat.mod_lt _ miss_queue_pos)
  rw [Except.ok.inj hok] at hused
  rcases hfollows with ⟨before, behind, hsplit⟩ | ⟨-, hzero⟩
  · -- a successor of the newest miss would make it an older one
    rw [hlast] at hsplit
    have hmem : newest ∈ older := by
      have hdrop := congrArg List.dropLast hsplit
      rw [List.dropLast_concat, List.dropLast_append_of_ne_nil (List.cons_ne_nil _ _),
        List.dropLast_cons_of_ne_nil (List.cons_ne_nil _ _)] at hdrop
      rw [hdrop]
      exact List.mem_append_right _ List.mem_cons_self
    exact hfresh hmem
  · exact hused hzero

/-! ## Main result -/

/-- The queue of fewer misses than it has slots holds them, and the lookups find true successors.
Of more misses this is not true, if the newest one is new to the queue. -/
theorem miss_queue_holds_last (htype : cfg.prefetchType = 2) (hpos : ∀ a ∈ misses, a ≠ 0) :
    (misses.length < MISS_QUEUE_MAX_SIZE →
      ∃ cp, missQueueOf cfg misses = .ok cp ∧ cp.HoldsLastMisses misses) ∧
    ∀ older newest, lastMisses misses = older ++ [newest] → newest ∉ older →
      ((∃ cp, missQueueOf cfg misses = .ok cp ∧ cp.HoldsLastMisses misses) ↔
        misses.length < MISS_QUEUE_MAX_SIZE) := by
  have hholds : misses.length < MISS_QUEUE_MAX_SIZE →
      ∃ cp, missQueueOf cfg misses = .ok cp ∧ cp.HoldsLastMisses misses := by
    intro hlt
    obtain ⟨cp, hok⟩ := exists_miss_queue htype hpos hlt.le
    exact ⟨cp, hok, (filled_of_ok hok).holds_last_misses htype hlt⟩
  refine ⟨hholds, fun older newest hlast hfresh => ⟨fun ⟨cp, hok, hcp⟩ => ?_, hholds⟩⟩
  by_contra hfull
  exact (filled_of_ok hok).not_holds_last_misses htype hpos (not_lt.mp hfull) hlast hfresh hcp

end CacheT

/-! ## A full queue -/

/-- Two misses. -/
theorem miss_queue_holds_two : ∃ cp, missQueueOf openEnded [64, 128] = .ok cp ∧
    cp.HoldsLastMisses [64, 128] := by
  have hpos : ∀ a ∈ [(64 : Addr), 128], a ≠ 0 := by simp
  have htype : openEnded.prefetchType = 2 := rfl
  have hlt : [(64 : Addr), 128].length < MISS_QUEUE_MAX_SIZE := by
    show 2 < 2048
    omega
  exact (CacheT.miss_queue_holds_last htype hpos).1 hlt

/-- 2048 misses at distinct addresses. -/
def fullQueue : List Addr := (List.range MISS_QUEUE_MAX_SIZE).map fun i => BitVec.ofNat 32 (i + 1)

theorem to_nat_full_queue {i : Nat} (h : i < MISS_QUEUE_MAX_SIZE) :
    (BitVec.ofNat 32 (i + 1)).toNat = i + 1 := by
  have hcap : MISS_QUEUE_MAX_SIZE = 2048 := rfl
  rw [BitVec.toNat_ofNat, Nat.mod_eq_of_lt (by omega)]

/-- The newest of as many misses as the queue has slots has the oldest one as its successor. -/
theorem full_queue_wraps : ¬ ∀ misses, (∀ a ∈ misses, a ≠ 0) →
    ∃ cp, missQueueOf openEnded misses = .ok cp ∧ cp.HoldsLastMisses misses := by
  intro hall
  have hpos : ∀ a ∈ fullQueue, a ≠ 0 := by
    intro a ha
    obtain ⟨i, hi, rfl⟩ := List.mem_map.mp ha
    intro hzero
    have hnat := to_nat_full_queue (List.mem_range.mp hi)
    rw [hzero] at hnat
    exact nomatch hnat
  have hlength : fullQueue.length = MISS_QUEUE_MAX_SIZE := by
    rw [fullQueue, List.length_map, List.length_range]
  have hlast : lastMisses fullQueue =
      ((List.range 2047).map fun i => BitVec.ofNat 32 (i + 1)) ++ [BitVec.ofNat 32 2048] := by
    rw [CacheT.last_misses_of_le hlength.le, fullQueue,
      show MISS_QUEUE_MAX_SIZE = 2047 + 1 from rfl, List.range_succ, List.map_append]
    rfl
  have hfresh : (BitVec.ofNat 32 2048 : Addr) ∉
      (List.range 2047).map fun i => (BitVec.ofNat 32 (i + 1) : Addr) := by
    intro hmem
    obtain ⟨i, hi, heq⟩ := List.mem_map.mp hmem
    have hlt := List.mem_range.mp hi
    have hnat := congrArg BitVec.toNat heq
    rw [to_nat_full_queue (hlt.trans (Nat.lt_succ_self _)),
      to_nat_full_queue (Nat.lt_succ_self 2047)] at hnat
    omega
  obtain ⟨cp, hok, hholds⟩ := hall fullQueue hpos
  exact (CacheT.filled_of_ok hok).not_holds_last_misses rfl hpos hlength.ge hlast hfresh hholds

end Ece552.Cache
