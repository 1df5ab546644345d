import Ece552.Cache.Lru
import Ece552.Cache.Prefetching
import Ece552.Library.EventLog

/-!
# When an access stops the simulation

`Safe` is the condition under which a demand access and its prefetch finish, in terms of the cache
before it, in a geometry whose tag fits. A run finishes if and only if each of its accesses meets
the condition. Prefetches stop it for reasons that the access alone does not have: no prefetch has a
buffer for the data, and some of their addresses are 0 or have a block without a last block. If the
tag does not fit, their addresses may be misaligned too.
-/

namespace Ece552.Cache

open Library

variable {cfg : Config}

namespace CacheT

variable {cp cp' cp₁ : CacheT cfg} {myrand : Nat → Nat} {cmd : MemCmd} {pc addr nbytes a : Addr}
variable {fetch : Bool} {way : Way cfg} {p : BlkPtr cfg}

/-- The ways of a set are tried. -/
instance (cp : CacheT cfg) (a : Addr) : Decidable (cp.Resident a) :=
  inferInstanceAs (Decidable (∃ w, CacheSet.holds _ _ w = true))

/-- The cache whose miss queue the prefetcher looks into: a demand miss has been inserted. -/
def missQueued (cp : CacheT cfg) (addr : Addr) : CacheT cfg :=
  if cp.Resident addr then cp
  else
    match cp.missQueueInsert addr with
    | .ok cp' => cp'
    | .error _ => cp

/-- The block of `a` will be in the cache after a demand access to `addr`. -/
def Stays (cp : CacheT cfg) (myrand : Nat → Nat) (addr a : Addr) : Prop :=
  cfg.cacheBaddr a = cfg.cacheBaddr addr ∨
    ∃ w, (cp.sets (cfg.setIndex a)).holds (cfg.cacheTag a) w = true ∧
      (cp.Resident addr ∨ cfg.setIndex a ≠ cfg.setIndex addr ∨
        cp.victim myrand (cfg.setIndex addr) ≠ some w)

/-! ## Demand accesses -/

/-- The checks of an access that does not stop. -/
theorem Inv.full_of_access (htag : cfg.TagFits) (h : cp.Inv)
    (hok : cp.accessBlock myrand cmd addr nbytes fetch = .ok cp') :
    checkAccess cfg addr nbytes = .ok () ∧ (cp.lastBlk = none → cfg.cacheTagset addr ≠ 0) ∧
    cp.fullAccess myrand cmd addr fetch = .ok cp' := by
  obtain ⟨⟨⟩, hcheck, hok⟩ := bind_eq_ok.mp hok
  obtain ⟨⟨⟩, -, hok⟩ := bind_eq_ok.mp hok
  by_cases htagset : cfg.cacheTagset addr = cp.lastTagset
  · rw [if_pos htagset] at hok
    cases hp : cp.lastBlk with
    | none =>
        rw [hp] at hok
        exact nomatch hok
    | some p =>
        rw [hp] at hok
        rw [full_access_eq_fast_hit myrand cmd fetch h hp htagset (h.last_holds htag hp htagset)]
        exact ⟨hcheck, nofun, hok⟩
  · rw [if_neg htagset] at hok
    refine ⟨hcheck, fun hnone hzero => htagset ?_, hok⟩
    rw [hzero, h.reset hnone]

/-- A hit leaves the miss queue and the random numbers alone. -/
theorem queue_of_hit (hok : cp.cacheHit cmd addr p fetch = .ok cp') :
    cp'.queue = cp.queue ∧ cp'.draws = cp.draws := by
  obtain ⟨cp₁, hreorder, hok⟩ := bind_eq_ok.mp hok
  have hsame : cp₁.queue = cp.queue ∧ cp₁.draws = cp.draws := by
    rw [serve_eq, reorder] at hreorder
    split at hreorder
    · obtain ⟨list, -, hreorder⟩ := bind_eq_ok.mp hreorder
      rw [← Except.ok.inj hreorder]
      exact ⟨rfl, rfl⟩
    · rw [← Except.ok.inj hreorder]
      exact ⟨rfl, rfl⟩
  rw [← hsame.1, ← hsame.2, ← Except.ok.inj hok]
  exact ⟨rfl, rfl⟩

/-- Counting a miss changes no set and draws nothing. -/
theorem count_miss_ok (hok : cp.countMiss cmd addr fetch = .ok cp') :
    cp'.sets = cp.sets ∧ cp'.draws = cp.draws := by
  rw [countMiss] at hok
  split at hok
  · rw [missQueueInsert] at hok
    split at hok
    · rw [← Except.ok.inj hok]
      exact ⟨rfl, rfl⟩
    · cases hok
  · rw [← Except.ok.inj hok]
    exact ⟨rfl, rfl⟩

/-- A hit is one of a block that resides. -/
theorem Hit.resident (htag : cfg.TagFits) (hhit : cp.Hit cmd addr fetch way cp') :
    cp.Resident addr :=
  ⟨way, hhit.found (Or.inl htag)⟩

/-- A miss is one of a block that does not. -/
theorem Miss.not_resident (hmiss : cp.Miss cmd addr fetch way cp') : ¬ cp.Resident addr :=
  not_resident_iff.mpr hmiss.absent

/-- The effect of a demand access, with those on the miss queue and the random numbers. -/
structure Demand (cp : CacheT cfg) (myrand : Nat → Nat) (cmd : MemCmd) (addr : Addr)
    (cp₁ : CacheT cfg) : Prop where
  inv : cp₁.Inv
  hit : cp.Resident addr → (∃ way, cp.Hit cmd addr false way cp₁) ∧ cp₁.queue = cp.queue ∧
    cp₁.draws = cp.draws
  miss : ¬ cp.Resident addr → (∃ way, cp.Miss cmd addr false way cp₁ ∧
    cp.victim myrand (cfg.setIndex addr) = some way) ∧
    ∃ cp₂, cp.countMiss cmd addr false = .ok cp₂ ∧ cp₁.queue = cp₂.queue

/-- What a demand access does before a prefetch. -/
theorem Inv.demand (htag : cfg.TagFits) (h : cp.Inv)
    (hok : cp.accessBlock myrand cmd addr nbytes false = .ok cp₁) :
    cp.Demand myrand cmd addr cp₁ := by
  obtain ⟨hinv, heffect⟩ := (access_block myrand cmd addr nbytes false h).of_ok hok
  obtain ⟨-, -, hfull⟩ := h.full_of_access htag hok
  have hformed := h.sets (cfg.setIndex addr)
  refine ⟨hinv, fun hres => ?_, fun habsent => ?_⟩
  · obtain ⟨w, hw⟩ := hres
    rw [fullAccess, hformed.lookup_some hw] at hfull
    rcases heffect with hhit | ⟨way, hmiss⟩
    · exact ⟨hhit, queue_of_hit hfull⟩
    · exact absurd ⟨w, hw⟩ hmiss.not_resident
  · rcases heffect with ⟨way, hhit⟩ | ⟨way, hmiss⟩
    · exact absurd (hhit.resident htag) habsent
    · rw [fullAccess, hformed.lookup_none hmiss.absent] at hfull
      obtain ⟨cp₂, hcount, hqueue, way', hvictim, hlast⟩ := queue_of_miss hfull
      obtain ⟨hsets, hdraws⟩ := count_miss_ok hcount
      have hway : way' = way := by
        rw [hmiss.log, fillLog, List.getLast?_append_of_ne_nil _ (List.cons_ne_nil _ _)] at hlast
        exact (Prod.mk.inj (Event.serve.inj (Option.some.inj hlast)).1).2.symm
      refine ⟨⟨way, hmiss, ?_⟩, cp₂, hcount, hqueue⟩
      rw [← hway, ← hvictim, CacheT.victim, CacheT.victim, hsets, hdraws]

/-! ## Blocks that stay -/

/-- A block resides if a way has its tag. -/
theorem resident_iff_blk : cp.Resident a ↔
    ∃ w, (cp.blk (cfg.setIndex a, w)).tag = cfg.cacheTag a ∧
      (cp.blk (cfg.setIndex a, w)).valid = true :=
  exists_congr fun _ => CacheSet.holds_iff

/-- A hit keeps what resides. -/
theorem Hit.resident_iff (hhit : cp.Hit cmd addr fetch way cp') (a : Addr) :
    cp'.Resident a ↔ cp.Resident a := by
  have hblk := blk_of_update hhit.blks hhit.others
  have hsame : ∀ p, (cp'.blk p).tag = (cp.blk p).tag ∧ (cp'.blk p).valid = (cp.blk p).valid := by
    intro p
    rw [hblk]
    split
    case isTrue hp =>
      rw [hp]
      exact ⟨rfl, rfl⟩
    case isFalse => exact ⟨rfl, rfl⟩
  rw [resident_iff_blk, resident_iff_blk]
  refine exists_congr fun w => ?_
  rw [(hsame _).1, (hsame _).2]

/-- A miss brings in its block, and drops that of the way. -/
theorem Miss.resident_iff (hfits : cfg.TagFits) (hmiss : cp.Miss cmd addr fetch way cp')
    (a : Addr) :
    cp'.Resident a ↔ cfg.cacheBaddr a = cfg.cacheBaddr addr ∨
      ∃ w, (cp.sets (cfg.setIndex a)).holds (cfg.cacheTag a) w = true ∧
        (cfg.setIndex a, w) ≠ (cfg.setIndex addr, way) := by
  have hblk := blk_of_update hmiss.blks hmiss.others
  have hsame : cfg.cacheBaddr a = cfg.cacheBaddr addr ↔
      cfg.cacheTag a = cfg.cacheTag addr ∧ cfg.setIndex a = cfg.setIndex addr :=
    tagset_eq_iff hfits
  rw [resident_iff_blk, hsame]
  constructor
  · rintro ⟨w, htag, hvalid⟩
    by_cases hp : (cfg.setIndex a, w) = (cfg.setIndex addr, way)
    · rw [hblk, if_pos hp] at htag
      exact Or.inl ⟨htag.symm, (Prod.mk.inj hp).1⟩
    · rw [hblk, if_neg hp] at htag hvalid
      exact Or.inr ⟨w, CacheSet.holds_iff.mpr ⟨htag, hvalid⟩, hp⟩
  · rintro (⟨htag, hset⟩ | ⟨w, hw, hp⟩)
    · refine ⟨way, ?_⟩
      rw [hset, hblk, if_pos rfl]
      exact ⟨htag.symm, rfl⟩
    · refine ⟨w, ?_⟩
      rw [hblk, if_neg hp]
      exact CacheSet.holds_iff.mp hw

/-- The blocks that are in the cache after a demand access. -/
theorem Demand.resident_iff (htag : cfg.TagFits) (h : cp.Demand myrand cmd addr cp₁) (a : Addr) :
    cp₁.Resident a ↔ cp.Stays myrand addr a := by
  by_cases hres : cp.Resident addr
  · obtain ⟨⟨way, hhit⟩, -⟩ := h.hit hres
    rw [hhit.resident_iff, Stays]
    constructor
    · rintro ⟨w, hw⟩
      exact Or.inr ⟨w, hw, Or.inl hres⟩
    · rintro (hsame | ⟨w, hw, -⟩)
      · rwa [← resident_baddr htag, hsame, resident_baddr htag]
      · exact ⟨w, hw⟩
  · obtain ⟨⟨way, hmiss, hvictim⟩, -⟩ := h.miss hres
    rw [hmiss.resident_iff htag, Stays, hvictim]
    refine or_congr_right (exists_congr fun w => and_congr_right fun _ => ?_)
    have hpair : (cfg.setIndex a, w) = (cfg.setIndex addr, way) ↔
        cfg.setIndex a = cfg.setIndex addr ∧ way = w := by
      rw [Prod.mk.injEq, @eq_comm _ w]
    rw [Ne, hpair, not_and_or, Ne, Ne, Option.some.injEq]
    exact ⟨Or.inr, fun hor => hor.resolve_left hres⟩

/-! ## Targets -/

/-- The target of a prefetch is read off the tables and the queue. -/
theorem prefetch_target_congr (hrpt : cp'.rpt = cp.rpt) (hqueue : cp'.queue = cp.queue)
    (pc addr : Addr) : cp'.prefetchTarget pc addr = cp.prefetchTarget pc addr := by
  have hmissQueue : cp'.missQueue = cp.missQueue := congrArg Prod.fst hqueue
  have htaken : (cp'.updateRpt pc addr).1 = (cp.updateRpt pc addr).1 := by
    rw [updateRpt, updateRpt, hrpt]
    split <;> rfl
  have hentry : (cp'.updateRpt pc addr).2.1 = (cp.updateRpt pc addr).2.1 := by
    rw [updateRpt, updateRpt, hrpt]
    split <;> rfl
  have hnext : cp'.missQueueGetNextMissAddr addr = cp.missQueueGetNextMissAddr addr := by
    rw [missQueueGetNextMissAddr, missQueueGetNextMissAddr, hmissQueue]
  rw [prefetchTarget, prefetchTarget, htaken, hentry, hnext]

/-- A miss that is counted is put into the queue. -/
theorem queue_of_count_miss (habsent : ¬ cp.Resident addr)
    (hok : cp.countMiss cmd addr false = .ok cp') : cp'.queue = (cp.missQueued addr).queue := by
  rw [missQueued, if_neg habsent]
  rw [countMiss] at hok
  by_cases htype : cfg.prefetchType = 2
  · rw [if_pos (by rw [decide_eq_true htype]; rfl), missQueueInsert] at hok
    split at hok
    case isTrue hpre =>
      have hpre' : addr ≠ 0 ∧ cfg.prefetchType = 2 ∧
        cp.insertHead + cp.missQueueSize < 2 ^ 31 := hpre
      rw [missQueueInsert, if_pos hpre', ← Except.ok.inj hok]
      rfl
    case isFalse => cases hok
  · rw [if_neg (by rw [decide_eq_false htype]; exact Bool.false_ne_true)] at hok
    rw [missQueueInsert, if_neg fun hpre => htype hpre.2.1, ← Except.ok.inj hok]
    rfl

/-- The prefetcher asks for the same address as in the cache before the access, but for the miss
that has been inserted. -/
theorem Demand.target (h : cp.Demand myrand cmd addr cp₁) (pc : Addr) :
    cp₁.prefetchTarget pc addr = (cp.missQueued addr).prefetchTarget pc addr := by
  have hrpt : (cp.missQueued addr).rpt = cp.rpt := by
    rw [missQueued]
    split
    · rfl
    · rw [missQueueInsert]
      by_cases hpre : addr ≠ 0 ∧ cfg.prefetchType = 2 ∧ cp.insertHead + cp.missQueueSize < 2 ^ 31
      · rw [if_pos hpre]
      · rw [if_neg hpre]
  by_cases hres : cp.Resident addr
  · obtain ⟨⟨way, hhit⟩, hqueue, -⟩ := h.hit hres
    refine prefetch_target_congr (hhit.rpt.trans hrpt.symm) ?_ pc addr
    rw [hqueue, missQueued, if_pos hres]
  · obtain ⟨⟨way, hmiss, -⟩, cp₂, hcount, hqueue⟩ := h.miss hres
    refine prefetch_target_congr (hmiss.rpt.trans hrpt.symm) ?_ pc addr
    rw [hqueue, queue_of_count_miss hres hcount]

/-- A next miss is found, or not. -/
theorem get_next_ok (haddr : addr ≠ 0) (htype : cfg.prefetchType = 2) :
    ∃ next, cp.missQueueGetNextMissAddr addr = .ok next := by
  rw [missQueueGetNextMissAddr, if_pos ⟨haddr, htype⟩]
  split <;> exact ⟨_, rfl⟩

/-- The assertions of the prefetchers about the address and the size of the table. -/
theorem prefetch_target_ok_iff : (∃ target, cp.prefetchTarget pc addr = .ok target) ↔
    (cfg.prefetchType = 2 → addr ≠ 0) ∧
    (3 ≤ cfg.prefetchType → cfg.prefetchType &&& (cfg.prefetchType - 1) = 0) := by
  rw [prefetchTarget]
  obtain htype | htype | htype | ⟨n, htype⟩ := prefetch_type_cases cfg.prefetchType
  · rw [htype]
    exact iff_of_true ⟨_, rfl⟩ ⟨fun h => absurd h (by decide), fun h => absurd h (by decide)⟩
  · rw [htype]
    exact iff_of_true ⟨_, rfl⟩ ⟨fun h => absurd h (by decide), fun h => absurd h (by decide)⟩
  · rw [htype]
    show (∃ target, (if addr = 0 then _ else _) = _) ↔ _
    by_cases haddr : addr = 0
    · rw [if_pos haddr]
      exact iff_of_false (by simp) fun h => h.1 rfl haddr
    · rw [if_neg haddr]
      refine iff_of_true ?_ ⟨fun _ => haddr, fun h => absurd h (by decide)⟩
      obtain ⟨next, hnext⟩ : ∃ next, cp.missQueueGetNextMissAddr addr = .ok next :=
        get_next_ok haddr htype
      rw [hnext]
      split <;> exact ⟨_, rfl⟩
  · rw [htype]
    show (∃ target, (if n + 3 &&& (n + 3 - 1) ≠ 0 then _ else _) = _) ↔ _
    by_cases hpower : n + 3 &&& (n + 3 - 1) = 0
    · rw [if_neg (not_not.mpr hpower)]
      refine iff_of_true ?_ ⟨fun h => absurd h (by omega), fun _ => hpower⟩
      split <;> exact ⟨_, rfl⟩
    · rw [if_pos hpower]
      exact iff_of_false (by simp) fun h => hpower (h.2 (by omega))

/-- A prefetch finishes if its address is not 0, and if the block is in the cache or can be
fetched. -/
theorem Inv.prefetch_ok_iff (htag : cfg.TagFits) (h : cp.Inv) :
    (∃ cp', cp.prefetch myrand a = .ok cp') ↔
      a ≠ 0 ∧ (¬ cp.Resident a →
        cfg.balloc = false ∧ (cp.lastBlk = none → cfg.cacheBaddr a ≠ 0)) := by
  by_cases ha : a = 0
  · rw [prefetch, if_pos ha]
    exact iff_of_false (by simp) fun h => h.1 ha
  by_cases hres : cp.Resident a
  · rw [h.prefetch_resident htag myrand ha hres]
    exact iff_of_true ⟨_, rfl⟩ ⟨ha, fun habsent => absurd hres habsent⟩
  · obtain ⟨cp', hmiss, -⟩ := h.miss_of_prefetch htag myrand hres
    rw [h.prefetch_absent htag myrand ha hres, hmiss]
    have hfine : ¬ (cfg.balloc = true ∨ cp.lastBlk = none ∧ cfg.cacheBaddr a = 0) ↔
        cfg.balloc = false ∧ (cp.lastBlk = none → cfg.cacheBaddr a ≠ 0) := by
      rw [not_or, Bool.not_eq_true, not_and]
    by_cases hstops : cfg.balloc = true ∨ cp.lastBlk = none ∧ cfg.cacheBaddr a = 0
    · rw [if_pos hstops]
      exact iff_of_false (by simp) fun h => hfine.mpr (h.2 hres) hstops
    · rw [if_neg hstops]
      exact iff_of_true ⟨_, rfl⟩ ⟨ha, fun _ => hfine.mp hstops⟩

/-! ## One access -/

/-- The condition under which a demand access and its prefetch finish. -/
structure Safe (cp : CacheT cfg) (myrand : Nat → Nat) (pc addr nbytes : Addr) : Prop where
  /-- in the highest block, where the check overflows, the access reaches the end -/
  highest : (cfg.cacheBaddr addr).toNat + cfg.bsize = 2 ^ 32 → addr.toNat + nbytes.toNat = 2 ^ 32
  /-- without a last block, the access is not to block 0 -/
  lowest : cp.lastBlk = none → cfg.cacheBaddr addr ≠ 0
  /-- the miss queue takes the address -/
  queue : cfg.prefetchType = 2 → addr ≠ 0 ∧
    (¬ cp.Resident addr → cp.insertHead + cp.missQueueSize < 2 ^ 31)
  /-- the size of the table is a power of two -/
  table : 3 ≤ cfg.prefetchType → cfg.prefetchType &&& (cfg.prefetchType - 1) = 0
  /-- the prefetcher asks for an address other than 0, and if its block is not in the cache, then
  there are no buffers, and it is not block 0 behind a miss -/
  target : ∀ a, (cp.missQueued addr).prefetchTarget pc addr = .ok (some a) → a ≠ 0 ∧
    (¬ cp.Stays myrand addr a → cfg.balloc = false ∧
      (¬ cp.Resident addr → cfg.cacheBaddr a ≠ 0))

/-- The access is aligned and fits into its block. -/
structure Fits (cfg : Config) (addr nbytes : Addr) : Prop where
  size : nbytes &&& (nbytes - 1) = 0
  aligned : addr &&& (nbytes - 1) = 0
  fits : addr.toNat + nbytes.toNat ≤ (cfg.cacheBaddr addr).toNat + cfg.bsize

/-- A block ends within the address space. -/
theorem baddr_add_le (cfg : Config) (addr : Addr) :
    (cfg.cacheBaddr addr).toNat + cfg.bsize ≤ 2 ^ 32 := by
  have hshift := @Config.set_shift_lt cfg
  have hzero : (cfg.cacheBaddr addr).toNat % 2 ^ cfg.setShift = 0 := by
    refine Nat.eq_of_testBit_eq fun i => ?_
    rw [Nat.testBit_mod_two_pow, Nat.zero_testBit]
    have hbit := cfg.baddr_bit addr i
    rw [BitVec.getLsbD] at hbit
    rw [hbit]
    by_cases hi : i < cfg.setShift
    · rw [decide_eq_false (Nat.not_le.mpr hi), Bool.and_false, Bool.and_false]
    · rw [decide_eq_false hi, Bool.false_and]
  obtain ⟨q, hq⟩ := Nat.dvd_of_mod_eq_zero hzero
  have hlt := (cfg.cacheBaddr addr).isLt
  have hpow : 2 ^ 32 = 2 ^ cfg.setShift * 2 ^ (32 - cfg.setShift) := by
    rw [← Nat.pow_add]
    congr 1
    omega
  rw [hq, hpow] at hlt
  have hq' := Nat.lt_of_mul_lt_mul_left hlt
  rw [hq, Config.bsize_eq, hpow, ← Nat.mul_succ]
  exact Nat.mul_le_mul_left _ hq'

/-- In all blocks but the highest one, an access that fits passes the checks. -/
theorem check_access_ok_iff (h : Fits cfg addr nbytes) : checkAccess cfg addr nbytes = .ok () ↔
    ((cfg.cacheBaddr addr).toNat + cfg.bsize = 2 ^ 32 →
      addr.toNat + nbytes.toNat = 2 ^ 32) := by
  have hend := baddr_add_le cfg addr
  have hfits := h.fits
  have hbsize := cfg.bsize_lt
  have hle : (cfg.cacheBaddr addr).toNat ≤ addr.toNat := by
    rw [Config.cacheBaddr, BitVec.toNat_and]
    exact Nat.and_le_left
  rw [checkAccess, if_neg (not_or.mpr ⟨not_not.mpr h.size, not_not.mpr h.aligned⟩)]
  have hspans : cfg.cacheBaddr addr + BitVec.ofNat 32 cfg.bsize < addr + nbytes ↔
      (cfg.cacheBaddr addr).toNat + cfg.bsize = 2 ^ 32 ∧ addr.toNat + nbytes.toNat ≠ 2 ^ 32 := by
    rw [BitVec.lt_def, BitVec.toNat_add, BitVec.toNat_add, BitVec.toNat_ofNat, Nat.add_mod_mod]
    omega
  by_cases hfails : cfg.cacheBaddr addr + BitVec.ofNat 32 cfg.bsize < addr + nbytes
  · rw [if_pos hfails]
    exact iff_of_false (by rintro ⟨⟩) fun himp => (hspans.mp hfails).2 (himp (hspans.mp hfails).1)
  · rw [if_neg hfails]
    refine iff_of_true rfl fun hhighest => ?_
    by_contra hne
    exact hfails (hspans.mpr ⟨hhighest, hne⟩)

/-- There is room in the queue for a miss that is counted. -/
theorem room_of_count_miss (htype : cfg.prefetchType = 2)
    (hok : cp.countMiss cmd addr false = .ok cp') : cp.insertHead + cp.missQueueSize < 2 ^ 31 := by
  rw [countMiss, if_pos (by rw [decide_eq_true htype]; rfl), missQueueInsert] at hok
  split at hok
  case isTrue hpre => exact hpre.2.2
  case isFalse => cases hok

/-- After a hit there is a last block. -/
theorem Demand.last_blk (h : cp.Demand myrand cmd addr cp₁) :
    cp₁.lastBlk = none ↔ ¬ cp.Resident addr := by
  by_cases hres : cp.Resident addr
  · obtain ⟨⟨way, hhit⟩, -⟩ := h.hit hres
    rw [hhit.lastBlk]
    exact iff_of_false nofun (not_not.mpr hres)
  · obtain ⟨⟨way, hmiss, -⟩, -⟩ := h.miss hres
    exact iff_of_true hmiss.lastBlk hres

/-- What the condition says of the target is what its prefetch needs. -/
theorem Demand.prefetch_ok_iff (htag : cfg.TagFits) (h : cp.Demand myrand cmd addr cp₁) :
    (∃ cp', (cp₁.tableUpdated pc addr).prefetch myrand a = .ok cp') ↔
      a ≠ 0 ∧ (¬ cp.Stays myrand addr a → cfg.balloc = false ∧
        (¬ cp.Resident addr → cfg.cacheBaddr a ≠ 0)) := by
  have hlast : (cp₁.tableUpdated pc addr).lastBlk = cp₁.lastBlk := by rw [table_updated_eq]
  have hres : (cp₁.tableUpdated pc addr).Resident a ↔ cp₁.Resident a := by
    rw [table_updated_eq]
    exact Iff.rfl
  rw [(h.inv.table_updated pc addr).prefetch_ok_iff htag, hres, hlast, h.resident_iff htag,
    h.last_blk]

/-- An access that fits and meets the conditions on the access alone does not stop. -/
theorem Inv.access_of_safe (h : cp.Inv) (hfits : Fits cfg addr nbytes)
    (hsafe : cp.Safe myrand pc addr nbytes) :
    ∃ cp₁, cp.accessBlock myrand cmd addr nbytes false = .ok cp₁ := by
  have hfaults : ∀ f, ¬ cp.AccessFault addr nbytes false f := by
    intro f hf
    cases hf with
    | check hcheck =>
        rw [(check_access_ok_iff hfits).mpr hsafe.highest] at hcheck
        exact nomatch hcheck
    | buffer _ hfetch => exact nomatch hfetch
    | noBlock hnone hzero => exact hsafe.lowest hnone hzero
    | miss hmiss =>
        obtain ⟨-, htype, -, hfails, habsent⟩ := hmiss
        obtain ⟨haddr, hroom⟩ := hsafe.queue htype
        rcases hfails with hzero | hfull
        · exact haddr hzero
        · exact hfull (hroom (not_resident_iff.mpr habsent))
  obtain ⟨cp₁, hok, -⟩ := (access_block myrand cmd addr nbytes false h).exists_ok hfaults
  exact ⟨cp₁, hok⟩

/-- Step lemma. -/
theorem Inv.cache_access_ok_iff (htag : cfg.TagFits) (h : cp.Inv)
    (hfits : Fits cfg addr nbytes) :
    (∃ cp', cp.cacheAccess myrand pc addr cmd nbytes = .ok cp') ↔
      cp.Safe myrand pc addr nbytes := by
  constructor
  · rintro ⟨cp', hok⟩
    obtain ⟨cp₁, target, haccess, htarget, hprefetch⟩ := cache_access_ok.mp hok
    obtain ⟨hcheck, hlowest, -⟩ := h.full_of_access htag haccess
    have hdemand := h.demand htag haccess
    obtain ⟨haddr, htable⟩ := prefetch_target_ok_iff.mp ⟨target, htarget⟩
    refine ⟨(check_access_ok_iff hfits).mp hcheck, hlowest, fun htype => ⟨haddr htype, ?_⟩, htable,
      fun a ha => ?_⟩
    · intro habsent
      obtain ⟨-, cp₂, hcount, -⟩ := hdemand.miss habsent
      exact room_of_count_miss htype hcount
    · rw [← hdemand.target, htarget] at ha
      obtain rfl := Except.ok.inj ha
      exact (hdemand.prefetch_ok_iff htag).mp ⟨cp', hprefetch⟩
  · intro hsafe
    obtain ⟨cp₁, haccess⟩ : ∃ cp₁, cp.accessBlock myrand cmd addr nbytes false = .ok cp₁ :=
      h.access_of_safe hfits hsafe
    have hdemand := h.demand htag haccess
    obtain ⟨target, htarget⟩ := prefetch_target_ok_iff.mpr
      ⟨fun htype => (hsafe.queue htype).1, hsafe.table⟩
    cases target with
    | none => exact ⟨_, cache_access_ok.mpr ⟨cp₁, none, haccess, htarget, rfl⟩⟩
    | some a =>
        have ha := hsafe.target a (hdemand.target pc ▸ htarget)
        obtain ⟨cp', hprefetch⟩ := (hdemand.prefetch_ok_iff htag).mpr ha
        exact ⟨cp', cache_access_ok.mpr ⟨cp₁, some a, haccess, htarget, hprefetch⟩⟩

end CacheT

/-! ## Runs -/

/-- The condition on an access after others. -/
def SafeAfter (cfg : Config) (myrand : Nat → Nat) (before : List Request) (r : Request) : Prop :=
  ∃ cp, runOps cfg myrand (before.map Request.op) = .ok cp ∧
    cp.Safe myrand r.pc r.addr r.nbytes

/-- If the tag fits, a run of accesses that fit into their blocks finishes if and only if each of
them meets the condition in the cache that it finds. -/
theorem finishes_iff_safe (htag : cfg.TagFits) (myrand : Nat → Nat) (reqs : List Request)
    (h : ∀ r ∈ reqs, CacheT.Fits cfg r.addr r.nbytes) :
    (∃ cp, runOps cfg myrand (reqs.map Request.op) = .ok cp) ↔
      Along (SafeAfter cfg myrand) reqs := by
  induction reqs using List.reverseRecOn with
  | nil => exact iff_of_true ⟨_, rfl⟩ along_nil
  | append_singleton reqs r ih =>
      have hreqs : ∀ r' ∈ reqs, CacheT.Fits cfg r'.addr r'.nbytes := fun r' hr' =>
        h r' (List.mem_append_left _ hr')
      have hr := h r (List.mem_append_right _ (List.mem_singleton_self r))
      rw [along_concat, ← ih hreqs, List.map_append]
      constructor
      · rintro ⟨cp', hrun⟩
        obtain ⟨cp, hrun, hok⟩ := (CacheT.run_ops_concat_ok myrand).mp hrun
        refine ⟨⟨cp, hrun⟩, cp, hrun, ?_⟩
        exact ((CacheT.Inv.of_run myrand hrun).cache_access_ok_iff htag hr).mp ⟨cp', hok⟩
      · rintro ⟨-, cp, hrun, hsafe⟩
        obtain ⟨cp', hok⟩ :=
          ((CacheT.Inv.of_run myrand hrun).cache_access_ok_iff htag hr).mpr hsafe
        exact ⟨cp', (CacheT.run_ops_concat_ok myrand).mpr ⟨cp, hrun, hok⟩⟩

/-- Two reads in a row, with the next-line prefetcher. -/
theorem finishes_iff_safe_next_line :
    Along (SafeAfter nextLine fun _ => 0) [⟨.Read, 0, 64, 4⟩, ⟨.Read, 8, 80, 4⟩] := by
  have hfits : ∀ r ∈ ([⟨.Read, 0, 64, 4⟩, ⟨.Read, 8, 80, 4⟩] : List Request),
      CacheT.Fits nextLine r.addr r.nbytes := by
    simp only [List.forall_mem_cons]
    exact ⟨⟨by decide, by decide, by decide⟩, ⟨by decide, by decide, by decide⟩,
      fun r hr => absurd hr List.not_mem_nil⟩
  have htag : nextLine.TagFits := by decide
  exact (finishes_iff_safe htag (fun _ => 0) _ hfits).mp ⟨_, rfl⟩

/-- A cache with block contents and the next-line prefetcher. -/
def nextLineData : Config := { nextLine with balloc := true }

/-- The block behind the highest one is at address 0, which fails the assertion of `prefetch`, a
prefetch into a cache with block contents has no buffer for them, and with a tag that does not fit
the address of a prefetch is misaligned. -/
theorem prefetch_stops :
    (¬ ∀ (cfg : Config) (myrand : Nat → Nat) (reqs : List Request),
      (∀ r ∈ reqs, CacheT.Fits cfg r.addr r.nbytes) →
      ∃ cp, runOps cfg myrand (reqs.map Request.op) = .ok cp) ∧
    runOps nextLine (fun _ => 0) [.access .Read 0 4294967280 16] = .error .prefetchAddr ∧
    runOps nextLineData (fun _ => 0) [.access .Read 0 64 4] = .error .nullPointer ∧
    runOps hugeNextLine (fun _ => 0) [.access .Read 0 0x40010004 4] = .error .alignment := by
  have hhighest : runOps nextLine (fun _ => 0) [.access .Read 0 4294967280 16] =
      .error .prefetchAddr := rfl
  refine ⟨fun hall => ?_, hhighest, rfl, rfl⟩
  have hfits : ∀ r ∈ ([⟨.Read, 0, 4294967280, 16⟩] : List Request),
      CacheT.Fits nextLine r.addr r.nbytes := by
    simp only [List.forall_mem_cons]
    exact ⟨⟨by decide, by decide, by decide⟩, fun r hr => absurd hr List.not_mem_nil⟩
  obtain ⟨cp, hrun⟩ := hall nextLine (fun _ => 0) [⟨.Read, 0, 4294967280, 16⟩] hfits
  exact nomatch hhighest.symm.trans hrun

end Ece552.Cache
