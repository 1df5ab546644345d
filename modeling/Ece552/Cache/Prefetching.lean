import Ece552.Cache.Runs

/-!
# What a prefetch does

`generate_prefetch_eq` takes a prefetcher apart: it updates the reference prediction table, finds
the address that it asks for, and prefetches that. If the tag fits, the prefetch of a block that is
in the cache does nothing, and that of another one replaces one block, as an access that misses
does. From this follow the counters of prefetches in every run. If the tag does not fit, the address
rebuilt from tag and set is not that of the block: then a prefetch may stop or hit.
-/

namespace Ece552.Cache

open Library

variable {cfg : Config}

namespace CacheT

variable {cp cp' cp₁ : CacheT cfg} {myrand : Nat → Nat} {cmd : MemCmd} {pc addr nbytes a : Addr}
variable {fetch : Bool} {i : Fin cfg.nsets} {way : Way cfg}

/-! ## Prefetchers -/

/-- The address that the prefetcher asks for, if it asks for one. -/
def prefetchTarget (cp : CacheT cfg) (pc addr : Addr) : Except Fault (Option Addr) :=
  match cfg.prefetchType with
  | 0 => .ok none
  | 1 => .ok (some (addr + BitVec.ofNat 32 cfg.bsize))
  | 2 =>
      if addr = 0 then .error .missQueue
      else if !(cp.updateRpt pc addr).1 && decide ((cp.updateRpt pc addr).2.1.state = .Steady) then
        .ok (some ((cp.updateRpt pc addr).2.1.predicted addr))
      else do
        let next ← cp.missQueueGetNextMissAddr addr
        .ok (if next ≠ 0 then some next else none)
  | _ =>
      if cfg.prefetchType &&& (cfg.prefetchType - 1) ≠ 0 then .error .rptSize
      else if !(cp.updateRpt pc addr).1 &&
          decide ((cp.updateRpt pc addr).2.1.state ≠ .NoPrediction) then
        .ok (some ((cp.updateRpt pc addr).2.1.predicted addr))
      else .ok none

/-- The cache after the prefetcher has updated its table, if it has one. -/
def tableUpdated (cp : CacheT cfg) (pc addr : Addr) : CacheT cfg :=
  if cfg.prefetchType < 2 then cp else (cp.updateRpt pc addr).2.2

/-- Prefetch an address, if there is one. -/
def prefetchOption (cp : CacheT cfg) (myrand : Nat → Nat) : Option Addr → Except Fault (CacheT cfg)
  | none => .ok cp
  | some a => cp.prefetch myrand a

theorem update_rpt_eq (cp : CacheT cfg) (pc addr : Addr) : cp.updateRpt pc addr =
    ((cp.updateRpt pc addr).1, (cp.updateRpt pc addr).2.1,
      { cp with rpt := (cp.updateRpt pc addr).2.2.rpt }) := by
  rw [updateRpt]
  split <;> rfl

theorem table_updated_eq (cp : CacheT cfg) (pc addr : Addr) :
    cp.tableUpdated pc addr = { cp with rpt := (cp.tableUpdated pc addr).rpt } := by
  rw [tableUpdated]
  split
  · rfl
  · rw [update_rpt_eq]

theorem get_next_of_rpt (cp : CacheT cfg) (rpt : Nat → RptEntry) (addr : Addr) :
    missQueueGetNextMissAddr { cp with rpt := rpt } addr = cp.missQueueGetNextMissAddr addr := by
  rw [missQueueGetNextMissAddr, missQueueGetNextMissAddr]

/-- No prefetcher, the two that have a number, and the stride prefetcher. -/
theorem prefetch_type_cases (prefetchType : Nat) :
    prefetchType = 0 ∨ prefetchType = 1 ∨ prefetchType = 2 ∨ ∃ n, prefetchType = n + 3 := by
  by_cases hlarge : prefetchType < 3
  · omega
  · exact Or.inr (Or.inr (Or.inr ⟨prefetchType - 3, by omega⟩))

/-- A prefetcher updates its table, and prefetches the address that it asks for. -/
theorem generate_prefetch_eq (cp : CacheT cfg) (myrand : Nat → Nat) (pc addr : Addr) :
    cp.generatePrefetch myrand pc addr =
      cp.prefetchTarget pc addr >>= (cp.tableUpdated pc addr).prefetchOption myrand := by
  rw [generatePrefetch, prefetchTarget, tableUpdated]
  obtain htype | htype | htype | ⟨n, htype⟩ := prefetch_type_cases cfg.prefetchType
  · rw [htype]
    rfl
  · rw [htype]
    rfl
  · rw [htype]
    show cp.openEndedPrefetcher myrand pc addr = _
    rw [openEndedPrefetcher, update_rpt_eq, if_neg (Nat.lt_irrefl 2)]
    dsimp only
    split
    · rfl
    · split
      · rfl
      · rw [prefetchNextMiss, get_next_of_rpt]
        cases cp.missQueueGetNextMissAddr addr with
        | error f => rfl
        | ok next =>
            show (if next ≠ 0 then _ else _) =
              prefetchOption _ myrand (if next ≠ 0 then some next else none)
            split <;> rfl
  · rw [htype]
    show cp.stridePrefetcher myrand pc addr = _
    rw [stridePrefetcher, update_rpt_eq, htype]
    dsimp only
    split
    · rfl
    · split <;> rfl

/-! ## Prefetches -/

/-- The block of an address is in the cache. -/
def Resident (cp : CacheT cfg) (a : Addr) : Prop :=
  ∃ w, (cp.sets (cfg.setIndex a)).holds (cfg.cacheTag a) w = true

theorem set_index_baddr (a : Addr) : cfg.setIndex (cfg.cacheBaddr a) = cfg.setIndex a :=
  (Config.set_index_eq_iff cfg).mpr (cfg.set_baddr a)

theorem resident_baddr (hfits : cfg.TagFits) :
    cp.Resident (cfg.cacheBaddr a) ↔ cp.Resident a := by
  rw [Resident, Resident, set_index_baddr, Config.tag_baddr hfits]

/-- A new cache holds no block. -/
theorem not_resident_created (a : Addr) : ¬ (cacheCreate cfg).Resident a := by
  rintro ⟨w, hw⟩
  exact Bool.false_ne_true ((valid_created _ w).symm.trans (CacheSet.holds_iff.mp hw).2)

theorem not_resident_iff : ¬ cp.Resident a ↔
    ∀ w, (cp.sets (cfg.setIndex a)).holds (cfg.cacheTag a) w = false := by
  rw [Resident, not_exists]
  exact forall_congr' fun w => Bool.not_eq_true _ ▸ Iff.rfl

theorem bsize_sub_one (cfg : Config) : (BitVec.ofNat 32 cfg.bsize - 1 : Addr) = cfg.blkMask := by
  have hpos := cfg.bsize_ok.1
  rw [Config.blkMask]
  exact (BitVec.ofNat_sub_ofNat_of_le cfg.bsize 1 (by omega) (by omega))

/-- The access of a prefetch passes the checks. -/
theorem check_prefetch (cfg : Config) (a : Addr) :
    checkAccess cfg (cfg.cacheBaddr a) (BitVec.ofNat 32 cfg.bsize) = .ok () := by
  have hone := bsize_sub_one cfg
  have hsize : BitVec.ofNat 32 cfg.bsize &&& (BitVec.ofNat 32 cfg.bsize - 1) = (0 : Addr) := by
    rw [hone, Config.blkMask, ← BitVec.ofNat_and, cfg.bsize_ok.2]
    rfl
  have haligned : cfg.cacheBaddr a &&& (BitVec.ofNat 32 cfg.bsize - 1) = 0 := by
    rw [hone, Config.cacheBaddr, BitVec.and_assoc, BitVec.and_comm (~~~ cfg.blkMask),
      BitVec.and_not_self]
    exact BitVec.and_zero
  rw [checkAccess, if_neg (by rw [hsize, haligned]; simp), Config.baddr_baddr,
    if_neg (BitVec.lt_irrefl _)]

/-- A probe finds the blocks that are in the cache. -/
theorem Inv.probe_baddr (hfits : cfg.TagFits) (h : cp.Inv) (a : Addr) :
    (cp.Resident a ∧ cp.cacheProbe (cfg.cacheBaddr a) = .ok true) ∨
    ¬ cp.Resident a ∧ cp.cacheProbe (cfg.cacheBaddr a) = .ok false := by
  obtain ⟨found, hprobe, hfound⟩ := h.cache_probe (cfg.cacheBaddr a)
  rw [hprobe, ← resident_baddr hfits]
  cases found with
  | none =>
      refine Or.inr ⟨fun ⟨w, hw⟩ => ?_, rfl⟩
      exact nomatch (hfound w).mpr hw
  | some w => exact Or.inl ⟨⟨w, (hfound w).mp rfl⟩, rfl⟩

theorem prefetch_eq (hfits : cfg.TagFits) (myrand : Nat → Nat) (ha : a ≠ 0) :
    cp.prefetch myrand a = (do
      let found ← cp.cacheProbe (cfg.cacheBaddr a)
      if found then .ok cp
      else cp.accessBlock myrand .Read (cfg.cacheBaddr a) (BitVec.ofNat 32 cfg.bsize) true) := by
  rw [prefetch, if_neg ha, Config.mk_baddr hfits]

/-- The prefetch of a block that is in the cache does nothing. -/
theorem Inv.prefetch_resident (hfits : cfg.TagFits) (h : cp.Inv) (myrand : Nat → Nat)
    (ha : a ≠ 0) (hres : cp.Resident a) : cp.prefetch myrand a = .ok cp := by
  obtain ⟨-, hprobe⟩ | ⟨habsent, -⟩ := h.probe_baddr hfits a
  · rw [prefetch_eq hfits myrand ha, hprobe]
    rfl
  · exact absurd hres habsent

/-- The prefetch of another block is a miss, unless it has no buffer for the data or takes the fast
path without a last block. -/
theorem Inv.prefetch_absent (hfits : cfg.TagFits) (h : cp.Inv) (myrand : Nat → Nat)
    (ha : a ≠ 0) (habsent : ¬ cp.Resident a) : cp.prefetch myrand a =
      if cfg.balloc = true ∨ cp.lastBlk = none ∧ cfg.cacheBaddr a = 0 then .error .nullPointer
      else cp.cacheMiss myrand .Read (cfg.cacheBaddr a) true := by
  obtain ⟨hres, -⟩ | ⟨-, hprobe⟩ := h.probe_baddr hfits a
  · exact absurd hres habsent
  have habsent' := habsent
  rw [← resident_baddr hfits, not_resident_iff] at habsent'
  rw [prefetch_eq hfits myrand ha, hprobe]
  show cp.accessBlock myrand .Read (cfg.cacheBaddr a) (BitVec.ofNat 32 cfg.bsize) true = _
  have htagset : cfg.cacheTagset (cfg.cacheBaddr a) = cfg.cacheBaddr a := cfg.baddr_baddr a
  rw [accessBlock, check_prefetch, copyData, Bool.and_true, htagset]
  by_cases hballoc : cfg.balloc = true
  · rw [if_pos hballoc, if_pos (Or.inl hballoc)]
    rfl
  rw [if_neg hballoc]
  show (if cfg.cacheBaddr a = cp.lastTagset then _ else _) = _
  by_cases hlast : cfg.cacheBaddr a = cp.lastTagset
  case pos =>
    -- the last block would be the one that is absent
    have hnone : cp.lastBlk = none := by
      cases hp : cp.lastBlk with
      | none => rfl
      | some p =>
          have hset := h.last_set hp (htagset.trans hlast)
          have hholds := h.last_holds hfits hp (htagset.trans hlast)
          rw [hset, habsent' p.2] at hholds
          exact absurd hholds Bool.false_ne_true
    have hzero : cfg.cacheBaddr a = 0 := hlast.trans (h.reset hnone)
    rw [if_pos hlast, hnone, if_pos (Or.inr ⟨rfl, hzero⟩)]
  case neg =>
    have hsome : ¬ (cfg.balloc = true ∨ cp.lastBlk = none ∧ cfg.cacheBaddr a = 0) := by
      rintro (hb | ⟨hnone, hzero⟩)
      · exact hballoc hb
      · exact hlast (hzero.trans (h.reset hnone).symm)
    rw [if_neg hlast, if_neg hsome, fullAccess, (h.sets _).lookup_none habsent']
    rfl

/-! ## The miss queue -/

/-- The miss queue with its size and its head. -/
def queue (cp : CacheT cfg) : (Nat → Addr) × Nat × Nat :=
  (cp.missQueue, cp.missQueueSize, cp.missQueueHead)

/-- The block that is replaced next in a set. -/
def victim (cp : CacheT cfg) (myrand : Nat → Nat) (i : Fin cfg.nsets) : Option (Way cfg) :=
  match cfg.policy with
  | .LRU | .FIFO => (cp.sets i).way.tail
  | .Random => some (randomWay cfg (myrand cp.draws))

theorem queue_of_select_victim (hok : cp.selectVictim myrand i = .ok (way, cp')) :
    cp'.queue = cp.queue ∧ cp.victim myrand i = some way := by
  have hlist : ∀ {repl : Way cfg}, (cp.sets i).way.tail = some repl →
      (updateWayList (cp.sets i).way repl .Head >>= fun list =>
        .ok (repl, cp.setSet i { cp.sets i with way := list })) = .ok (way, cp') →
      cp'.queue = cp.queue ∧ (cp.sets i).way.tail = some way := by
    intro repl htail hlist
    obtain ⟨list, -, hpair⟩ := bind_eq_ok.mp hlist
    obtain ⟨rfl, rfl⟩ := Prod.mk.inj (Except.ok.inj hpair)
    exact ⟨rfl, htail⟩
  rw [selectVictim] at hok
  rw [victim]
  cases hpolicy : cfg.policy with
  | Random =>
      rw [hpolicy] at hok
      obtain ⟨rfl, rfl⟩ := Prod.mk.inj (Except.ok.inj hok)
      exact ⟨rfl, rfl⟩
  | LRU | FIFO =>
      rw [hpolicy] at hok
      cases htail : (cp.sets i).way.tail with
      | none =>
          rw [htail] at hok
          cases hok
      | some repl =>
          rw [htail] at hok
          have hresult := hlist htail hok
          rwa [htail] at hresult

theorem queue_of_unlink_victim (hok : cp.unlinkVictim i way = .ok cp') : cp'.queue = cp.queue := by
  rw [unlinkVictim] at hok
  split at hok
  · obtain ⟨s, -, hok⟩ := bind_eq_ok.mp hok
    rw [← Except.ok.inj hok]
    rfl
  · rw [← Except.ok.inj hok]

/-- A miss changes the queue by what it inserts, and it replaces the victim. -/
theorem queue_of_miss (hok : cp.cacheMiss myrand cmd addr fetch = .ok cp') :
    ∃ cp₁, cp.countMiss cmd addr fetch = .ok cp₁ ∧ cp'.queue = cp₁.queue ∧
      ∃ way, cp₁.victim myrand (cfg.setIndex addr) = some way ∧
        cp'.log.getLast? = some (.serve (cfg.setIndex addr, way) cmd addr) := by
  obtain ⟨cp₁, hcount, hok⟩ := bind_eq_ok.mp hok
  obtain ⟨⟨way, cp₂⟩, hselect, hok⟩ := bind_eq_ok.mp hok
  obtain ⟨cp₃, hunlink, hok⟩ := bind_eq_ok.mp hok
  obtain rfl := Except.ok.inj hok
  obtain ⟨hqueue₂, hvictim⟩ := queue_of_select_victim hselect
  have hqueue₃ := queue_of_unlink_victim hunlink
  refine ⟨cp₁, hcount, ?_, way, hvictim, ?_⟩
  · rw [write_back_victim, fill_eq, ← hqueue₂, ← hqueue₃]
    rfl
  · rw [fill_eq]
    exact List.getLast?_append_of_ne_nil _ (List.cons_ne_nil _ _)

/-! ## The effect of a prefetch -/

/-- The effect of the prefetch of a block that is not in the cache: a block is filled and clean,
what it held is written back if it was dirty, and nothing else changes. -/
structure Fetched (cp : CacheT cfg) (a : Addr) (p : BlkPtr cfg) (cp' : CacheT cfg) : Prop where
  set : p.1 = cfg.setIndex a
  filled : cp'.blk p = ⟨cfg.cacheTag a, true, false⟩
  others : ∀ q, q ≠ p → cp'.blk q = cp.blk q
  log : cp'.log = cp.log ++ replaceLog p (cp.blk p) ++ fillLog p .Read (cfg.cacheBaddr a)
  stats : cp'.stats =
    Stats.replace { cp.stats with prefetchMisses := cp.stats.prefetchMisses + 1 } (cp.blk p)
  rpt : cp'.rpt = cp.rpt
  queue : cp'.queue = cp.queue

/-- A miss of a prefetch always finds a block to replace. -/
theorem Inv.miss_of_prefetch (hfits : cfg.TagFits) (h : cp.Inv) (myrand : Nat → Nat)
    (habsent : ¬ cp.Resident a) :
    ∃ cp', cp.cacheMiss myrand .Read (cfg.cacheBaddr a) true = .ok cp' ∧ cp'.Inv ∧
      ∃ way, cp.Miss .Read (cfg.cacheBaddr a) true way cp' := by
  rw [← resident_baddr hfits, not_resident_iff] at habsent
  exact (cache_miss myrand .Read true h habsent).exists_ok fun f hf => nomatch hf.2.2.1

theorem Miss.fetched (hfits : cfg.TagFits)
    (hmiss : cp.Miss .Read (cfg.cacheBaddr a) true way cp')
    (hqueue : cp'.queue = cp.queue) : cp.Fetched a (cfg.setIndex a, way) cp' := by
  have hblk := blk_of_update hmiss.blks hmiss.others
  have hset : cfg.setIndex (cfg.cacheBaddr a) = cfg.setIndex a := set_index_baddr a
  have hlog := hmiss.log
  have hstats := hmiss.stats
  rw [hset] at hblk hlog hstats
  refine ⟨rfl, ?_, fun q hq => ?_, hlog, hstats, hmiss.rpt, hqueue⟩
  · rw [hblk, if_pos rfl, Config.tag_baddr hfits]
    rfl
  · rw [hblk, if_neg hq]

/-- A prefetch into a cache without data, of a block other than that at address 0. -/
theorem Inv.prefetch_fetches (hfits : cfg.TagFits) (h : cp.Inv) (myrand : Nat → Nat)
    (hballoc : cfg.balloc = false) (ha : cfg.cacheBaddr a ≠ 0) (habsent : ¬ cp.Resident a) :
    ∃ p cp', cp.prefetch myrand a = .ok cp' ∧ cp.Fetched a p cp' := by
  have hne : a ≠ 0 := by
    rintro rfl
    exact ha BitVec.zero_and
  have hfine : ¬ (cfg.balloc = true ∨ cp.lastBlk = none ∧ cfg.cacheBaddr a = 0) := by
    rintro (hb | ⟨-, hzero⟩)
    · exact Bool.false_ne_true (hballoc.symm.trans hb)
    · exact ha hzero
  obtain ⟨cp', hok, -, way, hmiss⟩ := h.miss_of_prefetch hfits myrand habsent
  obtain ⟨cp₁, hcount, hqueue, -⟩ := queue_of_miss hok
  obtain rfl : { cp with stats := cp.stats.countMiss .Read true } = cp₁ := Except.ok.inj hcount
  rw [h.prefetch_absent hfits myrand hne habsent, if_neg hfine]
  exact ⟨_, cp', hok, hmiss.fetched hfits hqueue⟩

end CacheT

/-! ## Counters -/

namespace Stats

variable (stats : Stats) (cmd : MemCmd) (fetch : Bool) (b : Blk)

/-- The number of accesses that are no prefetches. -/
def demands : Nat := stats.hits + stats.misses

/-- The number of reads among them. -/
def reads : Nat := stats.readHits + stats.readMisses

/-- The counters of prefetches. -/
def prefetches : Nat × Nat := (stats.prefetchHits, stats.prefetchMisses)

theorem demands_replace : (stats.replace b).demands = stats.demands := by
  rw [replace]
  split <;> rfl

theorem reads_replace : (stats.replace b).reads = stats.reads := by
  rw [replace]
  split <;> rfl

theorem prefetches_replace : (stats.replace b).prefetches = stats.prefetches := by
  rw [replace]
  split <;> rfl

theorem demands_count_hit :
    (stats.countHit cmd fetch).demands = stats.demands + if fetch then 0 else 1 := by
  cases fetch with
  | true => rfl
  | false => exact Nat.add_right_comm ..

theorem demands_count_miss :
    (stats.countMiss cmd fetch).demands = stats.demands + if fetch then 0 else 1 := by
  cases fetch <;> rfl

theorem reads_count_hit : (stats.countHit cmd fetch).reads =
    stats.reads + if fetch = false ∧ cmd = .Read then 1 else 0 := by
  cases fetch with
  | true => rfl
  | false =>
      cases cmd with
      | Read => exact Nat.add_right_comm ..
      | Write => rfl

theorem reads_count_miss : (stats.countMiss cmd fetch).reads =
    stats.reads + if fetch = false ∧ cmd = .Read then 1 else 0 := by
  cases fetch with
  | true => rfl
  | false => cases cmd <;> rfl

end Stats

namespace CacheT

variable {cp cp' cp₁ : CacheT cfg} {myrand : Nat → Nat} {cmd : MemCmd} {pc addr nbytes a : Addr}
variable {fetch : Bool} {target : Option Addr}

/-- Every access that is no prefetch is counted once, as a hit or as a miss. -/
theorem Access.counts (haccess : cp.Access cmd addr fetch cp') :
    cp'.stats.demands = cp.stats.demands + (if fetch then 0 else 1) ∧
    cp'.stats.reads = cp.stats.reads + if fetch = false ∧ cmd = .Read then 1 else 0 := by
  rcases haccess with ⟨way, hhit⟩ | ⟨way, hmiss⟩
  · rw [hhit.stats]
    exact ⟨Stats.demands_count_hit .., Stats.reads_count_hit ..⟩
  · rw [hmiss.stats, Stats.demands_replace, Stats.reads_replace]
    exact ⟨Stats.demands_count_miss .., Stats.reads_count_miss ..⟩

theorem Access.prefetches (haccess : cp.Access cmd addr false cp') :
    cp'.stats.prefetches = cp.stats.prefetches := by
  rcases haccess with ⟨way, hhit⟩ | ⟨way, hmiss⟩
  · rw [hhit.stats]
    rfl
  · rw [hmiss.stats, Stats.prefetches_replace]
    rfl

/-- A prefetch does nothing or is an access. -/
theorem Inv.prefetch_ok (h : cp.Inv) (hok : cp.prefetch myrand a = .ok cp') :
    cp' = cp ∨ cp'.Inv ∧ ∃ baddr, cp.Access .Read baddr true cp' := by
  rw [prefetch] at hok
  split at hok
  case isTrue => cases hok
  case isFalse =>
    obtain ⟨found, -, hok⟩ := bind_eq_ok.mp hok
    split at hok
    case isTrue => exact Or.inl (Except.ok.inj hok).symm
    case isFalse =>
      obtain ⟨hinv, haccess⟩ := (access_block myrand .Read _ _ true h).of_ok hok
      exact Or.inr ⟨hinv, _, haccess⟩

/-- If the tag fits, that access is a miss. -/
theorem Inv.prefetch_misses (hfits : cfg.TagFits) (h : cp.Inv)
    (hok : cp.prefetch myrand a = .ok cp') :
    cp' = cp ∨ cp'.Inv ∧ ∃ way, cp.Miss .Read (cfg.cacheBaddr a) true way cp' := by
  by_cases ha : a = 0
  · rw [prefetch, if_pos ha] at hok
    cases hok
  · by_cases hres : cp.Resident a
    · rw [h.prefetch_resident hfits myrand ha hres] at hok
      exact Or.inl (Except.ok.inj hok).symm
    · obtain ⟨cp₁, hmiss, hinv, heffect⟩ := h.miss_of_prefetch hfits myrand hres
      rw [h.prefetch_absent hfits myrand ha hres, hmiss] at hok
      split at hok
      · cases hok
      · rw [← Except.ok.inj hok]
        exact Or.inr ⟨hinv, heffect⟩

theorem Inv.prefetch_option_ok (h : cp.Inv) (hok : cp.prefetchOption myrand target = .ok cp') :
    cp' = cp ∨ cp'.Inv ∧ ∃ baddr, cp.Access .Read baddr true cp' := by
  cases target with
  | none => exact Or.inl (Except.ok.inj hok).symm
  | some a => exact h.prefetch_ok hok

theorem Inv.prefetch_option_misses (hfits : cfg.TagFits) (h : cp.Inv)
    (hok : cp.prefetchOption myrand target = .ok cp') :
    cp' = cp ∨ ∃ a way, cp.Miss .Read (cfg.cacheBaddr a) true way cp' := by
  cases target with
  | none => exact Or.inl (Except.ok.inj hok).symm
  | some a => exact (h.prefetch_misses hfits hok).imp_right fun hmiss => ⟨a, hmiss.2⟩

theorem Inv.table_updated (h : cp.Inv) (pc addr : Addr) : (cp.tableUpdated pc addr).Inv := by
  rw [tableUpdated]
  split
  · exact h
  · exact h.update_rpt pc addr

/-- A regular access: an access, and then at most one prefetch. -/
theorem cache_access_ok : cp.cacheAccess myrand pc addr cmd nbytes = .ok cp' ↔
    ∃ cp₁ target, cp.accessBlock myrand cmd addr nbytes false = .ok cp₁ ∧
      cp₁.prefetchTarget pc addr = .ok target ∧
      (cp₁.tableUpdated pc addr).prefetchOption myrand target = .ok cp' := by
  rw [cacheAccess, bind_eq_ok]
  refine exists_congr fun cp₁ => ?_
  rw [generate_prefetch_eq, bind_eq_ok, ← exists_and_left]

/-- What a regular access counts. -/
theorem Inv.cache_access_counts (h : cp.Inv)
    (hok : cp.cacheAccess myrand pc addr cmd nbytes = .ok cp') :
    cp'.Inv ∧ cp'.stats.demands = cp.stats.demands + 1 ∧
    cp'.stats.reads = cp.stats.reads + (if cmd = .Read then 1 else 0) := by
  obtain ⟨cp₁, target, haccess, -, hprefetch⟩ := cache_access_ok.mp hok
  obtain ⟨hinv₁, heffect⟩ := (access_block myrand cmd addr nbytes false h).of_ok haccess
  obtain ⟨hdemands, hreads⟩ := heffect.counts
  have hstats : (cp₁.tableUpdated pc addr).stats = cp₁.stats := by rw [table_updated_eq]
  have hinv₂ := hinv₁.table_updated pc addr
  simp only [true_and] at hreads
  rcases hinv₂.prefetch_option_ok hprefetch with rfl | ⟨hinv, baddr, hfetch⟩
  · rw [hstats]
    exact ⟨hinv₂, hdemands, hreads⟩
  · obtain ⟨hdemands', hreads'⟩ := hfetch.counts
    rw [hstats] at hdemands' hreads'
    exact ⟨hinv, hdemands'.trans hdemands, hreads'.trans hreads⟩

/-- What a regular access counts for its prefetch, if the tag fits. -/
theorem Inv.cache_access_prefetches (hfits : cfg.TagFits) (h : cp.Inv)
    (hok : cp.cacheAccess myrand pc addr cmd nbytes = .ok cp') :
    cp'.stats.prefetchHits = cp.stats.prefetchHits ∧
    cp'.stats.prefetchMisses ≤ cp.stats.prefetchMisses + 1 := by
  obtain ⟨cp₁, target, haccess, -, hprefetch⟩ := cache_access_ok.mp hok
  obtain ⟨hinv₁, heffect⟩ := (access_block myrand cmd addr nbytes false h).of_ok haccess
  obtain ⟨hhits, hmisses⟩ := Prod.mk.inj heffect.prefetches
  have hstats : (cp₁.tableUpdated pc addr).stats = cp₁.stats := by rw [table_updated_eq]
  have hinv₂ := hinv₁.table_updated pc addr
  rcases hinv₂.prefetch_option_misses hfits hprefetch with rfl | ⟨a, way, hmiss⟩
  · rw [hstats]
    exact ⟨hhits, by omega⟩
  · obtain ⟨hhits', hmisses'⟩ := Prod.mk.inj (Stats.prefetches_replace
      (cp₁.stats.countMiss .Read true)
      (((cp₁.tableUpdated pc addr).sets (cfg.setIndex (cfg.cacheBaddr a))).blks way))
    rw [hmiss.stats, hstats]
    refine ⟨hhits'.trans hhits, ?_⟩
    rw [hmisses', ← hmisses]
    exact Nat.le_refl _

/-- Flushes do not count accesses. -/
theorem kept_demands (cfg : Config) (demands reads : Nat) (prefetches : Nat × Nat) :
    KeptByFlush fun cp : CacheT cfg => cp.stats.demands = demands ∧ cp.stats.reads = reads ∧
      cp.stats.prefetches = prefetches := by
  refine ⟨fun cp p _ h _ => ?_, fun cp cp' h _ hstats _ _ => hstats.symm ▸ h⟩
  rw [invalidate_eq]
  exact h

/-- What an operation counts. -/
theorem Inv.apply_counts (h : cp.Inv) {op : Op} (hok : cp.apply myrand op = .ok cp') :
    cp'.Inv ∧
    cp'.stats.demands = cp.stats.demands + (match op with | .access .. => 1 | _ => 0) ∧
    cp'.stats.reads = cp.stats.reads + (match op with | .access .Read .. => 1 | _ => 0) := by
  have hflush := kept_demands cfg cp.stats.demands cp.stats.reads cp.stats.prefetches
  cases op with
  | access cmd pc addr nbytes =>
      have hcounts := h.cache_access_counts hok
      cases cmd <;> exact hcounts
  | flush =>
      obtain ⟨hinv, hd, hr, -⟩ := (hflush.cache_flush h ⟨rfl, rfl, rfl⟩).of_ok hok
      exact ⟨hinv, hd, hr⟩
  | flushAddr addr =>
      obtain ⟨hinv, hd, hr, -⟩ := (hflush.cache_flush_addr h ⟨rfl, rfl, rfl⟩ addr).of_ok hok
      exact ⟨hinv, hd, hr⟩

/-- What an operation counts for its prefetch, if the tag fits. -/
theorem Inv.apply_prefetches (hfits : cfg.TagFits) (h : cp.Inv) {op : Op}
    (hok : cp.apply myrand op = .ok cp') :
    cp'.stats.prefetchHits = cp.stats.prefetchHits ∧
    cp'.stats.prefetchMisses ≤
      cp.stats.prefetchMisses + (match op with | .access .. => 1 | _ => 0) := by
  have hflush := kept_demands cfg cp.stats.demands cp.stats.reads cp.stats.prefetches
  cases op with
  | access cmd pc addr nbytes => exact h.cache_access_prefetches hfits hok
  | flush =>
      obtain ⟨-, -, -, hp⟩ := (hflush.cache_flush h ⟨rfl, rfl, rfl⟩).of_ok hok
      obtain ⟨hhits, hmisses⟩ := Prod.mk.inj hp
      exact ⟨hhits, hmisses.le⟩
  | flushAddr addr =>
      obtain ⟨-, -, -, hp⟩ := (hflush.cache_flush_addr h ⟨rfl, rfl, rfl⟩ addr).of_ok hok
      obtain ⟨hhits, hmisses⟩ := Prod.mk.inj hp
      exact ⟨hhits, hmisses.le⟩

/-- In a run without prefetches from outside, there are no prefetch hits, and at most one prefetch
miss for each access. -/
theorem prefetches_of_run (hfits : cfg.TagFits) {ops : List Op}
    (hrun : runOps cfg myrand ops = .ok cp) :
    cp.stats.prefetchHits = 0 ∧ cp.stats.prefetchMisses ≤ cp.stats.hits + cp.stats.misses := by
  induction ops using List.reverseRecOn generalizing cp with
  | nil =>
      obtain rfl : cacheCreate cfg = cp := Except.ok.inj hrun
      exact ⟨rfl, Nat.le_refl 0⟩
  | append_singleton ops op ih =>
      obtain ⟨cp₀, hrun₀, hok⟩ := (run_ops_concat_ok myrand).mp hrun
      have hinv₀ := Inv.of_run myrand hrun₀
      obtain ⟨-, hdemands, -⟩ := hinv₀.apply_counts hok
      obtain ⟨hhits, hmisses⟩ := hinv₀.apply_prefetches hfits hok
      obtain ⟨hzero, hle⟩ := ih hrun₀
      refine ⟨hhits.trans hzero, hmisses.trans ?_⟩
      show _ ≤ cp.stats.demands
      rw [hdemands]
      exact Nat.add_le_add_right hle _

/-! ## Tags that do not fit -/

/-- The address that a prefetch of the marked byte rebuilds is misaligned. -/
theorem check_marked_byte (hfits : ¬ cfg.TagFits) :
    checkAccess cfg (cfg.cacheMkBaddr (cfg.cacheTag cfg.markedByte) (cfg.cacheSet cfg.markedByte))
      (BitVec.ofNat 32 cfg.bsize) = .error .alignment := by
  have hlt := Config.mod_lt_set_shift hfits
  have hwidth : cfg.tagShift % 32 < 32 := Nat.mod_lt _ (by decide)
  rw [checkAccess, if_pos (Or.inr fun hzero => ?_)]
  have hbit := congrArg (fun v => BitVec.getLsbD v (cfg.tagShift % 32)) hzero
  rw [bsize_sub_one] at hbit
  simp only [Config.cacheMkBaddr, BitVec.getLsbD_and, BitVec.getLsbD_or, BitVec.getLsbD_shiftLeft,
    Config.tag_bit, Config.marked_byte_bit, Config.blk_mask_bit, hwidth, hlt] at hbit
  simp at hbit

/-- A prefetch of the marked byte stops, in a new cache. -/
theorem prefetch_marked_byte (hfits : ¬ cfg.TagFits) (myrand : Nat → Nat) :
    cfg.cacheBaddr cfg.markedByte ≠ 0 ∧ ¬ (cacheCreate cfg).Resident cfg.markedByte ∧
    ∀ cp, (cacheCreate cfg).prefetch myrand cfg.markedByte ≠ .ok cp := by
  have hbaddr : cfg.cacheBaddr cfg.markedByte ≠ 0 := by
    have hset := @Config.set_shift_lt cfg
    rw [Config.baddr_marked_byte hfits]
    intro hzero
    have hbit := congrArg (fun v => v.getLsbD cfg.setShift) hzero
    simp [show cfg.setShift < 32 by omega] at hbit
  refine ⟨hbaddr, not_resident_created _, fun cp hok => ?_⟩
  have hne : cfg.markedByte ≠ 0 := fun hzero => hbaddr (by rw [hzero]; exact BitVec.zero_and)
  rw [prefetch, if_neg hne] at hok
  obtain ⟨found, hprobe, hok⟩ := bind_eq_ok.mp hok
  obtain ⟨way, hprobe', hway⟩ := inv_create.cache_probe
    (cfg.cacheMkBaddr (cfg.cacheTag cfg.markedByte) (cfg.cacheSet cfg.markedByte))
  obtain rfl := Except.ok.inj (hprobe.symm.trans hprobe')
  cases way with
  | some w => exact not_resident_created _ ⟨w, (hway w).mp rfl⟩
  | none =>
      obtain ⟨⟨⟩, hcheck, -⟩ := bind_eq_ok.mp hok
      rw [check_marked_byte hfits] at hcheck
      cases hcheck

/-! ## Main result -/

/-- The prefetch of a block other than that at address 0 leaves the cache unchanged if the block is
in it, and otherwise fills one block, which ends up clean. No run has prefetch hits, a block twice,
or more prefetch misses than accesses. -/
def PrefetchLaw (cfg : Config) (myrand : Nat → Nat) : Prop :=
  (∀ cp : CacheT cfg, (moves cfg myrand).Reachable cp → ∀ a, cfg.cacheBaddr a ≠ 0 →
    (cp.Resident a → cp.prefetch myrand a = .ok cp) ∧
    (¬ cp.Resident a →
      ∃ p cp', cp.prefetch myrand a = .ok cp' ∧ cp'.Resident a ∧ cp.Fetched a p cp')) ∧
  ∀ ops cp, runOps cfg myrand ops = .ok cp →
    cp.stats.prefetchHits = 0 ∧
    (∀ i w w', ((cp.sets i).blks w).valid → ((cp.sets i).blks w').valid →
      ((cp.sets i).blks w).tag = ((cp.sets i).blks w').tag → w = w') ∧
    cp.stats.prefetchMisses ≤ cp.stats.hits + cp.stats.misses

theorem prefetch_law_of_fits (hfits : cfg.TagFits) (hballoc : cfg.balloc = false)
    (myrand : Nat → Nat) : PrefetchLaw cfg myrand := by
  refine ⟨fun cp h a ha => ⟨fun hres => ?_, fun habsent => ?_⟩, fun ops cp hrun => ?_⟩
  · have hne : a ≠ 0 := by
      rintro rfl
      exact ha BitVec.zero_and
    exact (Inv.of_reachable myrand h).prefetch_resident hfits myrand hne hres
  · obtain ⟨p, cp', hok, heffect⟩ :=
      (Inv.of_reachable myrand h).prefetch_fetches hfits myrand hballoc ha habsent
    refine ⟨p, cp', hok, ⟨p.2, CacheSet.holds_iff.mpr ?_⟩, heffect⟩
    have hfilled := heffect.filled
    rw [blk, heffect.set] at hfilled
    rw [hfilled]
    exact ⟨rfl, rfl⟩
  · obtain ⟨hhits, hmisses⟩ := prefetches_of_run hfits hrun
    exact ⟨hhits, fun i => ((Inv.of_run myrand hrun).sets i).unique, hmisses⟩

/-- A cache without data meets the law of prefetches if and only if the tag of its geometry fits. -/
theorem prefetch_effect (hballoc : cfg.balloc = false) (myrand : Nat → Nat) :
    PrefetchLaw cfg myrand ↔ cfg.TagFits := by
  constructor
  · intro hlaw
    by_contra hfits
    obtain ⟨hbaddr, habsent, hstops⟩ := prefetch_marked_byte hfits myrand
    obtain ⟨p, cp', hok, -⟩ := (hlaw.1 (cacheCreate cfg) (.init rfl) _ hbaddr).2 habsent
    exact hstops cp' hok
  · intro hfits
    exact prefetch_law_of_fits hfits hballoc myrand

end CacheT

/-- A cache with the next-line prefetcher. -/
def nextLine : Config :=
  { directMapped with prefetchType := 1, prefetch_type_lt := directMapped.assoc_lt }

/-- A cache with the next-line prefetcher whose tag does not fit. -/
def hugeNextLine : Config :=
  { hugeBlocks with prefetchType := 1, prefetch_type_lt := directMapped.assoc_lt }

/-- A prefetch into a new cache. -/
theorem prefetch_effect_at_64 : ∃ p cp',
    (cacheCreate nextLine).prefetch (fun _ => 0) 64 = .ok cp' ∧ cp'.Resident 64 ∧
      (cacheCreate nextLine).Fetched 64 p cp' := by
  have hballoc : nextLine.balloc = false := rfl
  have hfits : nextLine.TagFits := by decide
  have heffect := ((CacheT.prefetch_effect hballoc fun _ => 0).mpr hfits).1
  exact (heffect _ (.init rfl) 64 (by decide)).2 (CacheT.not_resident_created 64)

/-- With blocks of 2^30 bytes, the prefetch of the next line rebuilds a misaligned address. -/
theorem prefetch_misaligned :
    (¬ ∀ (cfg : Config) (myrand : Nat → Nat), cfg.balloc = false →
      CacheT.PrefetchLaw cfg myrand) ∧
    (cacheCreate hugeNextLine).prefetch (fun _ => 0) 0x80010004 = .error .alignment ∧
    runOps hugeNextLine (fun _ => 0) [.access .Read 0 0x40010004 4] = .error .alignment := by
  have hstops : (cacheCreate hugeNextLine).prefetch (fun _ => 0) 0x80010004 =
      .error .alignment := rfl
  refine ⟨fun hall => ?_, hstops, rfl⟩
  have hlaw := (hall hugeNextLine (fun _ => 0) rfl).1 _ (.init rfl) 0x80010004 (by decide)
  obtain ⟨p, cp', hok, -⟩ := hlaw.2 (CacheT.not_resident_created _)
  exact nomatch hstops.symm.trans hok

end Ece552.Cache
