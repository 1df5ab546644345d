import Ece552.Cache.Machine

/-!
# What an access does

The invariant of the cache and the effect of an access on it, without pointers: an access either
hits a valid block or replaces a block. Read `access_block` first. If the tag fits, the block that
is hit holds the tag of the access, and the fast path does what the search would do; otherwise the
fast path may hit a block of another tag.
-/

namespace Ece552.Cache

open Library

variable {cfg : Config}

/-- A failed assertion of the functions on way lists and hash chains, or an endless loop. -/
def Fault.internal : Fault → Bool
  | .unlinkHtabEnt | .updateWayList | .endlessLoop => true
  | _ => false

/-- The other faults. -/
def Outside (f : Fault) : Prop := f.internal = false

/-- A block after it has served an access. -/
def Blk.after (b : Blk) (cmd : MemCmd) : Blk := { b with dirty := b.dirty || decide (cmd = .Write) }

/-- The counters after a block is replaced. -/
def Stats.replace (stats : Stats) (b : Blk) : Stats :=
  if b.valid then
    { stats with
      replacements := stats.replacements + 1
      writebacks := if b.dirty then stats.writebacks + 1 else stats.writebacks }
  else stats

theorem Stats.replace_writebacks (stats : Stats) (b : Blk) : (stats.replace b).writebacks =
    if b.valid then if b.dirty then stats.writebacks + 1 else stats.writebacks
    else stats.writebacks := by
  rw [replace]
  split <;> rfl

@[simp] theorem Stats.count_hit_writebacks (stats : Stats) (cmd : MemCmd) (fetch : Bool) :
    (stats.countHit cmd fetch).writebacks = stats.writebacks := by
  rw [countHit]
  split <;> rfl

@[simp] theorem Stats.count_miss_writebacks (stats : Stats) (cmd : MemCmd) (fetch : Bool) :
    (stats.countMiss cmd fetch).writebacks = stats.writebacks := by
  rw [countMiss]
  split <;> rfl

namespace CacheT

variable {cp cp' : CacheT cfg} {i j : Fin cfg.nsets} {s s' : CacheSet cfg} {p : BlkPtr cfg}
variable {myrand : Nat → Nat} {cmd : MemCmd} {addr nbytes : Addr} {fetch : Bool}

/-! ## Changing a set -/

@[simp] theorem set_set_self (cp : CacheT cfg) (i : Fin cfg.nsets) (s : CacheSet cfg) :
    (cp.setSet i s).sets i = s := Function.update_self ..

theorem set_set_of_ne (h : j ≠ i) : (cp.setSet i s).sets j = cp.sets j :=
  Function.update_of_ne h _ _

@[simp] theorem set_set_set_set (cp : CacheT cfg) (i : Fin cfg.nsets) (s s' : CacheSet cfg) :
    (cp.setSet i s).setSet i s' = cp.setSet i s' := by
  rw [setSet, setSet, setSet, Function.update_idem]

@[simp] theorem set_set_eq_self (cp : CacheT cfg) (i : Fin cfg.nsets) :
    cp.setSet i (cp.sets i) = cp := by
  rw [setSet, Function.update_eq_self]

/-- The blocks of a cache in which one block was changed. -/
theorem blk_of_update {way : Way cfg} {b : Blk}
    (hblks : (cp'.sets i).blks = Function.update (cp.sets i).blks way b)
    (hothers : ∀ j, j ≠ i → cp'.sets j = cp.sets j) (p : BlkPtr cfg) :
    cp'.blk p = if p = (i, way) then b else cp.blk p := by
  obtain ⟨j, w⟩ := p
  show (cp'.sets j).blks w = if (j, w) = (i, way) then b else (cp.sets j).blks w
  by_cases hj : j = i
  · subst hj
    rw [hblks, Function.update_apply]
    simp only [Prod.mk.injEq, true_and]
  · rw [hothers j hj, if_neg fun heq => hj (Prod.mk.inj heq).1]

/-! ## The invariant -/

/-- What holds of a cache between accesses and flushes. -/
structure Inv (cp : CacheT cfg) : Prop where
  sets : ∀ i, (cp.sets i).WellFormed
  /-- without a last block, the last tag and set are 0 -/
  reset : cp.lastBlk = none → cp.lastTagset = 0
  /-- the last block is a valid one of the set of the last address -/
  last : ∀ p, cp.lastBlk = some p →
    p.1 = cfg.setIndex cp.lastTagset ∧ ((cp.sets p.1).blks p.2).valid = true
  /-- if the tag fits, it is the one for the last tag -/
  tag : cfg.TagFits → ∀ p, cp.lastBlk = some p →
    (cp.sets p.1).holds (cfg.cacheTag cp.lastTagset) p.2 = true
  /-- under LRU it is the most recently used one -/
  recent : ∀ p, cp.lastBlk = some p → cfg.policy = .LRU → (cp.sets p.1).order.head? = some p.2

/-- Without a last block, only the sets matter. -/
theorem inv_of_sets (hsets : ∀ i, (cp.sets i).WellFormed) (hlast : cp.lastBlk = none)
    (htagset : cp.lastTagset = 0) : cp.Inv := by
  refine ⟨hsets, fun _ => htagset, fun p hp => ?_, fun _ p hp => ?_, fun p hp _ => ?_⟩
  · exact nomatch hlast.symm.trans hp
  · exact nomatch hlast.symm.trans hp
  · exact nomatch hlast.symm.trans hp

/-- The blocks of a new cache are not valid. -/
theorem valid_created (i : Fin cfg.nsets) (w : Way cfg) :
    (((cacheCreate cfg).sets i).blks w).valid = false := by
  show ((CacheSet.created cfg).blks w).valid = false
  rw [CacheSet.created_blks]

theorem inv_create : (cacheCreate cfg).Inv :=
  inv_of_sets (fun _ => CacheSet.well_formed_created) rfl rfl

/-- Addresses of one block have the same set and tag. -/
theorem tagset_eq_iff (hfits : cfg.TagFits) {addr' : Addr} :
    cfg.cacheTagset addr = cfg.cacheTagset addr' ↔
      cfg.cacheTag addr = cfg.cacheTag addr' ∧ cfg.setIndex addr = cfg.setIndex addr' := by
  rw [Config.set_index_eq_iff]
  exact Config.baddr_eq_iff hfits

/-- The set of an address is that of its tag and set. -/
theorem set_index_tagset (addr : Addr) :
    cfg.setIndex (cfg.cacheTagset addr) = cfg.setIndex addr :=
  (Config.set_index_eq_iff cfg).mpr (cfg.set_baddr addr)

/-- The fast path is for a block of the set of the address. -/
theorem Inv.last_set (h : cp.Inv) (hp : cp.lastBlk = some p)
    (htagset : cfg.cacheTagset addr = cp.lastTagset) : p.1 = cfg.setIndex addr := by
  rw [(h.last p hp).1, ← htagset, set_index_tagset]

/-- If the tag fits, the last block is the one that an access to its block finds. -/
theorem Inv.last_holds (hfits : cfg.TagFits) (h : cp.Inv) (hp : cp.lastBlk = some p)
    (htagset : cfg.cacheTagset addr = cp.lastTagset) :
    (cp.sets p.1).holds (cfg.cacheTag addr) p.2 = true := by
  have htag : cfg.cacheTag (cfg.cacheTagset addr) = cfg.cacheTag addr :=
    Config.tag_baddr hfits addr
  rw [← htag, htagset]
  exact h.tag hfits p hp

/-! ## Hits -/

theorem serve_eq (cp : CacheT cfg) (p : BlkPtr cfg) (cmd : MemCmd) (addr : Addr) :
    cp.serve p cmd addr =
      { cp.setBlk p ((cp.blk p).after cmd) with log := cp.log ++ [.serve p cmd addr] } := by
  cases cmd with
  | Read =>
      have hblk : (cp.blk p).after .Read = cp.blk p := by
        rw [Blk.after, show decide (MemCmd.Read = .Write) = false from rfl, Bool.or_false]
      have hset : cp.setBlk p (cp.blk p) = cp := by
        rw [setBlk, CacheSet.setBlk, blk, Function.update_eq_self, set_set_eq_self]
      rw [hblk, hset]
      rfl
  | Write =>
      have hblk : (cp.blk p).after .Write = { cp.blk p with dirty := true } := by
        rw [Blk.after, show decide (MemCmd.Write = .Write) = true from rfl, Bool.or_true]
      rw [hblk]
      rfl

/-- The effect of an access that hits a valid block. That block has the tag of the access if the tag
fits, or if the access does not take the fast path. -/
structure Hit (cp : CacheT cfg) (cmd : MemCmd) (addr : Addr) (fetch : Bool) (way : Way cfg)
    (cp' : CacheT cfg) : Prop where
  valid : ((cp.sets (cfg.setIndex addr)).blks way).valid = true
  found : cfg.TagFits ∨ cfg.cacheTagset addr ≠ cp.lastTagset →
    (cp.sets (cfg.setIndex addr)).holds (cfg.cacheTag addr) way = true
  blks : (cp'.sets (cfg.setIndex addr)).blks =
    Function.update (cp.sets (cfg.setIndex addr)).blks way
      (((cp.sets (cfg.setIndex addr)).blks way).after cmd)
  order : (cp'.sets (cfg.setIndex addr)).order =
    if cfg.policy = .LRU then way :: (cp.sets (cfg.setIndex addr)).order.erase way
    else (cp.sets (cfg.setIndex addr)).order
  others : ∀ j, j ≠ cfg.setIndex addr → cp'.sets j = cp.sets j
  stats : cp'.stats = cp.stats.countHit cmd fetch
  log : cp'.log = cp.log ++ [.serve (cfg.setIndex addr, way) cmd addr]
  lastTagset : cp'.lastTagset = cfg.cacheTagset addr
  lastBlk : cp'.lastBlk = some (cfg.setIndex addr, way)
  rpt : cp'.rpt = cp.rpt

/-- A block without a predecessor is at the head of the list. -/
theorem prev_is_none_iff (h : s.WellFormed) (w : Way cfg) :
    s.way.prev w = none ↔ s.order.head? = some w := by
  obtain ⟨pre, post, horder⟩ := List.append_of_mem (h.all w)
  have hlinked := h.linked
  have hnodup := hlinked.nodup
  rw [horder] at hlinked hnodup ⊢
  rw [hlinked.prev_eq]
  cases pre with
  | nil => simp
  | cons first pre =>
      have hne : first ≠ w := by
        rintro rfl
        simp at hnodup
      simp [hne]

/-- Under LRU, the reordering puts the block at the head of the list. -/
theorem reorder_eq (h : (cp.sets p.1).WellFormed) :
    ∃ s, cp.reorder p = .ok (cp.setSet p.1 s) ∧ s.WellFormed ∧
      s.blks = (cp.sets p.1).blks ∧
      s.order = if cfg.policy = .LRU then p.2 :: (cp.sets p.1).order.erase p.2
        else (cp.sets p.1).order := by
  by_cases hpolicy : cfg.policy = .LRU
  · by_cases hprev : (cp.sets p.1).way.prev p.2 = none
    · refine ⟨cp.sets p.1, ?_, h, rfl, ?_⟩
      · rw [reorder, hprev, set_set_eq_self]
        rfl
      · obtain ⟨rest, horder⟩ := List.head?_eq_some_iff.mp ((prev_is_none_iff h p.2).mp hprev)
        rw [if_pos hpolicy, horder, List.erase_cons_head]
    · obtain ⟨way, hok, hformed, horder⟩ := h.move p.2 .Head
      refine ⟨_, ?_, hformed, rfl, ?_⟩
      · rw [reorder, if_pos ⟨Option.isSome_iff_ne_none.mpr hprev, hpolicy⟩, hok]
        rfl
      · rw [if_pos hpolicy, horder]
        rfl
  · refine ⟨cp.sets p.1, ?_, h, rfl, (if_neg hpolicy).symm⟩
    rw [reorder, if_neg fun hboth => hpolicy hboth.2, set_set_eq_self]

/-- A hit keeps the invariant, if the set is still well formed. -/
theorem Hit.inv {way : Way cfg} (hhit : cp.Hit cmd addr fetch way cp') (h : cp.Inv)
    (hformed : (cp'.sets (cfg.setIndex addr)).WellFormed) : cp'.Inv := by
  have hlast : ∀ p, cp'.lastBlk = some p → p = (cfg.setIndex addr, way) := fun p hp =>
    (Option.some.inj (hhit.lastBlk.symm.trans hp)).symm
  refine ⟨fun j => ?_, fun hnone => ?_, fun p hp => ?_, fun hfits p hp => ?_,
    fun p hp hpolicy => ?_⟩
  · by_cases hj : j = cfg.setIndex addr
    · rw [hj]
      exact hformed
    · rw [hhit.others j hj]
      exact h.sets j
  · exact nomatch hhit.lastBlk.symm.trans hnone
  · rw [hlast p hp, hhit.lastTagset, set_index_tagset]
    refine ⟨rfl, ?_⟩
    rw [hhit.blks, Function.update_self]
    exact hhit.valid
  · have htag : cfg.cacheTag (cfg.cacheTagset addr) = cfg.cacheTag addr :=
      Config.tag_baddr hfits addr
    have hfound := hhit.found (Or.inl hfits)
    rw [hlast p hp, hhit.lastTagset, htag]
    rw [CacheSet.holds_iff] at hfound ⊢
    rw [hhit.blks, Function.update_self]
    exact hfound
  · rw [hlast p hp, hhit.order, if_pos hpolicy]
    rfl

/-- The set of the block that serves an access. -/
theorem serve_sets (cp : CacheT cfg) (p : BlkPtr cfg) (cmd : MemCmd) (addr : Addr) :
    (cp.serve p cmd addr).sets p.1 = (cp.sets p.1).setBlk p.2 ((cp.blk p).after cmd) := by
  rw [serve_eq]
  exact set_set_self _ _ _

/-- What both hit handlers leave: the block has served the access, and the way list of its set is
in the order of the policy. -/
theorem hit_of_served {way : Way cfg} {served : CacheT cfg} (h : cp.Inv)
    (hserved : served = CacheT.serve { cp with stats := cp.stats.countHit cmd fetch }
      (cfg.setIndex addr, way) cmd addr)
    (hvalid : ((cp.sets (cfg.setIndex addr)).blks way).valid = true)
    (hfound : cfg.TagFits ∨ cfg.cacheTagset addr ≠ cp.lastTagset →
      (cp.sets (cfg.setIndex addr)).holds (cfg.cacheTag addr) way = true)
    (hs : s.WellFormed) (hblks : s.blks = (served.sets (cfg.setIndex addr)).blks)
    (horder : s.order = if cfg.policy = .LRU
      then way :: (cp.sets (cfg.setIndex addr)).order.erase way
      else (cp.sets (cfg.setIndex addr)).order) :
    ((served.setSet (cfg.setIndex addr) s).recordLast addr (cfg.setIndex addr, way)).Inv ∧
      cp.Hit cmd addr fetch way
        ((served.setSet (cfg.setIndex addr) s).recordLast addr (cfg.setIndex addr, way)) := by
  have hserve := hserved.trans (serve_eq _ (cfg.setIndex addr, way) cmd addr)
  have hset : served.sets (cfg.setIndex addr) = (cp.sets (cfg.setIndex addr)).setBlk way
      (((cp.sets (cfg.setIndex addr)).blks way).after cmd) := by
    rw [hserved]
    exact serve_sets _ (cfg.setIndex addr, way) cmd addr
  have hhit : cp.Hit cmd addr fetch way
      ((served.setSet (cfg.setIndex addr) s).recordLast addr (cfg.setIndex addr, way)) := by
    refine ⟨hvalid, hfound, ?_, ?_, fun j hj => ?_, ?_, ?_, rfl, rfl, ?_⟩
    · show ((served.setSet (cfg.setIndex addr) s).sets (cfg.setIndex addr)).blks = _
      rw [set_set_self, hblks, hset]
      rfl
    · show ((served.setSet (cfg.setIndex addr) s).sets (cfg.setIndex addr)).order = _
      rw [set_set_self, horder]
    · show (served.setSet (cfg.setIndex addr) s).sets j = cp.sets j
      rw [set_set_of_ne hj, hserve]
      exact set_set_of_ne hj
    all_goals
      rw [hserve]
      rfl
  refine ⟨hhit.inv h ?_, hhit⟩
  show ((served.setSet (cfg.setIndex addr) s).sets (cfg.setIndex addr)).WellFormed
  rwa [set_set_self]

/-- A block that serves an access leaves its set well formed. -/
theorem served_well_formed {served : CacheT cfg} (h : cp.Inv)
    (hserved : served = CacheT.serve { cp with stats := cp.stats.countHit cmd fetch } p cmd addr) :
    (served.sets p.1).WellFormed ∧ (served.sets p.1).order = (cp.sets p.1).order := by
  rw [hserved, serve_sets]
  exact ⟨(h.sets _).set_blk rfl id, rfl⟩

/-- The slow hit handler. -/
theorem cache_hit {way : Way cfg} (h : cp.Inv)
    (hfound : (cp.sets (cfg.setIndex addr)).holds (cfg.cacheTag addr) way = true) :
    ∃ cp', cp.cacheHit cmd addr (cfg.setIndex addr, way) fetch = .ok cp' ∧ cp'.Inv ∧
      cp.Hit cmd addr fetch way cp' := by
  obtain ⟨served, hserved⟩ : ∃ served, served = CacheT.serve
    { cp with stats := cp.stats.countHit cmd fetch } (cfg.setIndex addr, way) cmd addr := ⟨_, rfl⟩
  obtain ⟨hformed, hsame⟩ := served_well_formed h hserved
  obtain ⟨s, hreorder, hs, hblks, horder⟩ := reorder_eq (p := (cfg.setIndex addr, way)) hformed
  rw [hsame] at horder
  refine ⟨_, ?_, hit_of_served h hserved (CacheSet.holds_iff.mp hfound).2 (fun _ => hfound) hs
    hblks horder⟩
  rw [cacheHit, ← hserved, hreorder]
  rfl

/-- The fast hit handler. Under LRU the last block is at the head of the list already. -/
theorem cache_fast_hit (cmd : MemCmd) (fetch : Bool) (h : cp.Inv) (hp : cp.lastBlk = some p)
    (htagset : cfg.cacheTagset addr = cp.lastTagset) :
    (cp.cacheFastHit cmd addr p fetch).Inv ∧
      cp.Hit cmd addr fetch p.2 (cp.cacheFastHit cmd addr p fetch) := by
  obtain ⟨i, way⟩ := p
  obtain rfl : i = cfg.setIndex addr := h.last_set hp htagset
  obtain ⟨served, hserved⟩ : ∃ served, served = CacheT.serve
    { cp with stats := cp.stats.countHit cmd fetch } (cfg.setIndex addr, way) cmd addr := ⟨_, rfl⟩
  obtain ⟨hformed, hsame⟩ := served_well_formed h hserved
  have horder : (served.sets (cfg.setIndex addr)).order = if cfg.policy = .LRU
      then way :: (cp.sets (cfg.setIndex addr)).order.erase way
      else (cp.sets (cfg.setIndex addr)).order := by
    split
    case isTrue hpolicy =>
      obtain ⟨rest, hrest⟩ := List.head?_eq_some_iff.mp (h.recent _ hp hpolicy)
      rw [hsame, hrest, List.erase_cons_head]
    case isFalse => exact hsame
  have hfound : cfg.TagFits ∨ cfg.cacheTagset addr ≠ cp.lastTagset →
      (cp.sets (cfg.setIndex addr)).holds (cfg.cacheTag addr) way = true := fun hsearched =>
    hsearched.elim (fun hfits => h.last_holds hfits hp htagset) fun hne => absurd htagset hne
  have hboth := hit_of_served h hserved (h.last _ hp).2 hfound hformed rfl horder
  rw [set_set_eq_self, hserved] at hboth
  exact hboth

/-! ## Misses -/

/-- The record of the write back of a block, if it is dirty. -/
def writeBackLog (p : BlkPtr cfg) (b : Blk) : List (Event cfg) :=
  .drop p ::
    if b.dirty then [.call .Write (cfg.cacheMkBaddr b.tag (cfg.setAddr p.1)) cfg.bsize] else []

/-- The record of the replacement of a block. -/
def replaceLog (p : BlkPtr cfg) (b : Blk) : List (Event cfg) :=
  if b.valid then writeBackLog p b else []

/-- The record of the filling of a block. -/
def fillLog (p : BlkPtr cfg) (cmd : MemCmd) (addr : Addr) : List (Event cfg) :=
  [.fill p addr, .call .Read (cfg.cacheBaddr addr) cfg.bsize, .serve p cmd addr]

/-- The effect of an access that misses. -/
structure Miss (cp : CacheT cfg) (cmd : MemCmd) (addr : Addr) (fetch : Bool) (way : Way cfg)
    (cp' : CacheT cfg) : Prop where
  absent : ∀ w, (cp.sets (cfg.setIndex addr)).holds (cfg.cacheTag addr) w = false
  victim : cfg.policy ≠ .Random → (cp.sets (cfg.setIndex addr)).order.getLast? = some way
  blks : (cp'.sets (cfg.setIndex addr)).blks =
    Function.update (cp.sets (cfg.setIndex addr)).blks way
      ⟨cfg.cacheTag addr, true, decide (cmd = .Write)⟩
  order : (cp'.sets (cfg.setIndex addr)).order =
    if cfg.policy = .Random then (cp.sets (cfg.setIndex addr)).order
    else way :: (cp.sets (cfg.setIndex addr)).order.erase way
  others : ∀ j, j ≠ cfg.setIndex addr → cp'.sets j = cp.sets j
  stats : cp'.stats =
    (cp.stats.countMiss cmd fetch).replace ((cp.sets (cfg.setIndex addr)).blks way)
  log : cp'.log = cp.log ++
    replaceLog (cfg.setIndex addr, way) ((cp.sets (cfg.setIndex addr)).blks way) ++
    fillLog (cfg.setIndex addr, way) cmd addr
  lastTagset : cp'.lastTagset = 0
  lastBlk : cp'.lastBlk = none
  rpt : cp'.rpt = cp.rpt

/-- A miss keeps the invariant, if the set is still well formed. -/
theorem Miss.inv {way : Way cfg} (hmiss : cp.Miss cmd addr fetch way cp') (h : cp.Inv)
    (hformed : (cp'.sets (cfg.setIndex addr)).WellFormed) : cp'.Inv := by
  refine inv_of_sets (fun j => ?_) hmiss.lastBlk hmiss.lastTagset
  by_cases hj : j = cfg.setIndex addr
  · rw [hj]
    exact hformed
  · rw [hmiss.others j hj]
    exact h.sets j

/-- Nothing changes but one set, the random numbers and the miss queue. -/
structure Within (cp : CacheT cfg) (i : Fin cfg.nsets) (cp' : CacheT cfg) : Prop where
  others : ∀ j, j ≠ i → cp'.sets j = cp.sets j
  stats : cp'.stats = cp.stats
  log : cp'.log = cp.log
  rpt : cp'.rpt = cp.rpt

theorem within_set_set (cp : CacheT cfg) (i : Fin cfg.nsets) (s : CacheSet cfg) :
    cp.Within i (cp.setSet i s) := ⟨fun _ hj => set_set_of_ne hj, rfl, rfl, rfl⟩

/-- Why an access that misses stops. -/
def MissFault (cp : CacheT cfg) (addr : Addr) (fetch : Bool) (f : Fault) : Prop :=
  f = .missQueue ∧ cfg.prefetchType = 2 ∧ fetch = false ∧
    (addr = 0 ∨ ¬ cp.insertHead + cp.missQueueSize < 2 ^ 31) ∧
    ∀ w, (cp.sets (cfg.setIndex addr)).holds (cfg.cacheTag addr) w = false

theorem count_miss (cmd : MemCmd) (fetch : Bool)
    (habsent : ∀ w, (cp.sets (cfg.setIndex addr)).holds (cfg.cacheTag addr) w = false) :
    Ensures (cp.MissFault addr fetch)
      (fun cp' => cp'.sets = cp.sets ∧ cp'.stats = cp.stats.countMiss cmd fetch ∧
        cp'.log = cp.log ∧ cp'.rpt = cp.rpt) (cp.countMiss cmd addr fetch) := by
  rw [countMiss]
  split
  case isTrue hqueue =>
    rw [Bool.and_eq_true, Bool.not_eq_true', decide_eq_true_eq] at hqueue
    rw [missQueueInsert]
    split
    case isTrue => exact ⟨rfl, rfl, rfl, rfl⟩
    case isFalse hfails =>
      refine ⟨rfl, hqueue.2, hqueue.1, or_iff_not_imp_left.mpr fun haddr hroom => ?_, habsent⟩
      exact hfails ⟨haddr, hqueue.2, hroom⟩
  case isFalse => exact ⟨rfl, rfl, rfl, rfl⟩

/-- The block to replace, which goes to the head of the way list unless it was chosen at random. -/
theorem select_victim (myrand : Nat → Nat) (h : (cp.sets i).WellFormed) :
    ∃ way cp', cp.selectVictim myrand i = .ok (way, cp') ∧ cp.Within i cp' ∧
      (cp'.sets i).WellFormed ∧ (cp'.sets i).blks = (cp.sets i).blks ∧
      (cfg.policy ≠ .Random → (cp.sets i).order.getLast? = some way) ∧
      (cp'.sets i).order = if cfg.policy = .Random then (cp.sets i).order
        else way :: (cp.sets i).order.erase way := by
  by_cases hpolicy : cfg.policy = .Random
  · refine ⟨randomWay cfg (myrand cp.draws), { cp with draws := cp.draws + 1 }, ?_,
      ⟨fun _ _ => rfl, rfl, rfl, rfl⟩, h, rfl, fun hne => absurd hpolicy hne, (if_pos hpolicy).symm⟩
    rw [selectVictim, hpolicy]
  · have hne : (cp.sets i).order ≠ [] := by
      have hlength := h.length_order
      have hpos := cfg.assoc_ok.1
      intro hnil
      rw [hnil, List.length_nil] at hlength
      omega
    have hlast := List.getLast?_eq_some_getLast hne
    generalize (cp.sets i).order.getLast hne = way at hlast
    have htail : (cp.sets i).way.tail = some way := by rw [h.linked.tail_eq, hlast]
    obtain ⟨list, hok, hformed, horder⟩ := h.move way .Head
    refine ⟨way, cp.setSet i { cp.sets i with way := list }, ?_, within_set_set cp i _, ?_, ?_,
      fun _ => hlast, ?_⟩
    · rw [selectVictim]
      cases hp : cfg.policy with
      | Random => exact absurd hp hpolicy
      | LRU | FIFO =>
          rw [htail]
          show (updateWayList (cp.sets i).way way .Head >>= _) = _
          rw [hok]
          rfl
    · rwa [set_set_self]
    · rw [set_set_self]
    · rw [set_set_self, if_neg hpolicy, horder]
      rfl

theorem unlink_victim (h : (cp.sets i).WellFormed) (way : Way cfg) :
    ∃ cp', cp.unlinkVictim i way = .ok cp' ∧ cp.Within i cp' ∧ (cp'.sets i).Detached way ∧
      (cp'.sets i).blks = (cp.sets i).blks ∧ (cp'.sets i).order = (cp.sets i).order := by
  by_cases hsize : cfg.hsize = 0
  · refine ⟨cp, ?_, ⟨fun _ _ => rfl, rfl, rfl, rfl⟩, h.detached hsize way, rfl, rfl⟩
    rw [unlinkVictim, if_neg (not_not.mpr hsize)]
  · obtain ⟨s, hok, hblks, horder, hdetached⟩ := h.unlink hsize way
    refine ⟨cp.setSet i s, ?_, within_set_set cp i s, ?_, ?_, ?_⟩
    · rw [unlinkVictim, if_pos hsize, hok]
      rfl
    · rwa [set_set_self]
    · rwa [set_set_self]
    · rwa [set_set_self]

theorem write_back_victim (cp : CacheT cfg) (p : BlkPtr cfg) : cp.writeBackVictim p =
    { cp with
      stats := cp.stats.replace (cp.blk p)
      log := cp.log ++ replaceLog p (cp.blk p) } := by
  rw [writeBackVictim, Stats.replace, replaceLog, writeBackLog]
  cases hvalid : (cp.blk p).valid with
  | false => simp
  | true =>
      cases hdirty : (cp.blk p).dirty with
      | false => rfl
      | true => simp [blkAccess, record]

theorem fill_eq (cp : CacheT cfg) (cmd : MemCmd) (addr : Addr) (p : BlkPtr cfg) :
    cp.fill cmd addr p =
      { cp.setSet p.1
          ((cp.sets p.1).refill p.2 ⟨cfg.cacheTag addr, true, decide (cmd = .Write)⟩) with
        log := cp.log ++ fillLog p cmd addr } := by
  -- all writes go to one block of one set
  simp only [fill, serve_eq, blkAccess, record, setBlk, blk, setSet, CacheSet.setBlk,
    CacheSet.refill, Function.update_self, Function.update_idem, Blk.after, Bool.false_or, fillLog,
    List.append_assoc, List.cons_append, List.nil_append]
  split <;> rfl

/-- The last part of a miss. -/
theorem write_back_fill (cp : CacheT cfg) (cmd : MemCmd) (addr : Addr) (p : BlkPtr cfg) :
    ∃ cp', CacheT.fill (CacheT.writeBackVictim { cp with lastTagset := 0, lastBlk := none } p)
        cmd addr p = cp' ∧
      cp'.sets = Function.update cp.sets p.1
        ((cp.sets p.1).refill p.2 ⟨cfg.cacheTag addr, true, decide (cmd = .Write)⟩) ∧
      cp'.stats = cp.stats.replace (cp.blk p) ∧
      cp'.log = cp.log ++ replaceLog p (cp.blk p) ++ fillLog p cmd addr ∧
      cp'.lastTagset = 0 ∧ cp'.lastBlk = none ∧ cp'.rpt = cp.rpt := by
  rw [write_back_victim, fill_eq]
  exact ⟨_, rfl, rfl, rfl, rfl, rfl, rfl, rfl⟩

/-- The tag that is looked for is that of no other valid block. -/
theorem tag_ne_of_absent {tag : Addr} (h : ∀ w, s.holds tag w = false) (w : Way cfg)
    (hvalid : (s.blks w).valid = true) : (s.blks w).tag ≠ tag := by
  intro htag
  have hw := CacheSet.holds_iff.mpr ⟨htag, hvalid⟩
  rw [h w] at hw
  exact Bool.false_ne_true hw

/-- The miss handler. -/
theorem cache_miss (myrand : Nat → Nat) (cmd : MemCmd) (fetch : Bool) (h : cp.Inv)
    (habsent : ∀ w, (cp.sets (cfg.setIndex addr)).holds (cfg.cacheTag addr) w = false) :
    Ensures (cp.MissFault addr fetch) (fun cp' => cp'.Inv ∧ ∃ way, cp.Miss cmd addr fetch way cp')
      (cp.cacheMiss myrand cmd addr fetch) := by
  refine (count_miss cmd fetch habsent).bind fun cp₁ ⟨hsets, hstats, hlog, hrpt⟩ => ?_
  have hformed := h.sets (cfg.setIndex addr)
  rw [← hsets] at hformed
  obtain ⟨way, cp₂, hselect, hwithin₂, hformed₂, hblks₂, hvictim, horder₂⟩ :=
    select_victim myrand hformed
  obtain ⟨cp₃, hunlink, hwithin₃, hdetached, hblks₃, horder₃⟩ := unlink_victim hformed₂ way
  rw [hsets] at hblks₂ hvictim horder₂
  rw [hselect]
  show Ensures _ _ (cp₂.unlinkVictim _ way >>= _)
  rw [hunlink]
  show Ensures _ _ (Except.ok (CacheT.fill (CacheT.writeBackVictim _ _) cmd addr _))
  obtain ⟨cp₄, hok, hsets₄, hstats₄, hlog₄, htagset, hlast, hrpt₄⟩ :=
    write_back_fill cp₃ cmd addr (cfg.setIndex addr, way)
  rw [hok, ensures_ok]
  -- the block that is replaced is still the one that the cache had
  have hblks : (cp₃.sets (cfg.setIndex addr)).blks = (cp.sets (cfg.setIndex addr)).blks := by
    rw [hblks₃, hblks₂]
  have hset : cp₄.sets (cfg.setIndex addr) = (cp₃.sets (cfg.setIndex addr)).refill way
      ⟨cfg.cacheTag addr, true, decide (cmd = .Write)⟩ := by
    rw [hsets₄]
    exact Function.update_self ..
  have hmiss : cp.Miss cmd addr fetch way cp₄ := by
    refine ⟨habsent, hvictim, ?_, ?_, fun j hj => ?_, ?_, ?_, htagset, hlast, ?_⟩
    · rw [hset, CacheSet.refill_blks, hblks]
    · rw [hset, CacheSet.refill_order, horder₃, horder₂]
    · rw [hsets₄, Function.update_of_ne hj, hwithin₃.others j hj, hwithin₂.others j hj, hsets]
    · rw [hstats₄, blk, hblks, hwithin₃.stats, hwithin₂.stats, hstats]
    · rw [hlog₄, blk, hblks, hwithin₃.log, hwithin₂.log, hlog]
    · rw [hrpt₄, hwithin₃.rpt, hwithin₂.rpt, hrpt]
  refine ⟨hmiss.inv h ?_, way, hmiss⟩
  rw [hset]
  refine hdetached.refill fun w _ hvalid => ?_
  rw [hblks] at hvalid ⊢
  exact tag_ne_of_absent habsent w hvalid

/-! ## Accesses -/

/-- The effect of an access. -/
def Access (cp : CacheT cfg) (cmd : MemCmd) (addr : Addr) (fetch : Bool) (cp' : CacheT cfg) :
    Prop :=
  (∃ way, cp.Hit cmd addr fetch way cp') ∨ ∃ way, cp.Miss cmd addr fetch way cp'

/-- An access through the hash chains or the way list. -/
theorem full_access (myrand : Nat → Nat) (cmd : MemCmd) (addr : Addr) (fetch : Bool) (h : cp.Inv) :
    Ensures (cp.MissFault addr fetch) (fun cp' => cp'.Inv ∧ cp.Access cmd addr fetch cp')
      (cp.fullAccess myrand cmd addr fetch) := by
  obtain ⟨found, hok, hfound⟩ := (h.sets (cfg.setIndex addr)).lookup (cfg.cacheTag addr)
  rw [fullAccess, hok]
  cases found with
  | some way =>
      obtain ⟨cp', hhit, hinv, heffect⟩ := cache_hit h ((hfound way).mp rfl)
      show Ensures _ _ (cp.cacheHit cmd addr (cfg.setIndex addr, way) fetch)
      rw [hhit]
      exact ⟨hinv, Or.inl ⟨way, heffect⟩⟩
  | none =>
      have habsent : ∀ w, (cp.sets (cfg.setIndex addr)).holds (cfg.cacheTag addr) w = false :=
        fun w => Bool.eq_false_iff.mpr fun hw => nomatch (hfound w).mpr hw
      exact (cache_miss myrand cmd fetch h habsent).mono fun cp' hmiss => ⟨hmiss.1, Or.inr hmiss.2⟩

/-- The fast path does what the search would do if the last block has the tag of the access: it is
for the block that the search finds, and that block needs no reordering. -/
theorem full_access_eq_fast_hit (myrand : Nat → Nat) (cmd : MemCmd) (fetch : Bool) (h : cp.Inv)
    (hp : cp.lastBlk = some p) (htagset : cfg.cacheTagset addr = cp.lastTagset)
    (hholds : (cp.sets p.1).holds (cfg.cacheTag addr) p.2 = true) :
    cp.fullAccess myrand cmd addr fetch = .ok (cp.cacheFastHit cmd addr p fetch) := by
  obtain ⟨i, way⟩ := p
  obtain rfl : i = cfg.setIndex addr := h.last_set hp htagset
  rw [fullAccess, (h.sets _).lookup_some hholds]
  show cp.cacheHit cmd addr (cfg.setIndex addr, way) fetch = _
  have hway : ((({ cp with stats := cp.stats.countHit cmd fetch } : CacheT cfg).serve
      (cfg.setIndex addr, way) cmd addr).sets (cfg.setIndex addr)).way =
      (cp.sets (cfg.setIndex addr)).way := by
    rw [serve_sets]
    rfl
  have hreorder : ¬ (((cp.sets (cfg.setIndex addr)).way.prev way).isSome ∧ cfg.policy = .LRU) := by
    rintro ⟨hsome, hpolicy⟩
    rw [(prev_is_none_iff (h.sets _) way).mpr (h.recent _ hp hpolicy)] at hsome
    exact nomatch hsome
  rw [cacheHit, reorder, hway, if_neg hreorder]
  rfl

/-- Why an access stops: it fails the checks, it is a prefetch into a cache with data, it is to
block 0 when there is no last block, or it is a demand miss that the miss queue does not take. -/
inductive AccessFault (cp : CacheT cfg) (addr nbytes : Addr) (fetch : Bool) : Fault → Prop where
  | check {f : Fault} : checkAccess cfg addr nbytes = .error f → AccessFault cp addr nbytes fetch f
  | buffer : cfg.balloc = true → fetch = true → AccessFault cp addr nbytes fetch .nullPointer
  | noBlock : cp.lastBlk = none → cfg.cacheTagset addr = 0 →
      AccessFault cp addr nbytes fetch .nullPointer
  | miss {f : Fault} : cp.MissFault addr fetch f → AccessFault cp addr nbytes fetch f

theorem check_access (cfg : Config) (addr nbytes : Addr) :
    Ensures Outside (fun _ => True) (checkAccess cfg addr nbytes) := by
  rw [checkAccess]
  split
  · exact (rfl : Outside .alignment)
  · split
    · exact (rfl : Outside .spansBlock)
    · trivial

theorem outside_of_access_fault {f : Fault} (h : cp.AccessFault addr nbytes fetch f) :
    Outside f := by
  cases h with
  | check hcheck => exact (check_access cfg addr nbytes).of_error hcheck
  | buffer => rfl
  | noBlock => rfl
  | miss hmiss =>
      rw [hmiss.1]
      rfl

/-- An access stops for one of these reasons, or it hits or misses. -/
theorem access_block (myrand : Nat → Nat) (cmd : MemCmd) (addr nbytes : Addr) (fetch : Bool)
    (h : cp.Inv) : Ensures (cp.AccessFault addr nbytes fetch)
      (fun cp' => cp'.Inv ∧ cp.Access cmd addr fetch cp')
      (cp.accessBlock myrand cmd addr nbytes fetch) := by
  have hcopy : Ensures (cp.AccessFault addr nbytes fetch) (fun _ => True)
      (copyData cfg fetch) := by
    rw [copyData]
    split
    case isTrue hboth =>
      rw [Bool.and_eq_true] at hboth
      exact .buffer hboth.1 hboth.2
    case isFalse => trivial
  have hfull : Ensures (cp.AccessFault addr nbytes fetch) _ _ :=
    (full_access myrand cmd addr fetch h).weaken fun _ => .miss
  rw [accessBlock]
  cases hcheck : checkAccess cfg addr nbytes with
  | error f => exact .check hcheck
  | ok u =>
      refine hcopy.bind fun _ _ => ?_
      split
      case isTrue htagset =>
        cases hp : cp.lastBlk with
        | none => exact .noBlock hp (htagset.trans (h.reset hp))
        | some p =>
            obtain ⟨hinv, hhit⟩ := cache_fast_hit cmd fetch h hp htagset
            exact ⟨hinv, Or.inl ⟨p.2, hhit⟩⟩
      case isFalse => exact hfull

end CacheT

end Ece552.Cache
