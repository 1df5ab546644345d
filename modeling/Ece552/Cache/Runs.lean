import Ece552.Cache.Access
import Ece552.Library.TransitionSystem

/-!
# Runs of a cache

A run is a sequence of moves: demand accesses, prefetches, updates of the reference prediction table
and flushes. `Moves` says what moves ensure, and takes the operations of a simulator apart into
them. `Kept` is the rule for predicates that accesses and the invalidation of a block keep.
-/

namespace Ece552.Cache

open Library

variable {cfg : Config}

/-- The counters after a block is invalidated. -/
def Stats.invalidate (stats : Stats) (b : Blk) : Stats :=
  { stats with
    invalidations := stats.invalidations + 1
    writebacks := if b.dirty then stats.writebacks + 1 else stats.writebacks }

/-- The parts of operations. -/
inductive Move where
  | access (cmd : MemCmd) (addr nbytes : Addr) (fetch : Bool)
  | predict (pc addr : Addr)
  | flush
  | flushAddr (addr : Addr)

/-- Make one move. -/
def CacheT.move (myrand : Nat → Nat) (cp : CacheT cfg) : Move → Except Fault (CacheT cfg)
  | .access cmd addr nbytes fetch => cp.accessBlock myrand cmd addr nbytes fetch
  | .predict pc addr => .ok (cp.updateRpt pc addr).2.2
  | .flush => cp.cacheFlush
  | .flushAddr addr => cp.cacheFlushAddr addr

/-- The moves of a cache from its creation on. -/
def moves (cfg : Config) (myrand : Nat → Nat) : TransitionSystem (CacheT cfg) Move where
  init := fun cp => cp = cacheCreate cfg
  next := fun cp m cp' => cp.move myrand m = .ok cp'

namespace CacheT

variable {cp cp' : CacheT cfg} {i j : Fin cfg.nsets} {p : BlkPtr cfg} {way : Way cfg}
variable {I : CacheT cfg → Prop} (myrand : Nat → Nat)

/-! ## Invalidation of a block -/

/-- An invalidation clears the valid bit, and writes back what is dirty. -/
theorem invalidate_eq (cp : CacheT cfg) (p : BlkPtr cfg) : cp.invalidate p =
    { cp.setBlk p { cp.blk p with valid := false } with
      stats := cp.stats.invalidate (cp.blk p)
      log := cp.log ++ writeBackLog p (cp.blk p) } := by
  rw [invalidate, Stats.invalidate, writeBackLog]
  by_cases hdirty : (cp.blk p).dirty = true
  · simp only [if_pos hdirty, blkAccess, record, List.append_assoc, List.cons_append,
      List.nil_append]
    rfl
  · simp only [if_neg hdirty]
    rfl

/-- In the set of the block, an invalidation clears the valid bit of the way. -/
theorem invalidate_set (cp : CacheT cfg) (p : BlkPtr cfg) :
    (cp.invalidate p).sets p.1 = (cp.sets p.1).setBlk p.2 { cp.blk p with valid := false } := by
  rw [invalidate_eq]
  exact set_set_self _ _ _

/-- The other sets stay as they are. -/
theorem invalidate_set_of_ne (cp : CacheT cfg) (h : j ≠ p.1) :
    (cp.invalidate p).sets j = cp.sets j := by
  rw [invalidate_eq]
  exact set_set_of_ne h

/-- The way list of every set stays as it is. -/
theorem invalidate_way (cp : CacheT cfg) (p : BlkPtr cfg) (j : Fin cfg.nsets) :
    ((cp.invalidate p).sets j).way = (cp.sets j).way := by
  by_cases hj : j = p.1
  · rw [hj, invalidate_set]
    rfl
  · rw [invalidate_set_of_ne cp hj]

/-- The sets stay well formed. -/
theorem invalidate_well_formed (h : ∀ i, (cp.sets i).WellFormed) (p : BlkPtr cfg)
    (j : Fin cfg.nsets) : ((cp.invalidate p).sets j).WellFormed := by
  by_cases hj : j = p.1
  · rw [hj, invalidate_set]
    exact (h p.1).set_blk rfl fun hvalid => absurd hvalid Bool.false_ne_true
  · rw [invalidate_set_of_ne cp hj]
    exact h j

/-- The order of every set stays as it is. -/
theorem invalidate_order (cp : CacheT cfg) (p : BlkPtr cfg) (j : Fin cfg.nsets) :
    ((cp.invalidate p).sets j).order = (cp.sets j).order := by
  rw [CacheSet.order, invalidate_way, CacheSet.order]

/-- No other block is changed by an invalidation. -/
theorem invalidate_blk (cp : CacheT cfg) (p q : BlkPtr cfg) : (cp.invalidate p).blk q =
    if q = p then { cp.blk p with valid := false } else cp.blk q := by
  have hblks : ((cp.invalidate p).sets p.1).blks =
      Function.update (cp.sets p.1).blks p.2 { cp.blk p with valid := false } := by
    rw [invalidate_set]
    rfl
  exact blk_of_update hblks (fun j hj => invalidate_set_of_ne cp hj) q

/-- What an invalidation writes back is a dirty block. -/
theorem invalidate_log (cp : CacheT cfg) (p : BlkPtr cfg) :
    (cp.invalidate p).log = cp.log ++ writeBackLog p (cp.blk p) := by
  rw [invalidate_eq]

/-- The last block stays the last one. -/
@[simp] theorem invalidate_last (cp : CacheT cfg) (p : BlkPtr cfg) :
    (cp.invalidate p).lastBlk = cp.lastBlk := by
  rw [invalidate_eq]
  rfl

/-- An invalidation keeps the invariant, once there is no last block. -/
theorem Inv.invalidate (h : cp.Inv) (hlast : cp.lastBlk = none) (p : BlkPtr cfg) :
    (cp.invalidate p).Inv := by
  refine inv_of_sets (invalidate_well_formed h.sets p) ?_ ?_
  · rw [invalidate_last, hlast]
  · rw [invalidate_eq]
    exact h.reset hlast

/-! ## What runs keep -/

/-- A predicate that accesses and invalidations keep, and that depends on blocks, counters, the log
and the reference prediction table only. -/
structure Kept (I : CacheT cfg → Prop) : Prop where
  access : ∀ cp cmd addr fetch cp', cp.Inv → I cp → cp.Access cmd addr fetch cp' → I cp'
  invalidate : ∀ cp p, cp.Inv → I cp → (cp.blk p).valid = true → I (cp.invalidate p)
  rest : ∀ cp cp', I cp → (∀ p, cp'.blk p = cp.blk p) → cp'.stats = cp.stats →
    cp'.log = cp.log → cp'.rpt = cp.rpt → I cp'

/-- A predicate that the invalidation of a block keeps. -/
structure KeptByFlush (I : CacheT cfg → Prop) : Prop where
  invalidate : ∀ cp p, cp.Inv → I cp → (cp.blk p).valid = true → I (cp.invalidate p)
  rest : ∀ cp cp', I cp → (∀ p, cp'.blk p = cp.blk p) → cp'.stats = cp.stats →
    cp'.log = cp.log → cp'.rpt = cp.rpt → I cp'

/-- What accesses keep, flushes keep. -/
theorem Kept.by_flush (hI : Kept I) : KeptByFlush I := ⟨hI.invalidate, hI.rest⟩

/-- The predicate does not depend on the reference prediction table. -/
def Predicts (I : CacheT cfg → Prop) : Prop := ∀ cp rpt, I cp → I { cp with rpt := rpt }

/-- Nothing needs to be known of a cache for it to keep its invariant. -/
theorem kept_true : Kept fun _ : CacheT cfg => True :=
  ⟨fun _ _ _ _ _ _ _ _ => trivial, fun _ _ _ _ _ => trivial, fun _ _ _ _ _ _ _ => trivial⟩

/-- An access to a block keeps what an access may keep. -/
theorem Kept.access_block (hI : Kept I) (h : cp.Inv) (hcp : I cp) (cmd : MemCmd)
    (addr nbytes : Addr) (fetch : Bool) :
    Ensures Outside (fun cp' => cp'.Inv ∧ I cp') (cp.accessBlock myrand cmd addr nbytes fetch) :=
  ((CacheT.access_block myrand cmd addr nbytes fetch h).weaken
    fun _ => outside_of_access_fault).mono fun cp' haccess =>
    ⟨haccess.1, hI.access cp cmd addr fetch cp' h hcp haccess.2⟩

/-! ## Flushes -/

/-- The loop of `cache_flush` for a set ends. -/
theorem KeptByFlush.flush_ways (hI : KeptByFlush I) {l : List (Way cfg)} {bound : Nat}
    {start : Option (Way cfg)} (h : cp.Inv) (hlast : cp.lastBlk = none) (hcp : I cp)
    (hchain : Chain (cp.sets i).way.next start l) (hbound : l.length ≤ bound) :
    Ensures Outside (fun cp' => cp'.Inv ∧ cp'.lastBlk = none ∧ I cp')
      (flushWays i bound start cp) := by
  induction l generalizing cp start bound with
  | nil =>
      obtain rfl : start = none := hchain
      cases bound <;> exact ⟨h, hlast, hcp⟩
  | cons way l ih =>
      obtain ⟨rfl, hrest⟩ := hchain
      cases bound with
      | zero => exact absurd hbound (Nat.not_succ_le_zero _)
      | succ bound =>
          have hlength := Nat.le_of_succ_le_succ hbound
          rw [flushWays]
          cases hvalid : (cp.blk (i, way)).valid with
          | false => exact ih h hlast hcp hrest hlength
          | true =>
              have hway := invalidate_way cp (i, way) i
              refine ih (h.invalidate hlast _) ?_ (hI.invalidate cp _ h hcp hvalid) ?_ hlength
              · rw [if_pos rfl, invalidate_last, hlast]
              · rw [if_pos rfl, hway]
                exact hrest

/-- A flush keeps what an invalidation keeps. -/
theorem KeptByFlush.cache_flush (hI : KeptByFlush I) (h : cp.Inv) (hcp : I cp) :
    Ensures Outside (fun cp' => cp'.Inv ∧ I cp') cp.cacheFlush := by
  have hreset : CacheT.Inv { cp with lastTagset := 0, lastBlk := none } :=
    inv_of_sets h.sets rfl rfl
  have hcp' := hI.rest cp { cp with lastTagset := 0, lastBlk := none } hcp (fun _ => rfl) rfl rfl
    rfl
  rw [cacheFlush]
  refine (Ensures.foldl (I := fun cp' => cp'.Inv ∧ cp'.lastBlk = none ∧ I cp')
    ⟨hreset, rfl, hcp'⟩ (fun cp i ⟨h, hlast, hcp⟩ => ?_) _).mono fun cp' h => ⟨h.1, h.2.2⟩
  have hlinked := (h.sets i).linked
  exact hI.flush_ways h hlast hcp hlinked.forward (CacheSet.length_le hlinked.nodup)

/-- The effect of the flush of an address whose block is in the cache. -/
structure FlushedAddr (cp : CacheT cfg) (p : BlkPtr cfg) (cp' : CacheT cfg) : Prop where
  valid : (cp.blk p).valid = true
  blk : ∀ q, cp'.blk q = (cp.invalidate p).blk q
  stats : cp'.stats = (cp.invalidate p).stats
  log : cp'.log = (cp.invalidate p).log
  rpt : cp'.rpt = (cp.invalidate p).rpt
  order : (cp'.sets p.1).order = (cp.sets p.1).order.erase p.2 ++ [p.2]
  others : ∀ j, j ≠ p.1 → (cp'.sets j).order = (cp.sets j).order

/-- The flush of an address does not stop. -/
theorem Inv.cache_flush_addr (h : cp.Inv) (addr : Addr) :
    ∃ cp', cp.cacheFlushAddr addr = .ok cp' ∧ cp'.Inv ∧ (cp' = cp ∨ ∃ p, cp.FlushedAddr p cp') := by
  obtain ⟨found, hok, hfound⟩ := (h.sets (cfg.setIndex addr)).lookup (cfg.cacheTag addr)
  rw [cacheFlushAddr, hok]
  cases found with
  | none => exact ⟨cp, rfl, h, Or.inl rfl⟩
  | some way =>
      obtain ⟨p, hp⟩ : ∃ p, p = (cfg.setIndex addr, way) := ⟨_, rfl⟩
      have hvalid : (cp.blk p).valid = true := by
        rw [hp]
        exact (CacheSet.holds_iff.mp ((hfound way).mp rfl)).2
      have hformed := invalidate_well_formed h.sets p
      obtain ⟨list, hmove, hmoved, horder⟩ := (hformed p.1).move p.2 .Tail
      obtain ⟨s, hs⟩ : ∃ s, s = { (cp.invalidate p).sets p.1 with way := list } := ⟨_, rfl⟩
      rw [← hs] at hmoved horder
      obtain ⟨cp', hcp'⟩ : ∃ cp', cp' =
        CacheT.setSet { cp.invalidate p with lastTagset := 0, lastBlk := none } p.1 s := ⟨_, rfl⟩
      have hself : cp'.sets p.1 = s := by
        rw [hcp', set_set_self]
      have hothers : ∀ j, j ≠ p.1 → cp'.sets j = (cp.invalidate p).sets j := fun j hj => by
        rw [hcp', set_set_of_ne hj]
      refine ⟨cp', ?_, inv_of_sets (fun j => ?_) (hcp' ▸ rfl) (hcp' ▸ rfl), Or.inr ⟨p, hvalid,
        fun q => ?_, hcp' ▸ rfl, hcp' ▸ rfl, hcp' ▸ rfl, ?_, fun j hj => ?_⟩⟩
      · show (updateWayList ((cp.invalidate (cfg.setIndex addr, way)).sets
          (cfg.setIndex addr)).way way .Tail >>= _) = _
        rw [hp] at hmove hs hcp'
        rw [hmove, hcp', hs]
        rfl
      · by_cases hj : j = p.1
        · rwa [hj, hself]
        · rw [hothers j hj]
          exact hformed j
      · by_cases hq : q.1 = p.1
        · rw [CacheT.blk, CacheT.blk, hq, hself, hs]
        · rw [CacheT.blk, CacheT.blk, hothers q.1 hq]
      · rw [hself, horder, invalidate_order]
        rfl
      · rw [hothers j hj, invalidate_order]

/-- The flush of one block keeps what an invalidation keeps. -/
theorem KeptByFlush.cache_flush_addr (hI : KeptByFlush I) (h : cp.Inv) (hcp : I cp) (addr : Addr) :
    Ensures Outside (fun cp' => cp'.Inv ∧ I cp') (cp.cacheFlushAddr addr) := by
  obtain ⟨cp', hok, hinv, rfl | ⟨p, heffect⟩⟩ := h.cache_flush_addr addr
  · rw [hok]
    exact ⟨hinv, hcp⟩
  · rw [hok]
    exact ⟨hinv, hI.rest _ _ (hI.invalidate cp p h hcp heffect.valid) heffect.blk heffect.stats
      heffect.log heffect.rpt⟩

/-! ## Operations -/

section Operations

variable {faults : Fault → Prop} {myrand}

/-- What accesses ensure, also those that are prefetches. -/
structure Fetches (myrand : Nat → Nat) (faults : Fault → Prop) (I : CacheT cfg → Prop) : Prop where
  access : ∀ cp cmd addr nbytes fetch, I cp →
    Ensures faults I (cp.accessBlock myrand cmd addr nbytes fetch)
  probe : ∀ cp addr, I cp → Ensures faults (fun _ => True) (cp.cacheProbe addr)
  /-- the assertions of the prefetchers may fail -/
  assertions : faults .prefetchAddr ∧ faults .missQueue ∧ faults .rptSize

/-- A prefetch keeps what a fetch keeps. -/
theorem Fetches.prefetch (hI : Fetches myrand faults I) (hcp : I cp) (addr : Addr) :
    Ensures faults I (cp.prefetch myrand addr) := by
  rw [CacheT.prefetch]
  split
  · exact hI.assertions.1
  · refine (hI.probe cp _ hcp).bind fun found _ => ?_
    split
    · exact hcp
    · exact hI.access cp .Read _ _ true hcp

/-- The prefetch of the miss expected next keeps what a fetch keeps. -/
theorem Fetches.prefetch_next_miss (hI : Fetches myrand faults I) (hcp : I cp) (addr : Addr) :
    Ensures faults I (cp.prefetchNextMiss myrand addr) := by
  have hnext : Ensures faults (fun _ => True) (cp.missQueueGetNextMissAddr addr) := by
    rw [missQueueGetNextMissAddr]
    split
    · split <;> trivial
    · exact hI.assertions.2.1
  refine hnext.bind fun next _ => ?_
  split
  · exact hI.prefetch hcp next
  · exact hcp

/-- The prefetchers that use the reference prediction table update it first. -/
theorem Fetches.generate_prefetch (hI : Fetches myrand faults I) (pc addr : Addr)
    (hcp : cfg.prefetchType < 2 → I cp)
    (hupdated : 2 ≤ cfg.prefetchType → I (cp.updateRpt pc addr).2.2) :
    Ensures faults I (cp.generatePrefetch myrand pc addr) := by
  rw [generatePrefetch]
  split
  case h_1 htype => exact hcp (by omega)
  case h_2 htype => exact hI.prefetch (hcp (by omega)) _
  case h_3 htype =>
    rw [openEndedPrefetcher]
    split
    · exact hI.assertions.2.1
    · dsimp only
      split
      · exact hI.prefetch (hupdated (by omega)) _
      · exact hI.prefetch_next_miss (hupdated (by omega)) addr
  case h_4 hne₀ hne₁ _ =>
    have htype : 2 ≤ cfg.prefetchType := by
      have hne₀ : cfg.prefetchType ≠ 0 := hne₀
      have hne₁ : cfg.prefetchType ≠ 1 := hne₁
      omega
    rw [stridePrefetcher]
    split
    · exact hI.assertions.2.2
    · dsimp only
      split
      · exact hI.prefetch (hupdated htype) _
      · exact hupdated htype

/-- What moves ensure. -/
structure Moves (myrand : Nat → Nat) (faults : Fault → Prop) (I : CacheT cfg → Prop) : Prop
    extends Fetches myrand faults I where
  predict : ∀ cp pc addr, I cp → I (cp.updateRpt pc addr).2.2
  flush : ∀ cp, I cp → Ensures faults I cp.cacheFlush
  flushAddr : ∀ cp addr, I cp → Ensures faults I (cp.cacheFlushAddr addr)

/-- Operations ensure what moves ensure. -/
theorem Moves.apply (hI : Moves myrand faults I) (hcp : I cp) (op : Op) :
    Ensures faults I (cp.apply myrand op) := by
  cases op with
  | access cmd pc addr nbytes =>
      exact (hI.access cp cmd addr nbytes false hcp).bind fun cp' hcp' =>
        hI.generate_prefetch pc addr (fun _ => hcp') fun _ => hI.predict cp' pc addr hcp'
  | flush => exact hI.flush cp hcp
  | flushAddr addr => exact hI.flushAddr cp addr hcp

end Operations

/-! ## Runs -/

/-- A run ends with its last operation. -/
theorem run_ops_concat_ok {ops : List Op} {op : Op} : runOps cfg myrand (ops ++ [op]) = .ok cp' ↔
    ∃ cp, runOps cfg myrand ops = .ok cp ∧ cp.apply myrand op = .ok cp' := foldlM_concat_ok

/-- Every operation makes moves. -/
theorem reachable_of_run {ops : List Op} (h : runOps cfg myrand ops = .ok cp) :
    (moves cfg myrand).Reachable cp := by
  have hnext : ∀ cp : CacheT cfg, ∀ m, (moves cfg myrand).Reachable cp →
      Ensures (fun _ => True) (moves cfg myrand).Reachable (cp.move myrand m) :=
    fun cp m hcp => ensures_of_ok fun cp' hmove => .step hcp trivial hmove
  have hmoves : Moves myrand (fun _ => True) (moves cfg myrand).Reachable :=
    { access := fun cp cmd addr nbytes fetch => hnext cp (.access cmd addr nbytes fetch)
      probe := fun cp addr _ => ensures_of_ok fun _ _ => trivial
      assertions := ⟨trivial, trivial, trivial⟩
      predict := fun cp pc addr => hnext cp (.predict pc addr)
      flush := fun cp => hnext cp .flush
      flushAddr := fun cp addr => hnext cp (.flushAddr addr) }
  have hrun : Ensures (fun _ => True) (moves cfg myrand).Reachable (runOps cfg myrand ops) :=
    Ensures.foldl (.init rfl) (fun _ op hcp => hmoves.apply hcp op) ops
  exact hrun.of_ok h

/-- A probe finds the block that is held, and changes nothing. -/
theorem Inv.cache_probe (h : cp.Inv) (addr : Addr) : ∃ found,
    cp.cacheProbe addr = .ok found.isSome ∧
    ∀ w, found = some w ↔ (cp.sets (cfg.setIndex addr)).holds (cfg.cacheTag addr) w = true := by
  obtain ⟨found, hok, hfound⟩ := (h.sets (cfg.setIndex addr)).lookup (cfg.cacheTag addr)
  refine ⟨found, ?_, hfound⟩
  rw [cacheProbe, hok]
  rfl

/-- A fetch is an access. -/
theorem Kept.fetches (hI : Kept I) :
    Fetches myrand Outside fun cp : CacheT cfg => cp.Inv ∧ I cp := by
  refine ⟨fun cp cmd addr nbytes fetch hcp => hI.access_block myrand hcp.1 hcp.2 cmd addr nbytes
    fetch, fun cp addr hcp => ?_, rfl, rfl, rfl⟩
  obtain ⟨found, hok, -⟩ := hcp.1.cache_probe addr
  rw [hok]
  trivial

/-- The stride tables are no part of the invariant. -/
theorem Inv.update_rpt (h : cp.Inv) (pc addr : Addr) : (cp.updateRpt pc addr).2.2.Inv := by
  rw [updateRpt]
  split <;> exact ⟨h.sets, h.reset, h.last, h.tag, h.recent⟩

/-- What a prediction keeps, the stride prefetcher keeps. -/
theorem Predicts.update_rpt (hI : Predicts I) (hcp : I cp) (pc addr : Addr) :
    I (cp.updateRpt pc addr).2.2 := by
  rw [updateRpt]
  split <;> exact hI cp _ hcp

/-- What accesses and predictions keep, the moves of a run keep. -/
theorem Kept.moves (hI : Kept I) (hpredict : Predicts I) :
    Moves myrand Outside fun cp : CacheT cfg => cp.Inv ∧ I cp :=
  { hI.fetches myrand with
    predict := fun _ pc addr hcp => ⟨hcp.1.update_rpt pc addr, hpredict.update_rpt hcp.2 pc addr⟩
    flush := fun _ hcp => hI.by_flush.cache_flush hcp.1 hcp.2
    flushAddr := fun _ addr hcp => hI.by_flush.cache_flush_addr hcp.1 hcp.2 addr }

/-- What moves keep holds after every run, and every run that stops does so with a fault outside of
the functions on way lists and hash chains. -/
theorem Kept.run_ops (hI : Kept I) (hpredict : Predicts I) (hcreate : I (cacheCreate cfg))
    (ops : List Op) : Ensures Outside (fun cp => cp.Inv ∧ I cp) (runOps cfg myrand ops) :=
  Ensures.foldl ⟨inv_create, hcreate⟩ (fun _ op h => (hI.moves myrand hpredict).apply h op) ops

/-- Run lemma. -/
theorem Inv.of_run {ops : List Op} (h : runOps cfg myrand ops = .ok cp) : cp.Inv :=
  ((kept_true.run_ops myrand (fun _ _ _ => trivial) trivial ops).of_ok h).1

/-- The invariant holds at every point of a run. -/
theorem Inv.of_reachable (h : (moves cfg myrand).Reachable cp) : cp.Inv := by
  have hmoves : Moves myrand Outside fun cp : CacheT cfg => cp.Inv ∧ True :=
    kept_true.moves myrand fun _ _ _ => trivial
  refine h.invariant (I := Inv) (fun cp hinit => ?_) fun cp m cp' _ hinv _ hmove => ?_
  · rw [show cp = cacheCreate cfg from hinit]
    exact inv_create
  · cases m with
    | access cmd addr nbytes fetch =>
        exact ((hmoves.access cp cmd addr nbytes fetch ⟨hinv, trivial⟩).of_ok hmove).1
    | predict pc addr =>
        rw [← Except.ok.inj hmove]
        exact hinv.update_rpt pc addr
    | flush => exact ((hmoves.flush cp ⟨hinv, trivial⟩).of_ok hmove).1
    | flushAddr addr => exact ((hmoves.flushAddr cp addr ⟨hinv, trivial⟩).of_ok hmove).1

end CacheT

end Ece552.Cache
