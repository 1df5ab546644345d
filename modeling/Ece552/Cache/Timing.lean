import Ece552.Cache.Safety

/-!
# Latencies

`cache.c` with its latencies: the times at which blocks become ready, the bus, and what an access
returns. The block access function is a parameter, by the number of the call. The cache itself is
that of the functions without latencies, as `erase_cache_access` says. The result of a hit is
computed after the prefetch that the hit generates, and `Replaces` is the case in which this
matters.
-/

namespace Ece552.Cache

open Library

variable {cfg : Config}

/-! ## Times -/

/-- `tick_t`. -/
abbrev Tick := BitVec 64

/-- A latency, which is an `int`. -/
abbrev Latency := BitVec 32

/-- `MAX` of two times. -/
def tickMax (a b : Tick) : Tick := if a.slt b then b else a

/-- `MIN` of two times. -/
def tickMin (a b : Tick) : Tick := if a.slt b then a else b

/-- `BOUND_POS`. -/
def boundPos (n : Tick) : Latency := (tickMin (tickMax 0 n) 2147483647).setWidth 32

/-- A time after a latency. -/
def after (now : Tick) (lat : Latency) : Tick := now + lat.signExtend 64

/-- The parameters of the latencies. -/
structure Memory (cfg : Config) where
  hitLatency : BitVec 32
  /-- the latency that the block access function returns at its `k`-th call -/
  blkAccessFn : Nat → MemCmd → Addr → BlkPtr cfg → Tick → Bool → BitVec 32

/-- The times at which the blocks and the bus are free, and the number of calls of the block access
function. -/
structure Clock (cfg : Config) where
  ready : BlkPtr cfg → Tick
  busFree : Tick
  calls : Nat

namespace Clock

variable (mem : Memory cfg) (c : Clock cfg)

/-- Call the block access function. -/
def blkAccess (cmd : MemCmd) (baddr : Addr) (p : BlkPtr cfg) (now : Tick) (prefetch : Bool) :
    Latency × Clock cfg :=
  (mem.blkAccessFn c.calls cmd baddr p now prefetch, { c with calls := c.calls + 1 })

/-- The latency of the replacement of a block. -/
def replace (p : BlkPtr cfg) (b : Blk) (now : Tick) : Latency × Clock cfg :=
  if b.valid then
    let lat := boundPos (c.ready p - now)
    let lat := lat + boundPos (c.busFree - after now lat)
    let c := { c with busFree := tickMax c.busFree (after now lat) + 1 }
    if b.dirty then
      let (l, c) := c.blkAccess mem .Write (cfg.cacheMkBaddr b.tag (cfg.setAddr p.1)) p
        (after now lat) false
      (lat + l, c)
    else (lat, c)
  else (0, c)

/-- The latency of a miss that replaces a block. -/
def miss (p : BlkPtr cfg) (b : Blk) (addr : Addr) (now : Tick) (prefetch : Bool) :
    Latency × Clock cfg :=
  let (lat, c) := c.replace mem p b now
  let (l, c) := c.blkAccess mem .Read (cfg.cacheBaddr addr) p (after now lat) prefetch
  (lat + l, { c with ready := Function.update c.ready p (after now (lat + l)) })

end Clock

/-- The latency of a hit on a block that is ready at some time. -/
def firstCycle (mem : Memory cfg) (ready now : Tick) : Latency :=
  (tickMax (mem.hitLatency.setWidth 64) (ready - now)).setWidth 32

/-! ## Accesses -/

/-- A cache with its times. -/
structure TimedCache (cfg : Config) where
  cache : CacheT cfg
  clock : Clock cfg

/-- What an access leads to, before its prefetch. -/
inductive Path (cfg : Config) where
  | hit (p : BlkPtr cfg)
  | miss (p : BlkPtr cfg) (lat : Latency) (replAddr : Addr)

/-- What `cache_access` returns: the latency, the block of the user data and the address of the
block that was replaced. -/
structure Returned (cfg : Config) where
  latency : Latency
  udata : BlkPtr cfg
  replAddr : Addr

namespace TimedCache

section Access

variable (t : TimedCache cfg) (mem : Memory cfg) (myrand : Nat → Nat) (on : Bool)
variable (cmd : MemCmd) (addr : Addr) (now : Tick)

/-- Count a miss. With prefetching switched off, nothing is inserted into the miss queue. -/
def countMiss (prefetch : Bool) : Except Fault (CacheT cfg) :=
  if on then t.cache.countMiss cmd addr prefetch
  else .ok { t.cache with stats := t.cache.stats.countMiss cmd prefetch }

/-- The miss handler. -/
def cacheMiss (prefetch : Bool) : Except Fault (TimedCache cfg × Path cfg) := do
  let set := cfg.setIndex addr
  let cp ← t.countMiss on cmd addr prefetch
  let (repl, cp) ← cp.selectVictim myrand set
  let cp ← cp.unlinkVictim set repl
  let cp := { cp with lastTagset := 0, lastBlk := none }
  let b := cp.blk (set, repl)
  let replAddr := if b.valid then cfg.cacheMkBaddr b.tag (cfg.setAddr set) else 0
  let (lat, clock) := t.clock.miss mem (set, repl) b addr now prefetch
  .ok (⟨(cp.writeBackVictim (set, repl)).fill cmd addr (set, repl), clock⟩,
    .miss (set, repl) lat replAddr)

/-- The access through the hash chains or the way list. -/
def fullAccess (prefetch : Bool) : Except Fault (TimedCache cfg × Path cfg) := do
  match ← (t.cache.sets (cfg.setIndex addr)).lookup (cfg.cacheTag addr) with
  | some way => do
      let cp ← t.cache.cacheHit cmd addr (cfg.setIndex addr, way) prefetch
      .ok (⟨cp, t.clock⟩, .hit (cfg.setIndex addr, way))
  | none => t.cacheMiss mem myrand on cmd addr now prefetch

/-- `cache_access` up to the prefetch that it generates. -/
def accessBlock (nbytes : Addr) (prefetch : Bool) : Except Fault (TimedCache cfg × Path cfg) := do
  CacheT.checkAccess cfg addr nbytes
  CacheT.copyData cfg prefetch
  if cfg.cacheTagset addr = t.cache.lastTagset then
    match t.cache.lastBlk with
    | none => .error .nullPointer
    | some p => .ok (⟨t.cache.cacheFastHit cmd addr p prefetch, t.clock⟩, .hit p)
  else t.fullAccess mem myrand on cmd addr now prefetch

/-- Prefetch the block of an address, at time 0. -/
def prefetch (prefetchAddr : Addr) : Except Fault (TimedCache cfg) :=
  if prefetchAddr = 0 then .error .prefetchAddr
  else do
    let baddr := cfg.cacheMkBaddr (cfg.cacheTag prefetchAddr) (cfg.cacheSet prefetchAddr)
    let found ← t.cache.cacheProbe baddr
    if found then .ok t
    else do
      let (t, _) ← t.accessBlock mem myrand true .Read baddr 0 (BitVec.ofNat 32 cfg.bsize) true
      .ok t

/-- Prefetch an address, if there is one. -/
def prefetchOption : Option Addr → Except Fault (TimedCache cfg)
  | none => .ok t
  | some a => t.prefetch mem myrand a

/-- The prefetch that a regular access may generate. -/
def generatePrefetch (pc : Addr) : Except Fault (TimedCache cfg) := do
  let target ← t.cache.prefetchTarget pc addr
  prefetchOption { t with cache := t.cache.tableUpdated pc addr } mem myrand target

/-- What an access returns, with the times after its prefetch. -/
def returned : Path cfg → Returned cfg
  | .hit p => ⟨firstCycle mem (t.clock.ready p) now, p, 0⟩
  | .miss p lat replAddr => ⟨lat, p, replAddr⟩

/-- `cache_access` for a regular access, with prefetching switched on or off. -/
def cacheAccess (pc nbytes : Addr) : Except Fault (TimedCache cfg × Returned cfg) := do
  let (t, path) ← t.accessBlock mem myrand on cmd addr now nbytes false
  let t ← if on then t.generatePrefetch mem myrand addr pc else .ok t
  .ok (t, t.returned mem now path)

end Access

/-! ## The cache without times -/

variable {t t' : TimedCache cfg} {mem : Memory cfg} {myrand : Nat → Nat} {on : Bool} {cmd : MemCmd}
variable {pc addr nbytes a : Addr} {now : Tick} {fetch : Bool} {path : Path cfg} {way : Way cfg}

theorem erase_cache_miss (t : TimedCache cfg) (mem : Memory cfg) (myrand : Nat → Nat)
    (cmd : MemCmd) (addr : Addr) (now : Tick) (fetch : Bool) :
    (t.cacheMiss mem myrand true cmd addr now fetch).map (·.1.cache) =
      t.cache.cacheMiss myrand cmd addr fetch := by
  rw [cacheMiss, CacheT.cacheMiss, countMiss, if_pos rfl]
  cases t.cache.countMiss cmd addr fetch with
  | error f => rfl
  | ok cp₁ =>
      show Except.map _ (cp₁.selectVictim myrand _ >>= _) = (cp₁.selectVictim myrand _ >>= _)
      cases cp₁.selectVictim myrand (cfg.setIndex addr) with
      | error f => rfl
      | ok selected =>
          obtain ⟨repl, cp₂⟩ := selected
          show Except.map _ (cp₂.unlinkVictim _ repl >>= _) = (cp₂.unlinkVictim _ repl >>= _)
          cases cp₂.unlinkVictim (cfg.setIndex addr) repl with
          | error f => rfl
          | ok cp₃ => rfl

theorem erase_full_access (t : TimedCache cfg) (mem : Memory cfg) (myrand : Nat → Nat)
    (cmd : MemCmd) (addr : Addr) (now : Tick) (fetch : Bool) :
    (t.fullAccess mem myrand true cmd addr now fetch).map (·.1.cache) =
      t.cache.fullAccess myrand cmd addr fetch := by
  rw [fullAccess, CacheT.fullAccess]
  cases (t.cache.sets (cfg.setIndex addr)).lookup (cfg.cacheTag addr) with
  | error f => rfl
  | ok found =>
      cases found with
      | none => exact erase_cache_miss t mem myrand cmd addr now fetch
      | some way =>
          show Except.map _ (t.cache.cacheHit cmd addr (cfg.setIndex addr, way) fetch >>= _) =
            t.cache.cacheHit cmd addr (cfg.setIndex addr, way) fetch
          cases t.cache.cacheHit cmd addr (cfg.setIndex addr, way) fetch <;> rfl

theorem erase_access_block (t : TimedCache cfg) (mem : Memory cfg) (myrand : Nat → Nat)
    (cmd : MemCmd) (addr : Addr) (now : Tick) (nbytes : Addr) (fetch : Bool) :
    (t.accessBlock mem myrand true cmd addr now nbytes fetch).map (·.1.cache) =
      t.cache.accessBlock myrand cmd addr nbytes fetch := by
  rw [accessBlock, CacheT.accessBlock]
  cases CacheT.checkAccess cfg addr nbytes with
  | error f => rfl
  | ok u =>
      cases CacheT.copyData cfg fetch with
      | error f => rfl
      | ok u =>
          show Except.map _ (if _ then _ else _) = if _ then _ else _
          by_cases htagset : cfg.cacheTagset addr = t.cache.lastTagset
          · rw [if_pos htagset, if_pos htagset]
            cases t.cache.lastBlk <;> rfl
          · rw [if_neg htagset, if_neg htagset]
            exact erase_full_access t mem myrand cmd addr now fetch

theorem erase_prefetch (t : TimedCache cfg) (mem : Memory cfg) (myrand : Nat → Nat) (a : Addr) :
    (t.prefetch mem myrand a).map (·.cache) = t.cache.prefetch myrand a := by
  rw [prefetch, CacheT.prefetch]
  by_cases ha : a = 0
  · rw [if_pos ha, if_pos ha]
    rfl
  · rw [if_neg ha, if_neg ha]
    dsimp only
    generalize cfg.cacheMkBaddr (cfg.cacheTag a) (cfg.cacheSet a) = baddr
    have herase := erase_access_block t mem myrand .Read baddr 0 (BitVec.ofNat 32 cfg.bsize) true
    cases t.cache.cacheProbe baddr with
    | error f => rfl
    | ok found =>
        cases found with
        | true => rfl
        | false =>
            show Except.map _ (t.accessBlock mem myrand true .Read baddr 0 _ true >>= _) =
              t.cache.accessBlock myrand .Read baddr _ true
            rw [← herase]
            cases t.accessBlock mem myrand true .Read baddr 0 (BitVec.ofNat 32 cfg.bsize) true <;>
              rfl

/-- Without its times, a cache does what the functions without latencies do. -/
theorem erase_cache_access (t : TimedCache cfg) (mem : Memory cfg) (myrand : Nat → Nat)
    (cmd : MemCmd) (addr : Addr) (now : Tick) (pc nbytes : Addr) :
    (t.cacheAccess mem myrand true cmd addr now pc nbytes).map (·.1.cache) =
      t.cache.cacheAccess myrand pc addr cmd nbytes := by
  rw [cacheAccess, CacheT.cacheAccess, ← erase_access_block t mem myrand cmd addr now nbytes false]
  cases t.accessBlock mem myrand true cmd addr now nbytes false with
  | error f => rfl
  | ok accessed =>
      obtain ⟨t₁, path⟩ := accessed
      show Except.map _ (t₁.generatePrefetch mem myrand addr pc >>= _) =
        t₁.cache.generatePrefetch myrand pc addr
      rw [CacheT.generate_prefetch_eq, generatePrefetch]
      cases t₁.cache.prefetchTarget pc addr with
      | error f => rfl
      | ok target =>
          cases target with
          | none => rfl
          | some a =>
              have herase := erase_prefetch
                { t₁ with cache := t₁.cache.tableUpdated pc addr } mem myrand a
              show Except.map _ (prefetch _ mem myrand a >>= _) = CacheT.prefetch _ myrand a
              rw [← herase]
              cases prefetch { t₁ with cache := t₁.cache.tableUpdated pc addr } mem myrand a <;> rfl

/-! ## Paths -/

theorem count_miss_ok {cp₁ : CacheT cfg} (hok : t.countMiss on cmd addr fetch = .ok cp₁) :
    cp₁.sets = t.cache.sets ∧ cp₁.draws = t.cache.draws ∧
      cp₁.stats = t.cache.stats.countMiss cmd fetch := by
  rw [countMiss] at hok
  cases on with
  | false =>
      obtain rfl := Except.ok.inj hok
      exact ⟨rfl, rfl, rfl⟩
  | true =>
      obtain ⟨hsets, hdraws⟩ := CacheT.count_miss_ok hok
      refine ⟨hsets, hdraws, ?_⟩
      rw [if_pos rfl, CacheT.countMiss] at hok
      split at hok
      · rw [CacheT.missQueueInsert] at hok
        split at hok
        · rw [← Except.ok.inj hok]
        · cases hok
      · rw [← Except.ok.inj hok]

/-- What a miss that replaces a block leads to. -/
def missPath (t : TimedCache cfg) (mem : Memory cfg) (addr : Addr) (now : Tick) (fetch : Bool)
    (p : BlkPtr cfg) : Path cfg :=
  .miss p (t.clock.miss mem p (t.cache.blk p) addr now fetch).1
    (if (t.cache.blk p).valid then
      cfg.cacheMkBaddr (t.cache.blk p).tag (cfg.setAddr (cfg.setIndex addr)) else 0)

/-- The miss handler replaces the victim, whether or not the miss goes into the queue. -/
theorem cache_miss_eq {cp₁ : CacheT cfg} (mem : Memory cfg) (myrand : Nat → Nat) (now : Tick)
    (h : t.cache.Inv) (hcount : t.countMiss on cmd addr fetch = .ok cp₁) :
    ∃ way t', t.cache.victim myrand (cfg.setIndex addr) = some way ∧
      t.cacheMiss mem myrand on cmd addr now fetch =
        .ok (t', t.missPath mem addr now fetch (cfg.setIndex addr, way)) ∧
      t'.clock = (t.clock.miss mem (cfg.setIndex addr, way)
        (t.cache.blk (cfg.setIndex addr, way)) addr now fetch).2 ∧
      t'.cache.stats = (t.cache.stats.countMiss cmd fetch).replace
        (t.cache.blk (cfg.setIndex addr, way)) := by
  obtain ⟨hsets, hdraws, hstats⟩ := count_miss_ok hcount
  have hformed := h.sets (cfg.setIndex addr)
  rw [← hsets] at hformed
  obtain ⟨way, cp₂, hselect, hwithin₂, hformed₂, hblks₂, -⟩ :=
    CacheT.select_victim myrand hformed
  obtain ⟨cp₃, hunlink, hwithin₃, -, hblks₃, -⟩ := CacheT.unlink_victim hformed₂ way
  have hvictim : t.cache.victim myrand (cfg.setIndex addr) = some way := by
    rw [← (CacheT.queue_of_select_victim hselect).2, CacheT.victim, CacheT.victim, hsets, hdraws]
  have hblk : cp₃.blk (cfg.setIndex addr, way) = t.cache.blk (cfg.setIndex addr, way) := by
    rw [CacheT.blk, CacheT.blk, hblks₃, hblks₂, hsets]
  have hstats₃ : cp₃.stats = t.cache.stats.countMiss cmd fetch := by
    rw [hwithin₃.stats, hwithin₂.stats, hstats]
  refine ⟨way, ⟨CacheT.fill (CacheT.writeBackVictim { cp₃ with lastTagset := 0, lastBlk := none }
    (cfg.setIndex addr, way)) cmd addr (cfg.setIndex addr, way), _⟩, hvictim, ?_, rfl, ?_⟩
  · rw [cacheMiss, hcount]
    show (cp₁.selectVictim myrand _ >>= _) = _
    rw [hselect]
    show (cp₂.unlinkVictim _ way >>= _) = _
    rw [hunlink, missPath, ← hblk]
    rfl
  · rw [CacheT.fill_eq, CacheT.write_back_victim]
    show cp₃.stats.replace (cp₃.blk (cfg.setIndex addr, way)) = _
    rw [hstats₃, hblk]

/-- An access hits, or it goes to the miss handler. -/
theorem access_cases (hfits : cfg.TagFits) (h : t.cache.Inv)
    (hok : t.accessBlock mem myrand on cmd addr now nbytes fetch = .ok (t', path)) :
    (∃ way, (t.cache.sets (cfg.setIndex addr)).holds (cfg.cacheTag addr) way = true ∧
      path = .hit (cfg.setIndex addr, way) ∧ t'.clock = t.clock ∧
      ∀ on', t.accessBlock mem myrand on' cmd addr now nbytes fetch = .ok (t', path)) ∨
    ¬ t.cache.Resident addr ∧
      ∀ on', t.accessBlock mem myrand on' cmd addr now nbytes fetch =
        t.cacheMiss mem myrand on' cmd addr now fetch := by
  obtain ⟨⟨⟩, hcheck, hok⟩ := bind_eq_ok.mp hok
  obtain ⟨⟨⟩, hcopy, hok⟩ := bind_eq_ok.mp hok
  have haccess : ∀ on', t.accessBlock mem myrand on' cmd addr now nbytes fetch =
      if cfg.cacheTagset addr = t.cache.lastTagset then
        match t.cache.lastBlk with
        | none => .error .nullPointer
        | some p => .ok (⟨t.cache.cacheFastHit cmd addr p fetch, t.clock⟩, .hit p)
      else t.fullAccess mem myrand on' cmd addr now fetch := by
    intro on'
    rw [accessBlock, hcheck, hcopy]
    rfl
  by_cases htagset : cfg.cacheTagset addr = t.cache.lastTagset
  · rw [if_pos htagset] at hok
    cases hp : t.cache.lastBlk with
    | none =>
        rw [hp] at hok
        exact nomatch hok
    | some p =>
        rw [hp] at hok
        have hset := h.last_set hp htagset
        have hholds := h.last_holds hfits hp htagset
        obtain ⟨i, way⟩ := p
        obtain rfl : i = cfg.setIndex addr := hset
        obtain ⟨rfl, rfl⟩ := Prod.mk.inj (Except.ok.inj hok)
        refine Or.inl ⟨way, hholds, rfl, rfl, fun on' => ?_⟩
        rw [haccess, if_pos htagset, hp]
  · rw [if_neg htagset] at hok
    have hformed := h.sets (cfg.setIndex addr)
    by_cases hres : t.cache.Resident addr
    · obtain ⟨way, hholds⟩ := hres
      rw [fullAccess, hformed.lookup_some hholds] at hok
      obtain ⟨found, hfound, hok⟩ := bind_eq_ok.mp hok
      obtain rfl := Except.ok.inj hfound
      obtain ⟨cp, hhit, hok⟩ := bind_eq_ok.mp hok
      obtain ⟨rfl, rfl⟩ := Prod.mk.inj (Except.ok.inj hok)
      refine Or.inl ⟨way, hholds, rfl, rfl, fun on' => ?_⟩
      rw [haccess, if_neg htagset, fullAccess, hformed.lookup_some hholds]
      show (t.cache.cacheHit cmd addr (cfg.setIndex addr, way) fetch >>= _) = _
      rw [hhit]
      rfl
    · refine Or.inr ⟨hres, fun on' => ?_⟩
      rw [haccess, if_neg htagset, fullAccess,
        hformed.lookup_none (CacheT.not_resident_iff.mp hres)]
      rfl

/-! ## Prefetches -/

/-- A prefetch does nothing, or it replaces the victim of its set. -/
theorem prefetch_cases (hfits : cfg.TagFits) (h : t.cache.Inv)
    (hok : t.prefetch mem myrand a = .ok t') :
    (t.cache.Resident a ∧ t' = t) ∨
    ¬ t.cache.Resident a ∧ ∃ way, t.cache.victim myrand (cfg.setIndex a) = some way ∧
      t'.clock = (t.clock.miss mem (cfg.setIndex a, way) (t.cache.blk (cfg.setIndex a, way))
        (cfg.cacheBaddr a) 0 true).2 ∧
      t'.cache.stats = (t.cache.stats.countMiss .Read true).replace
        (t.cache.blk (cfg.setIndex a, way)) := by
  rw [prefetch, Config.mk_baddr hfits] at hok
  split at hok
  case isTrue => exact nomatch hok
  case isFalse =>
    obtain ⟨found, hfound, hok⟩ := bind_eq_ok.mp hok
    obtain ⟨hres, hprobe⟩ | ⟨habsent, hprobe⟩ := h.probe_baddr hfits a
    · rw [← Except.ok.inj (hprobe.symm.trans hfound)] at hok
      exact Or.inl ⟨hres, (Except.ok.inj hok).symm⟩
    · rw [← Except.ok.inj (hprobe.symm.trans hfound)] at hok
      obtain ⟨⟨t₁, path⟩, haccess, hok⟩ := bind_eq_ok.mp hok
      obtain rfl : t₁ = t' := Except.ok.inj hok
      refine Or.inr ⟨habsent, ?_⟩
      rw [← CacheT.resident_baddr hfits] at habsent
      rcases access_cases hfits h haccess with ⟨way, hholds, -⟩ | ⟨-, hmiss⟩
      · refine absurd ⟨way, ?_⟩ habsent
        exact hholds
      · obtain ⟨way, t₂, hvictim, hok₂, hclock, hstats⟩ :=
          cache_miss_eq mem myrand 0 h
            (rfl : t.countMiss true .Read (cfg.cacheBaddr a) true = .ok _)
        rw [hmiss, hok₂] at haccess
        obtain ⟨rfl, -⟩ := Prod.mk.inj (Except.ok.inj haccess)
        rw [CacheT.set_index_baddr] at hvictim hclock hstats
        exact ⟨way, hvictim, hclock, hstats⟩

end TimedCache

/-- The counters of hits and misses. -/
def Stats.hitsAndMisses (stats : Stats) : Nat × Nat × Nat × Nat :=
  (stats.hits, stats.misses, stats.readHits, stats.readMisses)

theorem Stats.hits_and_misses_replace (stats : Stats) (b : Blk) :
    (stats.replace b).hitsAndMisses = stats.hitsAndMisses := by
  rw [replace]
  split <;> rfl

/-! ## The block that was hit -/

namespace CacheT

variable {cp cp' : CacheT cfg} {myrand : Nat → Nat} {cmd : MemCmd} {addr : Addr} {fetch : Bool}
variable {way : Way cfg}

/-- A block that is hit will be the next one to replace: under LRU only if it is the only one. -/
def NextVictim (cp : CacheT cfg) (myrand : Nat → Nat) (addr : Addr) (way : Way cfg) : Prop :=
  match cfg.policy with
  | .LRU => cfg.assoc = 1
  | .FIFO => (cp.sets (cfg.setIndex addr)).way.tail = some way
  | .Random => randomWay cfg (myrand cp.draws) = way

/-- The prefetch behind a hit on a block replaces that block. -/
def Replaces (cp : CacheT cfg) (myrand : Nat → Nat) (pc addr : Addr) (way : Way cfg) (a : Addr) :
    Prop :=
  cp.prefetchTarget pc addr = .ok (some a) ∧ ¬ cp.Resident a ∧
    cfg.setIndex a = cfg.setIndex addr ∧ cp.NextVictim myrand addr way

theorem Hit.victim_iff (hhit : cp.Hit cmd addr fetch way cp') (h : cp.Inv) (h' : cp'.Inv)
    (hdraws : cp'.draws = cp.draws) :
    cp'.victim myrand (cfg.setIndex addr) = some way ↔ cp.NextVictim myrand addr way := by
  have hlinked := (h.sets (cfg.setIndex addr)).linked
  have hlinked' := (h'.sets (cfg.setIndex addr)).linked
  have horder := hhit.order
  rw [victim, NextVictim]
  cases hpolicy : cfg.policy with
  | LRU =>
      rw [if_pos hpolicy] at horder
      have hlength := (h.sets (cfg.setIndex addr)).length_order
      have herase := List.length_erase_of_mem ((h.sets (cfg.setIndex addr)).all way)
      show (cp'.sets (cfg.setIndex addr)).way.tail = some way ↔ cfg.assoc = 1
      rw [hlinked'.tail_eq, horder]
      have hnotin := hlinked.nodup.not_mem_erase (a := way)
      rcases List.eq_nil_or_concat ((cp.sets (cfg.setIndex addr)).order.erase way) with
        hnil | ⟨rest, last, hrest⟩
      · rw [hnil] at herase ⊢
        refine iff_of_true rfl ?_
        rw [List.length_nil] at herase
        have hpos := cfg.assoc_ok.1
        omega
      · rw [hrest, List.concat_eq_append] at herase hnotin ⊢
        rw [List.length_append, List.length_singleton] at herase
        refine iff_of_false (fun heq => hnotin ?_) (by omega)
        rw [← List.cons_append, List.getLast?_concat] at heq
        rw [← Option.some.inj heq]
        exact List.mem_append_right _ (List.mem_singleton_self _)
  | FIFO =>
      rw [if_neg (by rw [hpolicy]; decide)] at horder
      show (cp'.sets (cfg.setIndex addr)).way.tail = some way ↔
        (cp.sets (cfg.setIndex addr)).way.tail = some way
      rw [hlinked'.tail_eq, horder, hlinked.tail_eq]
  | Random =>
      show some (randomWay cfg (myrand cp'.draws)) = some way ↔ _
      rw [hdraws, Option.some.injEq]

end CacheT

namespace TimedCache

variable {t t' t₁ : TimedCache cfg} {mem : Memory cfg} {myrand : Nat → Nat} {on : Bool}
variable {cmd : MemCmd} {pc addr nbytes a : Addr} {now : Tick} {path : Path cfg} {way : Way cfg}
variable {target : Option Addr} {r₁ : Returned cfg}

/-- The time at which a block is ready that is replaced by the prefetch behind a hit on it. -/
def refetched (t : TimedCache cfg) (mem : Memory cfg) (cmd : MemCmd) (a : Addr) (p : BlkPtr cfg) :
    Tick :=
  after 0 (t.clock.miss mem p ((t.cache.blk p).after cmd) (cfg.cacheBaddr a) 0 true).1

theorem replace_ready (mem : Memory cfg) (c : Clock cfg) (p : BlkPtr cfg) (b : Blk) (now : Tick) :
    (c.replace mem p b now).2.ready = c.ready := by
  rw [Clock.replace]
  by_cases hvalid : b.valid = true
  · rw [if_pos hvalid]
    by_cases hdirty : b.dirty = true
    · simp only [if_pos hdirty, Clock.blkAccess]
    · simp only [if_neg hdirty]
  · rw [if_neg hvalid]

/-- A miss sets the time of the block that it replaces. -/
theorem miss_ready (mem : Memory cfg) (c : Clock cfg) (p : BlkPtr cfg) (b : Blk) (addr : Addr)
    (now : Tick) (fetch : Bool) : (c.miss mem p b addr now fetch).2.ready =
      Function.update c.ready p (after now (c.miss mem p b addr now fetch).1) := by
  show Function.update (c.replace mem p b now).2.ready p _ = _
  rw [replace_ready]
  rfl

theorem demand_of_access (hfits : cfg.TagFits) (h : t.cache.Inv)
    (hok : t.accessBlock mem myrand true cmd addr now nbytes false = .ok (t', path)) :
    t.cache.Demand myrand cmd addr t'.cache := by
  have herase := erase_access_block t mem myrand cmd addr now nbytes false
  rw [hok] at herase
  exact h.demand hfits herase.symm

/-- A prefetch counts no hits and misses of regular accesses. -/
theorem prefetch_option_counts (hfits : cfg.TagFits) (h : t.cache.Inv)
    (hok : t.prefetchOption mem myrand target = .ok t') :
    t'.cache.stats.hitsAndMisses = t.cache.stats.hitsAndMisses := by
  cases target with
  | none => rw [Except.ok.inj hok]
  | some a =>
      rcases prefetch_cases hfits h hok with ⟨-, rfl⟩ | ⟨-, way, -, -, hstats⟩
      · rfl
      · rw [hstats, Stats.hits_and_misses_replace]
        rfl

/-- The ready time of the block that was hit changes only if the prefetch replaces the block. -/
theorem ready_of_prefetch (hfits : cfg.TagFits) (h : t.cache.Inv)
    (hdemand : t.cache.Demand myrand cmd addr t'.cache)
    (hway : (t.cache.sets (cfg.setIndex addr)).holds (cfg.cacheTag addr) way = true)
    (hclock : t'.clock = t.clock) (htarget : t'.cache.prefetchTarget pc addr = .ok target)
    (hok : prefetchOption { t' with cache := t'.cache.tableUpdated pc addr } mem myrand target =
      .ok t₁) :
    (∃ a, t.cache.Replaces myrand pc addr way a ∧
      t₁.clock.ready (cfg.setIndex addr, way) =
        t.refetched mem cmd a (cfg.setIndex addr, way)) ∨
    (∀ a, ¬ t.cache.Replaces myrand pc addr way a) ∧
      t₁.clock.ready (cfg.setIndex addr, way) = t.clock.ready (cfg.setIndex addr, way) := by
  have hres : t.cache.Resident addr := ⟨way, hway⟩
  obtain ⟨⟨way', hhit⟩, -, hdraws⟩ := hdemand.hit hres
  obtain rfl : way' = way := 
    (h.sets _).holds_unique (hhit.found (Or.inl hfits)) hway
  have hvictim : t'.cache.victim myrand (cfg.setIndex addr) = some way' ↔
      t.cache.NextVictim myrand addr way' := hhit.victim_iff h hdemand.inv hdraws
  have htarget' : t.cache.prefetchTarget pc addr = .ok target := by
    rw [← htarget, hdemand.target, CacheT.missQueued, if_pos hres]
  have hblk := CacheT.blk_of_update hhit.blks hhit.others (cfg.setIndex addr, way')
  rw [if_pos rfl] at hblk
  have hready : t'.clock.ready (cfg.setIndex addr, way') =
      t.clock.ready (cfg.setIndex addr, way') := by rw [hclock]
  obtain ⟨u, hu⟩ : ∃ u, u = t'.cache.tableUpdated pc addr := ⟨_, rfl⟩
  have hinv : u.Inv := hu ▸ hdemand.inv.table_updated pc addr
  rw [← hu] at hok
  rw [CacheT.table_updated_eq] at hu
  have hsame : ∀ a, u.Resident a ↔ t.cache.Resident a := fun a => by
    rw [← hhit.resident_iff, hu]
    exact Iff.rfl
  have hsets : u.victim myrand (cfg.setIndex addr) =
      t'.cache.victim myrand (cfg.setIndex addr) := by
    rw [hu]
    rfl
  cases target with
  | none =>
      obtain rfl := Except.ok.inj hok
      refine Or.inr ⟨fun a hreplaces => ?_, hready⟩
      cases htarget'.symm.trans hreplaces.1
  | some a =>
      have honly : ∀ a', t.cache.Replaces myrand pc addr way' a' → a' = a := fun a' hreplaces =>
        (Option.some.inj (Except.ok.inj (htarget'.symm.trans hreplaces.1))).symm
      rcases prefetch_cases hfits hinv hok with ⟨hresident, rfl⟩ | ⟨habsent, w, hw, hclock₁, -⟩
      · refine Or.inr ⟨fun a' hreplaces => ?_, hready⟩
        obtain rfl := honly a' hreplaces
        exact hreplaces.2.1 ((hsame a').mp hresident)
      · rw [hclock₁, miss_ready]
        by_cases hp : (cfg.setIndex a, w) = (cfg.setIndex addr, way')
        · obtain ⟨hset, rfl⟩ := Prod.mk.inj hp
          have hnext : t.cache.NextVictim myrand addr w := by
            rw [← hvictim, ← hsets, ← hset]
            exact hw
          refine Or.inl ⟨a, ⟨htarget', fun hresident => habsent ((hsame a).mpr hresident), hset,
            hnext⟩, ?_⟩
          have hblk' : u.blk (cfg.setIndex addr, w) =
              (t.cache.blk (cfg.setIndex addr, w)).after cmd := by
            rw [hu]
            exact hblk
          show Function.update t'.clock.ready _ _ _ = _
          rw [hset, Function.update_self, refetched, hclock, hblk']
        · refine Or.inr ⟨fun a' hreplaces => ?_, ?_⟩
          · obtain rfl := honly a' hreplaces
            obtain ⟨-, -, hset, hnext⟩ := hreplaces
            rw [← hvictim, ← hsets, ← hset] at hnext
            exact hp (Prod.ext hset (Option.some.inj (hw.symm.trans hnext)))
          · rw [Function.update_of_ne (Ne.symm hp)]
            exact hready

/-- An access that misses, with prefetching switched on and off. -/
theorem miss_on_off (h : t.cache.Inv)
    (hok : t.cacheMiss mem myrand true cmd addr now false = .ok (t', path)) :
    ∃ t₀ p lat replAddr, path = .miss p lat replAddr ∧
      t.cacheMiss mem myrand false cmd addr now false = .ok (t₀, path) ∧
      t₀.cache.stats = t'.cache.stats := by
  obtain ⟨cp₁, hcount, -⟩ := bind_eq_ok.mp hok
  obtain ⟨way, t₁, hvictim, hok₁, -, hstats⟩ := cache_miss_eq mem myrand now h hcount
  obtain ⟨rfl, rfl⟩ := Prod.mk.inj (Except.ok.inj (hok.symm.trans hok₁))
  obtain ⟨way₀, t₀, hvictim₀, hok₀, -, hstats₀⟩ := cache_miss_eq mem myrand now h
    (rfl : t.countMiss false cmd addr false = .ok _)
  obtain rfl : way = way₀ := Option.some.inj (hvictim.symm.trans hvictim₀)
  exact ⟨t₀, _, _, _, rfl, hok₀, hstats₀.trans hstats.symm⟩

/-- The parts of a regular access with prefetching switched on. -/
theorem cache_access_ok
    (hok : t.cacheAccess mem myrand true cmd addr now pc nbytes = .ok (t₁, r₁)) :
    ∃ t' path target, t.accessBlock mem myrand true cmd addr now nbytes false = .ok (t', path) ∧
      t'.cache.prefetchTarget pc addr = .ok target ∧
      prefetchOption { t' with cache := t'.cache.tableUpdated pc addr } mem myrand target =
        .ok t₁ ∧
      r₁ = t₁.returned mem now path := by
  obtain ⟨⟨t', path⟩, haccess, hok⟩ := bind_eq_ok.mp hok
  obtain ⟨t₂, hprefetch, hok⟩ := bind_eq_ok.mp hok
  obtain ⟨target, htarget, hprefetch⟩ := bind_eq_ok.mp hprefetch
  obtain ⟨rfl, rfl⟩ := Prod.mk.inj (Except.ok.inj hok)
  exact ⟨t', path, target, haccess, htarget, hprefetch, rfl⟩

/-- With prefetching switched off, an access returns what its path leads to. -/
theorem cache_access_off
    (hok : t.accessBlock mem myrand false cmd addr now nbytes false = .ok (t', path)) :
    t.cacheAccess mem myrand false cmd addr now pc nbytes =
      .ok (t', t'.returned mem now path) := by
  rw [cacheAccess, hok]
  rfl

/-! ## Main result -/

/-- The access returns the same, and it counts the same hits and misses. -/
def SameResult (t₁ : TimedCache cfg) (r₁ : Returned cfg) (t₀ : TimedCache cfg)
    (r₀ : Returned cfg) : Prop :=
  r₁ = r₀ ∧ t₁.cache.stats.hitsAndMisses = t₀.cache.stats.hitsAndMisses

/-- If the tag fits, a regular access gives the same result with prefetching switched on and off if
and only if its prefetch does not replace the block that it hits, or the new ready time of that
block makes no difference. The block of the user data, the address of the block that was replaced
and the counters are always the same. -/
theorem same_result_iff (hfits : cfg.TagFits)
    (h : (moves cfg myrand).Reachable t.cache)
    (hok : t.cacheAccess mem myrand true cmd addr now pc nbytes = .ok (t₁, r₁)) :
    ∃ t₀ r₀, t.cacheAccess mem myrand false cmd addr now pc nbytes = .ok (t₀, r₀) ∧
      (SameResult t₁ r₁ t₀ r₀ ↔ ∀ way a,
        (t.cache.sets (cfg.setIndex addr)).holds (cfg.cacheTag addr) way = true →
        t.cache.Replaces myrand pc addr way a →
        firstCycle mem (t.refetched mem cmd a (cfg.setIndex addr, way)) now =
          firstCycle mem (t.clock.ready (cfg.setIndex addr, way)) now) ∧
      SameResult t₁ { r₁ with latency := r₀.latency } t₀ r₀ := by
  have hinv := CacheT.Inv.of_reachable myrand h
  obtain ⟨t', path, target, haccess, htarget, hprefetch, rfl⟩ := cache_access_ok hok
  have hdemand := demand_of_access hfits hinv haccess
  have hcounts : t₁.cache.stats.hitsAndMisses = t'.cache.stats.hitsAndMisses := by
    have hinv' := hdemand.inv.table_updated pc addr
    rw [prefetch_option_counts (t := ⟨t'.cache.tableUpdated pc addr, t'.clock⟩) hfits hinv'
      hprefetch]
    show (t'.cache.tableUpdated pc addr).stats.hitsAndMisses = _
    rw [CacheT.table_updated_eq]
  rcases access_cases hfits hinv haccess with ⟨way, hway, rfl, hclock, hoff⟩ | ⟨habsent, hmiss⟩
  · refine ⟨t', _, cache_access_off (hoff false), ?_, rfl, hcounts⟩
    have hlatency : SameResult t₁ (t₁.returned mem now (.hit (cfg.setIndex addr, way))) t'
        (t'.returned mem now (.hit (cfg.setIndex addr, way))) ↔
        firstCycle mem (t₁.clock.ready (cfg.setIndex addr, way)) now =
          firstCycle mem (t.clock.ready (cfg.setIndex addr, way)) now := by
      rw [SameResult, returned, returned, hclock, Returned.mk.injEq]
      exact ⟨fun hsame => hsame.1.1, fun hsame => ⟨⟨hsame, rfl, rfl⟩, hcounts⟩⟩
    have honly : ∀ way',
        (t.cache.sets (cfg.setIndex addr)).holds (cfg.cacheTag addr) way' = true → way' = way :=
      fun way' hway' => (hinv.sets _).holds_unique hway' hway
    rw [hlatency]
    rcases ready_of_prefetch hfits hinv hdemand hway hclock htarget hprefetch with
      ⟨a, hreplaces, hready⟩ | ⟨hnone, hready⟩
    · rw [hready]
      refine ⟨fun hsame way' a' hway' hreplaces' => ?_, fun hall => hall way a hway hreplaces⟩
      obtain rfl := honly way' hway'
      obtain rfl : a' = a :=
        Option.some.inj (Except.ok.inj (hreplaces'.1.symm.trans hreplaces.1))
      exact hsame
    · rw [hready]
      refine iff_of_true rfl fun way' a' hway' hreplaces' => ?_
      obtain rfl := honly way' hway'
      exact absurd hreplaces' (hnone a')
  · rw [hmiss] at haccess
    obtain ⟨t₀, p, lat, replAddr, rfl, hok₀, hstats⟩ := miss_on_off hinv haccess
    have hcounts₀ : t₁.cache.stats.hitsAndMisses = t₀.cache.stats.hitsAndMisses := by
      rw [hcounts, hstats]
    refine ⟨t₀, _, cache_access_off ((hmiss false).trans hok₀), iff_of_true ⟨rfl, hcounts₀⟩ ?_,
      rfl, hcounts₀⟩
    exact fun way a hway _ => absurd ⟨way, hway⟩ habsent

/-! ## A cache of one block -/

/-- A new cache. -/
def timedCreate (cfg : Config) : TimedCache cfg := ⟨cacheCreate cfg, ⟨fun _ => 0, 0, 0⟩⟩

/-- Hits take one cycle, and each call of the block access function takes 100. -/
def slowMemory (cfg : Config) : Memory cfg := ⟨1, fun _ _ _ _ _ _ => 100⟩

/-- The miss of a new cache gives the same result with prefetching switched on and off. -/
theorem same_result_of_first_miss : ∃ t₁ r₁ t₀ r₀,
    (timedCreate nextLine).cacheAccess (slowMemory nextLine) (fun _ => 0) true .Read 64 0 0 4 =
      .ok (t₁, r₁) ∧
    (timedCreate nextLine).cacheAccess (slowMemory nextLine) (fun _ => 0) false .Read 64 0 0 4 =
      .ok (t₀, r₀) ∧ SameResult t₁ r₁ t₀ r₀ := by
  obtain ⟨t₁, r₁, hon⟩ : ∃ t₁ r₁, (timedCreate nextLine).cacheAccess (slowMemory nextLine)
    (fun _ => 0) true .Read 64 0 0 4 = .ok (t₁, r₁) := ⟨_, _, rfl⟩
  have hreach : (moves nextLine fun _ => 0).Reachable (timedCreate nextLine).cache := .init rfl
  have hfits : nextLine.TagFits := by decide
  obtain ⟨t₀, r₀, hoff, hiff, -⟩ := same_result_iff hfits hreach hon
  refine ⟨t₁, r₁, t₀, r₀, hon, hoff, hiff.mpr fun way a hway _ => ?_⟩
  exact absurd ⟨way, hway⟩ (CacheT.not_resident_created 64)

/-- A cache of one block with a stride prefetcher. -/
def oneBlock : Config :=
  { directMapped with
    nsets := 1, prefetchType := 4
    nsets_ok := directMapped.assoc_ok, nsets_lt := directMapped.assoc_lt
    prefetch_type_lt := directMapped.nsets_lt }

/-- The second access hits a block that is ready at time 100. Its prefetch replaces the block, and
the latency is that of the new block. -/
theorem prefetch_delays_hit :
    (∃ t r t₁ r₁ t₀ r₀,
      (timedCreate oneBlock).cacheAccess (slowMemory oneBlock) (fun _ => 0) true .Read 64 0 256 4 =
        .ok (t, r) ∧
      t.cacheAccess (slowMemory oneBlock) (fun _ => 0) true .Read 72 10 256 4 = .ok (t₁, r₁) ∧
      t.cacheAccess (slowMemory oneBlock) (fun _ => 0) false .Read 72 10 256 4 = .ok (t₀, r₀) ∧
      r₁.latency = 190 ∧ r₀.latency = 90) ∧
    ¬ ∀ (cfg : Config) (mem : Memory cfg) (myrand : Nat → Nat) (t t₁ t₀ : TimedCache cfg)
      (r₁ r₀ : Returned cfg) (cmd : MemCmd) (addr : Addr) (now : Tick) (pc nbytes : Addr),
      (moves cfg myrand).Reachable t.cache →
      t.cacheAccess mem myrand true cmd addr now pc nbytes = .ok (t₁, r₁) →
      t.cacheAccess mem myrand false cmd addr now pc nbytes = .ok (t₀, r₀) →
      SameResult t₁ r₁ t₀ r₀ := by
  obtain ⟨t, r, hfirst⟩ : ∃ t r, (timedCreate oneBlock).cacheAccess (slowMemory oneBlock)
    (fun _ => 0) true .Read 64 0 256 4 = .ok (t, r) := ⟨_, _, rfl⟩
  have hsecond : ∃ t₁ r₁ t₀ r₀,
      t.cacheAccess (slowMemory oneBlock) (fun _ => 0) true .Read 72 10 256 4 = .ok (t₁, r₁) ∧
      t.cacheAccess (slowMemory oneBlock) (fun _ => 0) false .Read 72 10 256 4 = .ok (t₀, r₀) ∧
      r₁.latency = 190 ∧ r₀.latency = 90 := by
    obtain ⟨rfl, rfl⟩ := Prod.mk.inj (Except.ok.inj hfirst)
    exact ⟨_, _, _, _, rfl, rfl, rfl, rfl⟩
  obtain ⟨t₁, r₁, t₀, r₀, hon, hoff, hlatency₁, hlatency₀⟩ := hsecond
  refine ⟨⟨t, r, t₁, r₁, t₀, r₀, hfirst, hon, hoff, hlatency₁, hlatency₀⟩, fun hall => ?_⟩
  have hrun : runOps oneBlock (fun _ => 0) [.access .Read 256 64 4] = .ok t.cache := by
    have herase := erase_cache_access (timedCreate oneBlock) (slowMemory oneBlock) (fun _ => 0)
      .Read 64 0 256 4
    rw [hfirst] at herase
    exact herase.symm
  have hsame := hall oneBlock (slowMemory oneBlock) (fun _ => 0) t t₁ t₀ r₁ r₀ .Read 72 10 256 4
    (CacheT.reachable_of_run (fun _ => 0) hrun) hon hoff
  rw [hsame.1, hlatency₀] at hlatency₁
  exact absurd hlatency₁ (by decide)

end TimedCache

end Ece552.Cache
