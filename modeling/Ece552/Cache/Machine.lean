import Ece552.Cache.Sets

/-!
# The cache

`cache.c` without latencies and block contents: the functions that access and flush the cache, and
the prefetchers. What a cache does is recorded in a log: the blocks that it fills and drops, the
accesses that blocks serve and the calls of the block access function. The number that the random
number generator returns at its `k`-th call is a parameter.
-/

namespace Ece552.Cache

open Library

variable {cfg : Config}

/-! ## The cache structure -/

/-- The states of an entry of the reference prediction table. -/
inductive RptState where
  | Initial | Transient | Steady | NoPrediction
  deriving DecidableEq, Repr

/-- An entry of the reference prediction table. -/
structure RptEntry where
  tag : Addr := 0
  prevAddr : Addr := 0
  stride : Addr := 0
  isNegative : Bool := false
  state : RptState := .Initial

/-- The counters of the cache. -/
structure Stats where
  hits : Nat := 0
  misses : Nat := 0
  replacements : Nat := 0
  writebacks : Nat := 0
  invalidations : Nat := 0
  readHits : Nat := 0
  readMisses : Nat := 0
  prefetchHits : Nat := 0
  prefetchMisses : Nat := 0
  deriving DecidableEq, Repr

/-- The counters after a hit. -/
def Stats.countHit (s : Stats) (cmd : MemCmd) (prefetch : Bool) : Stats :=
  if prefetch then { s with prefetchHits := s.prefetchHits + 1 }
  else { s with
    hits := s.hits + 1
    readHits := if cmd = .Read then s.readHits + 1 else s.readHits }

/-- The counters after a miss. -/
def Stats.countMiss (s : Stats) (cmd : MemCmd) (prefetch : Bool) : Stats :=
  if prefetch then { s with prefetchMisses := s.prefetchMisses + 1 }
  else { s with
    misses := s.misses + 1
    readMisses := if cmd = .Read then s.readMisses + 1 else s.readMisses }

/-- A block of the cache. -/
abbrev BlkPtr (cfg : Config) := Fin cfg.nsets × Way cfg

/-- What a cache does. -/
inductive Event (cfg : Config) where
  /-- a block is filled for an access to an address -/
  | fill (p : BlkPtr cfg) (addr : Addr)
  /-- a block serves an access -/
  | serve (p : BlkPtr cfg) (cmd : MemCmd) (addr : Addr)
  /-- a valid block is replaced or invalidated -/
  | drop (p : BlkPtr cfg)
  /-- the block access function is called -/
  | call (cmd : MemCmd) (baddr : Addr) (bsize : Nat)
  deriving DecidableEq, Repr

/-- The cache, with its log and the number of random numbers drawn. -/
structure CacheT (cfg : Config) where
  sets : Fin cfg.nsets → CacheSet cfg
  stats : Stats
  lastTagset : Addr
  lastBlk : Option (BlkPtr cfg)
  rpt : Nat → RptEntry
  missQueue : Nat → Addr
  missQueueSize : Nat
  missQueueHead : Nat
  log : List (Event cfg)
  draws : Nat

/-- The number of misses in the queue. -/
abbrev MISS_QUEUE_MAX_SIZE : Nat := 2048

/-- The number of entries of the stride tables. -/
abbrev RPT_DEFAULT_SIZE : Nat := 1024

/-- `cache_create`. -/
def cacheCreate (cfg : Config) : CacheT cfg where
  sets := fun _ => .created cfg
  stats := {}
  lastTagset := 0
  lastBlk := none
  rpt := fun _ => {}
  missQueue := fun _ => 0
  missQueueSize := 0
  missQueueHead := 0
  log := []
  draws := 0

namespace CacheT

variable (cp : CacheT cfg)

/-- The block that a pointer points to. -/
def blk (p : BlkPtr cfg) : Blk := (cp.sets p.1).blks p.2

/-- The cache with one set changed. -/
def setSet (set : Fin cfg.nsets) (s : CacheSet cfg) : CacheT cfg :=
  { cp with sets := Function.update cp.sets set s }

/-- The cache with one block changed. -/
def setBlk (p : BlkPtr cfg) (b : Blk) : CacheT cfg := cp.setSet p.1 ((cp.sets p.1).setBlk p.2 b)

/-- Add to the log. -/
def record (e : Event cfg) : CacheT cfg := { cp with log := cp.log ++ [e] }

/-- The dirty bit that a write sets. -/
def markDirty (p : BlkPtr cfg) (cmd : MemCmd) : CacheT cfg :=
  match cmd with
  | .Read => cp
  | .Write => cp.setBlk p { cp.blk p with dirty := true }

/-- A block serves an access. -/
def serve (p : BlkPtr cfg) (cmd : MemCmd) (addr : Addr) : CacheT cfg :=
  (cp.markDirty p cmd).record (.serve p cmd addr)

/-- The block access function is called. -/
def blkAccess (cmd : MemCmd) (baddr : Addr) : CacheT cfg := cp.record (.call cmd baddr cfg.bsize)

/-! ## The miss queue -/

/-- The head from which the slot of the next insertion is computed. -/
def insertHead : Nat :=
  if cp.missQueueSize = MISS_QUEUE_MAX_SIZE then cp.missQueueHead + 1 else cp.missQueueHead

/-- Insert an address into the miss queue. The index is not negative, as the second assertion wants
it, as long as the sum is an `int`. -/
def missQueueInsert (addr : Addr) : Except Fault (CacheT cfg) :=
  if addr ≠ 0 ∧ cfg.prefetchType = 2 ∧ cp.insertHead + cp.missQueueSize < 2 ^ 31 then
    let insertIndex := (cp.insertHead + cp.missQueueSize) % MISS_QUEUE_MAX_SIZE
    .ok { cp with
      missQueue := Function.update cp.missQueue insertIndex addr
      missQueueHead := cp.insertHead
      missQueueSize := if cp.missQueueSize < MISS_QUEUE_MAX_SIZE then cp.missQueueSize + 1
        else cp.missQueueSize }
  else .error .missQueue

/-- The address that follows another one in the miss queue, or 0. -/
def missQueueGetNextMissAddr (addr : Addr) : Except Fault Addr :=
  if addr ≠ 0 ∧ cfg.prefetchType = 2 then
    match (List.range MISS_QUEUE_MAX_SIZE).find? fun i => decide (cp.missQueue i = addr) with
    | some i => .ok (cp.missQueue ((i + 1) % MISS_QUEUE_MAX_SIZE))
    | none => .ok 0
  else .error .missQueue

/-! ## Accesses -/

section Access

variable (myrand : Nat → Nat) (cmd : MemCmd) (addr : Addr)

/-- Count a miss, and insert the address of a demand miss into the miss queue. -/
def countMiss (prefetch : Bool) : Except Fault (CacheT cfg) :=
  let cp := { cp with stats := cp.stats.countMiss cmd prefetch }
  if !prefetch && decide (cfg.prefetchType = 2) then cp.missQueueInsert addr else .ok cp

/-- The block that a random number selects. -/
def randomWay (cfg : Config) (number : Nat) : Way cfg :=
  ⟨number &&& (cfg.assoc - 1), by
    have hpos := cfg.assoc_ok.1
    have hle : number &&& (cfg.assoc - 1) ≤ cfg.assoc - 1 := Nat.and_le_right
    omega⟩

/-- Select the block to replace, and move it to the head of the way list. -/
def selectVictim (set : Fin cfg.nsets) : Except Fault (Way cfg × CacheT cfg) :=
  match cfg.policy with
  | .LRU | .FIFO =>
      match (cp.sets set).way.tail with
      | none => .error .nullPointer
      | some repl => do
          let way ← updateWayList (cp.sets set).way repl .Head
          .ok (repl, cp.setSet set { cp.sets set with way := way })
  | .Random => .ok (randomWay cfg (myrand cp.draws), { cp with draws := cp.draws + 1 })

/-- Unlink the block to replace from its hash chain, if there are hash chains. -/
def unlinkVictim (set : Fin cfg.nsets) (repl : Way cfg) : Except Fault (CacheT cfg) :=
  if cfg.hsize ≠ 0 then do
    let s ← (cp.sets set).unlinkHtabEnt repl
    .ok (cp.setSet set s)
  else .ok cp

/-- Count the block to replace, if it is valid, and write it back, if it is dirty too. -/
def writeBackVictim (p : BlkPtr cfg) : CacheT cfg :=
  let blk := cp.blk p
  if blk.valid then
    let cp := { cp.record (.drop p) with
      stats := { cp.stats with replacements := cp.stats.replacements + 1 } }
    if blk.dirty then
      blkAccess { cp with stats := { cp.stats with writebacks := cp.stats.writebacks + 1 } }
        .Write (cfg.cacheMkBaddr blk.tag (cfg.setAddr p.1))
    else cp
  else cp

/-- Fill the block with the tag, and link it into its hash chain, if there are hash chains. -/
def fill (p : BlkPtr cfg) : CacheT cfg :=
  let cp := (cp.setBlk p ⟨cfg.cacheTag addr, true, false⟩).record (.fill p addr)
  let cp := (cp.blkAccess .Read (cfg.cacheBaddr addr)).serve p cmd addr
  if cfg.hsize ≠ 0 then cp.setSet p.1 ((cp.sets p.1).linkHtabEnt p.2) else cp

/-- The miss handler. -/
def cacheMiss (prefetch : Bool) : Except Fault (CacheT cfg) := do
  let set := cfg.setIndex addr
  let cp ← cp.countMiss cmd addr prefetch
  let (repl, cp) ← cp.selectVictim myrand set
  let cp ← cp.unlinkVictim set repl
  let cp := { cp with lastTagset := 0, lastBlk := none }
  .ok ((cp.writeBackVictim (set, repl)).fill cmd addr (set, repl))

/-- The reordering that a hit causes, if the block is not at the head of the list. -/
def reorder (p : BlkPtr cfg) : Except Fault (CacheT cfg) :=
  if ((cp.sets p.1).way.prev p.2).isSome ∧ cfg.policy = .LRU then do
    let way ← updateWayList (cp.sets p.1).way p.2 .Head
    .ok (cp.setSet p.1 { cp.sets p.1 with way := way })
  else .ok cp

/-- Record the last block to hit. -/
def recordLast (p : BlkPtr cfg) : CacheT cfg :=
  { cp with lastTagset := cfg.cacheTagset addr, lastBlk := some p }

/-- The slow hit handler. -/
def cacheHit (p : BlkPtr cfg) (prefetch : Bool) : Except Fault (CacheT cfg) := do
  let cp := { cp with stats := cp.stats.countHit cmd prefetch }
  let cp ← (cp.serve p cmd addr).reorder p
  .ok (cp.recordLast addr p)

/-- The fast hit handler. -/
def cacheFastHit (p : BlkPtr cfg) (prefetch : Bool) : CacheT cfg :=
  let cp := { cp with stats := cp.stats.countHit cmd prefetch }
  (cp.serve p cmd addr).recordLast addr p

/-- The access through the hash chains or the way list. -/
def fullAccess (prefetch : Bool) : Except Fault (CacheT cfg) := do
  match ← (cp.sets (cfg.setIndex addr)).lookup (cfg.cacheTag addr) with
  | some way => cp.cacheHit cmd addr (cfg.setIndex addr, way) prefetch
  | none => cp.cacheMiss myrand cmd addr prefetch

/-- The checks of size and alignment, and that the access fits in its block. -/
def checkAccess (cfg : Config) (addr nbytes : Addr) : Except Fault Unit :=
  if nbytes &&& (nbytes - 1) ≠ 0 ∨ addr &&& (nbytes - 1) ≠ 0 then .error .alignment
  else if cfg.cacheBaddr addr + BitVec.ofNat 32 cfg.bsize < addr + nbytes then .error .spansBlock
  else .ok ()

/-- The copy of the data, for which a prefetch passes no buffer. -/
def copyData (cfg : Config) (prefetch : Bool) : Except Fault Unit :=
  if cfg.balloc && prefetch then .error .nullPointer else .ok ()

/-- `cache_access` without the prefetch that it generates. -/
def accessBlock (nbytes : Addr) (prefetch : Bool) : Except Fault (CacheT cfg) := do
  checkAccess cfg addr nbytes
  copyData cfg prefetch
  if cfg.cacheTagset addr = cp.lastTagset then
    match cp.lastBlk with
    | none => .error .nullPointer
    | some p => .ok (cp.cacheFastHit cmd addr p prefetch)
  else cp.fullAccess myrand cmd addr prefetch

end Access

/-- The block of an address is in the cache. -/
def cacheProbe (addr : Addr) : Except Fault Bool := do
  let way ← (cp.sets (cfg.setIndex addr)).lookup (cfg.cacheTag addr)
  .ok way.isSome

/-! ## Prefetchers -/

section Prefetch

variable (myrand : Nat → Nat)

/-- Prefetch the block of an address, if it is not in the cache. -/
def prefetch (prefetchAddr : Addr) : Except Fault (CacheT cfg) :=
  if prefetchAddr = 0 then .error .prefetchAddr
  else do
    let baddr := cfg.cacheMkBaddr (cfg.cacheTag prefetchAddr) (cfg.cacheSet prefetchAddr)
    let found ← cp.cacheProbe baddr
    if found then .ok cp
    else cp.accessBlock myrand .Read baddr (BitVec.ofNat 32 cfg.bsize) true

/-- Prefetch the next block. -/
def nextLinePrefetcher (addr : Addr) : Except Fault (CacheT cfg) :=
  cp.prefetch myrand (addr + BitVec.ofNat 32 cfg.bsize)

end Prefetch

end CacheT

/-- `MAX` of two addresses. -/
def addrMax (a b : Addr) : Addr := if a < b then b else a

/-- `MIN` of two addresses. -/
def addrMin (a b : Addr) : Addr := if a < b then a else b

/-- The next state of an entry. -/
def getNextRptState : RptState → Bool → RptState
  | .Initial, condition => if condition then .Steady else .Transient
  | .Transient, condition => if condition then .Steady else .NoPrediction
  | .Steady, condition => if condition then .Steady else .Initial
  | .NoPrediction, condition => if condition then .Transient else .NoPrediction

/-- The entry of an instruction that takes it over. -/
def RptEntry.takeOver (tag addr : Addr) : RptEntry := ⟨tag, addr, 0, false, .Initial⟩

/-- The entry after another access of its instruction. -/
def RptEntry.update (e : RptEntry) (addr : Addr) : RptEntry :=
  let newStride := addrMax addr e.prevAddr - addrMin addr e.prevAddr
  let isNegative := decide (addr < e.prevAddr)
  let condition := decide (newStride = e.stride) && decide (isNegative = e.isNegative)
  let state := getNextRptState e.state condition
  if !condition && (decide (state = .Transient) || decide (state = .NoPrediction)) then
    { e with state := state, stride := newStride, isNegative := isNegative, prevAddr := addr }
  else { e with state := state, prevAddr := addr }

/-- The address that the stride of an entry predicts. -/
def RptEntry.predicted (e : RptEntry) (addr : Addr) : Addr :=
  if e.isNegative then addr - e.stride else addr + e.stride

/-- The size of the reference prediction table. -/
def Config.rptSize (cfg : Config) : Nat :=
  if cfg.prefetchType = 2 then RPT_DEFAULT_SIZE else cfg.prefetchType

/-- The bits of an instruction address that are always 0. -/
abbrev INDEX_OFFSET : Nat := 3

/-- The index of the entry for an instruction. -/
def Config.rptIndex (cfg : Config) (pc : Addr) : Nat :=
  ((pc >>> INDEX_OFFSET) &&& BitVec.ofNat 32 (cfg.rptSize - 1)).toNat

/-- The tag of the entry for an instruction. -/
def Config.rptTag (cfg : Config) (pc : Addr) : Addr :=
  pc >>> ((INDEX_OFFSET + Nat.log2 cfg.rptSize) % 32)

namespace CacheT

variable (cp : CacheT cfg) (myrand : Nat → Nat) (pc addr : Addr)

/-- Update the entry of the current instruction. The result says whether it was taken over. -/
def updateRpt : Bool × RptEntry × CacheT cfg :=
  let index := cfg.rptIndex pc
  let tag := cfg.rptTag pc
  if (cp.rpt index).tag ≠ tag then
    let e := .takeOver tag addr
    (true, e, { cp with rpt := Function.update cp.rpt index e })
  else
    let e := (cp.rpt index).update addr
    (false, e, { cp with rpt := Function.update cp.rpt index e })

/-- Prefetch the address that follows in the miss queue, if there is one. -/
def prefetchNextMiss : Except Fault (CacheT cfg) := do
  let next ← cp.missQueueGetNextMissAddr addr
  if next ≠ 0 then cp.prefetch myrand next else .ok cp

/-- Prefetch the miss that is expected next, or the next stride. -/
def openEndedPrefetcher : Except Fault (CacheT cfg) :=
  if addr = 0 then .error .missQueue
  else
    match cp.updateRpt pc addr with
    | (takenOver, e, cp) =>
        if !takenOver && decide (e.state = .Steady) then cp.prefetch myrand (e.predicted addr)
        else cp.prefetchNextMiss myrand addr

/-- Prefetch the next stride. -/
def stridePrefetcher : Except Fault (CacheT cfg) :=
  if cfg.prefetchType &&& (cfg.prefetchType - 1) ≠ 0 then .error .rptSize
  else
    match cp.updateRpt pc addr with
    | (takenOver, e, cp) =>
        if !takenOver && decide (e.state ≠ .NoPrediction) then
          cp.prefetch myrand (e.predicted addr)
        else .ok cp

/-- The prefetch that a regular access may generate. -/
def generatePrefetch : Except Fault (CacheT cfg) :=
  match cfg.prefetchType with
  | 0 => .ok cp
  | 1 => cp.nextLinePrefetcher myrand addr
  | 2 => cp.openEndedPrefetcher myrand pc addr
  | _ => cp.stridePrefetcher myrand pc addr

/-- `cache_access` for a regular access. -/
def cacheAccess (cmd : MemCmd) (nbytes : Addr) : Except Fault (CacheT cfg) := do
  let cp ← cp.accessBlock myrand cmd addr nbytes false
  cp.generatePrefetch myrand pc addr

/-! ## Flushes -/

/-- Invalidate a block, and write it back if it is dirty. -/
def invalidate (p : BlkPtr cfg) : CacheT cfg :=
  let blk := cp.blk p
  let cp := { (cp.setBlk p { blk with valid := false }).record (.drop p) with
    stats := { cp.stats with invalidations := cp.stats.invalidations + 1 } }
  if blk.dirty then
    blkAccess { cp with stats := { cp.stats with writebacks := cp.stats.writebacks + 1 } }
      .Write (cfg.cacheMkBaddr blk.tag (cfg.setAddr p.1))
  else cp

/-- The loop of `cache_flush` along the way list of a set. -/
def flushWays (set : Fin cfg.nsets) :
    Nat → Option (Way cfg) → CacheT cfg → Except Fault (CacheT cfg)
  | _, none, cp => .ok cp
  | 0, some _, _ => .error .endlessLoop
  | bound + 1, some way, cp =>
      let cp := if (cp.blk (set, way)).valid then cp.invalidate (set, way) else cp
      flushWays set bound ((cp.sets set).way.next way) cp

/-- Write back and invalidate all blocks. -/
def cacheFlush : Except Fault (CacheT cfg) :=
  (List.finRange cfg.nsets).foldlM
    (fun cp set => flushWays set cfg.assoc (cp.sets set).way.head cp)
    { cp with lastTagset := 0, lastBlk := none }

/-- Write back and invalidate the block of an address. -/
def cacheFlushAddr : Except Fault (CacheT cfg) := do
  let set := cfg.setIndex addr
  match ← (cp.sets set).lookup (cfg.cacheTag addr) with
  | none => .ok cp
  | some way => do
      let cp := { cp.invalidate (set, way) with lastTagset := 0, lastBlk := none }
      let list ← updateWayList (cp.sets set).way way .Tail
      .ok (cp.setSet set { cp.sets set with way := list })

end CacheT

/-! ## Runs -/

/-- What a simulator does with a cache. -/
inductive Op where
  | access (cmd : MemCmd) (pc addr nbytes : Addr)
  | flush
  | flushAddr (addr : Addr)
  deriving DecidableEq, Repr

/-- Apply one operation. -/
def CacheT.apply (myrand : Nat → Nat) (cp : CacheT cfg) : Op → Except Fault (CacheT cfg)
  | .access cmd pc addr nbytes => cp.cacheAccess myrand pc addr cmd nbytes
  | .flush => cp.cacheFlush
  | .flushAddr addr => cp.cacheFlushAddr addr

/-- The cache after a sequence of operations. -/
def runOps (cfg : Config) (myrand : Nat → Nat) (ops : List Op) : Except Fault (CacheT cfg) :=
  ops.foldlM (CacheT.apply myrand) (cacheCreate cfg)

end Ece552.Cache
