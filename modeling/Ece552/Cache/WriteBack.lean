import Ece552.Cache.Runs
import Ece552.Library.EventLog

/-!
# Write backs

What the log of a run says about the residencies of blocks: a residency begins with the filling of
a block and ends when the block is dropped, and the block is written back exactly then, if it has
served a write since it was filled. All this is for tags that fit: the address of a write back is
rebuilt from tag and set.
-/

namespace Ece552.Cache

open Library

variable {cfg : Config} {p q : BlkPtr cfg} {log : List (Event cfg)} {e : Event cfg}

/-! ## Residencies -/

/-- The address of the block of memory that a block holds after an event. -/
def Event.held (p : BlkPtr cfg) (held : Option Addr) : Event cfg → Option Addr
  | .fill q addr => if q = p then some (cfg.cacheBaddr addr) else held
  | .drop q => if q = p then none else held
  | .serve .. | .call .. => held

/-- Whether a block has served a write since it was filled, after an event. -/
def Event.written (p : BlkPtr cfg) (written : Bool) : Event cfg → Bool
  | .fill q _ => if q = p then false else written
  | .serve q cmd _ => if q = p then written || decide (cmd = .Write) else written
  | .drop .. | .call .. => written

/-- The address of the block of memory that a block holds after a log. -/
def held (p : BlkPtr cfg) (log : List (Event cfg)) : Option Addr := log.foldl (Event.held p) none

/-- Whether a block has served a write since it was filled. -/
def written (p : BlkPtr cfg) (log : List (Event cfg)) : Bool := log.foldl (Event.written p) false

/-- The event is a write back. -/
def Event.isWriteBack : Event cfg → Bool
  | .call .Write _ _ => true
  | _ => false

/-- The law of write backs. A block is filled when it holds nothing, and serves only accesses to
what it holds. When it is dropped after it has served a write, it is written back at once, with the
address of what it holds, and nothing else is written back. -/
def Lawful (pre : List (Event cfg)) (e : Event cfg) (post : List (Event cfg)) : Prop :=
  match e with
  | .fill p _ => held p pre = none
  | .serve p _ addr => held p pre = some (cfg.cacheBaddr addr)
  | .drop p => ∃ baddr, held p pre = some baddr ∧
      (written p pre = true → post.head? = some (.call .Write baddr cfg.bsize))
  | .call .Write baddr size => ∃ pre' p, pre = pre' ++ [.drop p] ∧ held p pre' = some baddr ∧
      written p pre' = true ∧ size = cfg.bsize
  | .call .Read .. => True

/-- What a block holds after an event and the ones behind it. -/
@[simp] theorem held_append (p : BlkPtr cfg) (log : List (Event cfg)) (e : Event cfg)
    (more : List (Event cfg)) :
    held p (log ++ e :: more) = more.foldl (Event.held p) (e.held p (held p log)) := by
  rw [held, List.foldl_append, List.foldl_cons, held]

/-- Whether a block was written to, after an event and the ones behind it. -/
@[simp] theorem written_append (p : BlkPtr cfg) (log : List (Event cfg)) (e : Event cfg)
    (more : List (Event cfg)) :
    written p (log ++ e :: more) = more.foldl (Event.written p) (e.written p (written p log)) := by
  rw [written, List.foldl_append, List.foldl_cons, written]

/-- The law allows for more events. -/
theorem Lawful.mono {pre post more : List (Event cfg)} (h : Lawful pre e post) :
    Lawful pre e (post ++ more) := by
  cases e with
  | fill p addr => exact h
  | serve p cmd addr => exact h
  | call cmd baddr size => cases cmd <;> exact h
  | drop p =>
      obtain ⟨baddr, hheld, hwritten⟩ := h
      refine ⟨baddr, hheld, fun hw => ?_⟩
      rw [List.head?_append, hwritten hw]
      rfl

/-! ## The log of a cache -/

namespace CacheT

variable {cp cp' : CacheT cfg} {cmd : MemCmd} {addr : Addr} {fetch : Bool} {way : Way cfg}

/-- The address of what a valid block holds, rebuilt from its tag and set. -/
def address (p : BlkPtr cfg) (b : Blk) : Addr := cfg.cacheMkBaddr b.tag (cfg.setAddr p.1)

/-- The log says what the blocks hold, which of them are dirty, and how many were written back. -/
structure Logged (cp : CacheT cfg) : Prop where
  lawful : Throughout Lawful cp.log
  held : ∀ p, held p cp.log = if (cp.blk p).valid then some (address p (cp.blk p)) else none
  written : ∀ p, (cp.blk p).valid = true → written p cp.log = (cp.blk p).dirty
  writebacks : cp.stats.writebacks = cp.log.countP Event.isWriteBack

/-- Nothing has happened in a new cache. -/
theorem logged_create : (cacheCreate cfg).Logged := by
  have hblk : ∀ p, (cacheCreate cfg).blk p = {} := fun p => CacheSet.created_blks p.2
  refine ⟨throughout_nil, fun p => ?_, fun p hvalid => ?_, rfl⟩
  · rw [hblk]
    rfl
  · rw [hblk] at hvalid
    exact nomatch hvalid

/-- What is found for an address is its block. -/
theorem address_of_holds (hfits : cfg.TagFits) {i : Fin cfg.nsets} (hi : i = cfg.setIndex addr)
    (h : (cp.sets i).holds (cfg.cacheTag addr) way = true) :
    address (i, way) (cp.blk (i, way)) = cfg.cacheBaddr addr := by
  rw [address, show (cp.blk (i, way)).tag = cfg.cacheTag addr from (CacheSet.holds_iff.mp h).1, hi,
    Config.set_addr_set_index, Config.mk_baddr hfits]

/-- A hit changes no tag and leaves all blocks valid that are. -/
theorem Hit.same (hhit : cp.Hit cmd addr fetch way cp') (p : BlkPtr cfg) :
    (cp'.blk p).tag = (cp.blk p).tag ∧ (cp'.blk p).valid = (cp.blk p).valid := by
  rw [blk_of_update hhit.blks hhit.others]
  split
  case isTrue hp =>
    rw [hp]
    exact ⟨rfl, rfl⟩
  case isFalse => exact ⟨rfl, rfl⟩

/-- A hit writes to the block, or leaves it. -/
theorem Logged.hit (hfits : cfg.TagFits) (h : cp.Logged)
    (hhit : cp.Hit cmd addr fetch way cp') : cp'.Logged := by
  have hvalid := hhit.valid
  have hheld := h.held (cfg.setIndex addr, way)
  rw [address_of_holds hfits rfl (hhit.found (Or.inl hfits))] at hheld
  refine ⟨?_, fun p => ?_, fun p hp => ?_, ?_⟩
  · rw [hhit.log]
    refine h.lawful.append (fun _ _ _ => Lawful.mono) (throughout_cons.mpr ⟨?_, throughout_nil⟩)
    rw [List.append_nil]
    exact hheld.trans (if_pos hvalid)
  · obtain ⟨htag, hvalid'⟩ := hhit.same p
    rw [hhit.log, held_append, address, htag, hvalid']
    exact h.held p
  · rw [(hhit.same p).2] at hp
    have hwritten := h.written p hp
    rw [hhit.log, written_append, blk_of_update hhit.blks hhit.others]
    show (if _ = p then Cache.written p cp.log || _ else Cache.written p cp.log) = _
    rw [hwritten]
    by_cases hp' : p = (cfg.setIndex addr, way)
    · rw [if_pos hp'.symm, if_pos hp', hp']
      rfl
    · rw [if_neg (Ne.symm hp'), if_neg hp']
  · rw [hhit.stats, hhit.log, List.countP_append, ← h.writebacks, Stats.count_hit_writebacks]
    rfl

/-- The law of the record of a block that is dropped. -/
theorem Logged.write_back_log (h : cp.Logged) (hvalid : (cp.blk p).valid = true) :
    Throughout (fun pre => Lawful (cp.log ++ pre)) (writeBackLog p (cp.blk p)) := by
  have hheld := (h.held p).trans (if_pos hvalid)
  have hwritten := h.written p hvalid
  rw [writeBackLog]
  refine throughout_cons.mpr ⟨?_, ?_⟩
  · rw [List.append_nil]
    refine ⟨_, hheld, fun hw => ?_⟩
    rw [if_pos (hwritten.symm.trans hw)]
    rfl
  · split
    case isTrue hdirty =>
      exact throughout_cons.mpr
        ⟨⟨cp.log, p, rfl, hheld, hwritten.trans hdirty, rfl⟩, throughout_nil⟩
    case isFalse => exact throughout_nil

/-- What is written back is held no longer. -/
theorem held_write_back_log (p q : BlkPtr cfg) (b : Blk) (log : List (Event cfg)) :
    held q (log ++ writeBackLog p b) = if p = q then none else held q log := by
  rw [writeBackLog, held_append]
  split <;> rfl

/-- A write back writes nothing to a block. -/
theorem written_write_back_log (p q : BlkPtr cfg) (b : Blk) (log : List (Event cfg)) :
    written q (log ++ writeBackLog p b) = written q log := by
  rw [writeBackLog, written_append]
  split <;> rfl

/-- A block is written back if it is dirty. -/
theorem count_write_back_log (p : BlkPtr cfg) (b : Blk) :
    (writeBackLog p b).countP Event.isWriteBack = if b.dirty then 1 else 0 := by
  rw [writeBackLog]
  split <;> rfl

/-- An invalidation is recorded. -/
theorem Logged.invalidate (h : cp.Logged) (hvalid : (cp.blk p).valid = true) :
    (cp.invalidate p).Logged := by
  have hblk := invalidate_blk cp p
  have hlog := invalidate_log cp p
  refine ⟨?_, fun q => ?_, fun q hq => ?_, ?_⟩
  · rw [hlog]
    exact h.lawful.append (fun _ _ _ => Lawful.mono) (h.write_back_log hvalid)
  · rw [hlog, held_write_back_log, hblk]
    by_cases hq : q = p
    · rw [if_pos hq.symm, if_pos hq]
      rfl
    · rw [if_neg (Ne.symm hq), if_neg hq]
      exact h.held q
  · rw [hblk] at hq
    rw [hlog, written_write_back_log, hblk]
    by_cases hqp : q = p
    · rw [if_pos hqp] at hq
      exact nomatch hq
    · rw [if_neg hqp] at hq ⊢
      exact h.written q hq
  · rw [hlog, List.countP_append, ← h.writebacks, count_write_back_log, invalidate_eq]
    show (if _ then _ else _) = _
    split <;> rfl

/-! ## Misses -/

/-- After the record of a replacement the block holds nothing. -/
theorem Logged.replace_log (h : cp.Logged) (p : BlkPtr cfg) :
    Throughout Lawful (cp.log ++ replaceLog p (cp.blk p)) ∧
    (∀ q, Cache.held q (cp.log ++ replaceLog p (cp.blk p)) =
      if p = q then none else Cache.held q cp.log) ∧
    (∀ q, Cache.written q (cp.log ++ replaceLog p (cp.blk p)) = Cache.written q cp.log) ∧
    (cp.log ++ replaceLog p (cp.blk p)).countP Event.isWriteBack =
      (cp.stats.replace (cp.blk p)).writebacks := by
  rw [replaceLog, Stats.replace_writebacks]
  split
  case isTrue hvalid =>
    refine ⟨h.lawful.append (fun _ _ _ => Lawful.mono) (h.write_back_log hvalid),
      fun q => held_write_back_log p q _ _, fun q => written_write_back_log p q _ _, ?_⟩
    rw [List.countP_append, ← h.writebacks, count_write_back_log]
    split <;> rfl
  case isFalse hinvalid =>
    rw [List.append_nil]
    refine ⟨h.lawful, fun q => ?_, fun _ => rfl, h.writebacks.symm⟩
    split
    case isTrue hq => rw [← hq, h.held p, if_neg hinvalid]
    case isFalse => rfl

/-- A fill is lawful where nothing is held. -/
theorem throughout_fill_log (h : Throughout Lawful log) (hp : held p log = none) (cmd : MemCmd)
    (addr : Addr) : Throughout Lawful (log ++ fillLog p cmd addr) := by
  refine h.append (fun _ _ _ => Lawful.mono) ?_
  refine throughout_cons.mpr ⟨?_, throughout_cons.mpr ⟨trivial, throughout_cons.mpr
    ⟨?_, throughout_nil⟩⟩⟩
  · rw [List.append_nil]
    exact hp
  · show held p (log ++ [.fill p addr, .call .Read (cfg.cacheBaddr addr) cfg.bsize]) = _
    rw [held_append]
    exact if_pos rfl

/-- What is filled in is held. -/
theorem held_fill_log (p q : BlkPtr cfg) (cmd : MemCmd) (addr : Addr) (log : List (Event cfg)) :
    held q (log ++ fillLog p cmd addr) =
      if p = q then some (cfg.cacheBaddr addr) else held q log := by
  rw [fillLog, held_append]
  rfl

/-- What is filled in for a write was written to. -/
theorem written_fill_log (p q : BlkPtr cfg) (cmd : MemCmd) (addr : Addr)
    (log : List (Event cfg)) : written q (log ++ fillLog p cmd addr) =
      if p = q then decide (cmd = .Write) else written q log := by
  rw [fillLog, written_append]
  show (if p = q then (if p = q then false else _) || _ else if p = q then false else _) = _
  split <;> simp_all

/-- A miss is recorded: what is dropped, and what is filled in. -/
theorem Logged.miss (hfits : cfg.TagFits) (h : cp.Logged)
    (hmiss : cp.Miss cmd addr fetch way cp') : cp'.Logged := by
  obtain ⟨p, hp⟩ : ∃ p : BlkPtr cfg, p = (cfg.setIndex addr, way) := ⟨_, rfl⟩
  obtain ⟨hlawful, hheld, hwritten, hcount⟩ := h.replace_log p
  have hblk := blk_of_update hmiss.blks hmiss.others
  have hlog : cp'.log = cp.log ++ replaceLog p (cp.blk p) ++ fillLog p cmd addr := by
    rw [hmiss.log, hp]
    rfl
  rw [← hp] at hblk
  refine ⟨?_, fun q => ?_, fun q hq => ?_, ?_⟩
  · rw [hlog]
    exact throughout_fill_log hlawful ((hheld p).trans (if_pos rfl)) cmd addr
  · rw [hlog, held_fill_log, hheld, hblk]
    by_cases hq : q = p
    · rw [if_pos hq.symm, if_pos hq, if_pos rfl, address, hq, hp, Config.set_addr_set_index,
        Config.mk_baddr hfits]
    · rw [if_neg (Ne.symm hq), if_neg (Ne.symm hq), if_neg hq, h.held q]
  · rw [hblk] at hq
    rw [hlog, written_fill_log, hwritten, hblk]
    by_cases hqp : q = p
    · rw [if_pos hqp.symm, if_pos hqp]
    · rw [if_neg hqp] at hq
      rw [if_neg (Ne.symm hqp), if_neg hqp, h.written q hq]
  · have hfill : (fillLog p cmd addr).countP Event.isWriteBack = 0 := rfl
    rw [hlog, List.countP_append, hcount, hfill, hmiss.stats, Stats.replace_writebacks,
      Stats.replace_writebacks, Stats.count_miss_writebacks, hp]
    rfl

/-! ## Runs -/

/-- The record is kept by all moves. -/
theorem kept_logged (hfits : cfg.TagFits) : Kept (CacheT.Logged : CacheT cfg → Prop) := by
  refine ⟨fun cp cmd addr fetch cp' _ h haccess => ?_, fun cp p _ h hvalid => h.invalidate hvalid,
    fun cp cp' h hblk hstats hlog _ => ?_⟩
  · rcases haccess with ⟨way, hhit⟩ | ⟨way, hmiss⟩
    · exact h.hit hfits hhit
    · exact h.miss hfits hmiss
  · refine ⟨by rw [hlog]; exact h.lawful, fun p => ?_, fun p hp => ?_, ?_⟩
    · rw [hlog, hblk]
      exact h.held p
    · rw [hblk] at hp ⊢
      rw [hlog]
      exact h.written p hp
    · rw [hstats, hlog]
      exact h.writebacks

/-- Predictions are not recorded. -/
theorem predicts_logged : Predicts (CacheT.Logged : CacheT cfg → Prop) :=
  fun _ _ h => ⟨h.lawful, h.held, h.written, h.writebacks⟩

/-- The log of a cache is lawful, its write backs are counted, the blocks with an unfinished
residency are the valid ones, and those that have served a write are dirty. -/
def WritesBackOnce (cp : CacheT cfg) : Prop :=
  Throughout Lawful cp.log ∧ cp.stats.writebacks = cp.log.countP Event.isWriteBack ∧
    ∀ p, if (cp.blk p).valid then
        Cache.held p cp.log = some (address p (cp.blk p)) ∧
        Cache.written p cp.log = (cp.blk p).dirty
      else Cache.held p cp.log = none

/-- If the tag fits, then in every run that does not stop, a block is written back exactly at the
end of those of its residencies in which it has served a write, with the address of what it holds,
and the number of write backs is counted. -/
theorem written_back_once (hfits : cfg.TagFits) (myrand : Nat → Nat) (ops : List Op) :
    Ensures Outside (WritesBackOnce : CacheT cfg → Prop) (runOps cfg myrand ops) := by
  refine ((kept_logged hfits).run_ops myrand predicts_logged logged_create ops).mono
    fun cp ⟨_, h⟩ => ⟨h.lawful, h.writebacks, fun p => ?_⟩
  have hheld := h.held p
  split
  case isTrue hvalid => exact ⟨hheld.trans (if_pos hvalid), h.written p hvalid⟩
  case isFalse hinvalid => exact hheld.trans (if_neg hinvalid)

/-- A block is written and flushed. -/
theorem written_back_once_flushed :
    ∃ cp, runOps directMapped (fun _ => 0) [.access .Write 0 20 4, .flush] = .ok cp ∧
      cp.WritesBackOnce ∧ cp.stats.writebacks = 1 := by
  obtain ⟨cp, hrun, hone⟩ : ∃ cp, runOps directMapped (fun _ => 0)
    [.access .Write 0 20 4, .flush] = .ok cp ∧ cp.stats.writebacks = 1 := ⟨_, rfl, rfl⟩
  have hfits : directMapped.TagFits := by decide
  exact ⟨cp, hrun, (written_back_once hfits (fun _ => 0) _).of_ok hrun, hone⟩

/-- A block of 2^30 bytes is written at its byte 0x10004, and written back to that address. -/
theorem written_back_elsewhere :
    (¬ ∀ (cfg : Config) (myrand : Nat → Nat) (ops : List Op),
      Ensures (fun _ => True) (WritesBackOnce : CacheT cfg → Prop) (runOps cfg myrand ops)) ∧
    ∃ cp, runOps hugeBlocks (fun _ => 0) [.access .Write 0 0x40010004 4, .flush] = .ok cp ∧
      cp.log.getLast? = some (.call .Write 0x40010004 (2 ^ 30)) := by
  refine ⟨fun hall => ?_, _, rfl, rfl⟩
  obtain ⟨cp, hrun, hlog⟩ : ∃ cp, runOps hugeBlocks (fun _ => 0)
    [.access .Write 0 0x40010004 4, .flush] = .ok cp ∧
      cp.log = fillLog (hugeBlocks.setIndex 0x40010004, ⟨0, by decide⟩) .Write 0x40010004 ++
        [.drop (hugeBlocks.setIndex 0x40010004, ⟨0, by decide⟩),
          .call .Write 0x40010004 (2 ^ 30)] := ⟨_, rfl, rfl⟩
  obtain ⟨hlawful, -⟩ := (hall hugeBlocks (fun _ => 0) _).of_ok hrun
  obtain ⟨baddr, hheld, hcall⟩ := hlawful _ _ _ hlog
  cases hheld
  cases hcall rfl

end CacheT

end Ece552.Cache
