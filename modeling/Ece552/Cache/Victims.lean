import Ece552.Cache.Runs
import Ece552.Library.EventLog
import Ece552.Library.Recency

/-!
# The block to replace

The way list of a set orders its blocks by age, without recording when they were used: under LRU and
FIFO, every valid block is behind those that were used later, and the invalid ones are behind all
of them. So the block at the tail is the one to replace.
-/

namespace Ece552.Cache

open Library

variable {cfg : Config}

/-- The event is a use of the block: a hit or a fill under LRU, a fill under FIFO. -/
def Uses (p : BlkPtr cfg) : Event cfg → Prop
  | .serve q _ _ => cfg.policy = .LRU ∧ q = p
  | .fill q _ => q = p
  | .drop _ | .call .. => False

namespace CacheT

variable {cp cp' : CacheT cfg} {myrand : Nat → Nat} {cmd : MemCmd} {addr nbytes : Addr}
variable {fetch : Bool} {i : Fin cfg.nsets} {way : Way cfg} {p : BlkPtr cfg}
variable {more : List (Event cfg)}

/-- If block `b` of a set is valid, so is block `a`, which was used later. -/
def Precedes (cp : CacheT cfg) (i : Fin cfg.nsets) (a b : Way cfg) : Prop :=
  (cp.blk (i, b)).valid = true →
    (cp.blk (i, a)).valid = true ∧ UsedBefore Uses cp.log (i, b) (i, a)

/-- The way lists order the blocks by age. -/
structure Aged (cp : CacheT cfg) : Prop where
  used : ∀ p, (cp.blk p).valid = true → ∃ e ∈ cp.log, Uses p e
  order : ∀ i, (cp.sets i).order.Pairwise (cp.Precedes i)

theorem aged_of_invalid (h : ∀ p, (cp.blk p).valid = false) : cp.Aged := by
  have hne : ∀ p, (cp.blk p).valid ≠ true := fun p hp => Bool.false_ne_true ((h p).symm.trans hp)
  refine ⟨fun p hp => absurd hp (hne p), fun i => List.pairwise_of_forall fun a b hb => ?_⟩
  exact absurd hb (hne _)

theorem aged_create : (cacheCreate cfg).Aged := by
  refine aged_of_invalid fun p => ?_
  show ((CacheSet.created cfg).blks p.2).valid = false
  rw [CacheSet.created_blks]

/-! ## Uses -/

theorem not_uses_serve (hne : p ≠ (i, way)) :
    ∀ e ∈ [Event.serve (i, way) cmd addr], ¬ Uses p e := by
  intro e he huse
  rw [List.mem_singleton] at he
  subst he
  exact hne huse.2.symm

theorem not_uses_write_back (q : BlkPtr cfg) (b : Blk) : ∀ e ∈ writeBackLog q b, ¬ Uses p e := by
  intro e he
  rw [writeBackLog, List.mem_cons] at he
  rcases he with rfl | he
  · exact id
  · split at he
    · rw [List.mem_singleton] at he
      subst he
      exact id
    · exact absurd he List.not_mem_nil

/-- A miss uses no block but the one that it fills. -/
theorem not_uses_miss {q : BlkPtr cfg} (b : Blk) (hne : p ≠ q) :
    ∀ e ∈ replaceLog q b ++ fillLog q cmd addr, ¬ Uses p e := by
  intro e he
  rcases List.mem_append.mp he with he | he
  · rw [replaceLog] at he
    split at he
    · exact not_uses_write_back q b e he
    · exact absurd he List.not_mem_nil
  · rw [fillLog, List.mem_cons, List.mem_cons] at he
    rcases he with rfl | rfl | he
    · exact Ne.symm hne
    · exact id
    · exact not_uses_serve hne e he

/-! ## Steps -/

/-- The block that is used moves to the head of its way list. -/
theorem Aged.promote (h : cp.Aged) (hnodup : (cp.sets i).order.Nodup)
    (hlog : cp'.log = cp.log ++ more) (hmore : ∀ q, q ≠ (i, way) → ∀ e ∈ more, ¬ Uses q e)
    (huse : ∃ e ∈ more, Uses (i, way) e) (hway : (cp'.blk (i, way)).valid = true)
    (hblk : ∀ q, q ≠ (i, way) → cp'.blk q = cp.blk q)
    (horder : (cp'.sets i).order = way :: (cp.sets i).order.erase way)
    (hothers : ∀ j, j ≠ i → (cp'.sets j).order = (cp.sets j).order) : cp'.Aged := by
  have hused : ∀ q, q ≠ (i, way) → (cp'.blk q).valid = true → ∃ e ∈ cp.log, Uses q e :=
    fun q hq hvalid => h.used q (hblk q hq ▸ hvalid)
  have hkeep : ∀ j a b, (j, a) ≠ (i, way) → (j, b) ≠ (i, way) → cp.Precedes j a b →
      cp'.Precedes j a b := by
    intro j a b ha hb hab
    rw [Precedes, hblk _ ha, hblk _ hb, hlog]
    exact fun hvalid => ⟨(hab hvalid).1, (hab hvalid).2.append (hmore _ hb)⟩
  refine ⟨fun q hvalid => ?_, fun j => ?_⟩
  · rw [hlog]
    by_cases hq : q = (i, way)
    · obtain ⟨e, he, huse⟩ := huse
      exact ⟨e, List.mem_append_right _ he, hq ▸ huse⟩
    · obtain ⟨e, he, huse⟩ := hused q hq hvalid
      exact ⟨e, List.mem_append_left _ he, huse⟩
  · by_cases hj : j = i
    · subst hj
      rw [horder]
      have hne : ∀ {a : Way cfg}, a ≠ way → (j, a) ≠ (j, way) := fun ha heq =>
        ha (Prod.mk.inj heq).2
      refine pairwise_cons_erase hnodup (h.order j) (fun a b ha hb => hkeep j a b (hne ha) (hne hb))
        fun b hb hvalid => ⟨hway, ?_⟩
      rw [hlog]
      exact used_before_of_new (hused _ (hne hb) hvalid) (hmore _ (hne hb)) huse
    · have hne : ∀ a : Way cfg, (j, a) ≠ (i, way) := fun a heq => hj (Prod.mk.inj heq).1
      rw [hothers j hj]
      exact (h.order j).imp fun hab => hkeep j _ _ (hne _) (hne _) hab

/-- Events that use no block, and blocks that become invalid at most, with the same way lists. -/
theorem Aged.rest (h : cp.Aged) (hlog : cp'.log = cp.log ++ more)
    (hmore : ∀ q, ∀ e ∈ more, ¬ Uses q e)
    (hblk : ∀ q, (cp'.blk q).valid = (cp.blk q).valid)
    (horder : ∀ i, (cp'.sets i).order = (cp.sets i).order) : cp'.Aged := by
  refine ⟨fun q hvalid => ?_, fun j => ?_⟩
  · obtain ⟨e, he, huse⟩ := h.used q (hblk q ▸ hvalid)
    exact ⟨e, hlog ▸ List.mem_append_left _ he, huse⟩
  · rw [horder]
    refine (h.order j).imp fun {a b} hab => ?_
    rw [Precedes, hblk, hblk, hlog]
    exact fun hvalid => ⟨(hab hvalid).1, (hab hvalid).2.append (hmore _)⟩

theorem Aged.hit (h : cp.Aged) (hinv : cp.Inv) (hhit : cp.Hit cmd addr fetch way cp') :
    cp'.Aged := by
  have hblk := blk_of_update hhit.blks hhit.others
  have hvalid := hhit.valid
  have hother : ∀ j, j ≠ cfg.setIndex addr → (cp'.sets j).order = (cp.sets j).order := by
    intro j hj
    rw [hhit.others j hj]
  have horder := hhit.order
  by_cases hpolicy : cfg.policy = .LRU
  · rw [if_pos hpolicy] at horder
    refine h.promote (hinv.sets _).linked.nodup hhit.log (fun q hq => not_uses_serve hq)
      ⟨_, List.mem_singleton_self _, hpolicy, rfl⟩ ?_ (fun q hq => ?_) horder hother
    · rw [hblk, if_pos rfl]
      exact hvalid
    · rw [hblk, if_neg hq]
  · rw [if_neg hpolicy] at horder
    refine h.rest hhit.log (fun q e he huse => ?_) (fun q => ?_) fun j => ?_
    · rw [List.mem_singleton] at he
      subst he
      exact hpolicy huse.1
    · rw [hblk]
      split
      case isTrue hq =>
        rw [hq]
        rfl
      case isFalse => rfl
    · by_cases hj : j = cfg.setIndex addr
      · rw [hj, horder]
      · exact hother j hj

theorem Aged.miss (h : cp.Aged) (hinv : cp.Inv) (hpolicy : cfg.policy ≠ .Random)
    (hmiss : cp.Miss cmd addr fetch way cp') : cp'.Aged := by
  have hblk := blk_of_update hmiss.blks hmiss.others
  have hlog := hmiss.log
  have horder := hmiss.order
  rw [List.append_assoc] at hlog
  rw [if_neg hpolicy] at horder
  refine h.promote (hinv.sets _).linked.nodup hlog (fun q hq => not_uses_miss _ hq) ?_ ?_
    (fun q hq => ?_) horder fun j hj => ?_
  · exact ⟨.fill (cfg.setIndex addr, way) addr,
      List.mem_append_right _ List.mem_cons_self, rfl⟩
  · rw [hblk, if_pos rfl]
  · rw [hblk, if_neg hq]
  · rw [hmiss.others j hj]

theorem Aged.access (h : cp.Aged) (hinv : cp.Inv) (hpolicy : cfg.policy ≠ .Random)
    (haccess : cp.Access cmd addr fetch cp') : cp'.Aged := by
  rcases haccess with ⟨way, hhit⟩ | ⟨way, hmiss⟩
  · exact h.hit hinv hhit
  · exact h.miss hinv hpolicy hmiss

/-! ## Flushes -/

/-- Blocks that are invalid stay so. -/
theorem kept_invalid (P : BlkPtr cfg → Prop) :
    KeptByFlush fun cp : CacheT cfg => ∀ p, P p → (cp.blk p).valid = false := by
  refine ⟨fun cp p _ h _ q hq => ?_, fun cp cp' h hblk _ _ _ q hq => ?_⟩
  · rw [invalidate_blk]
    split
    · rfl
    · exact h q hq
  · rw [hblk]
    exact h q hq

/-- The loop of `cache_flush` for a set invalidates the blocks that it comes to. -/
theorem flush_ways_invalid {l : List (Way cfg)} {bound : Nat} {start : Option (Way cfg)}
    (h : cp.Inv) (hlast : cp.lastBlk = none) (hchain : Chain (cp.sets i).way.next start l)
    (hbound : l.length ≤ bound) :
    Ensures Outside (fun cp' => ∀ w ∈ l, (cp'.blk (i, w)).valid = false)
      (flushWays i bound start cp) := by
  induction l generalizing cp start bound with
  | nil =>
      obtain rfl : start = none := hchain
      cases bound <;> exact fun w hw => absurd hw List.not_mem_nil
  | cons way l ih =>
      obtain ⟨rfl, hrest⟩ := hchain
      cases bound with
      | zero => exact absurd hbound (Nat.not_succ_le_zero _)
      | succ bound =>
          have hlength := Nat.le_of_succ_le_succ hbound
          obtain ⟨cp₁, hcp₁⟩ : ∃ cp₁, cp₁ =
            if (cp.blk (i, way)).valid then cp.invalidate (i, way) else cp := ⟨_, rfl⟩
          have hinv : cp₁.Inv ∧ cp₁.lastBlk = none ∧ (cp₁.blk (i, way)).valid = false ∧
              (cp₁.sets i).way = (cp.sets i).way := by
            cases hvalid : (cp.blk (i, way)).valid with
            | false =>
                rw [hvalid, if_neg Bool.false_ne_true] at hcp₁
                rw [hcp₁]
                exact ⟨h, hlast, hvalid, rfl⟩
            | true =>
                rw [hvalid, if_pos rfl] at hcp₁
                rw [hcp₁, invalidate_last, invalidate_blk, if_pos rfl]
                exact ⟨h.invalidate hlast _, hlast, rfl, invalidate_way ..⟩
          obtain ⟨hinv, hlast₁, hinvalid, hway⟩ := hinv
          rw [← hway] at hrest
          rw [flushWays, ← hcp₁]
          show Ensures _ _ (flushWays i bound ((cp₁.sets i).way.next way) cp₁)
          have hkept := (kept_invalid (· = (i, way))).flush_ways hinv hlast₁
            (fun p hp => hp ▸ hinvalid) hrest hlength
          refine ((ih hinv hlast₁ hrest hlength).and hkept).mono fun cp' hcp' => ?_
          exact List.forall_mem_cons.mpr ⟨hcp'.2.2.2 _ rfl, hcp'.1⟩

/-- A flush leaves no valid block. -/
theorem Inv.cache_flush_invalid (h : cp.Inv) :
    Ensures Outside (fun cp' => ∀ p, (cp'.blk p).valid = false) cp.cacheFlush := by
  have hreset : CacheT.Inv { cp with lastTagset := 0, lastBlk := none } :=
    inv_of_sets h.sets rfl rfl
  rw [cacheFlush]
  refine (Ensures.foldl_each (I := fun cp' => cp'.Inv ∧ cp'.lastBlk = none)
    (P := fun i cp' => ∀ w, (cp'.blk (i, w)).valid = false) ⟨hreset, rfl⟩
    (fun cp i hi => ?_) (fun cp i j hi hj => ?_) _).mono
    fun cp' hcp' p => hcp'.2 p.1 (List.mem_finRange _) p.2
  · obtain ⟨h, hlast⟩ := hi
    have hlinked := (h.sets i).linked
    have hbound := CacheSet.length_le hlinked.nodup
    refine ((kept_true.by_flush.flush_ways h hlast trivial hlinked.forward hbound).and
      (flush_ways_invalid h hlast hlinked.forward hbound)).mono fun cp' hcp' => ?_
    obtain ⟨hkept, hl⟩ := hcp'
    exact ⟨⟨hkept.1, hkept.2.1⟩, fun w => hl w ((h.sets i).all w)⟩
  · obtain ⟨h, hlast⟩ := hi
    have hlinked := (h.sets i).linked
    refine ((kept_invalid (·.1 = j)).flush_ways h hlast (fun p hp => ?_) hlinked.forward
      (CacheSet.length_le hlinked.nodup)).mono fun cp' hkept w => hkept.2.2 _ rfl
    have hinvalid := hj p.2
    rwa [← hp] at hinvalid

/-- The block of an address that is flushed moves to the tail. -/
theorem Aged.flushed_addr (h : cp.Aged) (hinv : cp.Inv) (heffect : cp.FlushedAddr p cp') :
    cp'.Aged := by
  have hblk : ∀ q, cp'.blk q = if q = p then { cp.blk p with valid := false } else cp.blk q :=
    fun q => (heffect.blk q).trans (invalidate_blk cp p q)
  have hlog : cp'.log = cp.log ++ writeBackLog p (cp.blk p) :=
    heffect.log.trans (invalidate_log cp p)
  have hself : (cp'.blk p).valid = false := by rw [hblk, if_pos rfl]
  have hvalid : ∀ q, (cp'.blk q).valid = true → q ≠ p := by
    rintro q hq rfl
    exact Bool.false_ne_true (hself.symm.trans hq)
  have hkeep : ∀ j a b, (j, a) ≠ p → cp.Precedes j a b → cp'.Precedes j a b := by
    intro j a b ha hab hb
    have hne := hvalid _ hb
    rw [hblk, if_neg hne] at hb
    rw [hblk, if_neg ha, hlog]
    exact ⟨(hab hb).1, (hab hb).2.append (not_uses_write_back p _)⟩
  refine ⟨fun q hq => ?_, fun j => ?_⟩
  · have hne := hvalid q hq
    rw [hblk, if_neg hne] at hq
    obtain ⟨e, he, huse⟩ := h.used q hq
    exact ⟨e, hlog ▸ List.mem_append_left _ he, huse⟩
  · by_cases hj : j = p.1
    · subst hj
      have hnodup := (hinv.sets p.1).linked.nodup
      rw [heffect.order, List.pairwise_append]
      refine ⟨?_, List.pairwise_singleton .., fun a ha b hb hvalid' => ?_⟩
      · refine ((h.order p.1).sublist List.erase_sublist).imp_of_mem fun {a b} ha hb hab => ?_
        refine hkeep p.1 a b (fun heq => ?_) hab
        obtain rfl : a = p.2 := congrArg Prod.snd heq
        exact hnodup.not_mem_erase ha
      · obtain rfl : b = p.2 := List.mem_singleton.mp hb
        exact absurd rfl (hvalid _ hvalid')
    · rw [heffect.others j hj]
      exact (h.order j).imp fun hab => hkeep j _ _ (fun heq => hj (congrArg Prod.fst heq)) hab

/-! ## Runs -/

/-- Under LRU and FIFO the way lists order the blocks by age at every point of a run. -/
theorem aged_of_reachable (hpolicy : cfg.policy ≠ .Random) (h : (moves cfg myrand).Reachable cp) :
    cp.Aged := by
  refine h.invariant (I := Aged) (fun cp hinit => ?_) fun cp m cp' hreach haged _ hmove => ?_
  · rw [show cp = cacheCreate cfg from hinit]
    exact aged_create
  · have hinv := Inv.of_reachable myrand hreach
    cases m with
    | access cmd addr nbytes fetch =>
        have haccess := (access_block myrand cmd addr nbytes fetch hinv).of_ok hmove
        exact haged.access hinv hpolicy haccess.2
    | predict pc addr =>
        rw [← Except.ok.inj hmove, updateRpt]
        split <;> exact ⟨haged.used, haged.order⟩
    | flush => exact aged_of_invalid (hinv.cache_flush_invalid.of_ok hmove)
    | flushAddr addr =>
        obtain ⟨cp₁, hok, -, heffect⟩ := hinv.cache_flush_addr addr
        obtain rfl : cp₁ = cp' := Except.ok.inj (hok.symm.trans hmove)
        rcases heffect with rfl | ⟨p, heffect⟩
        · exact haged
        · exact haged.flushed_addr hinv heffect

/-- The block at the tail is valid only if all are, and then it was used first. -/
theorem Aged.last (h : cp.Aged) (hlast : (cp.sets i).order.getLast? = some way)
    (hall : ∀ w, w ∈ (cp.sets i).order) (hvalid : (cp.blk (i, way)).valid = true) :
    (∀ w, (cp.blk (i, w)).valid = true) ∧
    ∀ w, w ≠ way → UsedBefore Uses cp.log (i, way) (i, w) := by
  obtain ⟨rest, hrest⟩ := List.getLast?_eq_some_iff.mp hlast
  have horder := h.order i
  rw [hrest, List.pairwise_append] at horder
  have hothers : ∀ w, w ≠ way → (cp.blk (i, w)).valid = true ∧
      UsedBefore Uses cp.log (i, way) (i, w) := by
    intro w hw
    have hmem := hall w
    rw [hrest, List.mem_append, List.mem_singleton] at hmem
    exact horder.2.2 w (hmem.resolve_right hw) way (List.mem_singleton_self way) hvalid
  refine ⟨fun w => ?_, fun w hw => (hothers w hw).2⟩
  by_cases hw : w = way
  · rwa [hw]
  · exact (hothers w hw).1

/-! ## Main result -/

/-- Under LRU and FIFO, the invalid blocks form the tail of every way list. An access, demand or
prefetch, that fills a valid block does so in a set all of whose blocks are valid, and it fills the
one whose last use is the oldest. -/
theorem victim_is_oldest (hpolicy : cfg.policy ≠ .Random) (h : (moves cfg myrand).Reachable cp) :
    (∀ i, ∃ used unused, (cp.sets i).order = used ++ unused ∧
      (∀ w ∈ used, (cp.blk (i, w)).valid = true) ∧ ∀ w ∈ unused, (cp.blk (i, w)).valid = false) ∧
    ∀ cmd addr nbytes fetch cp' new p a, cp.accessBlock myrand cmd addr nbytes fetch = .ok cp' →
      cp'.log = cp.log ++ new → .fill p a ∈ new → (cp.blk p).valid = true →
      (∀ w, (cp.blk (p.1, w)).valid = true) ∧
      ∀ w, w ≠ p.2 → UsedBefore Uses cp.log p (p.1, w) := by
  have haged := aged_of_reachable hpolicy h
  have hinv := Inv.of_reachable myrand h
  refine ⟨fun i => exists_split_of_pairwise ((haged.order i).imp fun hab hb => (hab hb).1), ?_⟩
  intro cmd addr nbytes fetch cp' new p a haccess hlog hfill hvalid
  rcases ((access_block myrand cmd addr nbytes fetch hinv).of_ok haccess).2 with
    ⟨way, hhit⟩ | ⟨way, hmiss⟩
  · rw [hhit.log, List.append_cancel_left_eq] at hlog
    rw [← hlog, List.mem_singleton] at hfill
    exact nomatch hfill
  · have hnew := hmiss.log
    rw [hlog, List.append_assoc, List.append_cancel_left_eq] at hnew
    obtain rfl : p = (cfg.setIndex addr, way) := by
      by_contra hne
      exact not_uses_miss _ hne (.fill p a) (hnew ▸ hfill) rfl
    exact haged.last (hmiss.victim hpolicy) (hinv.sets _).all hvalid

/-- A cache with two blocks in each set. -/
def twoWay : Config :=
  { directMapped with
    assoc := 2, assoc_ok := by decide, assoc_lt := openEnded.prefetch_type_lt }

/-- A block of its sets. -/
def blkOf (i : Fin 4) (way : Fin 2) : BlkPtr twoWay := (i, way)

/-- Two blocks fill a set, the first is read again, and a third one replaces the second. -/
theorem victim_is_oldest_of_two :
    ∃ cp, runOps twoWay (fun _ => 0)
        [.access .Read 0 16 4, .access .Read 0 80 4, .access .Read 0 16 4] = .ok cp ∧
      UsedBefore Uses cp.log (blkOf 1 1) (blkOf 1 0) := by
  obtain ⟨cp, hcp⟩ : ∃ cp, runOps twoWay (fun _ => 0)
    [.access .Read 0 16 4, .access .Read 0 80 4, .access .Read 0 16 4] = .ok cp := ⟨_, rfl⟩
  obtain ⟨cp', hcp'⟩ : ∃ cp', cp.accessBlock (fun _ => 0) .Read 144 4 false = .ok cp' := by
    obtain rfl := Except.ok.inj hcp
    exact ⟨_, rfl⟩
  have hlog : cp'.log = cp.log ++
      (replaceLog (blkOf 1 1) (cp.blk (blkOf 1 1)) ++ fillLog (blkOf 1 1) .Read 144) := by
    obtain rfl := Except.ok.inj hcp
    obtain rfl := Except.ok.inj hcp'
    rfl
  have hvalid : (cp.blk (blkOf 1 1)).valid = true := by
    obtain rfl := Except.ok.inj hcp
    rfl
  have hpolicy : twoWay.policy ≠ .Random := by decide
  have hvictim := (victim_is_oldest hpolicy (reachable_of_run _ hcp)).2 .Read 144 4 false cp' _
    (blkOf 1 1) 144 hcp' hlog (List.mem_append_right _ List.mem_cons_self) hvalid
  exact ⟨cp, hcp, hvictim.2 (blkOf 1 0).2 (by decide)⟩

end CacheT

end Ece552.Cache
