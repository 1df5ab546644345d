import Ece552.Cache.Runs
import Ece552.Library.Recency

/-!
# LRU and stack distance

A cache with the policy LRU and without a prefetcher holds of each set the most recently used
blocks, in the order of their last uses. An access hits if its block was used before and fewer
distinct other blocks of its set than the associativity were used since then. This is so in all
geometries whose tag fits, and in no other one: there two bytes of a block may have different tags.
-/

namespace Ece552.Cache

open Library

variable {cfg : Config}

/-! ## The abstract cache -/

/-- The block is one of the set. -/
def Config.inSet (cfg : Config) (i : Fin cfg.nsets) (b : Addr) : Bool := decide (cfg.setIndex b = i)

/-- The most recently used blocks of a set, by a history that begins with the latest access. -/
def mostRecent (cfg : Config) (history : List Addr) (i : Fin cfg.nsets) : List Addr :=
  (recent (history.filter (cfg.inSet i))).take cfg.assoc

/-- The block was used before, and fewer distinct other blocks of its set than the associativity
were used since then. -/
def StackHit (cfg : Config) (history : List Addr) (b : Addr) : Prop :=
  b ∈ history ∧
    ((history.takeWhile (· != b)).filter (cfg.inSet (cfg.setIndex b))).toFinset.card < cfg.assoc

/-- The stack is a finite list. -/
instance (cfg : Config) (history : List Addr) (b : Addr) : Decidable (StackHit cfg history b) :=
  inferInstanceAs (Decidable (_ ∧ _))

/-- The number of hits in a history. -/
def stackHits (cfg : Config) : List Addr → Nat
  | [] => 0
  | b :: older => stackHits cfg older + if StackHit cfg older b then 1 else 0

/-- The number of misses in a history. -/
def stackMisses (cfg : Config) : List Addr → Nat
  | [] => 0
  | b :: older => stackMisses cfg older + if StackHit cfg older b then 0 else 1

variable {history : List Addr} {b : Addr} {i : Fin cfg.nsets}

/-- A block is in its own set. -/
theorem Config.in_set_self (cfg : Config) (b : Addr) : cfg.inSet (cfg.setIndex b) b = true :=
  decide_eq_true rfl

/-- The most recent blocks of a set are those that hit. -/
theorem mem_most_recent_iff (cfg : Config) (history : List Addr) (b : Addr) :
    b ∈ mostRecent cfg history (cfg.setIndex b) ↔ StackHit cfg history b := by
  have hset := cfg.in_set_self b
  rw [mostRecent, mem_take_recent_iff, take_while_filter hset, List.mem_filter, StackHit, hset]
  simp

/-- The most recent blocks of a set are in the history, and in the set. -/
theorem mem_of_mem_most_recent (h : b ∈ mostRecent cfg history i) :
    b ∈ history ∧ cfg.setIndex b = i := by
  have hmem := mem_recent.mp (List.mem_of_mem_take h)
  rwa [List.mem_filter, Config.inSet, decide_eq_true_eq] at hmem

/-- A set has a first way. -/
theorem assoc_eq_succ (cfg : Config) : cfg.assoc = cfg.assoc - 1 + 1 := by
  have hpos := cfg.assoc_ok.1
  omega

/-- An access to another set changes nothing. -/
theorem most_recent_of_ne (h : cfg.setIndex b ≠ i) :
    mostRecent cfg (b :: history) i = mostRecent cfg history i := by
  rw [mostRecent, List.filter_cons_of_neg (by simpa [Config.inSet] using h), mostRecent]

/-- A hit moves the block to the head. -/
theorem most_recent_of_mem (h : b ∈ mostRecent cfg history (cfg.setIndex b)) :
    mostRecent cfg (b :: history) (cfg.setIndex b) =
      b :: (mostRecent cfg history (cfg.setIndex b)).erase b := by
  rw [mostRecent, assoc_eq_succ] at h ⊢
  rw [List.filter_cons_of_pos (cfg.in_set_self b), take_recent_of_mem h, mostRecent,
    ← assoc_eq_succ]

/-- A miss puts the block at the head, and drops the last one. -/
theorem most_recent_of_not_mem (h : b ∉ mostRecent cfg history (cfg.setIndex b)) :
    mostRecent cfg (b :: history) (cfg.setIndex b) =
      b :: (mostRecent cfg history (cfg.setIndex b)).take (cfg.assoc - 1) := by
  rw [mostRecent, assoc_eq_succ] at h ⊢
  rw [List.filter_cons_of_pos (cfg.in_set_self b), take_recent_of_not_mem h, mostRecent,
    List.take_take, Nat.add_sub_cancel, Nat.min_eq_left (Nat.sub_le _ _)]

/-! ## The order of a set -/

namespace CacheSet

variable {s s' : CacheSet cfg} {blocks : List Addr} {way : Way cfg} {new : Blk}

/-- The valid blocks of a set come first in its order, and their tags are those of a list. -/
def Stacked (s : CacheSet cfg) (blocks : List Addr) : Prop :=
  ∃ used unused, s.order = used ++ unused ∧ (∀ w ∈ used, (s.blks w).valid = true) ∧
    (∀ w ∈ unused, (s.blks w).valid = false) ∧
    used.map (fun w => (s.blks w).tag) = blocks.map cfg.cacheTag

/-- The tags after a block at the head was changed. -/
theorem map_tag_cons {used : List (Way cfg)} (hway : way ∉ used)
    (hblks : s'.blks = Function.update s.blks way new) :
    (way :: used).map (fun w => (s'.blks w).tag) =
      new.tag :: used.map fun w => (s.blks w).tag := by
  rw [List.map_cons, hblks, Function.update_self]
  refine congrArg (new.tag :: ·) (List.map_congr_left fun w hw => ?_)
  rw [Function.update_of_ne (ne_of_mem_of_not_mem hw hway)]

/-- The way that is used is valid, with the others. -/
theorem valid_cons {used : List (Way cfg)} (hnew : new.valid = true)
    (hblks : s'.blks = Function.update s.blks way new)
    (hused : ∀ w ∈ used, (s.blks w).valid = true) :
    ∀ w ∈ way :: used, (s'.blks w).valid = true := by
  intro w hw
  rw [hblks]
  by_cases hne : w = way
  · rw [hne, Function.update_self]
    exact hnew
  · rw [Function.update_of_ne hne]
    exact hused w ((List.mem_cons.mp hw).resolve_left hne)

/-- The unused ways stay invalid. -/
theorem invalid_update {unused : List (Way cfg)} (hway : way ∉ unused)
    (hblks : s'.blks = Function.update s.blks way new)
    (hunused : ∀ w ∈ unused, (s.blks w).valid = false) :
    ∀ w ∈ unused, (s'.blks w).valid = false := by
  intro w hw
  rw [hblks, Function.update_of_ne (ne_of_mem_of_not_mem hw hway)]
  exact hunused w hw

/-- A block that is used again moves to the front. -/
theorem Stacked.hit (h : s.Stacked blocks) (hs : s.WellFormed)
    (hway : s.holds (cfg.cacheTag b) way = true) (hnodup : (blocks.map cfg.cacheTag).Nodup)
    (hb : b ∈ blocks) (hblks : s'.blks = Function.update s.blks way new)
    (horder : s'.order = way :: s.order.erase way) (hnew : new.tag = (s.blks way).tag)
    (hvalid : new.valid = true) : s'.Stacked (b :: blocks.erase b) := by
  obtain ⟨used, unused, hsplit, hused, hunused, htags⟩ := h
  have hfound := holds_iff.mp hway
  have hnotin : way ∉ unused := by
    intro hin
    have hfalse := hunused way hin
    rw [hfound.2] at hfalse
    exact Bool.false_ne_true hfalse.symm
  have hin : way ∈ used := by
    have hall := hs.all way
    rw [hsplit, List.mem_append] at hall
    exact hall.resolve_right hnotin
  have hnotin' : way ∉ used.erase way := by
    have hord := hs.linked.nodup
    rw [hsplit] at hord
    exact (List.nodup_append.mp hord).1.not_mem_erase
  refine ⟨way :: used.erase way, unused, ?_, ?_, invalid_update hnotin hblks hunused, ?_⟩
  · rw [horder, hsplit, List.erase_append_left _ hin]
    rfl
  · exact valid_cons hvalid hblks fun w hw => hused w (List.mem_of_mem_erase hw)
  · rw [map_tag_cons hnotin' hblks, hnew, hfound.1]
    have hmap : (used.map fun w => (s.blks w).tag).Nodup := htags ▸ hnodup
    rw [map_erase_of_nodup hmap hin, htags, hfound.1, List.map_cons, map_erase_of_nodup hnodup hb]

/-- A block that is filled takes the place of the last one of a full set. -/
theorem Stacked.miss (h : s.Stacked blocks) (hs : s.WellFormed)
    (hvictim : s.order.getLast? = some way) (hblks : s'.blks = Function.update s.blks way new)
    (horder : s'.order = way :: s.order.erase way) (hnew : new.tag = cfg.cacheTag b)
    (hvalid : new.valid = true) : s'.Stacked (b :: blocks.take (cfg.assoc - 1)) := by
  obtain ⟨used, unused, hsplit, hused, hunused, htags⟩ := h
  obtain ⟨rest, hrest⟩ := List.getLast?_eq_some_iff.mp hvictim
  have hlength := hs.length_order
  have hnodup := hs.linked.nodup
  rw [hrest] at hnodup
  have hnotin : way ∉ rest := by
    rw [List.nodup_append] at hnodup
    exact fun hin => hnodup.2.2 way hin way (List.mem_singleton_self way) rfl
  have herase : s.order.erase way = rest := by
    rw [hrest, erase_mid hnodup, List.append_nil]
  -- the blocks that stay are the first of those in use, and then the unused ones but the victim
  obtain ⟨left, hleft, hinvalid⟩ : ∃ left, rest = used.take (cfg.assoc - 1) ++ left ∧
      ∀ w ∈ left, (s.blks w).valid = false := by
    rw [hrest] at hsplit hlength
    rw [List.length_append, List.length_singleton] at hlength
    rcases List.eq_nil_or_concat unused with rfl | ⟨front, last, rfl⟩
    · refine ⟨[], ?_, fun w hw => absurd hw List.not_mem_nil⟩
      rw [List.append_nil] at hsplit ⊢
      rw [← hsplit, ← hlength, Nat.add_sub_cancel, List.take_left]
    · rw [List.concat_eq_append, ← List.append_assoc] at hsplit
      obtain ⟨hfront, -⟩ := List.append_inj' hsplit rfl
      refine ⟨front, ?_, fun w hw => hunused w (by simp [hw])⟩
      rw [hfront, List.length_append] at hlength
      rw [hfront, List.take_of_length_le (by omega)]
  rw [hleft, List.mem_append, not_or] at hnotin
  refine ⟨way :: used.take (cfg.assoc - 1), left, ?_, ?_,
    invalid_update hnotin.2 hblks hinvalid, ?_⟩
  · rw [horder, herase, hleft]
    rfl
  · exact valid_cons hvalid hblks fun w hw => hused w (List.mem_of_mem_take hw)
  · rw [map_tag_cons hnotin.1 hblks, hnew, List.map_take, htags, List.map_cons, List.map_take]

end CacheSet

/-! ## The cache -/

namespace CacheT

variable {cp cp' : CacheT cfg} {cmd : MemCmd} {addr nbytes : Addr} {way : Way cfg}

/-- The cache holds the most recently used blocks, and has counted the hits and misses. -/
structure Stacked (cp : CacheT cfg) (history : List Addr) : Prop where
  aligned : ∀ b ∈ history, cfg.cacheBaddr b = b
  sets : ∀ i, (cp.sets i).Stacked (mostRecent cfg history i)
  hits : cp.stats.hits = stackHits cfg history
  misses : cp.stats.misses = stackMisses cfg history

/-- Nothing has been accessed in a new cache. -/
theorem stacked_create : (cacheCreate cfg).Stacked [] := by
  refine ⟨fun b hb => absurd hb List.not_mem_nil, fun i => ?_, rfl, rfl⟩
  refine ⟨[], (CacheSet.created cfg).order, rfl, fun w hw => absurd hw List.not_mem_nil,
    fun w _ => ?_, ?_⟩
  · show ((CacheSet.created cfg).blks w).valid = false
    rw [CacheSet.created_blks]
  · rw [mostRecent]
    simp [recent]

/-- Blocks of one set with the same tag are the same. -/
theorem Stacked.eq_of_tag {b' : Addr} (hfits : cfg.TagFits) (h : cp.Stacked history)
    (hb' : b' ∈ mostRecent cfg history i) (hb : cfg.cacheBaddr b = b) (hi : cfg.setIndex b = i)
    (htag : cfg.cacheTag b' = cfg.cacheTag b) : b' = b := by
  obtain ⟨hmem, hset⟩ := mem_of_mem_most_recent hb'
  have hbaddr := (Config.baddr_eq_iff hfits).mpr
    ⟨htag, (Config.set_index_eq_iff cfg).mp (hset.trans hi.symm)⟩
  rwa [h.aligned b' hmem, hb] at hbaddr

/-- The blocks of a set have different tags, if tags fit. -/
theorem Stacked.nodup_tags (hfits : cfg.TagFits) (h : cp.Stacked history)
    (i : Fin cfg.nsets) :
    ((mostRecent cfg history i).map cfg.cacheTag).Nodup := by
  refine List.Nodup.map_on (fun b hb b' hb' htag => ?_) ((nodup_recent _).sublist
    (List.take_sublist _ _))
  obtain ⟨hmem, hset⟩ := mem_of_mem_most_recent hb'
  exact h.eq_of_tag hfits hb (h.aligned b' hmem) hset htag

/-- The search for a block finds those that were used most recently. -/
theorem Stacked.holds_iff (hfits : cfg.TagFits) (h : cp.Stacked history) (hinv : cp.Inv)
    (hb : cfg.cacheBaddr b = b) :
    (∃ w, (cp.sets (cfg.setIndex b)).holds (cfg.cacheTag b) w = true) ↔
      b ∈ mostRecent cfg history (cfg.setIndex b) := by
  obtain ⟨used, unused, hsplit, hused, hunused, htags⟩ := h.sets (cfg.setIndex b)
  constructor
  · rintro ⟨w, hw⟩
    have hfound := CacheSet.holds_iff.mp hw
    have hin : w ∈ used := by
      have hall := (hinv.sets (cfg.setIndex b)).all w
      rw [hsplit, List.mem_append] at hall
      refine hall.resolve_right fun hin => ?_
      have hfalse := hunused w hin
      rw [hfound.2] at hfalse
      exact Bool.false_ne_true hfalse.symm
    have hmem := List.mem_map_of_mem (f := fun w => ((cp.sets (cfg.setIndex b)).blks w).tag) hin
    rw [htags, List.mem_map] at hmem
    obtain ⟨b', hb', htag⟩ := hmem
    rwa [h.eq_of_tag hfits hb' hb rfl (htag.trans hfound.1)] at hb'
  · intro hmem
    have htag := List.mem_map_of_mem (f := cfg.cacheTag) hmem
    rw [← htags, List.mem_map] at htag
    obtain ⟨w, hw, htag⟩ := htag
    exact ⟨w, CacheSet.holds_iff.mpr ⟨htag, hused w hw⟩⟩

/-- An access to a block whose address is aligned uses it. -/
theorem Stacked.access (hfits : cfg.TagFits) (h : cp.Stacked history) (hinv : cp.Inv)
    (hpolicy : cfg.policy = .LRU) (haccess : cp.Access cmd addr false cp') :
    cp'.Stacked (cfg.cacheBaddr addr :: history) := by
  obtain ⟨b, hb⟩ : ∃ b, b = cfg.cacheBaddr addr := ⟨_, rfl⟩
  have haligned : cfg.cacheBaddr b = b := by rw [hb, Config.baddr_baddr]
  have hset : cfg.setIndex addr = cfg.setIndex b := by
    rw [hb]
    exact ((Config.set_index_eq_iff cfg).mpr (cfg.set_baddr addr)).symm
  have htag : cfg.cacheTag addr = cfg.cacheTag b := by rw [hb, Config.tag_baddr hfits]
  have hformed := hinv.sets (cfg.setIndex b)
  have halign : ∀ b' ∈ b :: history, cfg.cacheBaddr b' = b' := by
    intro b' hb'
    rcases List.mem_cons.mp hb' with rfl | hmem
    · exact haligned
    · exact h.aligned b' hmem
  have hholds := h.holds_iff hfits hinv haligned
  rw [mem_most_recent_iff] at hholds
  rw [← hb]
  rcases haccess with ⟨way, hhit⟩ | ⟨way, hmiss⟩
  · have hfound := hhit.found (Or.inl hfits)
    have hblks := hhit.blks
    have horder := hhit.order
    rw [hset] at hfound hblks horder
    rw [htag] at hfound
    rw [if_pos hpolicy] at horder
    have hstack : StackHit cfg history b := hholds.mp ⟨way, hfound⟩
    have hmem := (mem_most_recent_iff cfg history b).mpr hstack
    refine ⟨halign, fun j => ?_, ?_, ?_⟩
    · by_cases hj : cfg.setIndex b = j
      · rw [← hj, most_recent_of_mem hmem]
        exact (h.sets _).hit hformed hfound (h.nodup_tags hfits _) hmem hblks horder rfl
          (CacheSet.holds_iff.mp hfound).2
      · rw [most_recent_of_ne hj, hhit.others j (hset ▸ Ne.symm hj)]
        exact h.sets j
    · rw [hhit.stats, stackHits, if_pos hstack, ← h.hits]
      rfl
    · rw [hhit.stats, stackMisses, if_pos hstack, ← h.misses]
      rfl
  · have hne : cfg.policy ≠ .Random := by rw [hpolicy]; exact nofun
    have habsent := hmiss.absent
    have hblks := hmiss.blks
    have horder := hmiss.order
    have hvictim := hmiss.victim hne
    rw [hset] at habsent hblks horder hvictim
    rw [htag] at habsent
    rw [if_neg hne] at horder
    have hstack : ¬ StackHit cfg history b := fun hstack => by
      obtain ⟨w, hw⟩ := hholds.mpr hstack
      rw [habsent w] at hw
      exact Bool.false_ne_true hw
    have hmem := fun hmem => hstack ((mem_most_recent_iff cfg history b).mp hmem)
    refine ⟨halign, fun j => ?_, ?_, ?_⟩
    · by_cases hj : cfg.setIndex b = j
      · rw [← hj, most_recent_of_not_mem hmem]
        exact (h.sets _).miss hformed hvictim hblks horder htag rfl
      · rw [most_recent_of_ne hj, hmiss.others j (hset ▸ Ne.symm hj)]
        exact h.sets j
    · rw [hmiss.stats, stackHits, if_neg hstack, ← h.hits, Stats.replace]
      split <;> rfl
    · rw [hmiss.stats, stackMisses, if_neg hstack, ← h.misses, Stats.replace]
      split <;> rfl

end CacheT

/-! ## Runs -/

/-- An access of a simulator. -/
structure Request where
  cmd : MemCmd
  pc : Addr
  addr : Addr
  nbytes : Addr

/-- The operation of an access. -/
def Request.op (r : Request) : Op := .access r.cmd r.pc r.addr r.nbytes

/-- The access is aligned and fits into its block, which is neither the lowest nor the highest. -/
structure InBlock (cfg : Config) (addr nbytes : Addr) : Prop where
  size : nbytes &&& (nbytes - 1) = 0
  aligned : addr &&& (nbytes - 1) = 0
  fits : addr.toNat + nbytes.toNat ≤ (cfg.cacheBaddr addr).toNat + cfg.bsize
  lowest : cfg.cacheBaddr addr ≠ 0
  highest : (cfg.cacheBaddr addr).toNat + cfg.bsize < 2 ^ 32

/-- The blocks that were accessed, the latest one first. -/
def historyOf (cfg : Config) (reqs : List Request) : List Addr :=
  (reqs.map fun r => cfg.cacheBaddr r.addr).reverse

namespace CacheT

variable {cp cp' : CacheT cfg} {addr nbytes : Addr} (myrand : Nat → Nat)

/-- What the check says of an access in a block. -/
theorem check_access_of_in_block (h : InBlock cfg addr nbytes) :
    checkAccess cfg addr nbytes = .ok () := by
  have hfits : ¬ cfg.cacheBaddr addr + BitVec.ofNat 32 cfg.bsize < addr + nbytes := by
    have hf := h.fits
    have hh := h.highest
    rw [BitVec.lt_def, BitVec.toNat_add, BitVec.toNat_add, BitVec.toNat_ofNat, Nat.add_mod_mod,
      Nat.mod_eq_of_lt hh]
    exact not_lt.mpr ((Nat.mod_le _ _).trans hf)
  rw [checkAccess, if_neg (not_or.mpr ⟨not_not.mpr h.size, not_not.mpr h.aligned⟩), if_neg hfits]

/-- An access in a block does not stop, in a cache without a prefetcher. -/
theorem access_of_in_block (cmd : MemCmd) (pc : Addr) (hprefetch : cfg.prefetchType = 0)
    (hinv : cp.Inv) (h : InBlock cfg addr nbytes) :
    ∃ cp', cp.apply myrand (.access cmd pc addr nbytes) = .ok cp' ∧ cp'.Inv ∧
      cp.Access cmd addr false cp' := by
  have hfaults : ∀ f, ¬ cp.AccessFault addr nbytes false f := by
    intro f hf
    cases hf with
    | check hcheck =>
        rw [check_access_of_in_block h] at hcheck
        exact nomatch hcheck
    | buffer _ hfetch => exact nomatch hfetch
    | noBlock _ hzero => exact h.lowest hzero
    | miss hmiss => exact absurd (hprefetch.symm.trans hmiss.2.1) (by decide)
  obtain ⟨cp', hok, haccess⟩ := (access_block myrand cmd addr nbytes false hinv).exists_ok hfaults
  refine ⟨cp', ?_, haccess⟩
  show (cp.accessBlock myrand cmd addr nbytes false >>= _) = _
  rw [hok]
  show cp'.generatePrefetch myrand pc addr = _
  rw [generatePrefetch, hprefetch]
  rfl

/-- Run lemma. -/
theorem stacked_of_run (hfits : cfg.TagFits) (hpolicy : cfg.policy = .LRU)
    (hprefetch : cfg.prefetchType = 0) {reqs : List Request}
    (h : ∀ r ∈ reqs, InBlock cfg r.addr r.nbytes) :
    ∃ cp, runOps cfg myrand (reqs.map Request.op) = .ok cp ∧ cp.Inv ∧
      cp.Stacked (historyOf cfg reqs) := by
  induction reqs using List.reverseRecOn with
  | nil => exact ⟨cacheCreate cfg, rfl, inv_create, stacked_create⟩
  | append_singleton reqs r ih =>
      obtain ⟨cp, hrun, hinv, hstacked⟩ := ih fun r' hr' => h r' (List.mem_append_left _ hr')
      obtain ⟨cp', hok, hinv', haccess⟩ := access_of_in_block myrand r.cmd r.pc hprefetch hinv
        (h r (List.mem_append_right _ List.mem_cons_self))
      refine ⟨cp', ?_, hinv', ?_⟩
      · rw [List.map_append]
        exact (run_ops_concat_ok myrand).mpr ⟨cp, hrun, hok⟩
      · have hhistory : historyOf cfg (reqs ++ [r]) =
            cfg.cacheBaddr r.addr :: historyOf cfg reqs := by
          simp [historyOf]
        rw [hhistory]
        exact hstacked.access hfits hinv hpolicy haccess

/-- The valid blocks of a set, in the order of its way list. -/
def validBlocks (cp : CacheT cfg) (i : Fin cfg.nsets) : List Addr :=
  ((cp.sets i).order.filter fun w => ((cp.sets i).blks w).valid).map fun w =>
    cfg.cacheMkBaddr ((cp.sets i).blks w).tag (cfg.setAddr i)

/-- The valid blocks are the most recent ones. -/
theorem Stacked.valid_blocks {history : List Addr} (hfits : cfg.TagFits)
    (h : cp.Stacked history) (i : Fin cfg.nsets) :
    cp.validBlocks i = mostRecent cfg history i := by
  obtain ⟨used, unused, hsplit, hused, hunused, htags⟩ := h.sets i
  have hfilter : ((cp.sets i).order.filter fun w => ((cp.sets i).blks w).valid) = used := by
    rw [hsplit, List.filter_append, List.filter_eq_self.mpr hused,
      List.filter_eq_nil_iff.mpr fun w hw => by rw [hunused w hw]; exact Bool.false_ne_true,
      List.append_nil]
  rw [validBlocks, hfilter]
  have hcompose := congrArg (List.map fun tag => cfg.cacheMkBaddr tag (cfg.setAddr i)) htags
  rw [List.map_map, List.map_map] at hcompose
  refine hcompose.trans ((List.map_congr_left fun b hb => ?_).trans (List.map_id _))
  obtain ⟨hmem, hset⟩ := mem_of_mem_most_recent hb
  show cfg.cacheMkBaddr (cfg.cacheTag b) (cfg.setAddr i) = b
  rw [← hset, Config.set_addr_set_index, Config.mk_baddr hfits, h.aligned b hmem]

/-- The cache after these accesses is the abstract one: it has counted the hits and misses of the
history, its valid blocks are the most recently used ones in their order, and the next access hits
exactly if the history says so. -/
def StackDistance (cfg : Config) (myrand : Nat → Nat) (reqs : List Request) : Prop :=
  ∃ cp, runOps cfg myrand (reqs.map Request.op) = .ok cp ∧
    cp.stats.hits = stackHits cfg (historyOf cfg reqs) ∧
    cp.stats.misses = stackMisses cfg (historyOf cfg reqs) ∧
    (∀ i, cp.validBlocks i = mostRecent cfg (historyOf cfg reqs) i) ∧
    ∀ r : Request, InBlock cfg r.addr r.nbytes →
      ∃ cp', cp.apply myrand r.op = .ok cp' ∧
        if StackHit cfg (historyOf cfg reqs) (cfg.cacheBaddr r.addr) then
          ∃ way, cp.Hit r.cmd r.addr false way cp'
        else ∃ way, cp.Miss r.cmd r.addr false way cp'

/-- With tags that fit, every run hits where the stack says. -/
theorem stack_distance_of_run (hfits : cfg.TagFits) (hpolicy : cfg.policy = .LRU)
    (hprefetch : cfg.prefetchType = 0) (reqs : List Request)
    (h : ∀ r ∈ reqs, InBlock cfg r.addr r.nbytes) : StackDistance cfg myrand reqs := by
  obtain ⟨cp, hrun, hinv, hstacked⟩ := stacked_of_run myrand hfits hpolicy hprefetch h
  refine ⟨cp, hrun, hstacked.hits, hstacked.misses, hstacked.valid_blocks hfits, fun r hr => ?_⟩
  obtain ⟨cp', hok, -, haccess⟩ := access_of_in_block myrand r.cmd r.pc hprefetch hinv hr
  refine ⟨cp', hok, ?_⟩
  have hset : cfg.setIndex (cfg.cacheBaddr r.addr) = cfg.setIndex r.addr :=
    (Config.set_index_eq_iff cfg).mpr (cfg.set_baddr r.addr)
  have hholds := hstacked.holds_iff hfits hinv (cfg.baddr_baddr r.addr)
  rw [mem_most_recent_iff, hset, Config.tag_baddr hfits] at hholds
  rcases haccess with ⟨way, hhit⟩ | ⟨way, hmiss⟩
  · rw [if_pos (hholds.mp ⟨way, hhit.found (Or.inl hfits)⟩)]
    exact ⟨way, hhit⟩
  · rw [if_neg fun hstack => ?_]
    · exact ⟨way, hmiss⟩
    · obtain ⟨w, hw⟩ := hholds.mpr hstack
      rw [hmiss.absent w] at hw
      exact Bool.false_ne_true hw

/-! ## Tags that do not fit -/

/-- The first access of a new cache misses, and its set holds only the tag of that access. -/
theorem first_access {cmd : MemCmd} {tag : Addr} {way : Way cfg}
    (haccess : (cacheCreate cfg).Access cmd addr false cp)
    (hholds : (cp.sets (cfg.setIndex addr)).holds tag way = true) : tag = cfg.cacheTag addr := by
  have hinvalid := valid_created (cfg.setIndex addr)
  obtain ⟨htag, hvalid⟩ := CacheSet.holds_iff.mp hholds
  rcases haccess with ⟨w, hhit⟩ | ⟨w, hmiss⟩
  · exact absurd ((hinvalid w).symm.trans hhit.valid) Bool.false_ne_true
  · rw [hmiss.blks] at htag hvalid
    by_cases hw : way = w
    · rw [hw, Function.update_self] at htag
      exact htag.symm
    · rw [Function.update_of_ne hw, hinvalid] at hvalid
      exact absurd hvalid Bool.false_ne_true

/-- A byte of the second block. -/
theorem in_block_of_second (haddr : cfg.cacheBaddr addr = BitVec.twoPow 32 cfg.setShift)
    (hlt : addr.toNat < 2 ^ cfg.setShift + 2 ^ cfg.setShift) : InBlock cfg addr 1 := by
  have hshift := @Config.set_shift_lt cfg
  have hpow : 2 ^ cfg.setShift < 2 ^ 31 := Nat.pow_lt_pow_right (by decide) hshift
  have hbaddr : (cfg.cacheBaddr addr).toNat = 2 ^ cfg.setShift := by
    rw [haddr, BitVec.toNat_twoPow, Nat.mod_eq_of_lt (by omega)]
  refine ⟨rfl, BitVec.and_zero, ?_, fun hzero => ?_, ?_⟩
  · rw [hbaddr, Config.bsize_eq]
    exact hlt
  · rw [hzero] at hbaddr
    exact (Nat.two_pow_pos _).ne hbaddr
  · rw [hbaddr, Config.bsize_eq]
    omega

/-- If the tag does not fit, a block of which one byte was read misses at another byte. -/
theorem not_stack_distance (hfits : ¬ cfg.TagFits) (hprefetch : cfg.prefetchType = 0) :
    ∃ r : Request, InBlock cfg r.addr r.nbytes ∧ ¬ StackDistance cfg myrand [r] := by
  have hshift := @Config.set_shift_lt cfg
  have hpow : 2 ^ cfg.setShift < 2 ^ 31 := Nat.pow_lt_pow_right (by decide) hshift
  obtain ⟨a, ha⟩ : ∃ a : Addr, a = BitVec.twoPow 32 cfg.setShift := ⟨_, rfl⟩
  have hmarked := Config.baddr_marked_byte hfits
  have hbaddr : cfg.cacheBaddr a = a := by rw [ha, ← hmarked, Config.baddr_baddr]
  have hblock : InBlock cfg a 1 := by
    refine in_block_of_second (hbaddr.trans ha) ?_
    rw [ha, BitVec.toNat_twoPow, Nat.mod_eq_of_lt (by omega)]
    exact Nat.lt_add_of_pos_left (Nat.two_pow_pos _)
  have hblock' : InBlock cfg cfg.markedByte 1 := by
    refine in_block_of_second hmarked ?_
    have hlow := Nat.pow_lt_pow_right (a := 2) (by decide) (Config.mod_lt_set_shift hfits)
    rw [Config.markedByte, BitVec.toNat_or, BitVec.toNat_twoPow, BitVec.toNat_twoPow,
      Nat.mod_eq_of_lt (by omega), Nat.mod_eq_of_lt (by omega), ← Nat.mul_two, ← Nat.pow_succ]
    exact Nat.or_lt_two_pow (Nat.pow_lt_pow_right (by decide) (Nat.lt_succ_self _))
      (hlow.trans (Nat.pow_lt_pow_right (by decide) (Nat.lt_succ_self _)))
  refine ⟨⟨.Read, 0, a, 1⟩, hblock, ?_⟩
  rintro ⟨cp, hrun, -, -, -, hnext⟩
  obtain ⟨cp₁, hok, -, haccess⟩ := access_of_in_block myrand .Read 0 hprefetch inv_create hblock
  obtain ⟨cp', -, heffect⟩ := hnext ⟨.Read, 0, cfg.markedByte, 1⟩ hblock'
  have hrun' : runOps cfg myrand ([] ++ [.access .Read 0 a 1]) = .ok cp := hrun
  obtain ⟨cp₀, hnil, hfirst⟩ := (run_ops_concat_ok myrand).mp hrun'
  obtain rfl : cacheCreate cfg = cp₀ := Except.ok.inj hnil
  obtain rfl : cp₁ = cp := Except.ok.inj (hok.symm.trans hfirst)
  have hset : cfg.setIndex cfg.markedByte = cfg.setIndex a := by
    refine (Config.set_index_eq_iff cfg).mpr (cfg.set_of_baddr_eq ?_)
    rw [hmarked, hbaddr, ha]
  -- the block was read before, and no other one since then
  have hstack : StackHit cfg (historyOf cfg [⟨.Read, 0, a, 1⟩])
      (cfg.cacheBaddr cfg.markedByte) := by
    have hsame : historyOf cfg [⟨.Read, 0, a, 1⟩] = [cfg.cacheBaddr cfg.markedByte] := by
      rw [hmarked, ← ha]
      exact congrArg (fun b => [b]) hbaddr
    rw [hsame, StackHit]
    simpa using cfg.assoc_ok.1
  rw [if_pos hstack] at heffect
  obtain ⟨way, hhit⟩ := heffect
  have hholds := hhit.found (Or.inr fun htagset => ?_)
  · rw [hset] at hholds
    rw [ha] at haccess hholds
    exact Config.tag_marked_byte_ne hfits (first_access haccess hholds)
  · rcases haccess with ⟨w, hhit₁⟩ | ⟨w, hmiss⟩
    · exact Bool.false_ne_true ((valid_created _ w).symm.trans hhit₁.valid)
    · exact hblock'.lowest (htagset.trans hmiss.lastTagset)

/-! ## Main result -/

/-- An LRU cache without a prefetcher is the abstract cache of most recently used blocks, after all
accesses, if and only if the tag of its geometry fits. -/
theorem lru_stack_distance (hpolicy : cfg.policy = .LRU) (hprefetch : cfg.prefetchType = 0) :
    (∀ reqs : List Request, (∀ r ∈ reqs, InBlock cfg r.addr r.nbytes) →
      StackDistance cfg myrand reqs) ↔ cfg.TagFits := by
  constructor
  · intro hall
    by_contra hfits
    obtain ⟨r, hblock, hnot⟩ := not_stack_distance myrand hfits hprefetch
    exact hnot (hall [r] fun r' hr' => List.mem_singleton.mp hr' ▸ hblock)
  · intro hfits reqs h
    exact stack_distance_of_run myrand hfits hpolicy hprefetch reqs h

/-- Two blocks of one set take turns, and then one of them is read twice. -/
theorem lru_stack_distance_turns :
    ∃ cp, runOps directMapped (fun _ => 0)
        ([⟨.Read, 0, 16, 4⟩, ⟨.Write, 0, 80, 4⟩, ⟨.Read, 0, 20, 4⟩, ⟨.Read, 0, 24, 4⟩].map
          Request.op) = .ok cp ∧
      cp.stats.hits = 1 ∧ cp.stats.misses = 3 := by
  have hblock : ∀ addr ∈ ([16, 80, 20, 24] : List Addr), InBlock directMapped addr 4 := by
    intro addr haddr
    simp only [List.mem_cons, List.not_mem_nil, or_false] at haddr
    rcases haddr with rfl | rfl | rfl | rfl
    all_goals exact ⟨by decide, by decide, by decide, by decide, by decide⟩
  have hreqs : ∀ r ∈ ([⟨.Read, 0, 16, 4⟩, ⟨.Write, 0, 80, 4⟩, ⟨.Read, 0, 20, 4⟩,
      ⟨.Read, 0, 24, 4⟩] : List Request), InBlock directMapped r.addr r.nbytes := by
    simp only [List.forall_mem_cons]
    exact ⟨hblock _ (by decide), hblock _ (by decide), hblock _ (by decide),
      hblock _ (by decide), fun r hr => absurd hr List.not_mem_nil⟩
  have hfits : directMapped.TagFits := by decide
  obtain ⟨cp, hrun, hhits, hmisses, -⟩ :=
    (lru_stack_distance (fun _ => 0) (rfl : directMapped.policy = .LRU) rfl).mpr hfits _ hreqs
  exact ⟨cp, hrun, hhits.trans (by decide), hmisses.trans (by decide)⟩

/-- Two bytes of one block of 2^30 bytes both miss, although the block was not replaced. -/
theorem block_misses_twice :
    (¬ ∀ cfg : Config, cfg.policy = .LRU → cfg.prefetchType = 0 → ∀ reqs : List Request,
      (∀ r ∈ reqs, InBlock cfg r.addr r.nbytes) → StackDistance cfg (fun _ => 0) reqs) ∧
    ∃ cp, runOps hugeBlocks (fun _ => 0)
        ([⟨.Read, 0, 0x40010000, 4⟩, ⟨.Read, 0, 0x40010004, 4⟩].map Request.op) = .ok cp ∧
      cp.stats.hits = 0 ∧ cp.stats.misses = 2 := by
  refine ⟨fun hall => ?_, _, rfl, rfl, rfl⟩
  obtain ⟨r, hblock, hnot⟩ :=
    not_stack_distance (fun _ => 0) (by decide : ¬ hugeBlocks.TagFits) rfl
  exact hnot (hall hugeBlocks rfl rfl [r] fun r' hr' => List.mem_singleton.mp hr' ▸ hblock)

end CacheT

end Ece552.Cache
