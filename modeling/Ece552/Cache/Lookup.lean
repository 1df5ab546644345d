import Ece552.Cache.Runs

/-!
# Searches and the fast path

At every point of a run the sets stand for lists of all their blocks, and all searches for a block
agree. The fast path of an access agrees with them too, but for two kinds of accesses. One is to the
block at address 0: the value to which the last tag and set are reset is theirs, and there is no
last block then. The other is in a geometry whose tag does not fit, where addresses of one block
have several tags.
-/

namespace Ece552.Cache

open Library

variable {cfg : Config} {myrand : Nat → Nat}

namespace CacheT

variable {cp : CacheT cfg} {addr : Addr}

/-! ## Searches -/

/-- All searches for the block of an address find the same one, or none. -/
structure SearchesAgree (cp : CacheT cfg) (addr : Addr) (found : Option (Way cfg)) : Prop where
  linear : (cp.sets (cfg.setIndex addr)).linearLookup (cfg.cacheTag addr) = .ok found
  hash : cfg.hsize ≠ 0 →
    (cp.sets (cfg.setIndex addr)).hashLookup (cfg.cacheTag addr) = .ok found
  probe : cp.cacheProbe addr = .ok found.isSome
  holds : ∀ way, found = some way ↔
    (cp.sets (cfg.setIndex addr)).holds (cfg.cacheTag addr) way = true

theorem eq_of_iff {found found' : Option (Way cfg)} {P : Way cfg → Prop}
    (h : ∀ w, found = some w ↔ P w) (h' : ∀ w, found' = some w ↔ P w) : found = found' :=
  Option.ext fun w => (h w).trans (h' w).symm

theorem Inv.searches_agree (h : cp.Inv) (addr : Addr) : ∃ found, cp.SearchesAgree addr found := by
  have hformed := h.sets (cfg.setIndex addr)
  obtain ⟨found, hprobe, hfound⟩ := h.cache_probe addr
  obtain ⟨linear, hlinear, hlinear'⟩ := hformed.linear_lookup (cfg.cacheTag addr)
  refine ⟨found, ?_, fun hsize => ?_, hprobe, hfound⟩
  · rw [hlinear, eq_of_iff hlinear' hfound]
  · obtain ⟨hash, hhash, hhash'⟩ := hformed.hash_lookup hsize (cfg.cacheTag addr)
    rw [hhash, eq_of_iff hhash' hfound]

/-- After every run, the pointers of each set stand for a list of all its blocks and for the hash
chains of their tags, no two valid blocks of it have the same tag, and all searches agree. A run
that stops does so without a failed assertion on way lists and hash chains. -/
theorem sets_well_formed (ops : List Op) :
    Ensures Outside
      (fun cp : CacheT cfg =>
        (∀ i, (cp.sets i).WellFormed ∧ (cp.sets i).order.Perm (List.finRange cfg.assoc)) ∧
        ∀ addr, ∃ found, cp.SearchesAgree addr found)
      (runOps cfg myrand ops) := by
  refine (kept_true.run_ops myrand (fun _ _ _ => trivial) trivial ops).mono fun cp ⟨h, _⟩ =>
    ⟨fun i => ?_, h.searches_agree⟩
  have hnodup := (h.sets i).linked.nodup
  refine ⟨h.sets i, (List.perm_ext_iff_of_nodup hnodup (List.nodup_finRange _)).mpr fun w => ?_⟩
  simp [(h.sets i).all w]

/-! ## The fast path -/

/-- When the fast path is taken, the last block is the valid block for the address, and the path
leaves the cache as the search would leave it. -/
def FastPathAgrees (myrand : Nat → Nat) (cp : CacheT cfg) (addr : Addr) : Prop :=
  cfg.cacheTagset addr = cp.lastTagset →
    ∃ p, cp.lastBlk = some p ∧ p.1 = cfg.setIndex addr ∧
      (cp.sets p.1).holds (cfg.cacheTag addr) p.2 = true ∧
      ∀ cmd fetch, cp.fullAccess myrand cmd addr fetch = .ok (cp.cacheFastHit cmd addr p fetch)

/-- Where the fast path is taken with a last block, that block has the tag of the address. -/
def LastTagged (cp : CacheT cfg) (addr : Addr) : Prop :=
  ∀ p, cp.lastBlk = some p → cfg.cacheTagset addr = cp.lastTagset →
    (cp.blk p).tag = cfg.cacheTag addr

/-- If the tag fits, the last block has the tag. -/
theorem Inv.last_tagged (hfits : cfg.TagFits) (h : cp.Inv) (addr : Addr) : cp.LastTagged addr :=
  fun _ hp htagset => (CacheSet.holds_iff.mp (h.last_holds hfits hp htagset)).1

/-- The fast path agrees with the search unless there is no last block and the access is to the
block at address 0, or the tag does not fit and the last block has another tag. -/
theorem fast_path_agrees_iff (h : (moves cfg myrand).Reachable cp) (addr : Addr) :
    cp.FastPathAgrees myrand addr ↔
      ¬ (cp.lastBlk = none ∧ cfg.cacheTagset addr = 0) ∧ (cfg.TagFits ∨ cp.LastTagged addr) := by
  have hinv := Inv.of_reachable myrand h
  constructor
  · intro hagrees
    refine ⟨?_, Or.inr fun p hp htagset => ?_⟩
    · rintro ⟨hnone, hzero⟩
      obtain ⟨p, hp, -⟩ := hagrees (by rw [hzero, hinv.reset hnone])
      exact nomatch hnone.symm.trans hp
    · obtain ⟨q, hq, -, hholds, -⟩ := hagrees htagset
      obtain rfl : p = q := Option.some.inj (hp.symm.trans hq)
      exact (CacheSet.holds_iff.mp hholds).1
  · rintro ⟨hlast, htagged⟩ htagset
    cases hp : cp.lastBlk with
    | none => exact absurd ⟨hp, by rw [htagset, hinv.reset hp]⟩ hlast
    | some p =>
        have htag : (cp.blk p).tag = cfg.cacheTag addr := by
          rcases htagged with hfits | htagged
          · exact hinv.last_tagged hfits addr p hp htagset
          · exact htagged p hp htagset
        have hholds : (cp.sets p.1).holds (cfg.cacheTag addr) p.2 = true :=
          CacheSet.holds_iff.mpr ⟨htag, (hinv.last p hp).2⟩
        refine ⟨p, rfl, hinv.last_set hp htagset, hholds, fun cmd fetch => ?_⟩
        exact full_access_eq_fast_hit myrand cmd fetch hinv hp htagset hholds

end CacheT

/-! ## Block 0 of a new cache -/

/-- Outside of block 0 the fast path of the new cache agrees with the search. -/
theorem fast_path_agrees_at_16 : (cacheCreate directMapped).FastPathAgrees (fun _ => 0) 16 :=
  (CacheT.fast_path_agrees_iff (.init rfl) 16).mpr
    ⟨fun h => absurd h.2 (by decide), Or.inl (by decide)⟩

/-- The first access of a new cache, if it is to block 0, takes the fast path without a block. In a
cache whose tag does not fit, the fast path hits a block that the search does not find. -/
theorem fast_path_without_block :
    (¬ ∀ (cfg : Config) (myrand : Nat → Nat) (cp : CacheT cfg),
      (moves cfg myrand).Reachable cp → ∀ addr, cp.FastPathAgrees myrand addr) ∧
    runOps directMapped (fun _ => 0) [.access .Read 0 0 4] = .error .nullPointer ∧
    ∃ cp, runOps hugeBlocks (fun _ => 0)
      [.access .Read 0 0x40010000 4, .access .Read 0 0x40010000 4] = .ok cp ∧
      cp.lastBlk.isSome = true ∧ ¬ cp.FastPathAgrees (fun _ => 0) 0x40010008 := by
  refine ⟨fun hall => ?_, rfl, _, rfl, rfl, fun hagrees => ?_⟩
  · have hzero := hall directMapped (fun _ => 0) (cacheCreate directMapped) (.init rfl) 0
    obtain ⟨p, hp, -⟩ := hzero rfl
    exact nomatch hp
  · obtain ⟨p, hp, -, hholds, -⟩ := hagrees rfl
    cases hp
    cases hholds

end Ece552.Cache
