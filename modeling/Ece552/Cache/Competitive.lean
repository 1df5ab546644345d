import Ece552.Cache.Lru
import Ece552.Cache.WriteBack
import Ece552.Library.Paging

/-!
# LRU and FIFO against other policies

Without a prefetcher, an LRU or a FIFO cache whose tag fits holds of each set a list of blocks,
which every access changes at the front. Such a cache is set against a rival that knows all accesses
in advance and decides before each one which blocks to hold. An LRU cache is also set against one
with more ways, which holds all that it holds. Read `competitive` and `lru_inclusion` first.
-/

namespace Ece552.Cache

open Library

variable {cfg : Config} {history : List Addr} {b : Addr} {i : Fin cfg.nsets}

/-! ## The lists of blocks -/

/-- The blocks of a set after an access to one of them. -/
def Config.touch (cfg : Config) (b : Addr) (blocks : List Addr) : List Addr :=
  if b ∈ blocks then if cfg.policy = .LRU then b :: blocks.erase b else blocks
  else b :: blocks.take (cfg.assoc - 1)

/-- The blocks of each set under LRU or FIFO, by a history that begins with the latest access. -/
def resident (cfg : Config) : List Addr → Fin cfg.nsets → List Addr
  | [] => fun _ => []
  | b :: older =>
      Function.update (resident cfg older) (cfg.setIndex b)
        (cfg.touch b (resident cfg older (cfg.setIndex b)))

/-- The number of misses in a history. -/
def residentMisses (cfg : Config) : List Addr → Nat
  | [] => 0
  | b :: older =>
      residentMisses cfg older + if b ∈ resident cfg older (cfg.setIndex b) then 0 else 1

/-- The set of the access is touched. -/
theorem resident_self (cfg : Config) (b : Addr) (history : List Addr) :
    resident cfg (b :: history) (cfg.setIndex b) =
      cfg.touch b (resident cfg history (cfg.setIndex b)) := Function.update_self ..

/-- The other sets stay as they are. -/
theorem resident_of_ne (h : cfg.setIndex b ≠ i) :
    resident cfg (b :: history) i = resident cfg history i := Function.update_of_ne (Ne.symm h) ..

/-- A touch brings in the block only. -/
theorem mem_of_mem_touch {a : Addr} {blocks : List Addr} (h : a ∈ cfg.touch b blocks) :
    a = b ∨ a ∈ blocks := by
  unfold Config.touch at h
  split at h
  · split at h
    · exact (List.mem_cons.mp h).imp_right List.mem_of_mem_erase
    · exact Or.inr h
  · exact (List.mem_cons.mp h).imp_right List.mem_of_mem_take

/-- A touch brings in no block twice. -/
theorem nodup_touch {blocks : List Addr} (h : blocks.Nodup) : (cfg.touch b blocks).Nodup := by
  unfold Config.touch
  split
  · split
    · exact List.nodup_cons.mpr ⟨h.not_mem_erase, h.erase b⟩
    · exact h
  case isFalse hb =>
    exact List.nodup_cons.mpr ⟨fun hin => hb (List.mem_of_mem_take hin),
      h.sublist (List.take_sublist _ _)⟩

/-- What resides was accessed, and is in the set. -/
theorem mem_of_mem_resident (h : b ∈ resident cfg history i) :
    b ∈ history ∧ cfg.setIndex b = i := by
  induction history with
  | nil => exact absurd h List.not_mem_nil
  | cons a older ih =>
      by_cases hi : cfg.setIndex a = i
      · subst hi
        rw [resident_self] at h
        rcases mem_of_mem_touch h with rfl | hmem
        · exact ⟨List.mem_cons_self, rfl⟩
        · exact ⟨List.mem_cons_of_mem _ (ih hmem).1, (ih hmem).2⟩
      · rw [resident_of_ne hi] at h
        exact ⟨List.mem_cons_of_mem _ (ih h).1, (ih h).2⟩

/-- No block resides twice. -/
theorem nodup_resident (cfg : Config) (history : List Addr) (i : Fin cfg.nsets) :
    (resident cfg history i).Nodup := by
  induction history with
  | nil => exact List.nodup_nil
  | cons b older ih =>
      by_cases hi : cfg.setIndex b = i
      · subst hi
        rw [resident_self]
        exact nodup_touch ih
      · rw [resident_of_ne hi]
        exact ih

/-! ## The cache -/

/-- The search in a set finds the blocks of its list, if no two of them have the same tag. -/
theorem CacheSet.Stacked.holds_iff {s : CacheSet cfg} {blocks : List Addr} (h : s.Stacked blocks)
    (hs : s.WellFormed) (htags : ∀ b' ∈ blocks, cfg.cacheTag b' = cfg.cacheTag b → b' = b) :
    (∃ w, s.holds (cfg.cacheTag b) w = true) ↔ b ∈ blocks := by
  obtain ⟨used, unused, hsplit, hused, hunused, hmap⟩ := h
  constructor
  · rintro ⟨w, hw⟩
    have hfound := CacheSet.holds_iff.mp hw
    have hall := hs.all w
    rw [hsplit, List.mem_append] at hall
    have hin : w ∈ used := by
      refine hall.resolve_right fun hin => ?_
      rw [hunused w hin] at hfound
      exact Bool.false_ne_true hfound.2
    have hmem := List.mem_map_of_mem (f := fun w => (s.blks w).tag) hin
    rw [hmap, List.mem_map] at hmem
    obtain ⟨b', hb', htag⟩ := hmem
    rwa [htags b' hb' (htag.trans hfound.1)] at hb'
  · intro hmem
    have htag := List.mem_map_of_mem (f := cfg.cacheTag) hmem
    rw [← hmap, List.mem_map] at htag
    obtain ⟨w, hw, htag⟩ := htag
    exact ⟨w, CacheSet.holds_iff.mpr ⟨htag, hused w hw⟩⟩

namespace CacheT

variable {cp cp' : CacheT cfg} {cmd : MemCmd} {addr : Addr}

/-- The cache holds the blocks of the lists, and has counted the misses. -/
structure Resides (cp : CacheT cfg) (history : List Addr) : Prop where
  aligned : ∀ b ∈ history, cfg.cacheBaddr b = b
  sets : ∀ i, (cp.sets i).Stacked (resident cfg history i)
  misses : cp.stats.misses = residentMisses cfg history

/-- Nothing resides in a new cache. -/
theorem resides_create : (cacheCreate cfg).Resides [] := by
  refine ⟨fun b hb => absurd hb List.not_mem_nil, fun i => ?_, rfl⟩
  refine ⟨[], (CacheSet.created cfg).order, rfl, fun w hw => absurd hw List.not_mem_nil,
    fun w _ => ?_, rfl⟩
  show ((CacheSet.created cfg).blks w).valid = false
  rw [CacheSet.created_blks]

/-- Blocks of one set with the same tag are the same. -/
theorem Resides.eq_of_tag {b' : Addr} (hfits : cfg.TagFits) (h : cp.Resides history)
    (hb' : b' ∈ resident cfg history i) (hb : cfg.cacheBaddr b = b) (hi : cfg.setIndex b = i)
    (htag : cfg.cacheTag b' = cfg.cacheTag b) : b' = b := by
  obtain ⟨hmem, hset⟩ := mem_of_mem_resident hb'
  have hbaddr := (Config.baddr_eq_iff hfits).mpr
    ⟨htag, (Config.set_index_eq_iff cfg).mp (hset.trans hi.symm)⟩
  rwa [h.aligned b' hmem, hb] at hbaddr

/-- The blocks of a set have different tags, if tags fit. -/
theorem Resides.nodup_tags (hfits : cfg.TagFits) (h : cp.Resides history)
    (i : Fin cfg.nsets) :
    ((resident cfg history i).map cfg.cacheTag).Nodup := by
  refine List.Nodup.map_on (fun b hb b' hb' htag => ?_) (nodup_resident cfg history i)
  obtain ⟨hmem, hset⟩ := mem_of_mem_resident hb'
  exact h.eq_of_tag hfits hb (h.aligned b' hmem) hset htag

/-- An access to a block that is found. -/
theorem Resides.hit {way : Way cfg} (hfits : cfg.TagFits) (h : cp.Resides history)
    (hinv : cp.Inv)
    (hhit : cp.Hit cmd addr false way cp') (hb : cfg.cacheBaddr b = b)
    (hset : cfg.setIndex addr = cfg.setIndex b) (htag : cfg.cacheTag addr = cfg.cacheTag b) :
    cp'.Resides (b :: history) := by
  have hformed := hinv.sets (cfg.setIndex b)
  have hfound := hhit.found (Or.inl hfits)
  have hblks := hhit.blks
  have horder := hhit.order
  rw [hset] at hfound hblks horder
  rw [htag] at hfound
  have hmem : b ∈ resident cfg history (cfg.setIndex b) :=
    ((h.sets _).holds_iff hformed fun b' hb' htag =>
      h.eq_of_tag hfits hb' hb rfl htag).mp ⟨way, hfound⟩
  refine ⟨List.forall_mem_cons.mpr ⟨hb, h.aligned⟩, fun j => ?_, ?_⟩
  · by_cases hj : cfg.setIndex b = j
    · subst hj
      rw [resident_self, Config.touch, if_pos hmem]
      by_cases hpolicy : cfg.policy = .LRU
      · rw [if_pos hpolicy] at horder ⊢
        exact (h.sets _).hit hformed hfound (h.nodup_tags hfits _) hmem hblks horder rfl
          (CacheSet.holds_iff.mp hfound).2
      · -- the way list stays, and only the status of one block changes
        rw [if_neg hpolicy] at horder ⊢
        obtain ⟨used, unused, hsplit, hused, hunused, htags⟩ := h.sets (cfg.setIndex b)
        have hkept := fun w => hhit.same (cfg.setIndex b, w)
        refine ⟨used, unused, horder.trans hsplit, fun w hw => (hkept w).2.trans (hused w hw),
          fun w hw => (hkept w).2.trans (hunused w hw), ?_⟩
        rw [← htags]
        exact List.map_congr_left fun w _ => (hkept w).1
    · rw [resident_of_ne hj, hhit.others j (hset ▸ Ne.symm hj)]
      exact h.sets j
  · rw [hhit.stats, residentMisses, if_pos hmem, ← h.misses]
    rfl

/-- An access to a block that is not found, which is put in front. -/
theorem Resides.miss {way : Way cfg} (hfits : cfg.TagFits) (h : cp.Resides history)
    (hinv : cp.Inv) (hpolicy : cfg.policy ≠ .Random) (hmiss : cp.Miss cmd addr false way cp')
    (hb : cfg.cacheBaddr b = b) (hset : cfg.setIndex addr = cfg.setIndex b)
    (htag : cfg.cacheTag addr = cfg.cacheTag b) : cp'.Resides (b :: history) := by
  have hformed := hinv.sets (cfg.setIndex b)
  have habsent := hmiss.absent
  have hblks := hmiss.blks
  have horder := hmiss.order
  have hvictim := hmiss.victim hpolicy
  rw [hset] at habsent hblks horder hvictim
  rw [htag] at habsent
  rw [if_neg hpolicy] at horder
  have hmem : b ∉ resident cfg history (cfg.setIndex b) := by
    intro hin
    obtain ⟨w, hw⟩ := ((h.sets _).holds_iff hformed fun b' hb' htag =>
      h.eq_of_tag hfits hb' hb rfl htag).mpr hin
    rw [habsent w] at hw
    exact Bool.false_ne_true hw
  refine ⟨List.forall_mem_cons.mpr ⟨hb, h.aligned⟩, fun j => ?_, ?_⟩
  · by_cases hj : cfg.setIndex b = j
    · subst hj
      rw [resident_self, Config.touch, if_neg hmem]
      exact (h.sets _).miss hformed hvictim hblks horder htag rfl
    · rw [resident_of_ne hj, hmiss.others j (hset ▸ Ne.symm hj)]
      exact h.sets j
  · rw [hmiss.stats, residentMisses, if_neg hmem, ← h.misses, Stats.replace]
    split <;> rfl

/-- Step lemma: an access to a block puts it in front of the history. -/
theorem Resides.access (hfits : cfg.TagFits) (h : cp.Resides history) (hinv : cp.Inv)
    (hpolicy : cfg.policy ≠ .Random) (haccess : cp.Access cmd addr false cp') :
    cp'.Resides (cfg.cacheBaddr addr :: history) := by
  have hset : cfg.setIndex addr = cfg.setIndex (cfg.cacheBaddr addr) :=
    ((Config.set_index_eq_iff cfg).mpr (cfg.set_baddr addr)).symm
  rcases haccess with ⟨way, hhit⟩ | ⟨way, hmiss⟩
  · exact h.hit hfits hinv hhit (cfg.baddr_baddr addr) hset (Config.tag_baddr hfits addr).symm
  · exact h.miss hfits hinv hpolicy hmiss (cfg.baddr_baddr addr) hset
      (Config.tag_baddr hfits addr).symm

/-- Run lemma: after any accesses, the blocks of the lists are those in the cache. -/
theorem resides_of_run (hfits : cfg.TagFits) (myrand : Nat → Nat) (hpolicy : cfg.policy ≠ .Random)
    (hprefetch : cfg.prefetchType = 0) {reqs : List Request}
    (h : ∀ r ∈ reqs, InBlock cfg r.addr r.nbytes) :
    ∃ cp, runOps cfg myrand (reqs.map Request.op) = .ok cp ∧ cp.Inv ∧
      cp.Resides (historyOf cfg reqs) := by
  induction reqs using List.reverseRecOn with
  | nil => exact ⟨cacheCreate cfg, rfl, inv_create, resides_create⟩
  | append_singleton reqs r ih =>
      obtain ⟨cp, hrun, hinv, hresides⟩ := ih fun r' hr' => h r' (List.mem_append_left _ hr')
      obtain ⟨cp', hok, hinv', haccess⟩ := access_of_in_block myrand r.cmd r.pc hprefetch hinv
        (h r (List.mem_append_right _ List.mem_cons_self))
      refine ⟨cp', ?_, hinv', ?_⟩
      · rw [List.map_append]
        exact (run_ops_concat_ok myrand).mpr ⟨cp, hrun, hok⟩
      · have hhistory : historyOf cfg (reqs ++ [r]) =
            cfg.cacheBaddr r.addr :: historyOf cfg reqs := by
          simp [historyOf]
        rw [hhistory]
        exact hresides.access hfits hinv hpolicy haccess

end CacheT

/-! ## A rival -/

/-- What a rival holds of each set when it serves an access. -/
abbrev Contents (cfg : Config) : Type := Fin cfg.nsets → Finset Addr

/-- The rival holds the block of the access, and at most so many blocks of each set. -/
structure Contents.Serves (contents : Contents cfg) (ways : Nat) (b : Addr) : Prop where
  holds : b ∈ contents (cfg.setIndex b)
  room : ∀ i, (contents i).card ≤ ways

/-- The misses of LRU and FIFO are charged to what the rival fetches. -/
theorem charged_of_history {ways : Nat} {rounds : List (Addr × Contents cfg)}
    (h : ∀ round ∈ rounds, round.2.Serves ways round.1) :
    Charged cfg.assoc ways (resident cfg (rounds.map Prod.fst))
      ((rounds.map Prod.snd).headD fun _ => ∅) (residentMisses cfg (rounds.map Prod.fst))
      (fetched (rounds.map Prod.snd)) := by
  induction rounds with
  | nil => exact .start cfg.assoc ways
  | cons round older ih =>
      obtain ⟨b, contents⟩ := round
      obtain ⟨hserves, holder⟩ := List.forall_mem_cons.mp h
      have hfetch := (ih holder).fetch hserves.room
      show Charged cfg.assoc ways
        (Function.update (resident cfg (older.map Prod.fst)) (cfg.setIndex b)
          (cfg.touch b (resident cfg (older.map Prod.fst) (cfg.setIndex b)))) contents
        (residentMisses cfg (older.map Prod.fst) +
          if b ∈ resident cfg (older.map Prod.fst) (cfg.setIndex b) then 0 else 1) _
      unfold Config.touch
      by_cases hmem : b ∈ resident cfg (older.map Prod.fst) (cfg.setIndex b)
      · rw [if_pos hmem, if_pos hmem]
        by_cases hpolicy : cfg.policy = .LRU
        · rw [if_pos hpolicy]
          exact hfetch.use cfg.assoc_ok.1 hserves.holds
        · rw [if_neg hpolicy, Function.update_eq_self]
          exact hfetch
      · rw [if_neg hmem, if_neg hmem]
        exact hfetch.miss cfg.assoc_ok.1 hserves.holds hmem

/-- With LRU or FIFO, no prefetcher and a tag that fits, `assoc + 1 - ways` of the misses are worth
no more than `assoc` fetches each of a rival with so many ways, who may know all accesses in
advance, hold any blocks and fetch them at any time, plus what it costs to fill the sets. -/
theorem competitive (hfits : cfg.TagFits) (myrand : Nat → Nat) (hpolicy : cfg.policy ≠ .Random)
    (hprefetch : cfg.prefetchType = 0) {ways : Nat} (rounds : List (Request × Contents cfg))
    (h : ∀ round ∈ rounds, InBlock cfg round.1.addr round.1.nbytes)
    (hserves : ∀ round ∈ rounds, round.2.Serves ways (cfg.cacheBaddr round.1.addr)) :
    ∃ cp, runOps cfg myrand (rounds.map fun round => round.1.op) = .ok cp ∧
      (cfg.assoc + 1 - ways) * cp.stats.misses ≤
        cfg.assoc * fetched (rounds.map Prod.snd).reverse +
          cfg.nsets * (cfg.assoc * (cfg.assoc + 1) / 2) := by
  have hreqs : ∀ r ∈ rounds.map Prod.fst, InBlock cfg r.addr r.nbytes := by
    intro r hr
    obtain ⟨round, hround, rfl⟩ := List.mem_map.mp hr
    exact h round hround
  obtain ⟨cp, hrun, -, hresides⟩ := CacheT.resides_of_run hfits myrand hpolicy hprefetch hreqs
  rw [List.map_map] at hrun
  refine ⟨cp, hrun, ?_⟩
  -- the rounds by their blocks, the latest first
  let history : List (Addr × Contents cfg) :=
    (rounds.map fun round => (cfg.cacheBaddr round.1.addr, round.2)).reverse
  have hblocks : history.map Prod.fst = historyOf cfg (rounds.map Prod.fst) := by
    simp [history, historyOf, Function.comp_def]
  have hcontents : history.map Prod.snd = (rounds.map Prod.snd).reverse := by
    simp [history, Function.comp_def]
  have hall : ∀ round ∈ history, round.2.Serves ways round.1 := by
    intro round hround
    rw [List.mem_reverse, List.mem_map] at hround
    obtain ⟨round, hmem, rfl⟩ := hround
    exact hserves round hmem
  have hcharged := (charged_of_history hall).missed_le
  rw [hblocks, hcontents, ← hresides.misses, Fintype.card_fin] at hcharged
  exact hcharged

/-- A rival with one way that fetches every block when it is used. -/
theorem competitive_turns :
    ∃ cp, runOps directMapped (fun _ => 0)
        ([⟨.Read, 0, 16, 4⟩, ⟨.Write, 0, 80, 4⟩, ⟨.Read, 0, 20, 4⟩].map Request.op) = .ok cp ∧
      cp.stats.misses ≤ 7 := by
  let alone (b : Addr) : Contents directMapped := fun i =>
    if directMapped.setIndex b = i then {b} else ∅
  have hserves : ∀ b, (alone b).Serves 1 b := by
    intro b
    refine ⟨?_, fun i => ?_⟩
    · show b ∈ if directMapped.setIndex b = directMapped.setIndex b then {b} else ∅
      rw [if_pos rfl]
      exact Finset.mem_singleton_self b
    · show (if directMapped.setIndex b = i then ({b} : Finset Addr) else ∅).card ≤ 1
      split
      · exact (Finset.card_singleton b).le
      · exact Nat.zero_le 1
  let rounds : List (Request × Contents directMapped) :=
    [(⟨.Read, 0, 16, 4⟩, alone 16), (⟨.Write, 0, 80, 4⟩, alone 80), (⟨.Read, 0, 20, 4⟩, alone 16)]
  have hblocks : ∀ round ∈ rounds, InBlock directMapped round.1.addr round.1.nbytes := by
    simp only [rounds, List.forall_mem_cons]
    refine ⟨⟨?_, ?_, ?_, ?_, ?_⟩, ⟨?_, ?_, ?_, ?_, ?_⟩, ⟨?_, ?_, ?_, ?_, ?_⟩,
      fun r hr => absurd hr List.not_mem_nil⟩
    all_goals decide
  have hall : ∀ round ∈ rounds,
      round.2.Serves 1 (directMapped.cacheBaddr round.1.addr) := by
    simp only [rounds, List.forall_mem_cons]
    exact ⟨hserves 16, hserves 80, hserves 16, fun r hr => absurd hr List.not_mem_nil⟩
  have hfits : directMapped.TagFits := by decide
  obtain ⟨cp, hrun, hmisses⟩ :=
    competitive hfits (fun _ => 0) (by decide) rfl rounds hblocks hall
  have hfetched : fetched (rounds.map Prod.snd).reverse = 3 := by decide
  rw [hfetched] at hmisses
  have hbound : 1 * cp.stats.misses ≤ 1 * 3 + 4 * 1 := hmisses
  refine ⟨cp, hrun, ?_⟩
  omega

/-! ## More ways -/

/-- The same cache with another number of ways. -/
abbrev Config.withAssoc (cfg : Config) (assoc : Nat) (hok : 0 < assoc ∧ assoc &&& (assoc - 1) = 0)
    (hlt : assoc < 2 ^ 31) : Config :=
  { cfg with assoc := assoc, assoc_ok := hok, assoc_lt := hlt }

section Wider

variable {assoc : Nat} {hok : 0 < assoc ∧ assoc &&& (assoc - 1) = 0} {hlt : assoc < 2 ^ 31}

/-- More ways keep a hit. -/
theorem StackHit.wider (hle : cfg.assoc ≤ assoc) (h : StackHit cfg history b) :
    StackHit (cfg.withAssoc assoc hok hlt) history b := ⟨h.1, lt_of_lt_of_le h.2 hle⟩

/-- More ways make no more misses. -/
theorem stack_misses_wider (hle : cfg.assoc ≤ assoc) (history : List Addr) :
    stackMisses (cfg.withAssoc assoc hok hlt) history ≤ stackMisses cfg history := by
  induction history with
  | nil => exact Nat.le_refl 0
  | cons b older ih =>
      rw [stackMisses, stackMisses]
      by_cases hhit : StackHit cfg older b
      · rw [if_pos hhit, if_pos (hhit.wider hle)]
        exact ih
      · rw [if_neg hhit]
        split <;> omega

/-- More ways make no fewer hits. -/
theorem stack_hits_wider (hle : cfg.assoc ≤ assoc) (history : List Addr) :
    stackHits cfg history ≤ stackHits (cfg.withAssoc assoc hok hlt) history := by
  induction history with
  | nil => exact Nat.le_refl 0
  | cons b older ih =>
      rw [stackHits, stackHits]
      by_cases hhit : StackHit cfg older b
      · rw [if_pos hhit, if_pos (hhit.wider hle)]
        omega
      · rw [if_neg hhit]
        omega

end Wider

/-- With LRU, no prefetcher and a tag that fits, more ways of the same sets never make an access
miss that hits without them: at any time the larger cache holds what the smaller one holds, in the
same order, and then some more blocks. -/
theorem lru_inclusion (hfits : cfg.TagFits) (myrand : Nat → Nat) (hpolicy : cfg.policy = .LRU)
    (hprefetch : cfg.prefetchType = 0) {assoc : Nat}
    (hok : 0 < assoc ∧ assoc &&& (assoc - 1) = 0) (hlt : assoc < 2 ^ 31) (hle : cfg.assoc ≤ assoc)
    (reqs : List Request) (h : ∀ r ∈ reqs, InBlock cfg r.addr r.nbytes) :
    ∃ cp wide, runOps cfg myrand (reqs.map Request.op) = .ok cp ∧
      runOps (cfg.withAssoc assoc hok hlt) myrand (reqs.map Request.op) = .ok wide ∧
      (∀ i : Fin cfg.nsets, cp.validBlocks i <+: wide.validBlocks i) ∧
      cp.stats.hits ≤ wide.stats.hits ∧ wide.stats.misses ≤ cp.stats.misses := by
  obtain ⟨cp, hrun, -, hcp⟩ := CacheT.stacked_of_run myrand hfits hpolicy hprefetch h
  have hblocks : ∀ r ∈ reqs, InBlock (cfg.withAssoc assoc hok hlt) r.addr r.nbytes := by
    intro r hr
    obtain ⟨hsize, haligned, hfits, hlowest, hhighest⟩ := h r hr
    exact ⟨hsize, haligned, hfits, hlowest, hhighest⟩
  obtain ⟨wide, hwideRun, -, hwide⟩ := @CacheT.stacked_of_run (cfg.withAssoc assoc hok hlt) myrand
    hfits hpolicy hprefetch reqs hblocks
  refine ⟨cp, wide, hrun, hwideRun, fun i => ?_, ?_, ?_⟩
  · have hfits' : (cfg.withAssoc assoc hok hlt).TagFits := hfits
    have hsame : wide.validBlocks i = mostRecent (cfg.withAssoc assoc hok hlt) _ i :=
      hwide.valid_blocks hfits' i
    rw [hcp.valid_blocks hfits, hsame]
    exact List.take_prefix_take_left hle
  · rw [hcp.hits, hwide.hits]
    exact stack_hits_wider hle _
  · rw [hcp.misses, hwide.misses]
    exact stack_misses_wider hle _

/-- The blocks of a set take turns in one way, and are both held in two ways. -/
theorem lru_inclusion_turns :
    ∃ (cp : CacheT directMapped)
        (wide : CacheT (directMapped.withAssoc 2 (by decide) (by decide))),
      runOps directMapped (fun _ => 0)
        ([⟨.Read, 0, 16, 4⟩, ⟨.Write, 0, 80, 4⟩, ⟨.Read, 0, 20, 4⟩].map Request.op) = .ok cp ∧
      runOps (directMapped.withAssoc 2 (by decide) (by decide)) (fun _ => 0)
        ([⟨.Read, 0, 16, 4⟩, ⟨.Write, 0, 80, 4⟩, ⟨.Read, 0, 20, 4⟩].map Request.op) = .ok wide ∧
      wide.stats.misses ≤ cp.stats.misses := by
  have hreqs : ∀ r ∈ ([⟨.Read, 0, 16, 4⟩, ⟨.Write, 0, 80, 4⟩, ⟨.Read, 0, 20, 4⟩] : List Request),
      InBlock directMapped r.addr r.nbytes := by
    simp only [List.forall_mem_cons]
    refine ⟨⟨?_, ?_, ?_, ?_, ?_⟩, ⟨?_, ?_, ?_, ?_, ?_⟩, ⟨?_, ?_, ?_, ?_, ?_⟩,
      fun r hr => absurd hr List.not_mem_nil⟩
    all_goals decide
  obtain ⟨cp, wide, hrun, hwide, -, -, hmisses⟩ :=
    lru_inclusion (by decide : directMapped.TagFits) (fun _ => 0)
      (rfl : directMapped.policy = .LRU) rfl
      (by decide : 0 < 2 ∧ 2 &&& (2 - 1) = 0) (by decide) (by decide) _ hreqs
  exact ⟨cp, wide, hrun, hwide, hmisses⟩

end Ece552.Cache
