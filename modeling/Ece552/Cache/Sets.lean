import Ece552.Cache.Geometry
import Ece552.Library.Outcome
import Ece552.Library.PointerList
import Mathlib.Data.Fintype.Card
import Mathlib.Data.List.FinRange

/-!
# Sets

The sets of a cache with their way lists and hash chains, and the functions that change and search
them. A set is well formed if its pointers stand for one list of all its blocks and for one chain
for each bucket; then no assertion fails and both searches find the same block. A loop along
pointers takes the associativity as the bound of its rounds.
-/

namespace Ece552.Cache

open Library

/-- Why a run stops. -/
inductive Fault where
  /-- `fatal`: bad size or alignment -/
  | alignment
  /-- `fatal`: access spans block -/
  | spansBlock
  /-- the assertion of `unlink_htab_ent` -/
  | unlinkHtabEnt
  /-- an assertion of `update_way_list` -/
  | updateWayList
  /-- the assertion of `prefetch` about the address -/
  | prefetchAddr
  /-- an assertion of the functions of the miss queue and of `open_ended_prefetcher` -/
  | missQueue
  /-- the assertion of `stride_prefetcher` about the size of the table -/
  | rptSize
  /-- access through a null pointer -/
  | nullPointer
  /-- a loop along pointers that does not end -/
  | endlessLoop
  deriving DecidableEq, Repr

/-- A block of a set. -/
abbrev Way (cfg : Config) := Fin cfg.assoc

/-- The tag and the status of a block. -/
structure Blk where
  tag : Addr := 0
  valid : Bool := false
  dirty : Bool := false

/-- A set: the blocks, the way list and, in a highly associative cache, the hash chains. -/
structure CacheSet (cfg : Config) where
  blks : Way cfg → Blk
  way : Links (Way cfg)
  hash : Nat → Option (Way cfg)
  hashNext : Way cfg → Option (Way cfg)

/-- `enum list_loc_t`. -/
inductive ListLoc where
  | Head | Tail
  deriving DecidableEq, Repr

variable {cfg : Config}

/-- A loop that does not end stops the run. -/
def ends {α : Type} (result : Option α) : Except Fault α :=
  match result with
  | none => .error .endlessLoop
  | some a => .ok a

/-! ## The functions on a set -/

namespace CacheSet

/-- Unlink a block from the chain of a bucket, in which another block may stand before it. -/
def unlinkFrom (set : CacheSet cfg) (index : Nat) (prev : Option (Way cfg)) (blk : Way cfg) :
    CacheSet cfg :=
  { set with
    hash := Function.update set.hash index (unlinkStart set.hashNext (set.hash index) prev blk)
    hashNext := unlinkNext set.hashNext prev blk }

/-- Unlink a block from the chain of its bucket. -/
def unlinkHtabEnt (set : CacheSet cfg) (blk : Way cfg) : Except Fault (CacheSet cfg) := do
  let index := cfg.cacheHash (set.blks blk).tag
  let (prev, ent) ← ends (locate set.hashNext blk cfg.assoc none (set.hash index))
  if ent.isSome then .ok (set.unlinkFrom index prev blk) else .error .unlinkHtabEnt

/-- Insert a block at the head of the chain of its bucket. -/
def linkHtabEnt (set : CacheSet cfg) (blk : Way cfg) : CacheSet cfg :=
  let index := cfg.cacheHash (set.blks blk).tag
  { set with
    hashNext := Function.update set.hashNext blk (set.hash index)
    hash := Function.update set.hash index (some blk) }

end CacheSet

/-- Link a block that was taken out back into the list. -/
def linkBack (way : Links (Way cfg)) (blk : Way cfg) :
    ListLoc → Except Fault (Links (Way cfg))
  | .Head =>
      match way.head with
      | none => .error .nullPointer
      | some first => .ok (way.pushHead blk first)
  | .Tail =>
      match way.tail with
      | none => .error .nullPointer
      | some last => .ok (way.pushTail blk last)

/-- Move a block to one end of the way list. -/
def updateWayList (way : Links (Way cfg)) (blk : Way cfg) (loc : ListLoc) :
    Except Fault (Links (Way cfg)) :=
  match way.prev blk, way.next blk with
  | none, none =>
      if way.head = some blk ∧ way.tail = some blk then .ok way else .error .updateWayList
  | none, some next =>
      if way.head = some blk ∧ way.tail ≠ some blk then
        if loc = .Head then .ok way else linkBack (way.dropHead next) blk loc
      else .error .updateWayList
  | some prev, none =>
      if way.head ≠ some blk ∧ way.tail = some blk then
        if loc = .Tail then .ok way else linkBack (way.dropTail prev) blk loc
      else .error .updateWayList
  | some prev, some next =>
      if way.head ≠ some blk ∧ way.tail ≠ some blk then
        linkBack (way.dropMiddle prev next) blk loc
      else .error .updateWayList

namespace CacheSet

variable (set : CacheSet cfg) (tag : Addr)

/-- The block is valid and has the tag. -/
def holds (blk : Way cfg) : Bool := decide ((set.blks blk).tag = tag) && (set.blks blk).valid

/-- The search along the hash chain of a tag. -/
def hashLookup : Except Fault (Option (Way cfg)) :=
  ends (findNode set.hashNext (set.holds tag) cfg.assoc (set.hash (cfg.cacheHash tag)))

/-- The search along the way list. -/
def linearLookup : Except Fault (Option (Way cfg)) :=
  ends (findNode set.way.next (set.holds tag) cfg.assoc set.way.head)

/-- The search for the block with a tag. -/
def lookup : Except Fault (Option (Way cfg)) :=
  if cfg.hsize ≠ 0 then set.hashLookup tag else set.linearLookup tag

/-- The blocks in the order of the way list. -/
def order : List (Way cfg) := walk set.way.next cfg.assoc set.way.head

/-- The set with one block changed. -/
def setBlk (blk : Way cfg) (b : Blk) : CacheSet cfg :=
  { set with blks := Function.update set.blks blk b }

/-- Link a new block into the hash chains and in front of the way list. -/
def insertNew (set : CacheSet cfg) (blk : Way cfg) : CacheSet cfg :=
  let set := if cfg.hsize ≠ 0 then set.linkHtabEnt blk else set
  { set with
    way :=
      match set.way.head with
      | none =>
          { head := some blk, tail := some blk
            next := Function.update set.way.next blk none
            prev := Function.update set.way.prev blk none }
      | some first => set.way.pushHead blk first }

/-- A set of invalid blocks. -/
def created (cfg : Config) : CacheSet cfg :=
  (List.finRange cfg.assoc).foldl insertNew ⟨fun _ => {}, .empty, fun _ => none, fun _ => none⟩

end CacheSet

/-! ## Way lists -/

/-- The order after a block is moved to one end. -/
def ListLoc.moveTo {α : Type} [DecidableEq α] (loc : ListLoc) (a : α) (l : List α) : List α :=
  match loc with
  | .Head => a :: l.erase a
  | .Tail => l.erase a ++ [a]

section WayList

variable {way : Links (Way cfg)} {order pre post : List (Way cfg)} {blk : Way cfg} {loc : ListLoc}

/-- A block that is taken out of the middle can be linked back at either end. -/
theorem link_back (h : way.Linked order) (hne : order ≠ []) (hblk : blk ∉ order) (loc : ListLoc) :
    ∃ way', linkBack way blk loc = .ok way' ∧
      way'.Linked (match loc with | .Head => blk :: order | .Tail => order ++ [blk]) := by
  cases loc with
  | Head =>
      obtain ⟨first, rest, rfl⟩ := List.exists_cons_of_ne_nil hne
      refine ⟨way.pushHead blk first, ?_, h.push_head hblk⟩
      rw [linkBack, h.head_eq]
      rfl
  | Tail =>
      rcases List.eq_nil_or_concat order with rfl | ⟨rest, last, rfl⟩
      · exact absurd rfl hne
      · rw [List.concat_eq_append] at h hblk ⊢
        have hpush := h.push_tail hblk
        refine ⟨way.pushTail blk last, ?_, ?_⟩
        · rw [linkBack, h.tail_eq, List.getLast?_concat]
        · simpa using hpush

/-- The element in the middle is the one that is erased. -/
theorem erase_mid (h : (pre ++ blk :: post).Nodup) :
    (pre ++ blk :: post).erase blk = pre ++ post := by
  have hblk : blk ∉ pre := fun hin =>
    (List.nodup_append.mp h).2.2 blk hin blk List.mem_cons_self rfl
  rw [List.erase_append_right _ hblk, List.erase_cons_head]

/-- No assertion of `update_way_list` fails on a block of the list, which it moves. -/
theorem update_way_list (h : way.Linked order) (hblk : blk ∈ order) (loc : ListLoc) :
    ∃ way', updateWayList way blk loc = .ok way' ∧ way'.Linked (loc.moveTo blk order) := by
  obtain ⟨pre, post, rfl⟩ := List.append_of_mem hblk
  have hnotin : blk ∉ pre ++ post :=
    (List.nodup_cons.mp (List.nodup_middle.mp h.nodup)).1
  have hmove : loc.moveTo blk (pre ++ blk :: post) =
      match loc with | .Head => blk :: (pre ++ post) | .Tail => pre ++ post ++ [blk] := by
    rw [← erase_mid h.nodup]
    cases loc <;> rfl
  have hprev := h.prev_eq
  have hnext := h.next_eq
  rw [hmove]
  rcases List.eq_nil_or_concat pre with rfl | ⟨front, before, rfl⟩
  · have hhead := h.head_eq
    cases post with
    | nil =>
        -- the only block
        refine ⟨way, ?_, by cases loc <;> exact h⟩
        rw [updateWayList, hprev, hnext]
        exact if_pos ⟨hhead, h.tail_eq⟩
    | cons after rest =>
        -- the first block
        have hfirst : way.Linked ([blk] ++ after :: rest) := h
        have hne : way.tail ≠ some blk := hfirst.tail_ne (List.cons_ne_nil _ _) hnotin
        cases loc with
        | Head =>
            refine ⟨way, ?_, h⟩
            rw [updateWayList, hprev, hnext]
            exact if_pos ⟨hhead, hne⟩
        | Tail =>
            obtain ⟨way', hok, hlinked⟩ := link_back h.drop_head (List.cons_ne_nil _ _) hnotin .Tail
            refine ⟨way', ?_, hlinked⟩
            rw [updateWayList, hprev, hnext]
            exact (if_pos ⟨hhead, hne⟩).trans hok
  · rw [List.concat_eq_append] at h hnotin hprev ⊢
    rw [List.getLast?_concat] at hprev
    have hne : way.head ≠ some blk :=
      h.head_ne (by simp) fun hin => hnotin (List.mem_append_left _ hin)
    cases post with
    | nil =>
        -- the last block
        have hlast : way.tail = some blk := by rw [h.tail_eq, List.getLast?_concat]
        rw [List.append_assoc] at h
        rw [List.append_nil] at hnotin ⊢
        cases loc with
        | Head =>
            obtain ⟨way', hok, hlinked⟩ := link_back h.drop_tail (by simp) hnotin .Head
            refine ⟨way', ?_, hlinked⟩
            rw [updateWayList, hprev, hnext]
            exact (if_pos ⟨hne, hlast⟩).trans hok
        | Tail =>
            refine ⟨way, ?_, by simpa using h⟩
            rw [updateWayList, hprev, hnext]
            exact if_pos ⟨hne, hlast⟩
    | cons after rest =>
        -- a block in the middle
        have hsplit : front ++ [before] ++ blk :: after :: rest =
            (front ++ [before, blk]) ++ after :: rest := by simp
        have hne' : way.tail ≠ some blk := by
          rw [hsplit] at h
          refine h.tail_ne (List.cons_ne_nil _ _) fun hin => ?_
          exact hnotin (List.mem_append_right _ hin)
        rw [List.append_assoc] at h
        have hdrop := h.drop_middle
        rw [List.append_cons] at hdrop
        obtain ⟨way', hok, hlinked⟩ := link_back hdrop (by simp) hnotin loc
        refine ⟨way', ?_, hlinked⟩
        rw [updateWayList, hprev, hnext]
        exact (if_pos ⟨hne, hne'⟩).trans hok

end WayList

/-! ## Hash chains -/

namespace CacheSet

variable {s s' : CacheSet cfg} {member member' : Way cfg → Prop} {blk w : Way cfg} {tag : Addr}

/-- Every bucket has a chain of those members whose tag it is for. -/
def Hashed (s : CacheSet cfg) (member : Way cfg → Prop) : Prop :=
  ∀ i, ∃ c, Chain s.hashNext (s.hash i) c ∧
    ∀ w, w ∈ c ↔ member w ∧ cfg.cacheHash (s.blks w).tag = i

/-- Empty buckets hold nothing. -/
theorem hashed_none (blks : Way cfg → Blk) (way : Links (Way cfg)) :
    Hashed ⟨blks, way, fun _ => none, fun _ => none⟩ fun _ => False :=
  fun _ => ⟨[], rfl, by simp⟩

/-- Only the tags of the members matter. -/
theorem Hashed.congr (h : s.Hashed member) (hhash : s'.hash = s.hash)
    (hnext : s'.hashNext = s.hashNext) (hmember : ∀ w, member' w ↔ member w)
    (htag : ∀ w, member w → (s'.blks w).tag = (s.blks w).tag) : s'.Hashed member' := by
  intro i
  obtain ⟨c, hchain, hc⟩ := h i
  refine ⟨c, by rwa [hhash, hnext], fun w => ?_⟩
  rw [hc, hmember]
  constructor
  · rintro ⟨hw, hi⟩
    exact ⟨hw, by rwa [htag w hw]⟩
  · rintro ⟨hw, hi⟩
    exact ⟨hw, by rwa [htag w hw] at hi⟩

/-- There are no more ways than `assoc`. -/
theorem length_le {l : List (Way cfg)} (h : l.Nodup) : l.length ≤ cfg.assoc := by
  have hle := h.length_le_card
  rwa [Fintype.card_fin] at hle

/-- The assertion of `unlink_htab_ent` does not fail on a member, which leaves its chain. -/
theorem unlink_htab_ent (h : s.Hashed member) (blk : Way cfg) (hblk : member blk) :
    ∃ s', s.unlinkHtabEnt blk = .ok s' ∧ s'.blks = s.blks ∧ s'.way = s.way ∧
      s'.Hashed fun w => member w ∧ w ≠ blk := by
  obtain ⟨c, hchain, hc⟩ := h (cfg.cacheHash (s.blks blk).tag)
  have hmem : blk ∈ c := (hc blk).mpr ⟨hblk, rfl⟩
  obtain ⟨pre, post, rfl⟩ := List.append_of_mem hmem
  have hnodup := hchain.nodup
  have hbound : pre.length < cfg.assoc := by
    have hle := length_le hnodup
    rw [List.length_append, List.length_cons] at hle
    omega
  have hlocate : locate s.hashNext blk cfg.assoc none (s.hash (cfg.cacheHash (s.blks blk).tag)) =
      some (pre.getLast?, some blk) := by
    rw [hchain.locate_eq hbound, Option.or_none]
  have hnotin : blk ∉ pre ++ post := (List.nodup_cons.mp (List.nodup_middle.mp hnodup)).1
  refine ⟨s.unlinkFrom (cfg.cacheHash (s.blks blk).tag) pre.getLast? blk, ?_, rfl, rfl,
    fun i => ?_⟩
  · rw [unlinkHtabEnt, hlocate]
    rfl
  · by_cases hi : i = cfg.cacheHash (s.blks blk).tag
    · subst hi
      refine ⟨pre ++ post, ?_, fun w => ?_⟩
      · show Chain _ (Function.update s.hash _ _ _) _
        rw [Function.update_self]
        exact hchain.unlink
      · have hw := hc w
        rw [List.mem_append, List.mem_cons] at hw
        show w ∈ pre ++ post ↔ (member w ∧ w ≠ blk) ∧
          cfg.cacheHash (s.blks w).tag = cfg.cacheHash (s.blks blk).tag
        rw [and_right_comm, ← hw, List.mem_append]
        constructor
        · intro hin
          refine ⟨hin.imp_right Or.inr, ?_⟩
          rintro rfl
          exact hnotin (List.mem_append.mpr hin)
        · rintro ⟨hin | rfl | hin, hne⟩
          · exact Or.inl hin
          · exact absurd rfl hne
          · exact Or.inr hin
    · -- the nodes of another chain have other tags
      obtain ⟨c', hchain', hc'⟩ := h i
      have hdisjoint : ∀ w ∈ pre ++ blk :: post, w ∉ c' := fun w hin hin' =>
        hi (((hc' w).mp hin').2.symm.trans ((hc w).mp hin).2)
      refine ⟨c', ?_, fun w => ?_⟩
      · show Chain _ (Function.update s.hash _ _ _) _
        rw [Function.update_of_ne hi]
        refine hchain'.unlink_of_not_mem (hdisjoint blk hmem) fun p hp => hdisjoint p ?_
        exact List.mem_append_left _ (List.mem_of_getLast? hp)
      · show w ∈ c' ↔ (member w ∧ w ≠ blk) ∧ cfg.cacheHash (s.blks w).tag = i
        rw [hc' w, and_right_comm]
        refine ⟨fun hw => ⟨hw, ?_⟩, And.left⟩
        rintro rfl
        exact hi hw.2.symm

/-- A block that is on no chain joins that of its tag. -/
theorem link_htab_ent (h : s.Hashed member) (blk : Way cfg) (hblk : ¬ member blk) :
    (s.linkHtabEnt blk).Hashed fun w => member w ∨ w = blk := by
  intro i
  obtain ⟨c, hchain, hc⟩ := h i
  have hnotin : blk ∉ c := fun hin => hblk ((hc blk).mp hin).1
  by_cases hi : i = cfg.cacheHash (s.blks blk).tag
  · subst hi
    refine ⟨blk :: c, ?_, fun w => ?_⟩
    · show Chain _ (Function.update s.hash _ _ _) _
      rw [Function.update_self]
      exact hchain.push hnotin
    · rw [List.mem_cons, hc w]
      constructor
      · rintro (rfl | ⟨hw, htag⟩)
        · exact ⟨Or.inr rfl, rfl⟩
        · exact ⟨Or.inl hw, htag⟩
      · rintro ⟨hw | rfl, htag⟩
        · exact Or.inr ⟨hw, htag⟩
        · exact Or.inl rfl
  · refine ⟨c, ?_, fun w => ?_⟩
    · show Chain _ (Function.update s.hash _ _ _) _
      rw [Function.update_of_ne hi]
      exact hchain.update hnotin _
    · rw [hc w]
      constructor
      · rintro ⟨hw, htag⟩
        exact ⟨Or.inl hw, htag⟩
      · rintro ⟨hw | rfl, htag⟩
        · exact ⟨hw, htag⟩
        · exact absurd htag.symm hi

/-! ## Well-formed sets -/

/-- The pointers of a set stand for a list of all blocks and for the chains of the buckets, and no
two valid blocks have the same tag. -/
structure WellFormed (s : CacheSet cfg) : Prop where
  linked : s.way.Linked s.order
  all : ∀ w, w ∈ s.order
  hashed : cfg.hsize ≠ 0 → s.Hashed fun _ => True
  unique : ∀ w w', (s.blks w).valid → (s.blks w').valid → (s.blks w).tag = (s.blks w').tag → w = w'

/-- The order is read off the links. -/
theorem order_eq {order : List (Way cfg)} (h : s.way.Linked order) : s.order = order :=
  h.forward.walk_eq (length_le h.nodup)

/-- The set has no more blocks than it has in its list. -/
theorem WellFormed.length_order (h : s.WellFormed) : s.order.length = cfg.assoc := by
  have hperm : (List.finRange cfg.assoc).Perm s.order :=
    (List.perm_ext_iff_of_nodup (List.nodup_finRange _) h.linked.nodup).mpr fun w => by
      simp [h.all w]
  rw [← hperm.length_eq, List.length_finRange]

/-- What a way holds is valid. -/
theorem holds_iff : s.holds tag w = true ↔ (s.blks w).tag = tag ∧ (s.blks w).valid = true := by
  rw [holds, Bool.and_eq_true, decide_eq_true_eq]

/-- Only one block holds a tag. -/
theorem WellFormed.holds_unique {w' : Way cfg} (h : s.WellFormed) (hw : s.holds tag w = true)
    (hw' : s.holds tag w' = true) : w = w' := by
  obtain ⟨htag, hvalid⟩ := holds_iff.mp hw
  obtain ⟨htag', hvalid'⟩ := holds_iff.mp hw'
  exact h.unique w w' hvalid hvalid' (htag.trans htag'.symm)

/-- A search through blocks among which is every one with the tag finds it. -/
theorem WellFormed.find_eq_some_iff {l : List (Way cfg)} (h : s.WellFormed)
    (hl : ∀ w, s.holds tag w = true → w ∈ l) :
    l.find? (s.holds tag) = some w ↔ s.holds tag w = true := by
  constructor
  · exact List.find?_some
  · intro hw
    have hsome : (l.find? (s.holds tag)).isSome := List.find?_isSome.mpr ⟨w, hl w hw, hw⟩
    obtain ⟨w', hw'⟩ := Option.isSome_iff_exists.mp hsome
    rw [hw', h.holds_unique (List.find?_some hw') hw]

/-- The search along the ways finds what is held. -/
theorem WellFormed.linear_lookup (h : s.WellFormed) (tag : Addr) :
    ∃ found, s.linearLookup tag = .ok found ∧
      ∀ w, found = some w ↔ s.holds tag w = true := by
  refine ⟨s.order.find? (s.holds tag), ?_, fun w => h.find_eq_some_iff fun w _ => h.all w⟩
  rw [linearLookup, h.linked.forward.find_node _ (length_le h.linked.nodup)]
  rfl

/-- The search along a bucket finds what is held. -/
theorem WellFormed.hash_lookup (h : s.WellFormed) (hsize : cfg.hsize ≠ 0) (tag : Addr) :
    ∃ found, s.hashLookup tag = .ok found ∧
      ∀ w, found = some w ↔ s.holds tag w = true := by
  obtain ⟨c, hchain, hc⟩ := h.hashed hsize (cfg.cacheHash tag)
  refine ⟨c.find? (s.holds tag), ?_, fun w => h.find_eq_some_iff fun w hw => ?_⟩
  · rw [hashLookup, hchain.find_node _ (length_le hchain.nodup)]
    rfl
  · rw [hc, (holds_iff.mp hw).1]
    exact ⟨trivial, rfl⟩

/-- Both searches find the valid block with the tag, if there is one. -/
theorem WellFormed.lookup (h : s.WellFormed) (tag : Addr) :
    ∃ found, s.lookup tag = .ok found ∧ ∀ w, found = some w ↔ s.holds tag w = true := by
  by_cases hsize : cfg.hsize = 0
  · rw [CacheSet.lookup, if_neg (not_not.mpr hsize)]
    exact h.linear_lookup tag
  · rw [CacheSet.lookup, if_pos hsize]
    exact h.hash_lookup hsize tag

/-- What is held is found. -/
theorem WellFormed.lookup_some (h : s.WellFormed) (hw : s.holds tag w = true) :
    s.lookup tag = .ok (some w) := by
  obtain ⟨found, hok, hfound⟩ := h.lookup tag
  rw [hok, (hfound w).mpr hw]

/-- What is not held is not found. -/
theorem WellFormed.lookup_none (h : s.WellFormed) (hnone : ∀ w, s.holds tag w = false) :
    s.lookup tag = .ok none := by
  obtain ⟨found, hok, hfound⟩ := h.lookup tag
  cases found with
  | none => exact hok
  | some w => exact absurd ((hfound w).mp rfl) (by rw [hnone w]; exact Bool.false_ne_true)

/-- A set that differs in its way list, which still has every block. -/
theorem WellFormed.reorder {way : Links (Way cfg)} {order : List (Way cfg)} (h : s.WellFormed)
    (hlinked : way.Linked order) (hall : ∀ w, w ∈ order) :
    ({ s with way := way } : CacheSet cfg).WellFormed ∧
      ({ s with way := way } : CacheSet cfg).order = order := by
  have horder : ({ s with way := way } : CacheSet cfg).order = order := order_eq hlinked
  refine ⟨⟨by rwa [horder], by rwa [horder], fun hsize => ?_, h.unique⟩, horder⟩
  exact (h.hashed hsize).congr rfl rfl (fun _ => Iff.rfl) fun _ _ => rfl

/-- Moving a block in the order keeps the others in it. -/
theorem mem_move_to {α : Type} [DecidableEq α] {a b : α} {l : List α} (h : b ∈ l)
    (loc : ListLoc) : b ∈ loc.moveTo a l := by
  by_cases hba : b = a
  · subst hba
    cases loc <;> simp [ListLoc.moveTo]
  · have herase : b ∈ l.erase a := (List.mem_erase_of_ne hba).mpr h
    cases loc <;> simp [ListLoc.moveTo, herase]

/-- Moving a block to one end of the way list. -/
theorem WellFormed.move (h : s.WellFormed) (blk : Way cfg) (loc : ListLoc) :
    ∃ way, updateWayList s.way blk loc = .ok way ∧
      ({ s with way := way } : CacheSet cfg).WellFormed ∧
      ({ s with way := way } : CacheSet cfg).order = loc.moveTo blk s.order := by
  obtain ⟨way, hok, hlinked⟩ := update_way_list h.linked (h.all blk) loc
  exact ⟨way, hok, h.reorder hlinked fun w => mem_move_to (h.all w) loc⟩

/-- The block that is set. -/
@[simp] theorem set_blk_self (s : CacheSet cfg) (blk : Way cfg) (b : Blk) :
    (s.setBlk blk b).blks blk = b := Function.update_self ..

/-- The other blocks stay as they are. -/
theorem set_blk_of_ne {b : Blk} (h : w ≠ blk) : (s.setBlk blk b).blks w = s.blks w :=
  Function.update_of_ne h _ _

/-- A block that keeps its tag may change its status, as long as it does not become valid. -/
theorem WellFormed.set_blk {b : Blk} (h : s.WellFormed) (htag : b.tag = (s.blks blk).tag)
    (hvalid : b.valid = true → (s.blks blk).valid = true) : (s.setBlk blk b).WellFormed := by
  have hblks : ∀ w, ((s.setBlk blk b).blks w).tag = (s.blks w).tag ∧
      (((s.setBlk blk b).blks w).valid = true → (s.blks w).valid = true) := by
    intro w
    by_cases hw : w = blk
    · subst hw
      rw [set_blk_self]
      exact ⟨htag, hvalid⟩
    · rw [set_blk_of_ne hw]
      exact ⟨rfl, id⟩
  refine ⟨h.linked, h.all, fun hsize => ?_, fun w w' hw hw' heq => ?_⟩
  · exact (h.hashed hsize).congr rfl rfl (fun _ => Iff.rfl) fun w _ => (hblks w).1
  · refine h.unique w w' ((hblks w).2 hw) ((hblks w').2 hw') ?_
    rw [← (hblks w).1, heq, (hblks w').1]

/-- A set that is well formed but for a block that is on no hash chain. -/
structure Detached (s : CacheSet cfg) (blk : Way cfg) : Prop where
  linked : s.way.Linked s.order
  all : ∀ w, w ∈ s.order
  hashed : cfg.hsize ≠ 0 → s.Hashed (· ≠ blk)
  unique : ∀ w w', (s.blks w).valid → (s.blks w').valid → (s.blks w).tag = (s.blks w').tag → w = w'

/-- A block can be taken from its hash chain. -/
theorem WellFormed.unlink (h : s.WellFormed) (hsize : cfg.hsize ≠ 0) (blk : Way cfg) :
    ∃ s', s.unlinkHtabEnt blk = .ok s' ∧ s'.blks = s.blks ∧ s'.order = s.order ∧
      s'.Detached blk := by
  obtain ⟨s', hok, hblks, hway, hhashed⟩ := unlink_htab_ent (h.hashed hsize) blk trivial
  have horder : s'.order = s.order := by rw [order, hway, order]
  refine ⟨s', hok, hblks, horder, ?_, by rw [horder]; exact h.all, fun _ => ?_, ?_⟩
  · rw [hway, horder]
    exact h.linked
  · exact hhashed.congr rfl rfl (fun w => by simp) fun _ _ => rfl
  · rw [hblks]
    exact h.unique

/-- Without a hash table no way is in a bucket. -/
theorem WellFormed.detached (h : s.WellFormed) (hsize : cfg.hsize = 0) (blk : Way cfg) :
    s.Detached blk :=
  ⟨h.linked, h.all, fun hne => absurd hsize hne, h.unique⟩

/-- The set with a detached block changed and linked into its chain, if there are chains. -/
def refill (s : CacheSet cfg) (blk : Way cfg) (b : Blk) : CacheSet cfg :=
  if cfg.hsize ≠ 0 then (s.setBlk blk b).linkHtabEnt blk else s.setBlk blk b

/-- A refill sets one block. -/
@[simp] theorem refill_blks (s : CacheSet cfg) (blk : Way cfg) (b : Blk) :
    (s.refill blk b).blks = Function.update s.blks blk b := by
  rw [refill]
  split <;> rfl

/-- A refill keeps the order. -/
@[simp] theorem refill_order (s : CacheSet cfg) (blk : Way cfg) (b : Blk) :
    (s.refill blk b).order = s.order := by
  rw [refill]
  split <;> rfl

/-- A detached block is given a tag that no other valid block has. -/
theorem Detached.refill {b : Blk} (h : s.Detached blk)
    (hnew : ∀ w, w ≠ blk → (s.blks w).valid → (s.blks w).tag ≠ b.tag) :
    (s.refill blk b).WellFormed := by
  have hunique : ∀ w w', ((s.setBlk blk b).blks w).valid → ((s.setBlk blk b).blks w').valid →
      ((s.setBlk blk b).blks w).tag = ((s.setBlk blk b).blks w').tag → w = w' := by
    intro w w' hw hw' heq
    by_cases hwb : w = blk
    · by_cases hwb' : w' = blk
      · rw [hwb, hwb']
      · rw [hwb, set_blk_self, set_blk_of_ne hwb'] at heq
        rw [set_blk_of_ne hwb'] at hw'
        exact absurd heq.symm (hnew w' hwb' hw')
    · by_cases hwb' : w' = blk
      · rw [hwb', set_blk_self, set_blk_of_ne hwb] at heq
        rw [set_blk_of_ne hwb] at hw
        exact absurd heq (hnew w hwb hw)
      · rw [set_blk_of_ne hwb] at hw heq
        rw [set_blk_of_ne hwb'] at hw' heq
        exact h.unique w w' hw hw' heq
  by_cases hsize : cfg.hsize = 0
  · rw [CacheSet.refill, if_neg (not_not.mpr hsize)]
    exact ⟨h.linked, h.all, fun hne => absurd hsize hne, hunique⟩
  · rw [CacheSet.refill, if_pos hsize]
    refine ⟨h.linked, h.all, fun _ => ?_, hunique⟩
    have hhashed : (s.setBlk blk b).Hashed (· ≠ blk) :=
      (h.hashed hsize).congr rfl rfl (fun _ => Iff.rfl) fun w hw => by rw [set_blk_of_ne hw]
    have hlinked := link_htab_ent hhashed blk fun hne => hne rfl
    exact hlinked.congr rfl rfl (fun w => by simp [or_comm, em]) fun _ _ => rfl

/-! ## New sets -/

/-- A set under construction, with a list of the blocks so far. -/
structure Growing (s : CacheSet cfg) (l : List (Way cfg)) : Prop where
  linked : s.way.Linked l
  hashed : cfg.hsize ≠ 0 → s.Hashed (· ∈ l)
  blank : ∀ w, s.blks w = {}

/-- A new way goes to the head. -/
theorem Growing.insert_new {l : List (Way cfg)} (h : s.Growing l) (hblk : blk ∉ l) :
    (s.insertNew blk).Growing (blk :: l) := by
  refine ⟨?_, fun hsize => ?_, fun w => ?_⟩
  · have hway : (if cfg.hsize ≠ 0 then s.linkHtabEnt blk else s).way = s.way := by
      split <;> rfl
    rw [insertNew]
    simp only [hway]
    cases l with
    | nil =>
        rw [h.linked.head_eq]
        exact ⟨⟨rfl, Function.update_self ..⟩, ⟨rfl, Function.update_self ..⟩⟩
    | cons first rest =>
        rw [h.linked.head_eq]
        exact h.linked.push_head hblk
  · have hlinked := link_htab_ent (h.hashed hsize) blk hblk
    refine hlinked.congr ?_ ?_ (fun w => by rw [List.mem_cons, or_comm]) fun w _ => ?_
    · rw [insertNew, if_pos hsize]
    · rw [insertNew, if_pos hsize]
    · rw [insertNew, if_pos hsize]
  · rw [insertNew, ← h.blank w]
    split <;> rfl

/-- New ways go to the head, one after the other. -/
theorem growing_foldl {s : CacheSet cfg} {l : List (Way cfg)} (h : s.Growing l)
    (new : List (Way cfg)) (hnodup : new.Nodup) (hnew : ∀ w ∈ new, w ∉ l) :
    (new.foldl insertNew s).Growing (new.reverse ++ l) := by
  induction new generalizing s l with
  | nil => exact h
  | cons blk new ih =>
      obtain ⟨hblk, hnodup⟩ := List.nodup_cons.mp hnodup
      rw [List.foldl_cons, List.reverse_cons, List.append_assoc]
      refine ih (h.insert_new (hnew blk List.mem_cons_self)) hnodup fun w hw => ?_
      rw [List.singleton_append, List.mem_cons, not_or]
      refine ⟨?_, hnew w (List.mem_cons_of_mem blk hw)⟩
      rintro rfl
      exact hblk hw

/-- A new set has all ways. -/
theorem growing_created : (created cfg).Growing (List.finRange cfg.assoc).reverse := by
  have hstart : (⟨fun _ => {}, .empty, fun _ => none, fun _ => none⟩ : CacheSet cfg).Growing [] :=
    ⟨Links.linked_empty,
      fun _ => (hashed_none _ _).congr rfl rfl (fun w => by simp) fun _ _ => rfl, fun _ => rfl⟩
  have hgrow := growing_foldl hstart (List.finRange cfg.assoc) (List.nodup_finRange _) (by simp)
  rwa [List.append_nil] at hgrow

/-- The blocks of a new set are blank. -/
theorem created_blks (w : Way cfg) : (created cfg).blks w = {} := growing_created.blank w

/-- A new set is well formed. -/
theorem well_formed_created : (created cfg).WellFormed := by
  have hgrow : (created cfg).Growing _ := growing_created
  have horder := order_eq hgrow.linked
  refine ⟨by rw [horder]; exact hgrow.linked, ?_, fun hsize => ?_, ?_⟩
  · intro w
    rw [horder]
    simp
  · exact (hgrow.hashed hsize).congr rfl rfl (fun w => by simp) fun _ _ => rfl
  · intro w w' hw
    rw [created_blks] at hw
    exact nomatch hw

end CacheSet

end Ece552.Cache
