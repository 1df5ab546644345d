import Ece552.Cache.Prefetching
import Mathlib.Data.Fintype.Prod

/-!
# Counters and occupancy

The counters of a cache account for the blocks that it holds: each miss, of an access or of a
prefetch, makes one block valid, and each replacement and each invalidation makes one invalid. A
cache of a lower level gets accesses that are prefetches from outside, so these are calls too.
-/

namespace Ece552.Cache

open Library

variable {cfg : Config} {myrand : Nat → Nat}

/-- A call of a cache function. -/
inductive Call where
  | op (op : Op)
  | prefetch (addr : Addr)
  /-- an access with the flag of a prefetch -/
  | fetch (cmd : MemCmd) (addr nbytes : Addr)

namespace Call

/-- The call is an access that is no prefetch. -/
def isDemand : Call → Bool
  | .op (.access ..) => true
  | _ => false

/-- The call is a read that is no prefetch. -/
def isDemandRead : Call → Bool
  | .op (.access .Read ..) => true
  | _ => false

end Call

/-- Make one call. -/
def CacheT.call (myrand : Nat → Nat) (cp : CacheT cfg) : Call → Except Fault (CacheT cfg)
  | .op op => cp.apply myrand op
  | .prefetch addr => cp.prefetch myrand addr
  | .fetch cmd addr nbytes => cp.accessBlock myrand cmd addr nbytes true

/-- The cache after a sequence of calls. -/
def runCalls (cfg : Config) (myrand : Nat → Nat) (calls : List Call) : Except Fault (CacheT cfg) :=
  calls.foldlM (CacheT.call myrand) (cacheCreate cfg)

/-! ## Valid blocks -/

/-- The number of valid blocks. -/
def CacheT.occupied (cp : CacheT cfg) : Nat := (Finset.univ.filter fun p => (cp.blk p).valid).card

section Card

variable {α : Type*} [Fintype α] [DecidableEq α]

/-- Changing one of some flags changes the number of those that are set. -/
theorem card_of_update {f g : α → Bool} {a : α} (h : ∀ x, x ≠ a → g x = f x) :
    (Finset.univ.filter fun x => g x).card + (f a).toNat =
      (Finset.univ.filter fun x => f x).card + (g a).toNat := by
  have hsplit : ∀ f : α → Bool, (Finset.univ.filter fun x => f x).card =
      (f a).toNat + ((Finset.univ.erase a).filter fun x => f x).card := by
    intro f
    rw [← Finset.insert_erase (Finset.mem_univ a), Finset.filter_insert, Finset.erase_insert
      (Finset.notMem_erase a _)]
    cases hfa : f a with
    | true => rw [if_pos rfl, Finset.card_insert_of_notMem (by simp), Nat.add_comm]; rfl
    | false => rw [if_neg Bool.false_ne_true, Bool.toNat_false, Nat.zero_add]
  have hsame : (Finset.univ.erase a).filter (fun x => g x) =
      (Finset.univ.erase a).filter fun x => f x := by
    refine Finset.filter_congr fun x hx => ?_
    rw [h x (Finset.ne_of_mem_erase hx)]
  rw [hsplit g, hsplit f, hsame]
  omega

end Card

namespace CacheT

variable {cp cp' : CacheT cfg} {cmd : MemCmd} {addr : Addr} {fetch : Bool} {p : BlkPtr cfg}

/-- The counters account for the valid blocks. -/
structure Accounts (cp : CacheT cfg) : Prop where
  occupied : cp.occupied + cp.stats.replacements + cp.stats.invalidations =
    cp.stats.misses + cp.stats.prefetchMisses
  writebacks : cp.stats.writebacks ≤ cp.stats.replacements + cp.stats.invalidations

/-- Nothing has been counted in a new cache. -/
theorem accounts_create : (cacheCreate cfg).Accounts := by
  refine ⟨?_, Nat.le_refl 0⟩
  have hnone : (Finset.univ.filter fun p => ((cacheCreate cfg).blk p).valid) = ∅ := by
    refine Finset.filter_false_of_mem fun p _ => ?_
    show ¬ ((CacheSet.created cfg).blks p.2).valid = true
    rw [CacheSet.created_blks]
    exact Bool.false_ne_true
  rw [CacheT.occupied, hnone]
  rfl

/-- Changing a block changes the number of valid ones. -/
theorem occupied_of_update {b : Blk} (h : ∀ q, cp'.blk q = if q = p then b else cp.blk q) :
    cp'.occupied + (cp.blk p).valid.toNat = cp.occupied + b.valid.toNat := by
  have hne : ∀ q, q ≠ p → (cp'.blk q).valid = (cp.blk q).valid := fun q hq => by
    rw [h q, if_neg hq]
  have hcard := card_of_update hne
  rwa [h p, if_pos rfl] at hcard

/-- A hit is counted as one. -/
theorem Accounts.hit {way : Way cfg} (h : cp.Accounts) (hhit : cp.Hit cmd addr fetch way cp') :
    cp'.Accounts := by
  have hoccupied := occupied_of_update (blk_of_update hhit.blks hhit.others)
  have hvalid : (cp.blk (cfg.setIndex addr, way)).valid = true := hhit.valid
  have hsame : cp'.occupied = cp.occupied := Nat.add_right_cancel hoccupied
  have hstats : ∀ stats : Stats, (stats.countHit cmd fetch).replacements = stats.replacements ∧
      (stats.countHit cmd fetch).invalidations = stats.invalidations ∧
      (stats.countHit cmd fetch).misses = stats.misses ∧
      (stats.countHit cmd fetch).prefetchMisses = stats.prefetchMisses := by
    intro stats
    cases fetch <;> exact ⟨rfl, rfl, rfl, rfl⟩
  obtain ⟨hrepl, hinv, hmisses, hprefetch⟩ := hstats cp.stats
  refine ⟨?_, ?_⟩
  · rw [hhit.stats, hsame, hrepl, hinv, hmisses, hprefetch]
    exact h.occupied
  · rw [hhit.stats, hrepl, hinv, Stats.count_hit_writebacks]
    exact h.writebacks

/-- What the replacement of a block adds to the counters. -/
theorem replace_counts (stats : Stats) (b : Blk) :
    (stats.replace b).replacements = stats.replacements + b.valid.toNat ∧
    (stats.replace b).invalidations = stats.invalidations ∧
    (stats.replace b).misses + (stats.replace b).prefetchMisses =
      stats.misses + stats.prefetchMisses ∧
    (stats.replace b).writebacks ≤ stats.writebacks + b.valid.toNat := by
  rw [Stats.replace]
  cases b.valid with
  | false => exact ⟨rfl, rfl, rfl, Nat.le_refl _⟩
  | true =>
      refine ⟨rfl, rfl, rfl, ?_⟩
      show (if b.dirty = true then stats.writebacks + 1 else stats.writebacks) ≤ _
      split
      · exact Nat.le_refl _
      · exact Nat.le_succ _

/-- A miss is counted as one, with what it replaces. -/
theorem Accounts.miss {way : Way cfg} (h : cp.Accounts) (hmiss : cp.Miss cmd addr fetch way cp') :
    cp'.Accounts := by
  have hoccupied := occupied_of_update (blk_of_update hmiss.blks hmiss.others)
  obtain ⟨hrepl, hinv, hmisses, hwb⟩ := replace_counts (cp.stats.countMiss cmd fetch)
    ((cp.sets (cfg.setIndex addr)).blks way)
  have hcount : (cp.stats.countMiss cmd fetch).misses +
      (cp.stats.countMiss cmd fetch).prefetchMisses =
      cp.stats.misses + cp.stats.prefetchMisses + 1 ∧
      (cp.stats.countMiss cmd fetch).replacements = cp.stats.replacements ∧
      (cp.stats.countMiss cmd fetch).invalidations = cp.stats.invalidations := by
    cases fetch with
    | false => exact ⟨Nat.add_right_comm .., rfl, rfl⟩
    | true => exact ⟨rfl, rfl, rfl⟩
  obtain ⟨hcount, hsame, hsame'⟩ := hcount
  rw [Stats.count_miss_writebacks] at hwb
  have hblk : cp.blk (cfg.setIndex addr, way) = (cp.sets (cfg.setIndex addr)).blks way := rfl
  have hnew : (true).toNat = 1 := rfl
  have hold := h.occupied
  have hbound := h.writebacks
  rw [hblk] at hoccupied
  refine ⟨?_, ?_⟩
  · rw [hmiss.stats]
    simp only [hnew] at hoccupied
    omega
  · rw [hmiss.stats]
    omega

/-- An invalidation is counted as one. -/
theorem Accounts.invalidate (h : cp.Accounts) (hvalid : (cp.blk p).valid = true) :
    (cp.invalidate p).Accounts := by
  have hoccupied := occupied_of_update (invalidate_blk cp p)
  rw [hvalid] at hoccupied
  have hold := h.occupied
  have hbound := h.writebacks
  have hstats : (cp.invalidate p).stats = cp.stats.invalidate (cp.blk p) := by
    rw [invalidate_eq]
  have hone : (cp.invalidate p).occupied + 1 = cp.occupied := hoccupied
  refine ⟨?_, ?_⟩
  · rw [hstats, Stats.invalidate]
    show (cp.invalidate p).occupied + cp.stats.replacements + (cp.stats.invalidations + 1) =
      cp.stats.misses + cp.stats.prefetchMisses
    omega
  · rw [hstats, Stats.invalidate]
    show (if (cp.blk p).dirty = true then cp.stats.writebacks + 1 else cp.stats.writebacks) ≤
      cp.stats.replacements + (cp.stats.invalidations + 1)
    split <;> omega

/-- The accounts are kept by all moves. -/
theorem kept_accounts : Kept (CacheT.Accounts : CacheT cfg → Prop) := by
  refine ⟨fun cp cmd addr fetch cp' _ h haccess => ?_, fun cp p _ h hvalid => h.invalidate hvalid,
    fun cp cp' h hblk hstats _ _ => ?_⟩
  · rcases haccess with ⟨way, hhit⟩ | ⟨way, hmiss⟩
    · exact h.hit hhit
    · exact h.miss hmiss
  · have hoccupied : cp'.occupied = cp.occupied := by
      rw [CacheT.occupied, CacheT.occupied]
      simp only [hblk]
    refine ⟨?_, ?_⟩
    · rw [hoccupied, hstats]
      exact h.occupied
    · rw [hstats]
      exact h.writebacks

/-- Predictions are not counted. -/
theorem predicts_accounts : Predicts (CacheT.Accounts : CacheT cfg → Prop) :=
  fun _ _ h => ⟨h.occupied, h.writebacks⟩

/-! ## Calls -/

/-- What holds after some calls. -/
structure CallsCounted (calls : List Call) (cp : CacheT cfg) : Prop extends cp.Accounts where
  inv : cp.Inv
  demands : cp.stats.hits + cp.stats.misses = calls.countP Call.isDemand
  reads : cp.stats.readHits + cp.stats.readMisses = calls.countP Call.isDemandRead

/-- Step lemma. -/
theorem CallsCounted.call {calls : List Call} (h : CallsCounted calls cp) (call : Call) :
    Ensures (fun _ => True) (CallsCounted (calls ++ [call])) (cp.call myrand call) := by
  refine ensures_of_ok fun cp' hok => ?_
  have hmoves : Moves myrand Outside fun cp : CacheT cfg => cp.Inv ∧ cp.Accounts :=
    kept_accounts.moves myrand predicts_accounts
  have hold : cp.Inv ∧ cp.Accounts := ⟨h.inv, h.toAccounts⟩
  have hcounts : cp'.Inv ∧ cp'.Accounts ∧
      cp'.stats.demands = cp.stats.demands + (if call.isDemand then 1 else 0) ∧
      cp'.stats.reads = cp.stats.reads + if call.isDemandRead then 1 else 0 := by
    cases call with
    | op op =>
        obtain ⟨hinv, haccounts⟩ := (hmoves.apply hold op).of_ok hok
        obtain ⟨-, hdemands, hreads⟩ := h.inv.apply_counts hok
        refine ⟨hinv, haccounts, ?_⟩
        rw [hdemands, hreads]
        cases op with
        | access cmd pc addr nbytes => cases cmd <;> exact ⟨rfl, rfl⟩
        | flush => exact ⟨rfl, rfl⟩
        | flushAddr addr => exact ⟨rfl, rfl⟩
    | prefetch addr =>
        obtain ⟨hinv, haccounts⟩ := (hmoves.prefetch hold addr).of_ok hok
        refine ⟨hinv, haccounts, ?_⟩
        rcases h.inv.prefetch_ok hok with rfl | ⟨-, baddr, haccess⟩
        · exact ⟨rfl, rfl⟩
        · exact haccess.counts
    | fetch cmd addr nbytes =>
        obtain ⟨hinv, haccess⟩ := (access_block myrand cmd addr nbytes true h.inv).of_ok hok
        refine ⟨hinv, kept_accounts.access cp cmd addr true cp' h.inv h.toAccounts haccess, ?_⟩
        obtain ⟨hdemands, hreads⟩ := haccess.counts
        exact ⟨hdemands, hreads.trans (congrArg _ (if_neg fun hfalse => nomatch hfalse.1))⟩
  obtain ⟨hinv, haccounts, hdemands, hreads⟩ := hcounts
  refine ⟨haccounts, hinv, ?_, ?_⟩
  · rw [List.countP_append, ← h.demands, List.countP_singleton]
    exact hdemands
  · rw [List.countP_append, ← h.reads, List.countP_singleton]
    exact hreads

/-- In every run that does not stop, the counters account for the valid blocks and for the accesses,
and no block is written back that is not replaced or invalidated. -/
theorem counters_account (cfg : Config) (myrand : Nat → Nat) (calls : List Call) :
    Ensures (fun _ => True)
      (fun cp : CacheT cfg =>
        cp.occupied + cp.stats.replacements + cp.stats.invalidations =
          cp.stats.misses + cp.stats.prefetchMisses ∧
        cp.stats.hits + cp.stats.misses = calls.countP Call.isDemand ∧
        cp.stats.readHits + cp.stats.readMisses = calls.countP Call.isDemandRead ∧
        cp.stats.writebacks ≤ cp.stats.replacements + cp.stats.invalidations)
      (runCalls cfg myrand calls) := by
  refine ensures_of_ok fun cp hrun => ?_
  have hcounted : CallsCounted calls cp := by
    induction calls using List.reverseRecOn generalizing cp with
    | nil =>
        obtain rfl : cacheCreate cfg = cp := Except.ok.inj hrun
        exact ⟨accounts_create, inv_create, rfl, rfl⟩
    | append_singleton calls call ih =>
        obtain ⟨cp₀, hrun₀, hok⟩ := foldlM_concat_ok.mp hrun
        exact ((ih cp₀ hrun₀).call call).of_ok hok
  exact ⟨hcounted.occupied, hcounted.demands, hcounted.reads, hcounted.writebacks⟩

end CacheT

end Ece552.Cache
