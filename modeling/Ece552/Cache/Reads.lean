import Ece552.Cache.Prefetching
import Ece552.Cache.WriteBack
import Ece552.Library.WriteBackStore

/-!
# What reads return

The simulated cache moves no data, but its calls say what a cache would move: a block that is filled
gets the contents of the block of memory that is read, and the block that is dropped before a write
back is the one whose contents go to memory. Under this reading, and with a tag that fits, every
access finds what a memory without a cache would have there, whatever the policy, the prefetcher and
the flushes do. Read `reads_last_write` first.
-/

namespace Ece552.Cache

open Library

variable {cfg : Config} {V : Type*} {store : Nat → V → V} {contents : Addr → V}

/-! ## The contents -/

/-- The contents of the blocks of a cache and of memory, and the block that was dropped last. -/
structure Passing (cfg : Config) (V : Type*) where
  data : WriteBackStore (BlkPtr cfg) Addr V
  dropped : Option (BlkPtr cfg)

/-- A block of memory gets the contents of the block that was dropped last. -/
def Passing.giveBack (d : Passing cfg V) (baddr : Addr) : Passing cfg V :=
  match d.dropped with
  | some p => { d with data := d.data.writeBack p baddr }
  | none => d

/-- What an event does to the contents; `store n` is what the `n`-th write does to its block. -/
def Passing.pass (store : Nat → V → V) (d : Passing cfg V) : Event cfg → Passing cfg V
  | .fill p addr => { d with data := d.data.fetch p (cfg.cacheBaddr addr) }
  | .serve p .Write addr => { d with data := d.data.write store p (cfg.cacheBaddr addr) }
  | .serve _ .Read _ => d
  | .drop p => { d with dropped := some p }
  | .call .Write baddr _ => d.giveBack baddr
  | .call .Read _ _ => d

/-- The contents after a log. -/
def passed (store : Nat → V → V) (contents : Addr → V) (log : List (Event cfg)) : Passing cfg V :=
  log.foldl (Passing.pass store) ⟨.start contents fun _ => contents 0, none⟩

/-- The address of a write that an event serves. -/
def Event.write? : Event cfg → Option Addr
  | .serve _ .Write addr => some addr
  | _ => none

/-- The address of a write of the program. -/
def Op.write? : Op → Option Addr
  | .access .Write _ addr _ => some addr
  | _ => none

/-- A write to a memory without a cache, which counts the writes. -/
def writePlain (cfg : Config) (store : Nat → V → V) (m : (Addr → V) × Nat) (addr : Addr) :
    (Addr → V) × Nat :=
  (Function.update m.1 (cfg.cacheBaddr addr) (store m.2 (m.1 (cfg.cacheBaddr addr))), m.2 + 1)

/-- A memory without a cache after the writes to the given addresses. -/
def plainMemory (cfg : Config) (store : Nat → V → V) (contents : Addr → V) (writes : List Addr) :
    Addr → V :=
  (writes.foldl (writePlain cfg store) (contents, 0)).1

/-- An access finds what a memory without a cache has there. -/
def Served (store : Nat → V → V) (contents : Addr → V) (pre : List (Event cfg)) :
    Event cfg → Prop
  | .serve p _ addr => (passed store contents pre).data.copies p =
      plainMemory cfg store contents (pre.filterMap Event.write?) (cfg.cacheBaddr addr)
  | _ => True

theorem passed_append (log more : List (Event cfg)) : passed store contents (log ++ more) =
    more.foldl (Passing.pass store) (passed store contents log) := by
  rw [passed, List.foldl_append, passed]

/-- The plain store of the contents is the memory without a cache. -/
theorem plain_of_passed (store : Nat → V → V) (contents : Addr → V) (log : List (Event cfg)) :
    ((passed store contents log).data.plain, (passed store contents log).data.writes) =
      (log.filterMap Event.write?).foldl (writePlain cfg store) (contents, 0) := by
  induction log using List.reverseRecOn with
  | nil => rfl
  | append_singleton log e ih =>
      rw [List.filterMap_append, List.foldl_append, ← ih, passed_append]
      cases e with
      | fill p addr => rfl
      | drop p => rfl
      | serve p cmd addr => cases cmd <;> rfl
      | call cmd baddr size =>
          cases cmd with
          | Read => rfl
          | Write =>
              show (((passed store contents log).giveBack baddr).data.plain,
                ((passed store contents log).giveBack baddr).data.writes) = _
              unfold Passing.giveBack
              split <;> rfl

theorem plain_eq (store : Nat → V → V) (contents : Addr → V) (log : List (Event cfg)) :
    (passed store contents log).data.plain =
      plainMemory cfg store contents (log.filterMap Event.write?) :=
  congrArg Prod.fst (plain_of_passed store contents log)

namespace CacheT

variable {cp cp' : CacheT cfg} {p q : BlkPtr cfg} {cmd : MemCmd} {addr nbytes : Addr}
variable {fetch : Bool} {way : Way cfg} {myrand : Nat → Nat}

/-! ## The invariant -/

/-- The address of the block of memory that a block holds. -/
def holding (cp : CacheT cfg) (p : BlkPtr cfg) : Option Addr :=
  if (cp.blk p).valid then some (address p (cp.blk p)) else none

/-- Every access has found what a memory without a cache would have had, and the contents are
still so that the next one does. -/
structure ReadsRight (store : Nat → V → V) (contents : Addr → V) (cp : CacheT cfg) : Prop where
  origin : ∀ p, (cp.blk p).valid = true →
    ∃ addr, cfg.setIndex addr = p.1 ∧ (cp.blk p).tag = cfg.cacheTag addr
  served : Along (Served store contents) cp.log
  transparent : (passed store contents cp.log).data.Transparent cp.holding
    fun p => (cp.blk p).dirty

theorem holding_of_valid (h : (cp.blk p).valid = true) :
    cp.holding p = some (address p (cp.blk p)) := if_pos h

theorem reads_right_create : (cacheCreate cfg).ReadsRight store contents := by
  have hblk : ∀ p, (cacheCreate cfg).blk p = {} := fun p => CacheSet.created_blks p.2
  refine ⟨fun p hvalid => ?_, along_nil, WriteBackStore.transparent_start _ _ fun p => ?_⟩
  · rw [hblk] at hvalid
    exact absurd hvalid Bool.false_ne_true
  · rw [holding, hblk]
    rfl

/-- A block that holds the block of memory of an address is the one that the search looks for. -/
theorem ReadsRight.found (hfits : cfg.TagFits) (h : cp.ReadsRight store contents)
    (hp : cp.holding p = some (cfg.cacheBaddr addr)) :
    p.1 = cfg.setIndex addr ∧ (cp.sets p.1).holds (cfg.cacheTag addr) p.2 = true := by
  rw [holding] at hp
  split at hp
  case isTrue hvalid =>
    obtain ⟨a, hset, htag⟩ := h.origin p hvalid
    have haddress : address p (cp.blk p) = cfg.cacheBaddr a := by
      rw [address, htag, ← hset, Config.set_addr_set_index, Config.mk_baddr hfits]
    have hbaddr : cfg.cacheBaddr a = cfg.cacheBaddr addr :=
      haddress.symm.trans (Option.some.inj hp)
    obtain ⟨htags, hsets⟩ := (Config.baddr_eq_iff hfits).mp hbaddr
    refine ⟨hset.symm.trans ((Config.set_index_eq_iff cfg).mpr hsets), ?_⟩
    exact CacheSet.holds_iff.mpr ⟨htag.trans htags, hvalid⟩
  case isFalse => exact absurd hp.symm (Option.some_ne_none _)

/-- The law says nothing about events that serve no access. -/
theorem served_of_others {log more : List (Event cfg)} (h : Along (Served store contents) log)
    (hmore : ∀ e ∈ more, ∀ p cmd addr, e ≠ .serve p cmd addr) :
    Along (Served store contents) (log ++ more) := by
  induction more using List.reverseRecOn with
  | nil => rwa [List.append_nil]
  | append_singleton more e ih =>
      rw [← List.append_assoc, along_concat]
      refine ⟨ih fun e' he' => hmore e' (List.mem_append_left _ he'), ?_⟩
      cases e with
      | serve p cmd addr => exact absurd rfl (hmore _ (by simp) p cmd addr)
      | fill p addr => trivial
      | drop p => trivial
      | call cmd baddr size => trivial

theorem write_back_log_others (p : BlkPtr cfg) (b : Blk) :
    ∀ e ∈ writeBackLog p b, ∀ q cmd addr, e ≠ .serve q cmd addr := by
  intro e he q cmd addr heq
  subst heq
  rw [writeBackLog, List.mem_cons] at he
  rcases he with he | he
  · cases he
  · split at he
    · rw [List.mem_singleton] at he
      cases he
    · exact List.not_mem_nil he

/-- The contents after a block is written back, if it is dirty. -/
theorem passed_write_back (store : Nat → V → V) (contents : Addr → V) (log : List (Event cfg))
    (p : BlkPtr cfg) (b : Blk) : (passed store contents (log ++ writeBackLog p b)).data =
      if b.dirty then (passed store contents log).data.writeBack p (address p b)
      else (passed store contents log).data := by
  rw [passed_append, writeBackLog]
  split <;> rfl

/-- The contents after a block is filled, and before it serves the access. -/
theorem passed_fill (store : Nat → V → V) (contents : Addr → V) (log : List (Event cfg))
    (p : BlkPtr cfg) (addr : Addr) :
    (passed store contents
      (log ++ [.fill p addr, .call .Read (cfg.cacheBaddr addr) cfg.bsize])).data =
      (passed store contents log).data.fetch p (cfg.cacheBaddr addr) := by
  rw [passed_append]
  rfl

/-! ## Steps -/

/-- A block that holds the block of the address serves an access to it. -/
theorem serve_transparent {log : List (Event cfg)} {held : BlkPtr cfg → Option Addr}
    {dirty : BlkPtr cfg → Bool} (hserved : Along (Served store contents) log)
    (h : (passed store contents log).data.Transparent held dirty)
    (hp : held p = some (cfg.cacheBaddr addr)) (cmd : MemCmd) :
    Along (Served store contents) (log ++ [.serve p cmd addr]) ∧
    (passed store contents (log ++ [.serve p cmd addr])).data.Transparent held
      (Function.update dirty p (dirty p || decide (cmd = .Write))) := by
  refine ⟨along_concat.mpr ⟨hserved, ?_⟩, ?_⟩
  · show _ = plainMemory cfg store contents (log.filterMap Event.write?) _
    rw [← plain_eq]
    exact h.copies p _ hp
  · rw [passed_append]
    cases cmd with
    | Read =>
        have hsame : (dirty p || decide (MemCmd.Read = .Write)) = dirty p := Bool.or_false _
        rw [hsame, Function.update_eq_self]
        exact h
    | Write =>
        have hdirty : (dirty p || decide (MemCmd.Write = .Write)) = true := Bool.or_true _
        rw [hdirty]
        exact h.write hp store

theorem ReadsRight.hit (hfits : cfg.TagFits) (h : cp.ReadsRight store contents)
    (hhit : cp.Hit cmd addr fetch way cp') : cp'.ReadsRight store contents := by
  have hheld : cp.holding (cfg.setIndex addr, way) = some (cfg.cacheBaddr addr) := by
    rw [← address_of_holds hfits rfl (hhit.found (Or.inl hfits))]
    exact holding_of_valid hhit.valid
  obtain ⟨hserved, htransparent⟩ := serve_transparent h.served h.transparent hheld cmd
  have hsame := hhit.same
  have hholding : cp'.holding = cp.holding := by
    funext p
    rw [holding, holding, address, address, (hsame p).1, (hsame p).2]
  have hdirty : (fun p => (cp'.blk p).dirty) = Function.update (fun p => (cp.blk p).dirty)
      (cfg.setIndex addr, way)
      ((cp.blk (cfg.setIndex addr, way)).dirty || decide (cmd = .Write)) := by
    funext p
    rw [blk_of_update hhit.blks hhit.others, Function.update_apply]
    split <;> rfl
  refine ⟨fun p hp => ?_, ?_, ?_⟩
  · rw [(hsame p).1]
    exact h.origin p ((hsame p).2 ▸ hp)
  · rw [hhit.log]
    exact hserved
  · rw [hhit.log, hholding, hdirty]
    exact htransparent

/-- A valid block that is dropped, and written back if it is dirty. -/
theorem ReadsRight.dropped (h : cp.ReadsRight store contents)
    (hvalid : (cp.blk p).valid = true) :
    Along (Served store contents) (cp.log ++ writeBackLog p (cp.blk p)) ∧
    (passed store contents (cp.log ++ writeBackLog p (cp.blk p))).data.Transparent
      (Function.update cp.holding p none) fun q => (cp.blk q).dirty := by
  refine ⟨served_of_others h.served (write_back_log_others p _), ?_⟩
  rw [passed_write_back]
  exact h.transparent.drop (holding_of_valid hvalid)

theorem ReadsRight.invalidate (h : cp.ReadsRight store contents)
    (hvalid : (cp.blk p).valid = true) : (cp.invalidate p).ReadsRight store contents := by
  obtain ⟨hserved, htransparent⟩ := h.dropped hvalid
  have hblk := invalidate_blk cp p
  have hholding : (cp.invalidate p).holding = Function.update cp.holding p none := by
    funext q
    rw [holding, hblk, Function.update_apply]
    split
    case isTrue hq => rfl
    case isFalse hq => rfl
  have hdirty : (fun q => ((cp.invalidate p).blk q).dirty) = fun q => (cp.blk q).dirty := by
    funext q
    rw [hblk]
    split
    case isTrue hq => rw [hq]
    case isFalse hq => rfl
  refine ⟨fun q hq => ?_, ?_, ?_⟩
  · rw [hblk] at hq ⊢
    split at hq
    case isTrue => exact absurd hq Bool.false_ne_true
    case isFalse hne =>
      rw [if_neg hne]
      exact h.origin q hq
  · rw [invalidate_log]
    exact hserved
  · rw [invalidate_log, hholding, hdirty]
    exact htransparent

/-- The record of a replacement leaves the block without contents. -/
theorem ReadsRight.replaced (h : cp.ReadsRight store contents) (p : BlkPtr cfg) :
    Along (Served store contents) (cp.log ++ replaceLog p (cp.blk p)) ∧
    (passed store contents (cp.log ++ replaceLog p (cp.blk p))).data.Transparent
      (Function.update cp.holding p none) fun q => (cp.blk q).dirty := by
  by_cases hvalid : (cp.blk p).valid = true
  · rw [replaceLog, if_pos hvalid]
    exact h.dropped hvalid
  · have hnone : cp.holding p = none := if_neg hvalid
    rw [replaceLog, if_neg hvalid, List.append_nil, ← hnone, Function.update_eq_self]
    exact ⟨h.served, h.transparent⟩

theorem ReadsRight.miss (hfits : cfg.TagFits) (h : cp.ReadsRight store contents)
    (hmiss : cp.Miss cmd addr fetch way cp') : cp'.ReadsRight store contents := by
  obtain ⟨p, hp⟩ : ∃ p : BlkPtr cfg, p = (cfg.setIndex addr, way) := ⟨_, rfl⟩
  have hblk := blk_of_update hmiss.blks hmiss.others
  have hlog : cp'.log = cp.log ++ replaceLog p (cp.blk p) ++
      [.fill p addr, .call .Read (cfg.cacheBaddr addr) cfg.bsize] ++ [.serve p cmd addr] := by
    rw [hmiss.log, hp, List.append_assoc _ [_, _]]
    rfl
  rw [← hp] at hblk
  obtain ⟨hserved, htransparent⟩ := h.replaced p
  -- no other block holds the block of the address
  have habsent : ∀ q, Function.update cp.holding p none q ≠ some (cfg.cacheBaddr addr) := by
    intro q hq
    by_cases hqp : q = p
    · rw [hqp, Function.update_self] at hq
      exact Option.some_ne_none _ hq.symm
    · rw [Function.update_of_ne hqp] at hq
      obtain ⟨hset, hholds⟩ := h.found hfits hq
      rw [hset, hmiss.absent] at hholds
      exact Bool.false_ne_true hholds
  have hfetched := htransparent.fetch (Function.update_self ..) habsent
  rw [← passed_fill, Function.update_idem] at hfetched
  have hfilled : Along (Served store contents) (cp.log ++ replaceLog p (cp.blk p) ++
      [.fill p addr, .call .Read (cfg.cacheBaddr addr) cfg.bsize]) :=
    served_of_others hserved (by simp)
  obtain ⟨hserved, htransparent⟩ := serve_transparent hfilled hfetched
    (Function.update_self ..) cmd
  have hholding : cp'.holding = Function.update cp.holding p (some (cfg.cacheBaddr addr)) := by
    funext q
    rw [holding, hblk, Function.update_apply]
    split
    case isTrue hq =>
      rw [hq, if_pos rfl, address, hp, Config.set_addr_set_index, Config.mk_baddr hfits]
    case isFalse hq => rfl
  have hdirty : (fun q => (cp'.blk q).dirty) =
      Function.update (Function.update (fun q => (cp.blk q).dirty) p false) p
        (Function.update (fun q => (cp.blk q).dirty) p false p || decide (cmd = .Write)) := by
    funext q
    rw [hblk, Function.update_idem, Function.update_self, Bool.false_or, Function.update_apply]
    split <;> rfl
  refine ⟨fun q hq => ?_, ?_, ?_⟩
  · rw [hblk] at hq ⊢
    split at hq
    case isTrue hqp =>
      rw [if_pos hqp, hqp, hp]
      exact ⟨addr, rfl, rfl⟩
    case isFalse hqp =>
      rw [if_neg hqp]
      exact h.origin q hq
  · rw [hlog]
    exact hserved
  · rw [hlog, hholding, hdirty]
    exact htransparent

theorem kept_reads_right (hfits : cfg.TagFits) (store : Nat → V → V) (contents : Addr → V) :
    Kept (ReadsRight store contents : CacheT cfg → Prop) := by
  refine ⟨fun cp cmd addr fetch cp' _ h haccess => ?_, fun cp p _ h hvalid => h.invalidate hvalid,
    fun cp cp' h hblk _ hlog _ => ?_⟩
  · rcases haccess with ⟨way, hhit⟩ | ⟨way, hmiss⟩
    · exact h.hit hfits hhit
    · exact h.miss hfits hmiss
  · have hholding : cp'.holding = cp.holding := by
      funext p
      rw [holding, holding, hblk]
    have hdirty : (fun p => (cp'.blk p).dirty) = fun p => (cp.blk p).dirty := by
      funext p
      rw [hblk]
    refine ⟨fun p hp => ?_, by rw [hlog]; exact h.served, ?_⟩
    · rw [hblk] at hp ⊢
      exact h.origin p hp
    · rw [hlog, hholding, hdirty]
      exact h.transparent

theorem predicts_reads_right (store : Nat → V → V) (contents : Addr → V) :
    Predicts (ReadsRight store contents : CacheT cfg → Prop) :=
  fun _ _ h => ⟨h.origin, h.served, h.transparent⟩

/-! ## The writes of the program -/

theorem writes_write_back_log (p : BlkPtr cfg) (b : Blk) :
    (writeBackLog p b).filterMap Event.write? = [] := by
  rw [writeBackLog]
  split <;> rfl

/-- An access serves one write, if it is one. -/
theorem Access.writes (haccess : cp.Access cmd addr fetch cp') :
    cp'.log.filterMap Event.write? =
      cp.log.filterMap Event.write? ++ if cmd = .Write then [addr] else [] := by
  rcases haccess with ⟨way, hhit⟩ | ⟨way, hmiss⟩
  · rw [hhit.log, List.filterMap_append]
    cases cmd <;> rfl
  · have hreplace : (replaceLog (cfg.setIndex addr, way)
        ((cp.sets (cfg.setIndex addr)).blks way)).filterMap Event.write? = [] := by
      rw [replaceLog]
      split
      · exact writes_write_back_log _ _
      · rfl
    rw [hmiss.log, List.filterMap_append, List.filterMap_append, hreplace, List.append_nil]
    cases cmd <;> rfl

/-- Flushes serve no writes. -/
theorem kept_writes (cfg : Config) (writes : List Addr) :
    KeptByFlush fun cp : CacheT cfg => cp.log.filterMap Event.write? = writes := by
  refine ⟨fun cp p _ h _ => ?_, fun cp cp' h _ _ hlog _ => hlog.symm ▸ h⟩
  rw [invalidate_log, List.filterMap_append, writes_write_back_log, List.append_nil]
  exact h

/-- An operation serves one write, if it is one: prefetches and flushes serve none. -/
theorem Inv.writes_of_apply (h : cp.Inv) {op : Op} (hok : cp.apply myrand op = .ok cp') :
    cp'.log.filterMap Event.write? = cp.log.filterMap Event.write? ++ op.write?.toList := by
  have hflush := kept_writes cfg (cp.log.filterMap Event.write?)
  cases op with
  | access cmd pc addr nbytes =>
      obtain ⟨cp₁, target, hfirst, -, hprefetch⟩ := cache_access_ok.mp hok
      obtain ⟨hinv₁, haccess⟩ := (access_block myrand cmd addr nbytes false h).of_ok hfirst
      have hlog : (cp₁.tableUpdated pc addr).log = cp₁.log := by rw [table_updated_eq]
      have hwrites : (cp₁.tableUpdated pc addr).log.filterMap Event.write? =
          cp.log.filterMap Event.write? ++ (Op.access cmd pc addr nbytes).write?.toList := by
        rw [hlog, haccess.writes]
        cases cmd <;> rfl
      rcases (hinv₁.table_updated pc addr).prefetch_option_ok hprefetch with
        rfl | ⟨-, baddr, hread⟩
      · exact hwrites
      · rw [hread.writes, ← hwrites]
        exact List.append_nil _
  | flush => exact ((hflush.cache_flush h rfl).of_ok hok).2.trans (List.append_nil _).symm
  | flushAddr addr =>
      exact ((hflush.cache_flush_addr h rfl addr).of_ok hok).2.trans (List.append_nil _).symm

/-- The writes that are served are those of the program, in their order. -/
theorem writes_of_run {ops : List Op} (hrun : runOps cfg myrand ops = .ok cp) :
    cp.log.filterMap Event.write? = ops.filterMap Op.write? := by
  induction ops using List.reverseRecOn generalizing cp with
  | nil =>
      obtain rfl : cacheCreate cfg = cp := Except.ok.inj hrun
      rfl
  | append_singleton ops op ih =>
      obtain ⟨cp₀, hrun₀, hok⟩ := (run_ops_concat_ok myrand).mp hrun
      rw [(Inv.of_run myrand hrun₀).writes_of_apply hok, ih hrun₀, List.filterMap_append]
      cases hop : op.write? with
      | none => simp [hop]
      | some addr => simp [hop]

/-! ## Main result -/

theorem reads_right_of_run (hfits : cfg.TagFits) (myrand : Nat → Nat) (store : Nat → V → V)
    (contents : Addr → V) (ops : List Op) :
    Ensures Outside (fun cp : CacheT cfg => cp.ReadsRight store contents)
      (runOps cfg myrand ops) :=
  ((kept_reads_right hfits store contents).run_ops myrand (predicts_reads_right store contents)
    reads_right_create ops).mono fun _ h => h.2

/-- Memory is right about a block without a dirty copy. -/
theorem ReadsRight.below_eq (h : cp.ReadsRight store contents) {b : Addr}
    (hb : ∀ p, (cp.blk p).valid = true → (cp.blk p).dirty = true → address p (cp.blk p) ≠ b) :
    (passed store contents cp.log).data.below b =
      plainMemory cfg store contents (cp.log.filterMap Event.write?) b := by
  rw [← plain_eq]
  by_cases hheld : ∃ p, cp.holding p = some b
  · obtain ⟨p, hp⟩ := hheld
    refine h.transparent.clean p b hp (Bool.eq_false_iff.mpr fun hdirty => ?_)
    rw [holding] at hp
    split at hp
    case isTrue hvalid => exact hb p hvalid hdirty (Option.some.inj hp)
    case isFalse => exact Option.some_ne_none b hp.symm
  · exact h.transparent.below b fun p hp => hheld ⟨p, hp⟩

/-- If the tag fits, then in every run that does not stop, every access finds the contents that a
memory without a cache would have after the writes before it. At the end, the valid blocks hold what
that memory would have after the writes of the program, and so does the memory for all blocks but
those whose copies are dirty. -/
theorem reads_last_write (hfits : cfg.TagFits) (myrand : Nat → Nat) (store : Nat → V → V)
    (contents : Addr → V) (ops : List Op) :
    Ensures Outside
      (fun cp : CacheT cfg =>
        Along (Served store contents) cp.log ∧
        cp.log.filterMap Event.write? = ops.filterMap Op.write? ∧
        (∀ p, (cp.blk p).valid = true → (passed store contents cp.log).data.copies p =
          plainMemory cfg store contents (ops.filterMap Op.write?) (address p (cp.blk p))) ∧
        ∀ b, (∀ p, (cp.blk p).valid = true → (cp.blk p).dirty = true →
            address p (cp.blk p) ≠ b) →
          (passed store contents cp.log).data.below b =
            plainMemory cfg store contents (ops.filterMap Op.write?) b)
      (runOps cfg myrand ops) := by
  have hruns : Ensures Outside (fun cp : CacheT cfg => cp.ReadsRight store contents) _ :=
    reads_right_of_run hfits myrand store contents ops
  cases hrun : runOps cfg myrand ops with
  | error f => exact hruns.of_error hrun
  | ok cp =>
      have hright := hruns.of_ok hrun
      have hwrites := writes_of_run hrun
      refine ⟨hright.served, hwrites, fun p hvalid => ?_, fun b hb => ?_⟩
      · rw [← hwrites, ← plain_eq]
        exact hright.transparent.copies p _ (holding_of_valid hvalid)
      · rw [← hwrites]
        exact hright.below_eq hb

/-- A write whose block is replaced by the next access. -/
theorem reads_last_write_of_two :
    ∃ cp, runOps directMapped (fun _ => 0) [.access .Write 0 16 4, .access .Read 0 80 4] = .ok cp ∧
      Along (Served (fun n v => n + v + 1) fun _ => 0) cp.log ∧
      (passed (fun n v => n + v + 1) (fun _ => 0) cp.log).data.below 16 = 1 := by
  obtain ⟨cp, hrun, hbelow⟩ : ∃ cp, runOps directMapped (fun _ => 0)
      [.access .Write 0 16 4, .access .Read 0 80 4] = .ok cp ∧
      (passed (fun n v => n + v + 1) (fun _ => 0) cp.log).data.below 16 = 1 := ⟨_, rfl, rfl⟩
  have hfits : directMapped.TagFits := by decide
  have hreads := reads_last_write hfits (fun _ => 0) (fun n v => n + v + 1) (fun _ => 0)
    [.access .Write 0 16 4, .access .Read 0 80 4]
  exact ⟨cp, hrun, (hreads.of_ok hrun).1, hbelow⟩

end CacheT

end Ece552.Cache
