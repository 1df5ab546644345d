import Ece552.Cache.Reads

/-!
# Two levels of data caches

The cache simulator gives its first-level data cache the function `dl1_access_fn`, which passes its
calls on to the second level. What the second level finds for each of these calls is what the first
level relies on, so that the two of them together are as transparent as one cache is, if the tags of
both fit. Read `two_levels_read_last_write` first. Random numbers are two separate inputs.
-/

namespace Ece552.Cache

open Library

variable {cfg cfg₁ cfg₂ : Config} {V : Type*}

/-! ## The simulator -/

namespace CacheT

/-- `dl1_access_fn`: the second level serves a call of the first one. -/
def dl1AccessFn (myrand : Nat → Nat) (dl2 : CacheT cfg₂) (pc : Addr) (cmd : MemCmd) (baddr : Addr)
    (bsize : Nat) (prefetch : Bool) : Except Fault (CacheT cfg₂) := do
  let dl2 ← dl2.accessBlock myrand cmd baddr (BitVec.ofNat 32 bsize) prefetch
  if prefetch then .ok dl2 else dl2.generatePrefetch myrand pc baddr

/-- What the second level does at an event of the first one. Write backs are no prefetches, also if
one of the first level makes them. -/
def serveCall (myrand : Nat → Nat) (pc : Addr) (prefetch : Bool) (dl2 : CacheT cfg₂) :
    Event cfg₁ → Except Fault (CacheT cfg₂)
  | .call .Read baddr bsize => dl2.dl1AccessFn myrand pc .Read baddr bsize prefetch
  | .call .Write baddr bsize => dl2.dl1AccessFn myrand pc .Write baddr bsize false
  | _ => .ok dl2

/-- The second level serves the calls among some events of the first one. -/
def serveCalls (myrand : Nat → Nat) (pc : Addr) (prefetch : Bool) (dl2 : CacheT cfg₂)
    (events : List (Event cfg₁)) : Except Fault (CacheT cfg₂) :=
  events.foldlM (serveCall myrand pc prefetch) dl2

end CacheT

/-- The data caches of the simulator. -/
structure DataCaches (cfg₁ cfg₂ : Config) where
  dl1 : CacheT cfg₁
  dl2 : CacheT cfg₂

/-- What the simulator does with its data caches: an access of an instruction, and the flushes
before a system call. -/
inductive DataOp where
  | access (cmd : MemCmd) (pc addr nbytes : Addr)
  | syscall (pc : Addr)

/-- The operation on the first level. -/
def DataOp.op : DataOp → Op
  | .access cmd pc addr nbytes => .access cmd pc addr nbytes
  | .syscall _ => .flush

namespace DataCaches

variable (myrand₁ myrand₂ : Nat → Nat)

/-- One operation: the second level serves the calls as the first level makes them. -/
def step (s : DataCaches cfg₁ cfg₂) : DataOp → Except Fault (DataCaches cfg₁ cfg₂)
  | .access cmd pc addr nbytes => do
      let dl1 ← s.dl1.accessBlock myrand₁ cmd addr nbytes false
      let dl2 ← s.dl2.serveCalls myrand₂ pc false (dl1.log.drop s.dl1.log.length)
      let dl1' ← dl1.generatePrefetch myrand₁ pc addr
      let dl2' ← dl2.serveCalls myrand₂ pc true (dl1'.log.drop dl1.log.length)
      .ok ⟨dl1', dl2'⟩
  | .syscall pc => do
      let dl1 ← s.dl1.cacheFlush
      let dl2 ← s.dl2.serveCalls myrand₂ pc false (dl1.log.drop s.dl1.log.length)
      let dl2' ← dl2.cacheFlush
      .ok ⟨dl1, dl2'⟩

/-- A run of the simulator. -/
def run (cfg₁ cfg₂ : Config) (ops : List DataOp) : Except Fault (DataCaches cfg₁ cfg₂) :=
  ops.foldlM (step myrand₁ myrand₂) ⟨cacheCreate cfg₁, cacheCreate cfg₂⟩

end DataCaches

/-! ## The second level -/

/-- The address of a write back. -/
def Event.writeBack? : Event cfg → Option Addr
  | .call .Write baddr _ => some baddr
  | _ => none

namespace CacheT

variable {cp cp' : CacheT cfg} {dl2 dl2' : CacheT cfg₂} {myrand : Nat → Nat} {cmd : MemCmd}
variable {pc addr baddr : Addr} {bsize : Nat} {prefetch : Bool}

/-- A prefetcher updates its table, and makes at most one access. -/
theorem Inv.generate_prefetch_ok (h : cp.Inv) (hok : cp.generatePrefetch myrand pc addr = .ok cp') :
    (cp.tableUpdated pc addr).Inv ∧ (cp' = cp.tableUpdated pc addr ∨
      cp'.Inv ∧ ∃ baddr, (cp.tableUpdated pc addr).Access .Read baddr true cp') := by
  rw [generate_prefetch_eq, bind_eq_ok] at hok
  obtain ⟨target, -, hprefetch⟩ := hok
  have htable := h.table_updated pc addr
  exact ⟨htable, htable.prefetch_option_ok hprefetch⟩

/-- The cache is right about all contents, and has served the writes to the given addresses. -/
structure Serves (V : Type*) (cp : CacheT cfg) (writes : List Addr) : Prop where
  inv : cp.Inv
  right : ∀ (store : Nat → V → V) (contents : Addr → V), cp.ReadsRight store contents
  writes : cp.log.filterMap Event.write? = writes

/-- A new cache has served nothing. -/
theorem serves_create : (cacheCreate cfg).Serves V [] :=
  ⟨inv_create, fun _ _ => reads_right_create, rfl⟩

variable {writes : List Addr}

/-- An access that is served is one of the program, if it is a write. -/
theorem Serves.access {nbytes : Addr} {fetch : Bool} (hfits : cfg.TagFits)
    (h : cp.Serves V writes)
    (hok : cp.accessBlock myrand cmd addr nbytes fetch = .ok cp') :
    cp'.Serves V (writes ++ if cmd = .Write then [addr] else []) := by
  obtain ⟨hinv, haccess⟩ := (access_block myrand cmd addr nbytes fetch h.inv).of_ok hok
  refine ⟨hinv, fun store contents => ?_, ?_⟩
  · exact (kept_reads_right hfits store contents).access cp cmd addr fetch cp' h.inv
      (h.right store contents) haccess
  · rw [haccess.writes, h.writes]

/-- Prefetches are no writes of the program. -/
theorem Serves.generate_prefetch (hfits : cfg.TagFits) (h : cp.Serves V writes)
    (hok : cp.generatePrefetch myrand pc addr = .ok cp') : cp'.Serves V writes := by
  obtain ⟨htable, hprefetch⟩ := h.inv.generate_prefetch_ok hok
  have hlog : (cp.tableUpdated pc addr).log = cp.log := by rw [table_updated_eq]
  have hupdated : (cp.tableUpdated pc addr).Serves V writes := by
    refine ⟨htable, fun store contents => ?_, ?_⟩
    · rw [table_updated_eq]
      exact predicts_reads_right store contents cp _ (h.right store contents)
    · rw [hlog]
      exact h.writes
  rcases hprefetch with rfl | ⟨hinv, baddr, hread⟩
  · exact hupdated
  · refine ⟨hinv, fun store contents => ?_, ?_⟩
    · exact (kept_reads_right hfits store contents).access _ .Read baddr true cp' htable
        (hupdated.right store contents) hread
    · rw [hread.writes, hupdated.writes]
      exact List.append_nil _

/-- A flush serves nothing. -/
theorem Serves.flush (hfits : cfg.TagFits) (h : cp.Serves V writes)
    (hok : cp.cacheFlush = .ok cp') : cp'.Serves V writes := by
  refine ⟨?_, fun store contents => ?_, ?_⟩
  · exact ((kept_true.by_flush.cache_flush h.inv trivial).of_ok hok).1
  · exact (((kept_reads_right hfits store contents).by_flush.cache_flush h.inv
      (h.right store contents)).of_ok hok).2
  · exact ((kept_writes cfg writes).cache_flush h.inv h.writes |>.of_ok hok).2

/-- The second level serves an access as its own. -/
theorem Serves.dl1_access_fn (hfits : cfg₂.TagFits) (h : dl2.Serves V writes)
    (hok : dl2.dl1AccessFn myrand pc cmd baddr bsize prefetch = .ok dl2') :
    dl2'.Serves V (writes ++ if cmd = .Write then [baddr] else []) := by
  obtain ⟨mid, haccess, hrest⟩ := bind_eq_ok.mp hok
  have hmid := h.access hfits haccess
  split at hrest
  · obtain rfl := Except.ok.inj hrest
    exact hmid
  · exact hmid.generate_prefetch hfits hrest

/-- Step lemma: the second level serves an event of the first one. -/
theorem Serves.serve_call {e : Event cfg₁} (hfits : cfg₂.TagFits) (h : dl2.Serves V writes)
    (hok : serveCall myrand pc prefetch dl2 e = .ok dl2') :
    dl2'.Serves V (writes ++ e.writeBack?.toList) := by
  cases e with
  | call cmd baddr bsize =>
      cases cmd with
      | Read => exact h.dl1_access_fn hfits hok
      | Write => exact h.dl1_access_fn hfits hok
  | fill p addr | serve p cmd addr | drop p =>
      obtain rfl := Except.ok.inj hok
      exact (List.append_nil writes).symm ▸ h

/-- Run lemma: the second level has served what the first one has written back. -/
theorem Serves.serve_calls {events : List (Event cfg₁)} (hfits : cfg₂.TagFits)
    (h : dl2.Serves V writes)
    (hok : dl2.serveCalls myrand pc prefetch events = .ok dl2') :
    dl2'.Serves V (writes ++ events.filterMap Event.writeBack?) := by
  induction events generalizing dl2 writes with
  | nil =>
      obtain rfl := Except.ok.inj hok
      exact (List.append_nil writes).symm ▸ h
  | cons e events ih =>
      rw [serveCalls, List.foldlM_cons, bind_eq_ok] at hok
      obtain ⟨mid, hfirst, hrest⟩ := hok
      have hserves := ih (h.serve_call hfits hfirst) hrest
      rw [List.append_assoc] at hserves
      cases hback : e.writeBack? with
      | none =>
          rw [hback] at hserves
          rwa [List.filterMap_cons_none hback]
      | some b =>
          rw [hback] at hserves
          rwa [List.filterMap_cons_some hback]

/-! ## The first level -/

/-- An access is recorded behind what was. -/
theorem Access.extends {fetch : Bool} (haccess : cp.Access cmd addr fetch cp') :
    cp.log <+: cp'.log := by
  rcases haccess with ⟨way, hhit⟩ | ⟨way, hmiss⟩
  · exact ⟨_, hhit.log.symm⟩
  · exact ⟨_, (hmiss.log.trans (List.append_assoc ..)).symm⟩

/-- Accesses and flushes are recorded behind what was. -/
theorem kept_extends (log : List (Event cfg)) :
    KeptByFlush fun cp : CacheT cfg => log <+: cp.log := by
  refine ⟨fun cp p _ h _ => ?_, fun cp cp' h _ _ hlog _ => hlog.symm ▸ h⟩
  rw [invalidate_log]
  exact h.trans (List.prefix_append _ _)

/-- Prefetches are recorded behind what was. -/
theorem Inv.generate_prefetch_extends (h : cp.Inv)
    (hok : cp.generatePrefetch myrand pc addr = .ok cp') : cp.log <+: cp'.log := by
  obtain ⟨-, hprefetch⟩ := h.generate_prefetch_ok hok
  have hlog : (cp.tableUpdated pc addr).log = cp.log := by rw [table_updated_eq]
  rw [← hlog]
  rcases hprefetch with rfl | ⟨-, baddr, hread⟩
  · exact List.prefix_refl _
  · exact hread.extends

end CacheT

/-! ## Both levels -/

namespace DataCaches

variable {myrand₁ myrand₂ : Nat → Nat} {s s' : DataCaches cfg₁ cfg₂} {ops : List DataOp}

/-- The second level is right about all contents, and has served the write backs of the first. -/
structure Linked (V : Type*) (s : DataCaches cfg₁ cfg₂) : Prop where
  inv : s.dl1.Inv
  serves : s.dl2.Serves V (s.dl1.log.filterMap Event.writeBack?)

/-- What was written back comes before what is. -/
theorem filter_map_extends {log log' : List (Event cfg₁)} (h : log <+: log') :
    log.filterMap Event.writeBack? ++ (log'.drop log.length).filterMap Event.writeBack? =
      log'.filterMap Event.writeBack? := by
  obtain ⟨more, rfl⟩ := h
  rw [List.drop_left, List.filterMap_append]

/-- Step lemma: an operation keeps the levels linked, and is one of the first level. -/
theorem Linked.step (hfits : cfg₂.TagFits) (h : s.Linked V) {op : DataOp}
    (hok : s.step myrand₁ myrand₂ op = .ok s') :
    s.dl1.apply myrand₁ op.op = .ok s'.dl1 ∧ s'.Linked V := by
  cases op with
  | access cmd pc addr nbytes =>
      obtain ⟨dl1, haccess, hok⟩ := bind_eq_ok.mp hok
      obtain ⟨dl2, hcalls, hok⟩ := bind_eq_ok.mp hok
      obtain ⟨dl1', hprefetch, hok⟩ := bind_eq_ok.mp hok
      obtain ⟨dl2', hcalls', hok⟩ := bind_eq_ok.mp hok
      obtain rfl := Except.ok.inj hok
      obtain ⟨hinv, heffect⟩ := (CacheT.access_block myrand₁ cmd addr nbytes false h.inv).of_ok
        haccess
      have happly : s.dl1.cacheAccess myrand₁ pc addr cmd nbytes = .ok dl1' :=
        bind_eq_ok.mpr ⟨dl1, haccess, hprefetch⟩
      have hserves := h.serves.serve_calls hfits hcalls
      rw [filter_map_extends heffect.extends] at hserves
      have hserves' := hserves.serve_calls hfits hcalls'
      rw [filter_map_extends (hinv.generate_prefetch_extends hprefetch)] at hserves'
      exact ⟨happly, (h.inv.cache_access_counts happly).1, hserves'⟩
  | syscall pc =>
      obtain ⟨dl1, hflush, hok⟩ := bind_eq_ok.mp hok
      obtain ⟨dl2, hcalls, hok⟩ := bind_eq_ok.mp hok
      obtain ⟨dl2', hflush', hok⟩ := bind_eq_ok.mp hok
      obtain rfl := Except.ok.inj hok
      obtain ⟨hinv, hextends⟩ := ((CacheT.kept_extends s.dl1.log).cache_flush h.inv
        (List.prefix_refl _)).of_ok hflush
      have hserves := h.serves.serve_calls hfits hcalls
      rw [filter_map_extends hextends] at hserves
      exact ⟨hflush, hinv, hserves.flush hfits hflush'⟩

/-- Run lemma: the levels are linked, and the first one runs as it does by itself. -/
theorem linked_of_run (hfits : cfg₂.TagFits)
    (hrun : run myrand₁ myrand₂ cfg₁ cfg₂ ops = .ok s) :
    runOps cfg₁ myrand₁ (ops.map DataOp.op) = .ok s.dl1 ∧ s.Linked V := by
  induction ops using List.reverseRecOn generalizing s with
  | nil =>
      obtain rfl := Except.ok.inj hrun
      exact ⟨rfl, CacheT.inv_create, CacheT.serves_create⟩
  | append_singleton ops op ih =>
      obtain ⟨s₀, hrun₀, hok⟩ := foldlM_concat_ok.mp hrun
      obtain ⟨hfirst, hlinked⟩ := ih hrun₀
      obtain ⟨happly, hlinked'⟩ := hlinked.step hfits hok
      refine ⟨?_, hlinked'⟩
      rw [List.map_append]
      exact (CacheT.run_ops_concat_ok myrand₁).mpr ⟨s₀.dl1, hfirst, happly⟩

end DataCaches

/-! ## The contents -/

variable {store : Nat → V → V} {contents : Addr → V}

/-- What an event gives to the level below: the address of a block and its contents. -/
def Passing.given (d : Passing cfg V) : Event cfg → List (Addr × V)
  | .call .Write baddr _ => (d.dropped.map fun p => (baddr, d.data.copies p)).toList
  | _ => []

/-- The contents after an event, and what was given to the level below so far. -/
def Passing.collect (store : Nat → V → V) (s : Passing cfg V × List (Addr × V)) (e : Event cfg) :
    Passing cfg V × List (Addr × V) :=
  (s.1.pass store e, s.2 ++ s.1.given e)

/-- The blocks that are written back along a log, with their contents. -/
def writeBacks (store : Nat → V → V) (contents : Addr → V) (log : List (Event cfg)) :
    List (Addr × V) :=
  (log.foldl (Passing.collect store) (⟨.start contents fun _ => contents 0, none⟩, [])).2

/-- What the `n`-th write does to a block of the second level: it changes the contents of that block
of the first level that is written back. -/
def storeBack (backs : List (Addr × V)) (n : Nat) (block : Addr → V) : Addr → V :=
  match backs[n]? with
  | some (baddr, v) => Function.update block baddr v
  | none => block

/-- The data that is collected passes on the way. -/
theorem collect_fst (store : Nat → V → V) (contents : Addr → V) (log : List (Event cfg)) :
    (log.foldl (Passing.collect store) (⟨.start contents fun _ => contents 0, none⟩, [])).1 =
      passed store contents log := by
  induction log using List.reverseRecOn with
  | nil => rfl
  | append_singleton log e ih =>
      rw [List.foldl_append, passed_append, ← ih]
      rfl

/-- The last event gives up a block, or not. -/
theorem write_backs_concat (log : List (Event cfg)) (e : Event cfg) :
    writeBacks store contents (log ++ [e]) =
      writeBacks store contents log ++ (passed store contents log).given e := by
  rw [writeBacks, List.foldl_append, ← collect_fst, writeBacks]
  rfl

/-- The memory below has got what was written back. -/
theorem below_eq (store : Nat → V → V) (contents : Addr → V) (log : List (Event cfg)) :
    (passed store contents log).data.below =
      (writeBacks store contents log).foldl (fun m w => Function.update m w.1 w.2) contents := by
  induction log using List.reverseRecOn with
  | nil => rfl
  | append_singleton log e ih =>
      rw [write_backs_concat, List.foldl_append, ← ih, passed_append]
      cases e with
      | fill p addr | drop p => rfl
      | serve p cmd addr => cases cmd <;> rfl
      | call cmd baddr size =>
          cases cmd with
          | Read => rfl
          | Write =>
              show ((passed store contents log).giveBack baddr).data.below =
                ((passed store contents log).dropped.map fun p =>
                  (baddr, (passed store contents log).data.copies p)).toList.foldl _ _
              unfold Passing.giveBack
              cases (passed store contents log).dropped <;> rfl

/-- Every write back follows the drop of a block. -/
def AfterDrop (pre : List (Event cfg)) (e : Event cfg) : Prop :=
  e.isWriteBack = true → ∃ pre' p, pre = pre' ++ [.drop p]

/-- What is lawful is written back after it was dropped. -/
theorem after_drop_of_lawful {log : List (Event cfg)} (h : Throughout Lawful log) :
    Along AfterDrop log := by
  intro pre e post hlog hback
  have hlaw := h pre e post hlog
  cases e with
  | fill p addr | serve p cmd addr | drop p => exact absurd hback Bool.false_ne_true
  | call cmd baddr size =>
      cases cmd with
      | Read => exact absurd hback Bool.false_ne_true
      | Write =>
          obtain ⟨pre', p, hpre, -⟩ := hlaw
          exact ⟨pre', p, hpre⟩

/-- The addresses of the data are those of the write backs. -/
theorem addresses_of_write_backs {log : List (Event cfg)} (h : Along AfterDrop log) :
    (writeBacks store contents log).map Prod.fst = log.filterMap Event.writeBack? := by
  induction log using List.reverseRecOn with
  | nil => rfl
  | append_singleton log e ih =>
      obtain ⟨hlog, he⟩ := along_concat.mp h
      rw [write_backs_concat, List.map_append, ih hlog, List.filterMap_append]
      refine congrArg (_ ++ ·) ?_
      cases e with
      | fill p addr | serve p cmd addr | drop p => rfl
      | call cmd baddr size =>
          cases cmd with
          | Read => rfl
          | Write =>
              obtain ⟨pre, p, rfl⟩ := he rfl
              have hdropped : (passed store contents (pre ++ [.drop p])).dropped = some p := by
                rw [passed_append]
                rfl
              unfold Passing.given
              rw [hdropped]
              rfl

/-- A memory that takes the first write backs in its own blocks has the contents of a memory that
takes them one by one. -/
theorem plain_of_write_backs (cfg : Config) (contents : Addr → V)
    {backs done rest : List (Addr × V)} (h : backs = done ++ rest) :
    ((done.map Prod.fst).foldl (writePlain cfg (storeBack backs)) (fun _ => contents, 0)).2 =
        done.length ∧
      ∀ b, plainMemory cfg (storeBack backs) (fun _ => contents) (done.map Prod.fst)
          (cfg.cacheBaddr b) b =
        done.foldl (fun m w => Function.update m w.1 w.2) contents b := by
  induction done using List.reverseRecOn generalizing rest with
  | nil => exact ⟨rfl, fun _ => rfl⟩
  | append_singleton done w ih =>
      rw [List.append_assoc] at h
      obtain ⟨hcount, hplain⟩ := ih h
      have hback : backs[done.length]? = some w := by
        rw [h]
        simp
      unfold plainMemory at hplain ⊢
      rw [List.map_append, List.foldl_append, List.foldl_append]
      generalize (done.map Prod.fst).foldl (writePlain cfg (storeBack backs)) (fun _ => contents, 0)
        = m at hcount hplain ⊢
      have hstore : storeBack backs m.2 (m.1 (cfg.cacheBaddr w.1)) =
          Function.update (m.1 (cfg.cacheBaddr w.1)) w.1 w.2 := by
        rw [storeBack, hcount, hback]
      refine ⟨?_, fun b => ?_⟩
      · show m.2 + 1 = _
        rw [hcount, List.length_append, List.length_singleton]
      · show Function.update m.1 (cfg.cacheBaddr w.1)
          (storeBack backs m.2 (m.1 (cfg.cacheBaddr w.1))) (cfg.cacheBaddr b) b =
            Function.update (done.foldl _ contents) w.1 w.2 b
        rw [hstore]
        by_cases hblock : cfg.cacheBaddr b = cfg.cacheBaddr w.1
        · rw [hblock, Function.update_self]
          by_cases hb : b = w.1
          · rw [hb, Function.update_self, Function.update_self]
          · rw [Function.update_of_ne hb, Function.update_of_ne hb, ← hplain b, hblock]
        · have hb : b ≠ w.1 := fun heq => hblock (heq ▸ rfl)
          rw [Function.update_of_ne hblock, Function.update_of_ne hb, hplain b]

/-- The write backs along a part of a log are the first ones. -/
theorem write_backs_extends (store : Nat → V → V) (contents : Addr → V) {pre log : List (Event cfg)}
    (h : pre <+: log) :
    ∃ rest, writeBacks store contents log = writeBacks store contents pre ++ rest := by
  obtain ⟨more, rfl⟩ := h
  induction more using List.reverseRecOn with
  | nil => exact ⟨[], by rw [List.append_nil, List.append_nil]⟩
  | append_singleton more e ih =>
      obtain ⟨rest, hrest⟩ := ih
      rw [← List.append_assoc, write_backs_concat, hrest, List.append_assoc]
      exact ⟨_, rfl⟩

/-! ## Main result -/

/-- The write of an operation of the simulator. -/
def DataOp.write? (op : DataOp) : Option Addr := op.op.write?

/-- The second level gives the first one what it expects of memory. -/
theorem below_eq_second_level (cfg₂ : Config) (store : Nat → V → V) (contents : Addr → V)
    {pre log : List (Event cfg₁)} (hlog : Along AfterDrop log) (hpre : pre <+: log) (b : Addr) :
    (passed store contents pre).data.below b =
      plainMemory cfg₂ (storeBack (writeBacks store contents log)) (fun _ => contents)
        (pre.filterMap Event.writeBack?) (cfg₂.cacheBaddr b) b := by
  obtain ⟨rest, hrest⟩ := write_backs_extends store contents hpre
  have hdrops : Along AfterDrop pre := by
    obtain ⟨more, rfl⟩ := hpre
    intro before e after heq
    refine hlog before e (after ++ more) ?_
    rw [heq, List.append_assoc, List.cons_append]
  rw [below_eq, ← addresses_of_write_backs hdrops]
  exact ((plain_of_write_backs cfg₂ contents hrest).2 b).symm

variable {myrand₁ myrand₂ : Nat → Nat} {ops : List DataOp} {s : DataCaches cfg₁ cfg₂}

/-- If the tags of both levels fit, two levels are as transparent as one. Every access of the
program finds the contents that a memory without caches would have after the writes before it, if
the first level gets what it reads below; the second level has served its write backs in their
order, and has at each point of the run what the first level then reads. At the end memory has what
the program has written, for all blocks without a dirty copy in either level. -/
theorem two_levels_read_last_write (hfits₁ : cfg₁.TagFits) (hfits₂ : cfg₂.TagFits)
    (hrun : DataCaches.run myrand₁ myrand₂ cfg₁ cfg₂ ops = .ok s)
    (store : Nat → V → V) (contents : Addr → V) :
    let backs := storeBack (writeBacks store contents s.dl1.log)
    Along (Served store contents) s.dl1.log ∧
    s.dl1.log.filterMap Event.write? = ops.filterMap DataOp.write? ∧
    Along (Served backs fun _ => contents) s.dl2.log ∧
    s.dl2.log.filterMap Event.write? = s.dl1.log.filterMap Event.writeBack? ∧
    (∀ pre, pre <+: s.dl1.log → ∀ b, (passed store contents pre).data.below b =
      plainMemory cfg₂ backs (fun _ => contents) (pre.filterMap Event.writeBack?)
        (cfg₂.cacheBaddr b) b) ∧
    ∀ b, (∀ p, (s.dl1.blk p).valid = true → (s.dl1.blk p).dirty = true →
        CacheT.address p (s.dl1.blk p) ≠ b) →
      (∀ p, (s.dl2.blk p).valid = true → (s.dl2.blk p).dirty = true →
        CacheT.address p (s.dl2.blk p) ≠ cfg₂.cacheBaddr b) →
      (passed backs (fun _ => contents) s.dl2.log).data.below (cfg₂.cacheBaddr b) b =
        plainMemory cfg₁ store contents (ops.filterMap DataOp.write?) b := by
  intro backs
  obtain ⟨hfirst, hlinked⟩ := DataCaches.linked_of_run (V := Addr → V) hfits₂ hrun
  have hright₁ : s.dl1.ReadsRight store contents :=
    (CacheT.reads_right_of_run hfits₁ myrand₁ store contents _).of_ok hfirst
  have hright₂ := hlinked.serves.right backs fun _ => contents
  have hwrites : s.dl1.log.filterMap Event.write? = ops.filterMap DataOp.write? := by
    rw [CacheT.writes_of_run hfirst, List.filterMap_map]
    rfl
  have hlogged : s.dl1.Inv ∧ s.dl1.Logged :=
    ((CacheT.kept_logged hfits₁).run_ops myrand₁ CacheT.predicts_logged
      CacheT.logged_create _).of_ok hfirst
  have hdrops : Along AfterDrop s.dl1.log := after_drop_of_lawful hlogged.2.lawful
  have hbelow := fun {pre} (hpre : pre <+: s.dl1.log) b =>
    below_eq_second_level cfg₂ store contents hdrops hpre b
  refine ⟨hright₁.served, hwrites, hright₂.served, hlinked.serves.writes,
    fun pre hpre b => hbelow hpre b, fun b hclean₁ hclean₂ => ?_⟩
  rw [hright₂.below_eq hclean₂, hlinked.serves.writes]
  exact (hbelow (List.prefix_refl _) b).symm.trans (hwrites ▸ hright₁.below_eq hclean₁)

/-- A write and then an access that puts its block out of both levels. -/
theorem two_levels_read_last_write_of_two :
    ∃ s, DataCaches.run (fun _ => 0) (fun _ => 0) directMapped directMapped
        [.access .Write 0 16 4, .access .Read 0 80 4] = .ok s ∧
      s.dl2.log.filterMap Event.write? = s.dl1.log.filterMap Event.writeBack? := by
  have hrun : ∃ s, DataCaches.run (fun _ => 0) (fun _ => 0) directMapped directMapped
      [.access .Write 0 16 4, .access .Read 0 80 4] = .ok s := ⟨_, rfl⟩
  obtain ⟨s, hs⟩ := hrun
  have hfits : directMapped.TagFits := by decide
  exact ⟨s, hs, (two_levels_read_last_write hfits hfits hs (fun n _ => n) fun _ => 0).2.2.2.1⟩

end Ece552.Cache
