import Ece552.Cache.Runs

/-!
# The reference prediction table

The table keeps one history for each instruction: the entry of an index is that of the instruction
that used the index last, after the addresses that it has accessed since it took the entry over.
-/

namespace Ece552.Cache

open Library

variable {cfg : Config}

/-! ## Indices and tags -/

/-- The bits of the tag of an instruction. -/
theorem rpt_tag_bit (cfg : Config) (pc : Addr) (i : Nat) :
    (cfg.rptTag pc).getLsbD i = pc.getLsbD ((INDEX_OFFSET + Nat.log2 cfg.rptSize) % 32 + i) := by
  rw [Config.rptTag, BitVec.getLsbD_ushiftRight]

/-- The size of the table is a power of two that fits into an address. -/
structure TableSize (cfg : Config) : Prop where
  prefetcher : 2 ≤ cfg.prefetchType
  power : cfg.rptSize &&& (cfg.rptSize - 1) = 0

/-- A table has fewer than 2^31 entries. -/
theorem rpt_size_lt (cfg : Config) : cfg.rptSize < 2 ^ 31 := by
  have hlt := cfg.prefetch_type_lt
  rw [Config.rptSize]
  split
  · decide
  · exact hlt

/-- A table has an entry. -/
theorem TableSize.pos (h : TableSize cfg) : 0 < cfg.rptSize := by
  have hprefetcher := h.prefetcher
  rw [Config.rptSize]
  split
  · decide
  · omega

/-- The mask has the bits of an index. -/
theorem TableSize.mask_bit (h : TableSize cfg) (i : Nat) :
    (BitVec.ofNat 32 (cfg.rptSize - 1)).getLsbD i = decide (i < Nat.log2 cfg.rptSize) := by
  have heq := Config.eq_two_pow ⟨h.pos, h.power⟩
  have hlt := rpt_size_lt cfg
  rw [heq] at hlt
  have hlog : Nat.log2 cfg.rptSize < 31 := (Nat.pow_lt_pow_iff_right (by decide)).mp hlt
  rw [heq, BitVec.getLsbD_ofNat, Nat.testBit_two_pow_sub_one, Nat.log2_two_pow, Bool.eq_iff_iff,
    Bool.and_eq_true, decide_eq_true_eq, decide_eq_true_eq]
  omega

/-- The address of an instruction of 8 bytes. -/
def Aligned (pc : Addr) : Prop := pc.toNat % 8 = 0

/-- The lowest bits of an aligned address are zero. -/
theorem Aligned.bit {pc : Addr} (h : Aligned pc) {i : Nat} (hi : i < 3) : pc.getLsbD i = false := by
  have hmod := Nat.testBit_mod_two_pow pc.toNat 3 i
  rw [show pc.toNat % 2 ^ 3 = 0 from h, Nat.zero_testBit, decide_eq_true hi, Bool.true_and] at hmod
  exact hmod.symm

/-- An instruction is determined by its index and its tag. -/
theorem TableSize.pc_eq (h : TableSize cfg) {pc pc' : Addr} (hpc : Aligned pc) (hpc' : Aligned pc')
    (hindex : cfg.rptIndex pc = cfg.rptIndex pc') (htag : cfg.rptTag pc = cfg.rptTag pc') :
    pc = pc' := by
  refine BitVec.eq_of_getLsbD_eq fun i hi => ?_
  by_cases hlow : i < 3
  · rw [hpc.bit hlow, hpc'.bit hlow]
  · by_cases hmid : i < INDEX_OFFSET + Nat.log2 cfg.rptSize
    · have hbits := congrArg (fun v => BitVec.getLsbD v (i - INDEX_OFFSET))
        (BitVec.eq_of_toNat_eq hindex)
      have hadd : INDEX_OFFSET + (i - INDEX_OFFSET) = i := by
        show 3 + (i - 3) = i
        omega
      have hlt : i - INDEX_OFFSET < Nat.log2 cfg.rptSize := by
        show i - 3 < _
        have hmid' : i < 3 + Nat.log2 cfg.rptSize := hmid
        omega
      simpa [BitVec.getLsbD_and, BitVec.getLsbD_ushiftRight, h.mask_bit, hadd, hlt] using hbits
    · have hbits := congrArg
        (fun v => BitVec.getLsbD v (i - (INDEX_OFFSET + Nat.log2 cfg.rptSize))) htag
      -- there are bits above the index only if the shift is less than the width
      have hshift : (INDEX_OFFSET + Nat.log2 cfg.rptSize) % 32 =
          INDEX_OFFSET + Nat.log2 cfg.rptSize := Nat.mod_eq_of_lt (by omega)
      have hadd : INDEX_OFFSET + Nat.log2 cfg.rptSize +
          (i - (INDEX_OFFSET + Nat.log2 cfg.rptSize)) = i := by omega
      simpa [rpt_tag_bit, hshift, hadd] using hbits

/-! ## Histories -/

/-- The entry of an instruction with a tag, after the addresses that it has accessed since it took
the entry over. -/
def ownEntry (tag : Addr) : List Addr → RptEntry
  | [] => {}
  | first :: rest => rest.foldl RptEntry.update (.takeOver tag first)

/-- The addresses that an instruction has accessed since it took the entry over. The history of the
entry begins with the latest access. -/
def ownAddrs (pc : Addr) (history : List (Addr × Addr)) : List Addr :=
  ((history.takeWhile fun a => a.1 == pc).map Prod.snd).reverse

/-- The entry with a history. -/
def entryOf (cfg : Config) : List (Addr × Addr) → RptEntry
  | [] => {}
  | (pc, addr) :: older => ownEntry (cfg.rptTag pc) (ownAddrs pc ((pc, addr) :: older))

/-- The entry of an instruction follows its addresses. -/
theorem own_entry_concat {tag addr : Addr} {addrs : List Addr} (h : addrs ≠ []) :
    ownEntry tag (addrs ++ [addr]) = (ownEntry tag addrs).update addr := by
  obtain ⟨first, rest, rfl⟩ := List.exists_cons_of_ne_nil h
  show (rest ++ [addr]).foldl RptEntry.update _ = _
  rw [List.foldl_append]
  rfl

/-- An update keeps the tag. -/
theorem update_tag (e : RptEntry) (addr : Addr) : (e.update addr).tag = e.tag := by
  rw [RptEntry.update]
  split <;> rfl

/-- The entry of an instruction has its tag. -/
theorem own_entry_tag {tag : Addr} {addrs : List Addr} (h : addrs ≠ []) :
    (ownEntry tag addrs).tag = tag := by
  induction addrs using List.reverseRecOn with
  | nil => exact absurd rfl h
  | append_singleton addrs addr ih =>
      by_cases hnil : addrs = []
      · rw [hnil]
        rfl
      · rw [own_entry_concat hnil, update_tag, ih hnil]

variable {pc addr : Addr} {history : List (Addr × Addr)}

/-- The last address is behind the others. -/
theorem own_addrs_cons (pc addr : Addr) (history : List (Addr × Addr)) :
    ownAddrs pc ((pc, addr) :: history) = ownAddrs pc history ++ [addr] := by
  rw [ownAddrs, List.takeWhile_cons_of_pos (by simp), List.map_cons, List.reverse_cons,
    ownAddrs]

/-- The tag of an entry is that of the instruction that used it last. -/
theorem entry_of_tag (cfg : Config) (pc addr : Addr) (older : List (Addr × Addr)) :
    (entryOf cfg ((pc, addr) :: older)).tag = cfg.rptTag pc := by
  rw [entryOf, own_addrs_cons]
  exact own_entry_tag (by simp)

/-- What an access does to the entry with a history. -/
theorem entry_of_cons (h : TableSize cfg) (hpc : Aligned pc) (htag : cfg.rptTag pc ≠ 0)
    (hhistory : ∀ a ∈ history, Aligned a.1 ∧ cfg.rptIndex a.1 = cfg.rptIndex pc) :
    entryOf cfg ((pc, addr) :: history) =
      if (entryOf cfg history).tag ≠ cfg.rptTag pc then .takeOver (cfg.rptTag pc) addr
      else (entryOf cfg history).update addr := by
  have hcons : entryOf cfg ((pc, addr) :: history) =
      ownEntry (cfg.rptTag pc) (ownAddrs pc history ++ [addr]) := by
    rw [entryOf, own_addrs_cons]
  rw [hcons]
  cases history with
  | nil =>
      rw [if_pos fun heq => htag heq.symm]
      rfl
  | cons a older =>
      obtain ⟨pc', addr'⟩ := a
      obtain ⟨hpc', hindex⟩ := hhistory _ List.mem_cons_self
      rw [entry_of_tag]
      by_cases hown : pc' = pc
      · subst hown
        have hne : ownAddrs pc' ((pc', addr') :: older) ≠ [] := by
          rw [own_addrs_cons]
          simp
        rw [if_neg (not_not.mpr rfl), own_entry_concat hne]
        rfl
      · have hother : ownAddrs pc ((pc', addr') :: older) = [] := by
          rw [ownAddrs, List.takeWhile_cons_of_neg (by simpa using hown)]
          rfl
        rw [hother, if_pos fun heq => hown (h.pc_eq hpc' hpc hindex heq)]
        rfl

/-! ## Runs -/

/-- The access of an operation, if it is for an entry. -/
def Op.accessAt (cfg : Config) (index : Nat) : Op → Option (Addr × Addr)
  | .access _ pc addr _ => if cfg.rptIndex pc = index then some (pc, addr) else none
  | .flush | .flushAddr _ => none

/-- The accesses to an entry, the latest one first. -/
def historyAt (cfg : Config) (index : Nat) (ops : List Op) : List (Addr × Addr) :=
  (ops.filterMap (Op.accessAt cfg index)).reverse

/-- The instruction has an aligned address and a tag that is not 0. -/
def Op.Tagged (cfg : Config) : Op → Prop
  | .access _ pc _ _ => Aligned pc ∧ cfg.rptTag pc ≠ 0
  | .flush | .flushAddr _ => True

/-- The last access is one at the index, or not. -/
theorem history_at_concat (cfg : Config) (index : Nat) (ops : List Op) (op : Op) :
    historyAt cfg index (ops ++ [op]) =
      (op.accessAt cfg index).toList ++ historyAt cfg index ops := by
  rw [historyAt, List.filterMap_append, List.reverse_append, historyAt]
  cases h : op.accessAt cfg index <;> simp [h]

/-- The accesses at an index are aligned, and theirs is the index. -/
theorem history_at_tagged {ops : List Op} (h : ∀ op ∈ ops, op.Tagged cfg) {index : Nat}
    {a : Addr × Addr} (ha : a ∈ historyAt cfg index ops) :
    Aligned a.1 ∧ cfg.rptIndex a.1 = index := by
  rw [historyAt, List.mem_reverse, List.mem_filterMap] at ha
  obtain ⟨op, hop, ha⟩ := ha
  cases op with
  | access cmd pc addr nbytes =>
      rw [Op.accessAt] at ha
      by_cases hindex : cfg.rptIndex pc = index
      · rw [if_pos hindex] at ha
        obtain rfl := Option.some.inj ha
        exact ⟨(h _ hop).1, hindex⟩
      · rw [if_neg hindex] at ha
        exact nomatch ha
  | flush => exact nomatch ha
  | flushAddr addr => exact nomatch ha

namespace CacheT

variable {cp cp' : CacheT cfg} {myrand : Nat → Nat} {cmd : MemCmd} {nbytes : Addr}
variable {ops : List Op}

/-- Accesses, prefetches and flushes leave the table alone. -/
theorem kept_rpt (table : Nat → RptEntry) : Kept fun cp : CacheT cfg => cp.rpt = table := by
  refine ⟨fun cp cmd addr fetch cp' _ h haccess => ?_, fun cp p _ h _ => ?_,
    fun cp cp' h _ _ _ hrpt => hrpt.trans h⟩
  · rcases haccess with ⟨way, hhit⟩ | ⟨way, hmiss⟩
    · exact hhit.rpt.trans h
    · exact hmiss.rpt.trans h
  · rw [invalidate_eq]
    exact h

/-- The table after an access of an instruction. -/
theorem update_rpt_table (cp : CacheT cfg) (pc addr : Addr) : (cp.updateRpt pc addr).2.2.rpt =
    Function.update cp.rpt (cfg.rptIndex pc)
      (if (cp.rpt (cfg.rptIndex pc)).tag ≠ cfg.rptTag pc then .takeOver (cfg.rptTag pc) addr
      else (cp.rpt (cfg.rptIndex pc)).update addr) := by
  rw [updateRpt]
  split <;> rfl

/-- An access updates the entry of its instruction, whatever it prefetches. -/
theorem rpt_of_access (hprefetcher : 2 ≤ cfg.prefetchType) (h : cp.Inv)
    (hok : cp.apply myrand (.access cmd pc addr nbytes) = .ok cp') :
    cp'.rpt = (cp.updateRpt pc addr).2.2.rpt := by
  have haccess := (kept_rpt cp.rpt).access_block myrand h rfl cmd addr nbytes false
  have hresult : Ensures Outside (fun cp' : CacheT cfg => cp'.Inv ∧
      cp'.rpt = (cp.updateRpt pc addr).2.2.rpt)
      (cp.accessBlock myrand cmd addr nbytes false >>= fun cp =>
        cp.generatePrefetch myrand pc addr) := by
    refine haccess.bind fun cp₁ ⟨hinv, hrpt⟩ => ?_
    refine ((kept_rpt _).fetches myrand).generate_prefetch pc addr (fun hlt => by omega) fun _ => ?_
    refine ⟨hinv.update_rpt pc addr, ?_⟩
    rw [update_rpt_table, update_rpt_table, hrpt]
  exact (hresult.of_ok hok).2

/-- A flush leaves the table alone. -/
theorem rpt_of_flush (h : cp.Inv) {op : Op} (hop : ∀ index, op.accessAt cfg index = none)
    (hok : cp.apply myrand op = .ok cp') : cp'.rpt = cp.rpt := by
  cases op with
  | access cmd pc addr nbytes =>
      have hsome := hop (cfg.rptIndex pc)
      rw [Op.accessAt, if_pos rfl] at hsome
      exact nomatch hsome
  | flush => exact (((kept_rpt cp.rpt).by_flush.cache_flush h rfl).of_ok hok).2
  | flushAddr addr => exact (((kept_rpt cp.rpt).by_flush.cache_flush_addr h rfl addr).of_ok hok).2

/-- After every run, the entry of an index is that of its history. -/
theorem rpt_of_run (hsize : TableSize cfg) (h : ∀ op ∈ ops, op.Tagged cfg)
    (hrun : runOps cfg myrand ops = .ok cp) (index : Nat) :
    cp.rpt index = entryOf cfg (historyAt cfg index ops) := by
  induction ops using List.reverseRecOn generalizing cp with
  | nil =>
      obtain rfl : cacheCreate cfg = cp := Except.ok.inj hrun
      rfl
  | append_singleton ops op ih =>
      obtain ⟨cp₀, hrun₀, hok⟩ := (run_ops_concat_ok myrand).mp hrun
      have hops : ∀ op' ∈ ops, op'.Tagged cfg := fun op' hop' => h op' (List.mem_append_left _ hop')
      have hop : op.Tagged cfg := h op (List.mem_append_right _ List.mem_cons_self)
      have hinv := Inv.of_run myrand hrun₀
      have hentry := ih hops hrun₀
      rw [history_at_concat]
      cases op with
      | access cmd pc addr nbytes =>
          rw [rpt_of_access hsize.prefetcher hinv hok, update_rpt_table, Function.update_apply,
            Op.accessAt]
          by_cases hindex : index = cfg.rptIndex pc
          · subst hindex
            rw [if_pos rfl, if_pos rfl, hentry]
            exact (entry_of_cons hsize hop.1 hop.2 fun a => history_at_tagged hops).symm
          · rw [if_neg hindex, if_neg (Ne.symm hindex)]
            exact hentry
      | flush =>
          rw [rpt_of_flush hinv (fun _ => rfl) hok]
          exact hentry
      | flushAddr addr =>
          rw [rpt_of_flush hinv (fun _ => rfl) hok]
          exact hentry

/-! ## Take-overs -/

/-- An instruction that takes an entry over is another one than the last to use the entry. -/
def TakesOver (cfg : Config) (ops : List Op) (pc : Addr) : Prop :=
  ∀ a ∈ (historyAt cfg (cfg.rptIndex pc) ops).head?, a.1 ≠ pc

/-- The access that takes an entry over prefetches nothing but what follows in the miss queue. -/
def NoStride (myrand : Nat → Nat) (cp : CacheT cfg) (cmd : MemCmd) (pc addr nbytes : Addr)
    (cp' : CacheT cfg) : Prop :=
  ∃ cp₁, cp.accessBlock myrand cmd addr nbytes false = .ok cp₁ ∧
    if cfg.prefetchType = 2 then
      (cp₁.updateRpt pc addr).2.2.prefetchNextMiss myrand addr = .ok cp'
    else cp' = (cp₁.updateRpt pc addr).2.2

/-- An entry with another tag is taken over. -/
theorem update_rpt_taken_over (htag : (cp.rpt (cfg.rptIndex pc)).tag ≠ cfg.rptTag pc) :
    (cp.updateRpt pc addr).1 = true := by
  rw [updateRpt, if_pos htag]

/-- An instruction that takes an entry over has no stride, so nothing of its own is prefetched. -/
theorem generate_prefetch_of_take_over (hprefetcher : 2 ≤ cfg.prefetchType)
    (htag : (cp.rpt (cfg.rptIndex pc)).tag ≠ cfg.rptTag pc)
    (hok : cp.generatePrefetch myrand pc addr = .ok cp') :
    if cfg.prefetchType = 2 then (cp.updateRpt pc addr).2.2.prefetchNextMiss myrand addr = .ok cp'
    else cp' = (cp.updateRpt pc addr).2.2 := by
  obtain ⟨e, cp₁, hupdate⟩ : ∃ e cp₁, cp.updateRpt pc addr = (true, e, cp₁) :=
    ⟨_, _, Prod.ext (update_rpt_taken_over htag) rfl⟩
  rw [hupdate]
  by_cases htype : cfg.prefetchType = 2
  · rw [generatePrefetch, htype] at hok
    have hopen : cp.openEndedPrefetcher myrand pc addr = .ok cp' := hok
    rw [if_pos htype]
    rw [openEndedPrefetcher] at hopen
    by_cases haddr : addr = 0
    · rw [if_pos haddr] at hopen
      cases hopen
    · rw [if_neg haddr, hupdate] at hopen
      exact hopen
  · obtain ⟨n, hn⟩ : ∃ n, cfg.prefetchType = n + 3 := ⟨cfg.prefetchType - 3, by omega⟩
    rw [generatePrefetch, hn] at hok
    have hstride : cp.stridePrefetcher myrand pc addr = .ok cp' := hok
    rw [if_neg htype]
    rw [stridePrefetcher] at hstride
    by_cases hpower : cfg.prefetchType &&& (cfg.prefetchType - 1) = 0
    · rw [if_neg (not_not.mpr hpower), hupdate] at hstride
      exact (Except.ok.inj hstride).symm
    · rw [if_pos hpower] at hstride
      cases hstride

/-- An entry that is taken over has another tag. -/
theorem tag_of_takes_over (hsize : TableSize cfg) (h : ∀ op ∈ ops, op.Tagged cfg)
    (hpc : Aligned pc) (htag : cfg.rptTag pc ≠ 0) (htakes : TakesOver cfg ops pc) :
    (entryOf cfg (historyAt cfg (cfg.rptIndex pc) ops)).tag ≠ cfg.rptTag pc := by
  have htagged : ∀ a ∈ historyAt cfg (cfg.rptIndex pc) ops, _ := fun a => history_at_tagged h
  rw [TakesOver] at htakes
  cases hhistory : historyAt cfg (cfg.rptIndex pc) ops with
  | nil => exact htag.symm
  | cons a older =>
      rw [hhistory] at htagged htakes
      obtain ⟨hpc', hindex⟩ := htagged a List.mem_cons_self
      rw [entry_of_tag]
      exact fun heq => htakes a rfl (hsize.pc_eq hpc' hpc hindex heq)

/-- The table keeps one history for each instruction. After every run, each entry is that of its
history: the fold of the update over the addresses that the last instruction to use it has accessed
since it took it over. An access that takes an entry over prefetches nothing by a stride. -/
theorem rpt_keeps_histories (hsize : TableSize cfg) (h : ∀ op ∈ ops, op.Tagged cfg)
    (hrun : runOps cfg myrand ops = .ok cp) :
    (∀ index, cp.rpt index = entryOf cfg (historyAt cfg index ops)) ∧
    ∀ cmd pc addr nbytes cp', (Op.access cmd pc addr nbytes).Tagged cfg → TakesOver cfg ops pc →
      cp.apply myrand (.access cmd pc addr nbytes) = .ok cp' →
      NoStride myrand cp cmd pc addr nbytes cp' := by
  refine ⟨rpt_of_run hsize h hrun, fun cmd pc addr nbytes cp' hpc htakes hok => ?_⟩
  have htag := tag_of_takes_over hsize h hpc.1 hpc.2 htakes
  rw [← rpt_of_run hsize h hrun] at htag
  have haccess := (kept_rpt cp.rpt).access_block myrand (Inv.of_run myrand hrun) rfl cmd addr nbytes
    false
  rw [apply, cacheAccess] at hok
  obtain ⟨cp₁, hblock, hok⟩ := bind_eq_ok.mp hok
  have hrpt := (haccess.of_ok hblock).2
  refine ⟨cp₁, hblock, generate_prefetch_of_take_over hsize.prefetcher ?_ hok⟩
  rwa [hrpt]

end CacheT

/-! ## Two instructions with one entry -/

/-- A cache with a stride prefetcher with 16 entries. -/
def strided : Config :=
  { directMapped with prefetchType := 16, prefetch_type_lt := directMapped.bsize_lt }

/-- Two accesses of one instruction, a flush, and an access of another one. -/
def sharedEntry : List Op :=
  [.access .Read 128 16 4, .access .Write 128 32 4, .flush, .access .Read 256 48 4]

/-- The second instruction starts with a new entry. -/
theorem rpt_keeps_histories_shared :
    ∃ cp, runOps strided (fun _ => 0) sharedEntry = .ok cp ∧
      cp.rpt 0 = ⟨2, 48, 0, false, .Initial⟩ := by
  obtain ⟨cp, hrun⟩ : ∃ cp, runOps strided (fun _ => 0) sharedEntry = .ok cp := ⟨_, rfl⟩
  have htagged : ∀ op ∈ sharedEntry, op.Tagged strided := by
    simp only [sharedEntry, List.forall_mem_cons]
    exact ⟨⟨by unfold Aligned; decide, by decide⟩, ⟨by unfold Aligned; decide, by decide⟩, trivial,
      ⟨by unfold Aligned; decide, by decide⟩, fun op hop => absurd hop List.not_mem_nil⟩
  have hentries := (CacheT.rpt_keeps_histories ⟨by decide, by decide⟩ htagged hrun).1
  exact ⟨cp, hrun, (hentries 0).trans rfl⟩

end Ece552.Cache
