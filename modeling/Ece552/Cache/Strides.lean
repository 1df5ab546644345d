import Ece552.Cache.Prediction
import Ece552.Cache.Prefetching

/-!
# Strides

What the reference prediction table learns from an instruction whose addresses move by a constant
difference. `distance` is the number of moves that an entry needs to become `Steady`. It is at most
three, whatever the entry was before, and each move makes it smaller.
-/

namespace Ece552.Cache

open Library

variable {cfg : Config}

/-- Each address is the one before it plus `d`, without wrapping around. -/
def MovesBy (d : Int) : Addr → List Addr → Prop
  | _, [] => True
  | prev, addr :: rest => (addr.toNat : Int) = prev.toNat + d ∧ MovesBy d addr rest

/-- The entry predicts moves by `d`. -/
structure SteadyFor (d : Int) (e : RptEntry) : Prop where
  state : e.state = .Steady
  stride : e.stride.toNat = d.natAbs
  sign : e.isNegative = decide (d < 0)

/-- The addresses of the accesses to an entry. -/
def addrsAt (cfg : Config) (index : Nat) (ops : List Op) : List Addr :=
  (ops.filterMap (Op.accessAt cfg index)).map Prod.snd

/-- No access takes the entry of an instruction over. -/
def KeepsEntry (cfg : Config) (pc : Addr) (ops : List Op) : Prop :=
  ∀ a ∈ ops.filterMap (Op.accessAt cfg (cfg.rptIndex pc)), cfg.rptTag a.1 = cfg.rptTag pc

/-! ## One entry -/

/-- The stride and the sign of the entry are those of `d`. -/
def Learnt (d : Int) (e : RptEntry) : Prop :=
  e.stride.toNat = d.natAbs ∧ e.isNegative = decide (d < 0)

/-- Both parts are compared. -/
instance (d : Int) (e : RptEntry) : Decidable (Learnt d e) := inferInstanceAs (Decidable (_ ∧ _))

/-- The number of moves by `d` after which the entry is `Steady`. -/
def distance (d : Int) (e : RptEntry) : Nat :=
  match e.state, decide (Learnt d e) with
  | .Steady, true => 0
  | .Initial, true => 1
  | .Transient, true => 1
  | .NoPrediction, true => 2
  | .Initial, false => 2
  | _, false => 3

variable {d : Int} {e : RptEntry} {addr : Addr} {addrs : List Addr}

theorem distance_le (d : Int) (e : RptEntry) : distance d e ≤ 3 := by
  rw [distance]
  split <;> omega

theorem distance_eq_zero_iff : distance d e = 0 ↔ SteadyFor d e := by
  constructor
  · intro h
    rw [distance] at h
    split at h
    case h_1 hstate hlearnt =>
      obtain ⟨hstride, hsign⟩ := of_decide_eq_true hlearnt
      exact ⟨hstate, hstride, hsign⟩
    all_goals exact absurd h (by omega)
  · intro h
    have hlearnt : Learnt d e := ⟨h.stride, h.sign⟩
    rw [distance, h.state, decide_eq_true hlearnt]

/-- The difference of a move, as the table computes it. -/
theorem moved_by (h : (addr.toNat : Int) = e.prevAddr.toNat + d) :
    (addrMax addr e.prevAddr - addrMin addr e.prevAddr).toNat = d.natAbs ∧
    decide (addr < e.prevAddr) = decide (d < 0) := by
  rw [addrMax, addrMin]
  by_cases hlt : addr < e.prevAddr
  · have hnat := BitVec.lt_def.mp hlt
    rw [if_pos hlt, if_pos hlt, BitVec.toNat_sub_of_le (BitVec.le_of_lt hlt), decide_eq_true hlt]
    exact ⟨by omega, (decide_eq_true (by omega)).symm⟩
  · have hle : e.prevAddr ≤ addr := BitVec.not_lt.mp hlt
    have hnat := BitVec.le_def.mp hle
    rw [if_neg hlt, if_neg hlt, BitVec.toNat_sub_of_le hle, decide_eq_false hlt]
    exact ⟨by omega, (decide_eq_false (by omega)).symm⟩

/-- A move by what the entry has learnt. -/
theorem update_learnt (h : (addr.toNat : Int) = e.prevAddr.toNat + d) (hlearnt : Learnt d e) :
    e.update addr = { e with state := getNextRptState e.state true, prevAddr := addr } := by
  obtain ⟨hstride, hsign⟩ := moved_by h
  have hstride' : addrMax addr e.prevAddr - addrMin addr e.prevAddr = e.stride :=
    BitVec.eq_of_toNat_eq (hstride.trans hlearnt.1.symm)
  have hsign' : decide (addr < e.prevAddr) = e.isNegative := hsign.trans hlearnt.2.symm
  rw [RptEntry.update]
  simp only [hstride', hsign', decide_true, Bool.and_self, Bool.not_true, Bool.false_and,
    Bool.false_eq_true, if_false]

/-- Another move. The entry learns it, unless it was `Steady`. -/
theorem update_new (h : (addr.toNat : Int) = e.prevAddr.toNat + d) (hnew : ¬ Learnt d e) :
    (e.update addr).state = getNextRptState e.state false ∧
    (e.state ≠ .Steady → Learnt d (e.update addr)) := by
  obtain ⟨hstride, hsign⟩ := moved_by h
  have hcondition : (decide (addrMax addr e.prevAddr - addrMin addr e.prevAddr = e.stride) &&
      decide (decide (addr < e.prevAddr) = e.isNegative)) = false := by
    by_contra htrue
    rw [Bool.not_eq_false, Bool.and_eq_true, decide_eq_true_eq, decide_eq_true_eq] at htrue
    exact hnew ⟨htrue.1 ▸ hstride, htrue.2.symm.trans hsign⟩
  rw [RptEntry.update]
  simp only [hcondition, Bool.not_false, Bool.true_and]
  cases e.state with
  | Steady => exact ⟨rfl, fun hne => absurd rfl hne⟩
  | Initial => exact ⟨rfl, fun _ => ⟨hstride, hsign⟩⟩
  | Transient => exact ⟨rfl, fun _ => ⟨hstride, hsign⟩⟩
  | NoPrediction => exact ⟨rfl, fun _ => ⟨hstride, hsign⟩⟩

/-- Step lemma. -/
theorem distance_update (h : (addr.toNat : Int) = e.prevAddr.toNat + d) :
    distance d (e.update addr) ≤ distance d e - 1 := by
  by_cases hlearnt : Learnt d e
  · have hlearnt' : decide (Learnt d { e with
        state := getNextRptState e.state true, prevAddr := addr }) = true := decide_eq_true hlearnt
    rw [update_learnt h hlearnt, distance, distance, decide_eq_true hlearnt, hlearnt']
    cases e.state <;> exact Nat.le_refl _
  · obtain ⟨hstate, hlearns⟩ := update_new h hlearnt
    cases hold : e.state with
    | Steady =>
        -- a `Steady` entry becomes `Initial` without learning
        rw [hold] at hstate
        rw [distance, distance, hold, hstate, decide_eq_false hlearnt]
        cases decide (Learnt d (e.update addr)) <;> decide
    | Initial | Transient | NoPrediction =>
        rw [hold] at hstate hlearns
        rw [distance, distance, hold, hstate, decide_eq_false hlearnt,
          decide_eq_true (hlearns nofun)]
        decide

@[simp] theorem update_prev_addr (e : RptEntry) (addr : Addr) :
    (e.update addr).prevAddr = addr := by
  rw [RptEntry.update]
  split <;> rfl

/-- Run lemma. -/
theorem distance_fold (h : MovesBy d e.prevAddr addrs) :
    distance d (addrs.foldl RptEntry.update e) ≤ distance d e - addrs.length := by
  induction addrs generalizing e with
  | nil => exact Nat.le_refl _
  | cons addr rest ih =>
      have hstep := distance_update h.1
      have hrest := ih (e := e.update addr) (by rw [update_prev_addr]; exact h.2)
      rw [List.foldl_cons, List.length_cons]
      omega

/-- After three moves the entry is `Steady`, and it stays so. -/
theorem steady_of_moves (h : MovesBy d e.prevAddr addrs)
    (hlong : 3 ≤ addrs.length ∨ SteadyFor d e) :
    SteadyFor d (addrs.foldl RptEntry.update e) := by
  have hfold := distance_fold h
  have hle := distance_le d e
  refine distance_eq_zero_iff.mp ?_
  rcases hlong with hlong | hsteady
  · omega
  · have hzero := distance_eq_zero_iff.mpr hsteady
    omega

/-- An access that breaks the pattern leaves the stride and the sign. -/
theorem SteadyFor.update (h : SteadyFor d e) (addr : Addr) :
    Learnt d (e.update addr) ∧
      ((e.update addr).state = .Steady ∨ (e.update addr).state = .Initial) := by
  rw [RptEntry.update, h.state]
  cases decide (addrMax addr e.prevAddr - addrMin addr e.prevAddr = e.stride) &&
      decide (decide (addr < e.prevAddr) = e.isNegative) with
  | true => exact ⟨⟨h.stride, h.sign⟩, Or.inl rfl⟩
  | false => exact ⟨⟨h.stride, h.sign⟩, Or.inr rfl⟩

/-- One more move is enough after an access that breaks the pattern. -/
theorem SteadyFor.recovers {x y : Addr} (h : SteadyFor d e)
    (hmove : (y.toNat : Int) = x.toNat + d) : SteadyFor d ((e.update x).update y) := by
  obtain ⟨hlearnt, hstate⟩ := h.update x
  rw [update_learnt (by rw [update_prev_addr]; exact hmove) hlearnt]
  refine ⟨?_, hlearnt.1, hlearnt.2⟩
  rcases hstate with hstate | hstate
  · rw [hstate]
    rfl
  · rw [hstate]
    rfl

/-- What a `Steady` entry predicts. -/
theorem SteadyFor.predicted (h : SteadyFor d e) (addr : Addr) :
    e.predicted addr = addr + BitVec.ofInt 32 d := by
  have hstride : e.stride = BitVec.ofNat 32 d.natAbs := by
    rw [← h.stride, BitVec.ofNat_toNat, BitVec.setWidth_eq]
  rw [RptEntry.predicted, h.sign, hstride]
  by_cases hneg : d < 0
  · have hd : d = -(d.natAbs : Int) := by omega
    rw [decide_eq_true hneg, if_pos rfl]
    conv_rhs => rw [hd, BitVec.ofInt_neg, BitVec.ofInt_natCast]
    exact BitVec.sub_eq_add_neg ..
  · have hd : d = (d.natAbs : Int) := by omega
    rw [decide_eq_false hneg, if_neg Bool.false_ne_true]
    conv_rhs => rw [hd, BitVec.ofInt_natCast]

/-! ## The table -/

namespace CacheT

variable {cp cp' cp₁ : CacheT cfg} {myrand : Nat → Nat} {cmd : MemCmd} {pc addr nbytes : Addr}
variable {ops : List Op}

theorem fold_update_tag (addrs : List Addr) (e : RptEntry) :
    (addrs.foldl RptEntry.update e).tag = e.tag := by
  induction addrs generalizing e with
  | nil => rfl
  | cons addr rest ih => rw [List.foldl_cons, ih, update_tag]

theorem addrs_at_concat (cfg : Config) (index : Nat) (ops : List Op) (op : Op) :
    addrsAt cfg index (ops ++ [op]) =
      addrsAt cfg index ops ++ ((op.accessAt cfg index).map Prod.snd).toList := by
  rw [addrsAt, addrsAt, List.filterMap_append, List.map_append]
  cases h : op.accessAt cfg index <;> simp [h]

/-- The entry of an instruction that keeps it is updated with the addresses that it accesses. -/
theorem entry_of_ops (hsize : TableSize cfg) (h : cp.Inv)
    (howns : (cp.rpt (cfg.rptIndex pc)).tag = cfg.rptTag pc) (hkeeps : KeepsEntry cfg pc ops)
    (hrun : ops.foldlM (CacheT.apply myrand) cp = .ok cp') :
    cp'.Inv ∧ cp'.rpt (cfg.rptIndex pc) =
      (addrsAt cfg (cfg.rptIndex pc) ops).foldl RptEntry.update (cp.rpt (cfg.rptIndex pc)) := by
  induction ops using List.reverseRecOn generalizing cp' with
  | nil =>
      obtain rfl : cp = cp' := Except.ok.inj hrun
      exact ⟨h, rfl⟩
  | append_singleton ops op ih =>
      obtain ⟨cp₀, hrun₀, hok⟩ := foldlM_concat_ok.mp hrun
      have hkeeps₀ : KeepsEntry cfg pc ops := fun a ha => hkeeps a (by simp [ha])
      obtain ⟨hinv₀, hentry⟩ := ih hkeeps₀ hrun₀
      refine ⟨(hinv₀.apply_counts hok).1, ?_⟩
      rw [addrs_at_concat, List.foldl_append, ← hentry]
      cases op with
      | access cmd pc' addr nbytes =>
          rw [rpt_of_access hsize.prefetcher hinv₀ hok, update_rpt_table, Function.update_apply,
            Op.accessAt]
          by_cases hindex : cfg.rptIndex pc' = cfg.rptIndex pc
          · have htag : cfg.rptTag pc' = cfg.rptTag pc :=
              hkeeps (pc', addr) (by simp [Op.accessAt, hindex])
            have howns₀ : (cp₀.rpt (cfg.rptIndex pc)).tag = cfg.rptTag pc := by
              rw [hentry, fold_update_tag, howns]
            rw [if_pos hindex.symm, if_pos hindex, hindex, htag, if_neg (not_not.mpr howns₀)]
            rfl
          · rw [if_neg (Ne.symm hindex), if_neg hindex]
            rfl
      | flush =>
          rw [rpt_of_flush hinv₀ (fun _ => rfl) hok]
          rfl
      | flushAddr addr =>
          rw [rpt_of_flush hinv₀ (fun _ => rfl) hok]
          rfl

/-- An access of an instruction with a `Steady` entry asks for the address that it predicts. -/
theorem target_of_steady (hsize : TableSize cfg)
    (howns : (cp.rpt (cfg.rptIndex pc)).tag = cfg.rptTag pc)
    (haddr : cfg.prefetchType = 2 → addr ≠ 0)
    (hsteady : SteadyFor d ((cp.tableUpdated pc addr).rpt (cfg.rptIndex pc))) :
    cp.prefetchTarget pc addr = .ok (some (addr + BitVec.ofInt 32 d)) := by
  have hprefetcher := hsize.prefetcher
  obtain ⟨e, he⟩ : ∃ e, e = (cp.rpt (cfg.rptIndex pc)).update addr := ⟨_, rfl⟩
  have hupdated : cp.updateRpt pc addr =
      (false, e, { cp with rpt := Function.update cp.rpt (cfg.rptIndex pc) e }) := by
    rw [updateRpt, if_neg (not_not.mpr howns), he]
  rw [tableUpdated, if_neg (Nat.not_lt.mpr hprefetcher), hupdated] at hsteady
  dsimp only at hsteady
  rw [Function.update_self] at hsteady
  rw [← hsteady.predicted, prefetchTarget, hupdated]
  dsimp only
  by_cases htype : cfg.prefetchType = 2
  · rw [htype]
    show (if addr = 0 then _ else _) = _
    rw [if_neg (haddr htype), hsteady.state]
    rfl
  · obtain ⟨n, hn⟩ : ∃ n, cfg.prefetchType = n + 3 := ⟨cfg.prefetchType - 3, by omega⟩
    have hpower := hsize.power
    rw [Config.rptSize, if_neg htype] at hpower
    rw [hpower, hn]
    show (if ¬ 0 = 0 then _ else _) = _
    rw [if_neg (not_not.mpr rfl), hsteady.state]
    rfl

/-! ## Main result -/

/-- Convergence to a stride, from every cache and every table in which the instruction owns its
entry, as long as no other one takes it over. After three moves by `d` the entry is `Steady` with
the stride and the sign of `d`, and it stays so. Then each access asks for its address plus `d`.
After an access that breaks the pattern, one more move is enough. -/
theorem stride_converges (hsize : TableSize cfg) (h : (moves cfg myrand).Reachable cp)
    (table : Nat → RptEntry) (howns : (table (cfg.rptIndex pc)).tag = cfg.rptTag pc)
    (hkeeps : KeepsEntry cfg pc ops)
    (hrun : ops.foldlM (CacheT.apply myrand) { cp with rpt := table } = .ok cp') (d : Int) :
    (MovesBy d (table (cfg.rptIndex pc)).prevAddr (addrsAt cfg (cfg.rptIndex pc) ops) →
      3 ≤ (addrsAt cfg (cfg.rptIndex pc) ops).length ∨ SteadyFor d (table (cfg.rptIndex pc)) →
      SteadyFor d (cp'.rpt (cfg.rptIndex pc))) ∧
    (∀ x y, SteadyFor d (table (cfg.rptIndex pc)) → addrsAt cfg (cfg.rptIndex pc) ops = [x, y] →
      (y.toNat : Int) = x.toNat + d → SteadyFor d (cp'.rpt (cfg.rptIndex pc))) ∧
    ∀ cmd addr nbytes cp₁, cp'.accessBlock myrand cmd addr nbytes false = .ok cp₁ →
      (cfg.prefetchType = 2 → addr ≠ 0) →
      SteadyFor d ((cp₁.tableUpdated pc addr).rpt (cfg.rptIndex pc)) →
      cp'.cacheAccess myrand pc addr cmd nbytes =
        (cp₁.tableUpdated pc addr).prefetch myrand (addr + BitVec.ofInt 32 d) := by
  have hreach := Inv.of_reachable myrand h
  have hinv : CacheT.Inv { cp with rpt := table } :=
    ⟨hreach.sets, hreach.reset, hreach.last, hreach.tag, hreach.recent⟩
  obtain ⟨hinv', hentry⟩ := entry_of_ops hsize hinv howns hkeeps hrun
  refine ⟨fun hmoves hlong => ?_, fun x y hsteady haddrs hmove => ?_,
    fun cmd addr nbytes cp₁ haccess haddr hsteady => ?_⟩
  · rw [hentry]
    exact steady_of_moves hmoves hlong
  · rw [hentry, haddrs]
    exact hsteady.recovers hmove
  · have hrpt := (((kept_rpt cp'.rpt).access_block myrand hinv' rfl cmd addr nbytes false).of_ok
      haccess).2
    have howns₁ : (cp₁.rpt (cfg.rptIndex pc)).tag = cfg.rptTag pc := by
      rw [hrpt, hentry, fold_update_tag]
      exact howns
    rw [cacheAccess, haccess]
    show cp₁.generatePrefetch myrand pc addr = _
    rw [generate_prefetch_eq, target_of_steady hsize howns₁ haddr hsteady]
    rfl

/-- Three reads that move by one block, from a new table on. -/
theorem stride_converges_by_blocks :
    ∃ cp, runOps strided (fun _ => 0)
        [.access .Read 0 64 4, .access .Read 0 128 4, .access .Read 0 192 4] = .ok cp ∧
      SteadyFor 64 (cp.rpt 0) := by
  obtain ⟨cp, hrun⟩ : ∃ cp, runOps strided (fun _ => 0)
    [.access .Read 0 64 4, .access .Read 0 128 4, .access .Read 0 192 4] = .ok cp := ⟨_, rfl⟩
  have hkeeps : KeepsEntry strided 0
      [.access .Read 0 64 4, .access .Read 0 128 4, .access .Read 0 192 4] := by
    intro a ha
    simp only [List.filterMap_cons, Op.accessAt, if_true, List.filterMap_nil, List.mem_cons,
      List.not_mem_nil, or_false] at ha
    rcases ha with rfl | rfl | rfl <;> rfl
  have howns : ((cacheCreate strided).rpt (strided.rptIndex 0)).tag = strided.rptTag 0 := rfl
  have hsteady := (stride_converges ⟨by decide, by decide⟩
    (.init (rfl : cacheCreate strided = cacheCreate strided)) (cacheCreate strided).rpt howns hkeeps
    hrun 64).1
  exact ⟨cp, hrun, hsteady ⟨rfl, rfl, rfl, trivial⟩ (Or.inl (Nat.le_refl 3))⟩

end CacheT

end Ece552.Cache
