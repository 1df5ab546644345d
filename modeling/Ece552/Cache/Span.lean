import Ece552.Cache.Safety

/-!
# The span check

`cache_access` compares the ends of the access and of its block, both of which may wrap around at
the top of the address space. The FIXME above the check compares the last bytes instead, which never
wrap. The check is right unless exactly one of the two ends wraps.
-/

namespace Ece552.Cache.CacheT

variable {cfg : Config} {addr nbytes : Addr}

/-- A power of two of bytes at a multiple of it. -/
def Aligned (addr nbytes : Addr) : Prop := (∃ k, nbytes.toNat = 2 ^ k) ∧ nbytes.toNat ∣ addr.toNat

/-- All bytes of the access lie in the block of its address. -/
def InOwnBlock (cfg : Config) (addr nbytes : Addr) : Prop :=
  ∀ i < nbytes.toNat, (cfg.cacheBaddr addr).toNat ≤ addr.toNat + i ∧
    addr.toNat + i < (cfg.cacheBaddr addr).toNat + cfg.bsize

/-- The ends of an aligned access and of its block wrap around together. -/
def EndsWrapTogether (cfg : Config) (addr nbytes : Addr) : Prop :=
  Aligned addr nbytes →
    (addr.toNat + nbytes.toNat = 2 ^ 32 ↔ (cfg.cacheBaddr addr).toNat + cfg.bsize = 2 ^ 32)

/-! ## The checks -/

theorem to_nat_sub_one (hpos : 0 < nbytes.toNat) : (nbytes - 1).toNat = nbytes.toNat - 1 := by
  have hone : (1 : Addr).toNat = 1 := rfl
  rw [BitVec.toNat_sub_of_le (BitVec.le_def.mpr (hone.trans_le hpos)), hone]

theorem size_ok_iff (hpos : 0 < nbytes.toNat) :
    nbytes &&& (nbytes - 1) = 0 ↔ ∃ k, nbytes.toNat = 2 ^ k := by
  rw [← BitVec.toNat_inj, BitVec.toNat_and, to_nat_sub_one hpos]
  exact Nat.and_sub_one_eq_zero_iff_isPowerOfTwo hpos.ne'

theorem alignment_ok_iff {k : Nat} (hsize : nbytes.toNat = 2 ^ k) :
    addr &&& (nbytes - 1) = 0 ↔ nbytes.toNat ∣ addr.toNat := by
  have hpos : 0 < nbytes.toNat := hsize ▸ Nat.two_pow_pos k
  rw [← BitVec.toNat_inj, BitVec.toNat_and, to_nat_sub_one hpos, hsize,
    Nat.and_two_pow_sub_one_eq_mod]
  exact Nat.dvd_iff_mod_eq_zero.symm

/-- The two checks, with the wrapped ends. -/
theorem check_access_iff (hpos : 0 < nbytes.toNat) : checkAccess cfg addr nbytes = .ok () ↔
    Aligned addr nbytes ∧ (addr.toNat + nbytes.toNat) % 2 ^ 32 ≤
      ((cfg.cacheBaddr addr).toNat + cfg.bsize) % 2 ^ 32 := by
  have hspans : cfg.cacheBaddr addr + BitVec.ofNat 32 cfg.bsize < addr + nbytes ↔
      ((cfg.cacheBaddr addr).toNat + cfg.bsize) % 2 ^ 32 <
        (addr.toNat + nbytes.toNat) % 2 ^ 32 := by
    rw [BitVec.lt_def, BitVec.toNat_add, BitVec.toNat_add, BitVec.toNat_ofNat, Nat.add_mod_mod]
  rw [checkAccess]
  by_cases haligned : nbytes &&& (nbytes - 1) ≠ 0 ∨ addr &&& (nbytes - 1) ≠ 0
  case pos =>
    rw [if_pos haligned]
    refine iff_of_false (by rintro ⟨⟩) ?_
    rintro ⟨⟨⟨k, hsize⟩, hdvd⟩, -⟩
    rcases haligned with hne | hne
    · exact hne ((size_ok_iff hpos).mpr ⟨k, hsize⟩)
    · exact hne ((alignment_ok_iff hsize).mpr hdvd)
  case neg =>
    obtain ⟨hsize, hdvd⟩ := not_or.mp haligned
    obtain ⟨k, hk⟩ := (size_ok_iff hpos).mp (not_not.mp hsize)
    have hok : Aligned addr nbytes := ⟨⟨k, hk⟩, (alignment_ok_iff hk).mp (not_not.mp hdvd)⟩
    rw [if_neg haligned]
    by_cases hlt : cfg.cacheBaddr addr + BitVec.ofNat 32 cfg.bsize < addr + nbytes
    · rw [if_pos hlt]
      exact iff_of_false (by rintro ⟨⟩) fun h => Nat.not_le_of_lt (hspans.mp hlt) h.2
    · rw [if_neg hlt]
      exact iff_of_true rfl ⟨hok, Nat.le_of_not_lt fun h => hlt (hspans.mpr h)⟩

/-- The bytes lie in the block if the last one does. -/
theorem in_own_block_iff (hpos : 0 < nbytes.toNat) : InOwnBlock cfg addr nbytes ↔
    addr.toNat + nbytes.toNat ≤ (cfg.cacheBaddr addr).toNat + cfg.bsize := by
  have hle : (cfg.cacheBaddr addr).toNat ≤ addr.toNat := by
    rw [Config.cacheBaddr, BitVec.toNat_and]
    exact Nat.and_le_left
  constructor
  · intro h
    have hlast := (h (nbytes.toNat - 1) (by omega)).2
    omega
  · intro h i hi
    omega

/-- An aligned access ends within the address space. -/
theorem Aligned.end_le (h : Aligned addr nbytes) : addr.toNat + nbytes.toNat ≤ 2 ^ 32 := by
  obtain ⟨⟨k, hsize⟩, q, hq⟩ := h
  have hlt : addr.toNat < 2 ^ 32 := addr.isLt
  have hk : k < 32 := by
    have hnbytes := nbytes.isLt
    rw [hsize] at hnbytes
    exact (Nat.pow_lt_pow_iff_right (by decide)).mp hnbytes
  have hpow : 2 ^ 32 = 2 ^ k * 2 ^ (32 - k) := by
    rw [← Nat.pow_add]
    congr 1
    omega
  rw [hq, hsize, hpow] at hlt
  have hq' := Nat.lt_of_mul_lt_mul_left hlt
  rw [hq, hsize, ← Nat.mul_succ, hpow]
  exact Nat.mul_le_mul_left _ hq'

/-! ## Main result -/

/-- For an access of at least one byte, the checks accept what is aligned and in its block if and
only if the two ends wrap around together. -/
theorem accepts_in_block_iff (h : 0 < nbytes.toInt) :
    (checkAccess cfg addr nbytes = .ok () ↔ Aligned addr nbytes ∧ InOwnBlock cfg addr nbytes) ↔
      EndsWrapTogether cfg addr nbytes := by
  have hpos : 0 < nbytes.toNat := by
    by_contra hzero
    have hnbytes : nbytes.toInt = 0 := by
      rw [BitVec.toInt_eq_toNat_of_lt (by omega)]
      omega
    omega
  rw [check_access_iff hpos, in_own_block_iff hpos, EndsWrapTogether]
  have hend := baddr_add_le cfg addr
  have hbsize := cfg.bsize_ok.1
  constructor
  · intro hiff haligned
    have hsame := hiff
    simp only [haligned, true_and] at hsame
    have hlast := haligned.end_le
    omega
  · intro hwrap
    refine and_congr_right fun haligned => ?_
    have htogether := hwrap haligned
    have hlast := haligned.end_le
    omega

/-- An access in the lowest block. -/
theorem accepts_in_block_iff_lowest :
    EndsWrapTogether directMapped 0 4 := by
  have hlowest : checkAccess directMapped 0 4 = .ok () := rfl
  refine (accepts_in_block_iff (by decide)).mp (iff_of_true hlowest ⟨⟨⟨2, rfl⟩, 0, rfl⟩, ?_⟩)
  exact (in_own_block_iff (by decide)).mpr (by decide)

/-- The first bytes of the highest block are rejected, and an access of a quarter of the address
space is accepted at its end, with blocks of 16 bytes. -/
theorem span_check_wraps :
    ¬ (checkAccess directMapped 0xFFFFFFF0 4 = .ok () ↔
      Aligned 0xFFFFFFF0 4 ∧ InOwnBlock directMapped 0xFFFFFFF0 4) ∧
    ¬ (checkAccess directMapped 0xC0000000 0x40000000 = .ok () ↔
      Aligned 0xC0000000 0x40000000 ∧ InOwnBlock directMapped 0xC0000000 0x40000000) := by
  have hrejected : checkAccess directMapped 0xFFFFFFF0 4 = .error .spansBlock := rfl
  have haccepted : checkAccess directMapped 0xC0000000 0x40000000 = .ok () := rfl
  refine ⟨fun h => ?_, fun h => ?_⟩
  · have hblock : InOwnBlock directMapped 0xFFFFFFF0 4 :=
      (in_own_block_iff (by decide)).mpr (by decide)
    exact nomatch hrejected.symm.trans (h.mpr ⟨⟨⟨2, rfl⟩, by decide⟩, hblock⟩)
  · have hblock := (in_own_block_iff (by decide)).mp (h.mp haccepted).2
    revert hblock
    decide

end Ece552.Cache.CacheT
