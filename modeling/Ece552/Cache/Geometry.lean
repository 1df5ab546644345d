import Mathlib.Data.Nat.Bitwise
import Mathlib.Data.Nat.Log

/-!
# Geometry and addresses

The parameters of `cache_create` and the macros that cut an address into tag, set and offset. C
leaves a shift by the width of an address or more undefined; here, as on the machine, it is by the
amount modulo that width. `cache_create` accepts geometries with such a shift: they are those that
are not `TagFits`, and there a tag keeps bits of the offset.
-/

namespace Ece552.Cache

/-- `md_addr_t`. -/
abbrev Addr := BitVec 32

/-- The replacement policies. -/
inductive Policy where
  | LRU | Random | FIFO
  deriving DecidableEq, Repr

/-- The access types. -/
inductive MemCmd where
  | Read | Write
  deriving DecidableEq, Repr

/-- The parameters of `cache_create`, with its checks. The bounds are those of the type `int`. -/
structure Config where
  nsets : Nat
  bsize : Nat
  assoc : Nat
  policy : Policy
  balloc : Bool
  prefetchType : Nat
  nsets_ok : 0 < nsets ∧ nsets &&& (nsets - 1) = 0
  bsize_ok : 8 ≤ bsize ∧ bsize &&& (bsize - 1) = 0
  assoc_ok : 0 < assoc ∧ assoc &&& (assoc - 1) = 0
  nsets_lt : nsets < 2 ^ 31
  bsize_lt : bsize < 2 ^ 31
  assoc_lt : assoc < 2 ^ 31
  prefetch_type_lt : prefetchType < 2 ^ 31

namespace Config

variable (cfg : Config)

/-! ## Derived parameters -/

/-- The number of hash buckets, for caches that are highly associative. -/
def hsize : Nat := if 4 < cfg.assoc then cfg.assoc >>> 2 else 0

/-- The bits of an address inside of a block. -/
def blkMask : Addr := BitVec.ofNat 32 (cfg.bsize - 1)

/-- The place of the set in an address. -/
def setShift : Nat := Nat.log2 cfg.bsize

/-- The bits of a set. -/
def setMask : Addr := BitVec.ofNat 32 (cfg.nsets - 1)

/-- The place of the tag in an address. -/
def tagShift : Nat := cfg.setShift + Nat.log2 cfg.nsets

/-- The bits of tag and set. -/
def tagsetMask : Addr := ~~~ cfg.blkMask

/-! ## Address macros -/

/-- `CACHE_TAG`, with the shift that the compiled code makes: by the amount modulo 32. -/
def cacheTag (addr : Addr) : Addr := addr >>> (cfg.tagShift % 32)

/-- `CACHE_SET` -/
def cacheSet (addr : Addr) : Addr := (addr >>> cfg.setShift) &&& cfg.setMask

/-- `CACHE_TAGSET` -/
def cacheTagset (addr : Addr) : Addr := addr &&& cfg.tagsetMask

/-- `CACHE_BADDR` -/
def cacheBaddr (addr : Addr) : Addr := addr &&& ~~~ cfg.blkMask

/-- `CACHE_MK_BADDR`, with the shift of the tag as in `cacheTag`. -/
def cacheMkBaddr (tag set : Addr) : Addr :=
  (tag <<< (cfg.tagShift % 32)) ||| (set <<< cfg.setShift)

/-- The bucket of a tag. -/
def cacheHash (key : Addr) : Nat :=
  (((key >>> 24) ^^^ (key >>> 16) ^^^ (key >>> 8) ^^^ key) &&&
    BitVec.ofNat 32 (cfg.hsize - 1)).toNat

/-- The sets of one way cover less than the address space, so that a tag is not empty. -/
def TagFits : Prop := cfg.nsets * cfg.bsize < 2 ^ 32

/-- Powers of two are multiplied and compared. -/
instance : Decidable cfg.TagFits := inferInstanceAs (Decidable (_ < _))

/-! ## Masks -/

variable {cfg}

/-- What passes the check is a power of two. -/
theorem eq_two_pow {n : Nat} (h : 0 < n ∧ n &&& (n - 1) = 0) : n = 2 ^ Nat.log2 n := by
  obtain ⟨k, rfl⟩ := (Nat.and_sub_one_eq_zero_iff_isPowerOfTwo h.1.ne').mp h.2
  rw [Nat.log2_two_pow]

/-- A block size is a power of two. -/
theorem bsize_eq : cfg.bsize = 2 ^ cfg.setShift :=
  eq_two_pow ⟨by have h := cfg.bsize_ok.1; omega, cfg.bsize_ok.2⟩

/-- The set begins inside of an address. -/
theorem set_shift_lt : cfg.setShift < 31 := by
  have h := cfg.bsize_lt
  rw [bsize_eq] at h
  exact (Nat.pow_lt_pow_iff_right (by decide)).mp h

/-- The number of a set fits into an address. -/
theorem log2_nsets_lt : Nat.log2 cfg.nsets < 31 := by
  have h := cfg.nsets_lt
  rw [eq_two_pow cfg.nsets_ok] at h
  exact (Nat.pow_lt_pow_iff_right (by decide)).mp h

/-- The tag fits if the shift is less than the width of an address. -/
theorem tag_fits_iff : cfg.TagFits ↔ cfg.tagShift < 32 := by
  have hsize : cfg.nsets * cfg.bsize = 2 ^ cfg.tagShift := by
    rw [bsize_eq, eq_two_pow cfg.nsets_ok, ← Nat.pow_add, Nat.add_comm]
    rfl
  rw [TagFits, hsize, Nat.pow_lt_pow_iff_right (by decide)]

/-- A tag that fits is cut off by the shift that the geometry asks for. -/
theorem TagFits.shift (h : cfg.TagFits) : cfg.tagShift % 32 = cfg.tagShift :=
  Nat.mod_eq_of_lt (tag_fits_iff.mp h)

/-- The block mask has the bits below the set. -/
theorem blk_mask_bit (i : Nat) : cfg.blkMask.getLsbD i = decide (i < cfg.setShift) := by
  have hlt := @set_shift_lt cfg
  rw [blkMask, bsize_eq, BitVec.getLsbD_ofNat, Nat.testBit_two_pow_sub_one, Bool.eq_iff_iff,
    Bool.and_eq_true, decide_eq_true_eq, decide_eq_true_eq]
  omega

/-- The set mask has as many bits as a set takes. -/
theorem set_mask_bit (i : Nat) : cfg.setMask.getLsbD i = decide (i < Nat.log2 cfg.nsets) := by
  have hlt := @log2_nsets_lt cfg
  rw [setMask, eq_two_pow cfg.nsets_ok, BitVec.getLsbD_ofNat, Nat.testBit_two_pow_sub_one,
    Nat.log2_two_pow, Bool.eq_iff_iff, Bool.and_eq_true, decide_eq_true_eq, decide_eq_true_eq]
  omega

/-! ## Blocks -/

variable (cfg) {addr addr' : Addr}

/-- The block address has the bits from the set on. -/
theorem baddr_bit (addr : Addr) (i : Nat) :
    (cfg.cacheBaddr addr).getLsbD i = (addr.getLsbD i && decide (cfg.setShift ≤ i)) := by
  rw [cacheBaddr, BitVec.getLsbD_and, BitVec.getLsbD_not, blk_mask_bit]
  by_cases hi : i < 32
  · simp only [decide_eq_true hi, Bool.true_and, ← decide_not, not_lt]
  · rw [BitVec.getLsbD_of_ge addr i (not_lt.mp hi), Bool.false_and, Bool.false_and]

/-- The bits of a tag. -/
theorem tag_bit (addr : Addr) (i : Nat) :
    (cfg.cacheTag addr).getLsbD i = addr.getLsbD (cfg.tagShift % 32 + i) := by
  rw [cacheTag, BitVec.getLsbD_ushiftRight]

/-- The bits of a set. -/
theorem set_bit (addr : Addr) (i : Nat) : (cfg.cacheSet addr).getLsbD i =
    (addr.getLsbD (cfg.setShift + i) && decide (i < Nat.log2 cfg.nsets)) := by
  rw [cacheSet, BitVec.getLsbD_and, BitVec.getLsbD_ushiftRight, set_mask_bit]

/-- A block address is its own. -/
theorem baddr_baddr (addr : Addr) : cfg.cacheBaddr (cfg.cacheBaddr addr) = cfg.cacheBaddr addr :=
  BitVec.eq_of_getLsbD_eq fun i _ => by simp [baddr_bit]

/-- Addresses of one block agree above the offset. -/
theorem bit_of_baddr_eq (h : cfg.cacheBaddr addr = cfg.cacheBaddr addr') {i : Nat}
    (hi : cfg.setShift ≤ i) : addr.getLsbD i = addr'.getLsbD i := by
  have hbaddr := congrArg (fun a => a.getLsbD i) h
  simpa [baddr_bit, hi] using hbaddr

/-- Addresses of one block have the same set. -/
theorem set_of_baddr_eq (h : cfg.cacheBaddr addr = cfg.cacheBaddr addr') :
    cfg.cacheSet addr = cfg.cacheSet addr' :=
  BitVec.eq_of_getLsbD_eq fun i _ => by
    rw [set_bit, set_bit, bit_of_baddr_eq cfg h (Nat.le_add_right _ _)]

/-- A block is in one set. -/
theorem set_baddr (addr : Addr) : cfg.cacheSet (cfg.cacheBaddr addr) = cfg.cacheSet addr :=
  set_of_baddr_eq cfg (baddr_baddr cfg addr)

/-! ## Tags that fit -/

variable {cfg}

/-- The address rebuilt from tag and set is that of the block. -/
theorem mk_baddr (hfits : cfg.TagFits) (addr : Addr) :
    cfg.cacheMkBaddr (cfg.cacheTag addr) (cfg.cacheSet addr) = cfg.cacheBaddr addr := by
  refine BitVec.eq_of_getLsbD_eq fun i hi => ?_
  rw [baddr_bit, cacheMkBaddr, BitVec.getLsbD_or, BitVec.getLsbD_shiftLeft,
    BitVec.getLsbD_shiftLeft, tag_bit, set_bit, hfits.shift]
  have hshift : cfg.tagShift = cfg.setShift + Nat.log2 cfg.nsets := rfl
  by_cases hset : i < cfg.setShift
  · have htag : i < cfg.tagShift := by omega
    simp [hset, htag, not_le.mpr hset]
  · have hadd : cfg.setShift + (i - cfg.setShift) = i := by omega
    by_cases htag : i < cfg.tagShift
    · have hlt : i - cfg.setShift < Nat.log2 cfg.nsets := by omega
      simp [hset, htag, hi, hadd, hlt, not_lt.mp hset]
    · have hadd' : cfg.tagShift + (i - cfg.tagShift) = i := by omega
      simpa [hset, htag, hi, hadd, hadd', not_lt.mp hset] using fun h _ => h

/-- Addresses of one block have the same tag and set. -/
theorem baddr_eq_iff (hfits : cfg.TagFits) : cfg.cacheBaddr addr = cfg.cacheBaddr addr' ↔
    cfg.cacheTag addr = cfg.cacheTag addr' ∧ cfg.cacheSet addr = cfg.cacheSet addr' := by
  constructor
  · intro h
    refine ⟨BitVec.eq_of_getLsbD_eq fun i _ => ?_, set_of_baddr_eq cfg h⟩
    rw [tag_bit, tag_bit, hfits.shift]
    exact bit_of_baddr_eq cfg h ((Nat.le_add_right _ _).trans (Nat.le_add_right _ _))
  · rintro ⟨htag, hset⟩
    rw [← mk_baddr hfits, ← mk_baddr hfits, htag, hset]

/-- A block has one tag, if tags fit. -/
theorem tag_baddr (hfits : cfg.TagFits) (addr : Addr) :
    cfg.cacheTag (cfg.cacheBaddr addr) = cfg.cacheTag addr :=
  ((baddr_eq_iff hfits).mp (baddr_baddr cfg addr)).1

/-! ## Tags that do not fit -/

/-- Where tags do not fit, the shift that is left ends below the set. -/
theorem mod_lt_set_shift (h : ¬ cfg.TagFits) : cfg.tagShift % 32 < cfg.setShift := by
  have hlog := @log2_nsets_lt cfg
  have hset := @set_shift_lt cfg
  have hshift : cfg.tagShift = cfg.setShift + Nat.log2 cfg.nsets := rfl
  rw [tag_fits_iff] at h
  omega

/-- The byte of the second block whose offset is the lowest bit of the tags. -/
def markedByte (cfg : Config) : Addr :=
  BitVec.twoPow 32 cfg.setShift ||| BitVec.twoPow 32 (cfg.tagShift % 32)

/-- The marked byte has two bits, one above the block and the one that its tag begins with. -/
theorem marked_byte_bit (i : Nat) : cfg.markedByte.getLsbD i =
    (decide (cfg.setShift = i) || decide (cfg.tagShift % 32 = i)) := by
  have hset := @set_shift_lt cfg
  rw [markedByte, BitVec.getLsbD_or, BitVec.getLsbD_twoPow, BitVec.getLsbD_twoPow,
    decide_eq_true (show cfg.setShift < 32 by omega),
    decide_eq_true (Nat.mod_lt cfg.tagShift (by decide)), Bool.true_and, Bool.true_and]

/-- If the tag does not fit, the byte is in the second block. -/
theorem baddr_marked_byte (h : ¬ cfg.TagFits) :
    cfg.cacheBaddr cfg.markedByte = BitVec.twoPow 32 cfg.setShift := by
  have hset := @set_shift_lt cfg
  have hlt := mod_lt_set_shift h
  refine BitVec.eq_of_getLsbD_eq fun i _ => ?_
  rw [baddr_bit, marked_byte_bit, BitVec.getLsbD_twoPow, Bool.eq_iff_iff]
  simp only [Bool.and_eq_true, Bool.or_eq_true, decide_eq_true_eq]
  omega

/-- If the tag does not fit, the byte has another tag than its block. -/
theorem tag_marked_byte_ne (h : ¬ cfg.TagFits) :
    cfg.cacheTag cfg.markedByte ≠ cfg.cacheTag (BitVec.twoPow 32 cfg.setShift) := by
  have hlt := mod_lt_set_shift h
  intro htag
  have hbit := congrArg (fun t => t.getLsbD 0) htag
  simp only [tag_bit, Nat.add_zero, marked_byte_bit, BitVec.getLsbD_twoPow] at hbit
  simp [hlt.ne'] at hbit

variable (cfg)

/-! ## Indices -/

/-- A set of an address is one of the cache. -/
theorem set_lt (addr : Addr) : (cfg.cacheSet addr).toNat < cfg.nsets := by
  have hpos := cfg.nsets_ok.1
  have hlt := cfg.nsets_lt
  have hmask : cfg.setMask.toNat = cfg.nsets - 1 := by
    rw [setMask, BitVec.toNat_ofNat, Nat.mod_eq_of_lt (by omega)]
  have hle : (cfg.cacheSet addr).toNat ≤ cfg.nsets - 1 := by
    rw [cacheSet, BitVec.toNat_and, hmask]
    exact Nat.and_le_right
  omega

/-- The index of the set of an address. -/
def setIndex (addr : Addr) : Fin cfg.nsets := ⟨(cfg.cacheSet addr).toNat, cfg.set_lt addr⟩

/-- The number of a set, as `CACHE_MK_BADDR` takes it. -/
def setAddr (set : Fin cfg.nsets) : Addr := BitVec.ofNat 32 set

/-- The index stands for the set of the address. -/
theorem set_addr_set_index (addr : Addr) :
    cfg.setAddr (cfg.setIndex addr) = cfg.cacheSet addr := by
  show BitVec.ofNat 32 (cfg.cacheSet addr).toNat = cfg.cacheSet addr
  rw [BitVec.ofNat_toNat, BitVec.setWidth_eq]

/-- Two addresses have one index if they have one set. -/
theorem set_index_eq_iff :
    cfg.setIndex addr = cfg.setIndex addr' ↔ cfg.cacheSet addr = cfg.cacheSet addr' := by
  rw [setIndex, setIndex, Fin.mk.injEq]
  exact BitVec.toNat_inj

end Config

/-- A direct-mapped cache with four sets of 16 bytes each. -/
def directMapped : Config where
  nsets := 4
  bsize := 16
  assoc := 1
  policy := .LRU
  balloc := false
  prefetchType := 0
  nsets_ok := by decide
  bsize_ok := by decide
  assoc_ok := by decide
  nsets_lt := by decide
  bsize_lt := by decide
  assoc_lt := by decide
  prefetch_type_lt := by decide

/-- A direct-mapped cache with four sets of 2^30 bytes each. Its tag does not fit: the shift is by
32, and the tag is the whole address. -/
def hugeBlocks : Config := { directMapped with
  bsize := 2 ^ 30
  bsize_ok := by decide
  bsize_lt := by decide }

/-- A cache with the open-ended prefetcher. -/
def openEnded : Config := { directMapped with prefetchType := 2, prefetch_type_lt := by decide }

end Ece552.Cache
