import Ece552.Library.Outcome
import Ece552.Library.SetAssociative
import Ece552.Msi.L1Cache

/-!
# The cache memory of an L1

`CacheMemory.cc` as the protocol uses it: `ways` is `m_cache`, `index` is `m_tag_index`, and a slot
is an `AbstractCacheEntry` together with the entry that the protocol declares. A slot without
permission counts as free, but none of them ever loses it (`permitted`). `update` is what the
actions of a transition and `setAccessPermission` do to the entry of their address, in the order in
which they do it. `update_spec` reads every operation off as a change of the partial map `lookup`.
-/

namespace Ece552.Msi.L1Cache

open Library

variable {A D : Type}

/-- An entry of `m_cache`. -/
structure Slot (A D : Type) where
  address : A
  permission : AccessPermission
  entry : Entry D

/-- The sets of the cache, and the way of each resident address. -/
structure CacheMemory (config : Config A) (D : Type) extends
    SetAssociative config.addressToCacheSet (Slot.address (A := A) (D := D)) config.cacheAssoc where
  permitted : ∀ set way slot, ways set way = some slot → slot.permission ≠ .NotPresent

/-- Every state has a permission. -/
theorem State.permission_ne (state : State) : state.toPermission ≠ .NotPresent := by
  cases state <;> exact nofun

namespace CacheMemory

variable {config : Config A}

/-- Every way is free. -/
def empty : CacheMemory config D where
  toSetAssociative := .empty
  permitted := fun _ _ _ h => nomatch h

/-- The way of an address in its set. -/
def findTagInSet (memory : CacheMemory config D) (address : A) : Option (Fin config.cacheAssoc) :=
  do
    let way ← memory.index address
    let slot ← memory.ways (config.addressToCacheSet address) way
    if slot.permission = .NotPresent then none else some way

/-- The entry of an address, if it has one with a permission. -/
def lookup (memory : CacheMemory config D) (address : A) : Option (Entry D) := do
  let way ← memory.findTagInSet address
  let slot ← memory.ways (config.addressToCacheSet address) way
  some slot.entry

/-- `CacheMemory::isTagPresent` -/
def isTagPresent (memory : CacheMemory config D) (address : A) : Bool :=
  (memory.findTagInSet address).isSome

/-- A slot that `allocate` may take. -/
def isOpen : Option (Slot A D) → Bool
  | none => true
  | some slot => decide (slot.permission = .NotPresent)

variable [DecidableEq A]

/-- The set has the address or an unused way. -/
def cacheAvail (memory : CacheMemory config D) (address : A) : Bool :=
  (List.finRange config.cacheAssoc).any fun way =>
    match memory.ways (config.addressToCacheSet address) way with
    | some slot => decide (slot.address = address) || decide (slot.permission = .NotPresent)
    | none => true

/-- The way that `allocate` takes, the first one that is open. -/
def openWay (memory : CacheMemory config D) (address : A) : Option (Fin config.cacheAssoc) :=
  (List.finRange config.cacheAssoc).find? fun way =>
    isOpen (memory.ways (config.addressToCacheSet address) way)

/-- The address in the way that the replacement policy picks. -/
def cacheProbe (memory : CacheMemory config D) (address : A) (victim : Fin config.cacheAssoc) :
    Except Fault A :=
  if memory.cacheAvail address then .error (.assertion "CacheMemory.cacheProbe")
  else
    match memory.ways (config.addressToCacheSet address) victim with
    | none => .error .nullPointer
    | some slot => .ok slot.address

/-! ## What is resident -/

section Lookup

variable {memory : CacheMemory config D} {address : A} {way : Fin config.cacheAssoc}

omit [DecidableEq A] in
/-- No slot is without permission. -/
theorem find_tag_eq : memory.findTagInSet address = memory.index address := by
  cases hindex : memory.index address with
  | none => simp [findTagInSet, hindex]
  | some way =>
      obtain ⟨slot, hslot, -⟩ := (memory.index_iff address way).mp hindex
      simp [findTagInSet, hindex, hslot, memory.permitted _ _ _ hslot]

omit [DecidableEq A] in
/-- The entry that is found is in a slot. -/
theorem lookup_eq : memory.lookup address = (memory.find address).map Slot.entry := by
  rw [lookup, find_tag_eq, SetAssociative.find]
  cases hindex : memory.index address with
  | none => rfl
  | some way =>
      show (memory.ways _ way).bind (fun slot => some slot.entry) = (memory.ways _ way).map _
      rw [Option.map_eq_bind]
      rfl

omit [DecidableEq A] in
/-- A tag is present if there is an entry. -/
theorem tag_present_iff : memory.isTagPresent address = (memory.lookup address).isSome := by
  rw [isTagPresent, find_tag_eq, lookup_eq, Option.isSome_map, SetAssociative.find_isSome]

omit [DecidableEq A] in
/-- A way is open if there is nothing in it. -/
theorem open_iff : isOpen (memory.ways (config.addressToCacheSet address) way) = true ↔
    memory.ways (config.addressToCacheSet address) way = none := by
  cases hslot : memory.ways (config.addressToCacheSet address) way with
  | none => exact iff_of_true rfl rfl
  | some slot =>
      refine iff_of_false (fun hopen => ?_) nofun
      exact memory.permitted _ _ _ hslot (of_decide_eq_true hopen)

/-- A way of the set of the address has no entry. -/
def HasFreeWay (memory : CacheMemory config D) (address : A) : Prop :=
  ∃ way, memory.ways (config.addressToCacheSet address) way = none

/-- There is room if the address is there, or a way is free. -/
theorem cache_avail_iff : memory.cacheAvail address = true ↔
    (memory.lookup address).isSome = true ∨ memory.HasFreeWay address := by
  rw [cacheAvail, List.any_eq_true, lookup_eq, Option.isSome_map]
  constructor
  · rintro ⟨way, -, hway⟩
    cases hslot : memory.ways (config.addressToCacheSet address) way with
    | none => exact Or.inr ⟨way, hslot⟩
    | some slot =>
        have hpermission := memory.permitted _ _ _ hslot
        simp only [hslot, hpermission, decide_false, Bool.or_false, decide_eq_true_eq] at hway
        subst hway
        exact Or.inl (by rw [SetAssociative.find_of_ways hslot]; rfl)
  · rintro (hfound | ⟨way, hway⟩)
    · obtain ⟨slot, hslot⟩ := Option.isSome_iff_exists.mp hfound
      obtain ⟨rfl, way, -, hway⟩ := SetAssociative.ways_of_find hslot
      exact ⟨way, List.mem_finRange way, by simp [hway]⟩
    · exact ⟨way, List.mem_finRange way, by simp [hway]⟩

/-- In a full set the replacement policy picks a resident address. -/
theorem probe_spec (h : memory.cacheAvail address = false) (victim : Fin config.cacheAssoc) :
    ∃ other, memory.cacheProbe address victim = .ok other ∧
      config.addressToCacheSet other = config.addressToCacheSet address ∧
      (memory.lookup other).isSome = true := by
  have hfull : ¬ ((memory.lookup address).isSome = true ∨ memory.HasFreeWay address) := by
    rw [← cache_avail_iff, h]
    nofun
  rw [cacheProbe, h]
  cases hslot : memory.ways (config.addressToCacheSet address) victim with
  | none => exact absurd (Or.inr ⟨victim, hslot⟩) hfull
  | some slot =>
      refine ⟨slot.address, rfl, memory.placed _ _ _ hslot, ?_⟩
      rw [lookup_eq, SetAssociative.find_of_ways hslot]
      rfl

end Lookup

/-! ## Changes -/

section Change

/-- Put a slot in a way. -/
def putSlot (memory : CacheMemory config D) (way : Fin config.cacheAssoc) (slot : Slot A D)
    (hfits : memory.Fits way slot) (hpermission : slot.permission ≠ .NotPresent) :
    CacheMemory config D where
  toSetAssociative := memory.put way slot hfits
  permitted := by
    intro set way' slot' h
    rw [SetAssociative.put_ways] at h
    split at h
    · rwa [← Option.some.inj h]
    · exact memory.permitted set way' slot' h

variable {memory : CacheMemory config D} {address : A} {way : Fin config.cacheAssoc}

omit [DecidableEq A] in
/-- The way that `allocate` takes is free. -/
theorem free_of_open (hway : memory.openWay address = some way) :
    memory.ways (config.addressToCacheSet address) way = none := by
  rw [openWay] at hway
  have hopen := List.find?_some hway
  exact open_iff.mp hopen

omit [DecidableEq A] in
/-- An address that is not resident fits in an open way. -/
theorem fits_of_open (hway : memory.openWay address = some way)
    (htag : ¬ memory.isTagPresent address = true) (permission : AccessPermission)
    (entry : Entry D) : memory.Fits way ⟨address, permission, entry⟩ where
  slot := by
    intro slot hslot
    exact nomatch hslot.symm.trans (free_of_open hway)
  index := by
    intro way' hindex
    rw [isTagPresent, find_tag_eq, hindex] at htag
    exact absurd rfl htag

omit [DecidableEq A] in
/-- A resident address fits in its way. -/
theorem fits_of_tag (hway : memory.findTagInSet address = some way)
    (permission : AccessPermission) (entry : Entry D) :
    memory.Fits way ⟨address, permission, entry⟩ where
  slot := by
    intro slot hslot
    rw [find_tag_eq] at hway
    obtain ⟨slot', hslot', hkey⟩ := (memory.index_iff address way).mp hway
    rw [← Option.some.inj (hslot.symm.trans hslot')] at hkey
    exact hkey
  index := by
    intro way' hindex
    rw [find_tag_eq] at hway
    exact Option.some.inj (hindex.symm.trans hway)

/-- `CacheMemory::allocate` -/
def allocate (memory : CacheMemory config D) (address : A) (entry : Entry D) :
    Except Fault (CacheMemory config D) :=
  if htag : memory.isTagPresent address = true then .error (.assertion "CacheMemory.allocate")
  else if memory.cacheAvail address = false then .error (.assertion "CacheMemory.allocate")
  else
    match hway : memory.openWay address with
    | some way =>
        .ok (memory.putSlot way ⟨address, .Invalid, entry⟩ (fits_of_open hway htag _ _) nofun)
    | none => .error (.error "Allocate didn't find an available entry")

/-- `CacheMemory::deallocate` -/
def deallocate (memory : CacheMemory config D) (address : A) :
    Except Fault (CacheMemory config D) :=
  if memory.isTagPresent address = true then
    .ok { toSetAssociative := memory.remove address
          permitted := fun set way slot h =>
            memory.permitted set way slot (SetAssociative.ways_of_remove h) }
  else .error (.assertion "CacheMemory.deallocate")

/-- Write a resident entry through its pointer, and `setAccessPermission`. -/
def writeEntry (memory : CacheMemory config D) (address : A) (entry : Entry D) :
    CacheMemory config D :=
  match hway : memory.findTagInSet address with
  | none => memory
  | some way =>
      memory.putSlot way ⟨address, entry.cacheState.toPermission, entry⟩ (fits_of_tag hway _ _)
        entry.cacheState.permission_ne

/-- What a transition does to the entry of its address when it ends with `entry`. -/
def update (memory : CacheMemory config D) (address : A) :
    Option (Entry D) → Except Fault (CacheMemory config D)
  | some entry =>
      if memory.isTagPresent address then .ok (memory.writeEntry address entry)
      else do
        let memory ← memory.allocate address entry
        .ok (memory.writeEntry address entry)
  | none => if memory.isTagPresent address then memory.deallocate address else .ok memory

/-- A slot that is put holds its address. -/
theorem lookup_put (slot : Slot A D) (hfits : memory.Fits way slot)
    (hpermission : slot.permission ≠ .NotPresent) :
    (memory.putSlot way slot hfits hpermission).lookup =
      Function.update memory.lookup slot.address (some slot.entry) := by
  funext other
  rw [lookup_eq]
  show Option.map _ ((memory.put way slot hfits).find other) = _
  rw [SetAssociative.find_put]
  by_cases hother : other = slot.address
  · rw [hother, Function.update_self, Function.update_self, Option.map_some]
  · rw [Function.update_of_ne hother, Function.update_of_ne hother, lookup_eq]

/-- An open way takes the entry of an address that is not resident. -/
theorem allocate_spec (htag : memory.lookup address = none) (hfree : memory.HasFreeWay address)
    (entry : Entry D) : ∃ memory', memory.allocate address entry = .ok memory' ∧
      memory'.lookup = Function.update memory.lookup address (some entry) := by
  have htag' : ¬ memory.isTagPresent address = true := by rw [tag_present_iff, htag]; nofun
  have havail : memory.cacheAvail address = true := cache_avail_iff.mpr (Or.inr hfree)
  obtain ⟨way, hway⟩ : ∃ way, memory.openWay address = some way := by
    obtain ⟨way, hway⟩ := hfree
    refine Option.isSome_iff_exists.mp (List.find?_isSome.mpr ⟨way, List.mem_finRange way, ?_⟩)
    exact open_iff.mpr hway
  refine ⟨_, ?_, lookup_put ⟨address, .Invalid, entry⟩ (fits_of_open hway htag' _ _) nofun⟩
  rw [allocate, dif_neg htag', if_neg (by rw [havail]; nofun)]
  split
  · next way' hway' =>
      obtain rfl := Option.some.inj (hway'.symm.trans hway)
      rfl
  · next hnone => exact nomatch hway.symm.trans hnone

/-- What was resident can be deallocated. -/
theorem deallocate_spec (h : (memory.lookup address).isSome = true) :
    ∃ memory', memory.deallocate address = .ok memory' ∧
      memory'.lookup = Function.update memory.lookup address none := by
  rw [deallocate, if_pos (tag_present_iff.trans h)]
  refine ⟨_, rfl, funext fun other => ?_⟩
  rw [lookup_eq]
  show Option.map _ ((memory.remove address).find other) = _
  rw [SetAssociative.find_remove]
  by_cases hother : other = address
  · rw [hother, Function.update_self, Function.update_self, Option.map_none]
  · rw [Function.update_of_ne hother, Function.update_of_ne hother, lookup_eq]

/-- An entry that is written is found. -/
theorem lookup_write (h : (memory.lookup address).isSome = true) (entry : Entry D) :
    (memory.writeEntry address entry).lookup =
      Function.update memory.lookup address (some entry) := by
  rw [writeEntry]
  split
  · next hnone =>
      rw [← tag_present_iff, isTagPresent, hnone] at h
      exact nomatch h
  · exact lookup_put ..

/-- A transition that ends with an entry needs a resident address or a free way. -/
theorem update_spec {entry : Option (Entry D)}
    (h : entry.isSome = true → (memory.lookup address).isSome = true ∨ memory.HasFreeWay address) :
    ∃ memory', memory.update address entry = .ok memory' ∧
      memory'.lookup = Function.update memory.lookup address entry := by
  by_cases htag : (memory.lookup address).isSome = true
  · cases entry with
    | none =>
        rw [update, if_pos (tag_present_iff.trans htag)]
        exact deallocate_spec htag
    | some entry =>
        rw [update, if_pos (tag_present_iff.trans htag)]
        exact ⟨_, rfl, lookup_write htag entry⟩
  · have hnone : memory.lookup address = none := Option.not_isSome_iff_eq_none.mp htag
    cases entry with
    | none =>
        rw [update, if_neg (by rwa [tag_present_iff])]
        exact ⟨memory, rfl, by rw [← hnone, Function.update_eq_self]⟩
    | some entry =>
        obtain ⟨memory', halloc, hlookup⟩ :=
          allocate_spec hnone ((h rfl).resolve_left htag) entry
        rw [update, if_neg (by rwa [tag_present_iff]), halloc]
        refine ⟨_, rfl, ?_⟩
        rw [lookup_write (by rw [hlookup, Function.update_self]; rfl), hlookup,
          Function.update_idem]

/-- A way was free for what is allocated. -/
theorem free_way_of_allocate {entry : Entry D} {memory' : CacheMemory config D}
    (h : memory.allocate address entry = .ok memory') : memory.HasFreeWay address := by
  rw [allocate] at h
  split at h
  · exact nomatch h
  · next htag =>
      split at h
      · exact nomatch h
      · next havail =>
          rw [tag_present_iff] at htag
          exact (cache_avail_iff.mp (Bool.not_eq_false _ ▸ havail)).resolve_left htag

/-- An update that succeeds changes the entry of its address only. -/
theorem lookup_of_update {entry : Option (Entry D)} {memory' : CacheMemory config D}
    (h : memory.update address entry = .ok memory') :
    memory'.lookup = Function.update memory.lookup address entry := by
  have hroom : entry.isSome = true →
      (memory.lookup address).isSome = true ∨ memory.HasFreeWay address := by
    intro hentry
    obtain ⟨entry, rfl⟩ := Option.isSome_iff_exists.mp hentry
    rw [update] at h
    split at h
    · next htag => exact Or.inl (tag_present_iff.symm.trans htag)
    · obtain ⟨middle, halloc, -⟩ := bind_eq_ok.mp h
      exact Or.inr (free_way_of_allocate halloc)
  obtain ⟨memory'', hupdate, hlookup⟩ := update_spec hroom
  cases hupdate.symm.trans h
  exact hlookup

/-- A set that has room for an address has a free way once the address is not resident. -/
theorem free_way_of_update {memory' : CacheMemory config D}
    (havail : memory.cacheAvail address = true) (h : memory.update address none = .ok memory') :
    memory'.HasFreeWay address := by
  rw [update] at h
  split at h
  · next htag =>
      rw [deallocate, if_pos htag] at h
      rw [isTagPresent, find_tag_eq] at htag
      obtain ⟨way, hway⟩ := Option.isSome_iff_exists.mp htag
      cases h
      exact ⟨way, SetAssociative.free_of_remove hway⟩
  · next htag =>
      rw [tag_present_iff] at htag
      cases h
      exact (cache_avail_iff.mp havail).resolve_left htag

end Change

end CacheMemory

end Ece552.Msi.L1Cache
