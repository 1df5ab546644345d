import Ece552.Library.FifoNetwork
import Mathlib.Data.List.Nodup

/-!
# Messages, machines and outcomes of the MSI protocol

The message structures of `MSI-msg.sm`, the destination sets and machine identifiers that the
two machines use, and what a triggered event can lead to. Fields that no transition reads
(message sizes, the dirty bit) are left out. A message that carries no data holds the default
data block, and a multicast is one packet per destination.
-/

namespace Ece552.Msi

/-- The machines of the system: the L1 caches and the directories. -/
inductive MachineID (ι δ : Type) where
  | L1Cache (num : ι)
  | Directory (num : δ)
  deriving DecidableEq, Repr

/-- `CoherenceRequestType` of `MSI-msg.sm`. -/
inductive CoherenceRequestType where
  | GETM | GETS | PUTM | PUTS | WB_ACK | WB_NACK | INV | FWD
  deriving DecidableEq, Repr

/-- `CoherenceResponseType` of `MSI-msg.sm`. -/
inductive CoherenceResponseType where
  | ACK | DATA | DATA_EXCLUSIVE_CLEAN | DATA_EXCLUSIVE_DIRTY | UNBLOCK | UNBLOCK_EXCLUSIVE
  | WB_ACK | WRITEBACK_CLEAN | WRITEBACK_DIRTY | WRITEBACK | DATA_FROM_DIR | DATA_FROM_OWNER
  deriving DecidableEq, Repr

/-- The kinds of off-chip memory requests that the directory queues. -/
inductive MemoryRequestType where
  | MEMORY_READ | MEMORY_WB
  deriving DecidableEq, Repr

/-- The request types of the local processor that the L1 maps to events. -/
inductive RubyRequestType where
  | LD | IFETCH | ST | ATOMIC
  deriving DecidableEq, Repr

/-- A request, or a request forwarded by the directory. -/
structure RequestMsg (N A D : Type) where
  address : A
  type : CoherenceRequestType
  requestor : N
  dataBlk : D
  deriving DecidableEq

/-- A response. The directory puts minus the number of invalidated sharers in `ackCount`. -/
structure ResponseMsg (N A D : Type) where
  address : A
  type : CoherenceResponseType
  sender : N
  dataBlk : D
  ackCount : Int := 0
  deriving DecidableEq

/-- A queued off-chip memory request, which is also its reply. -/
structure MemoryMsg (N A D : Type) where
  address : A
  type : MemoryRequestType
  originalRequestorMachId : N
  dataBlk : D
  deriving DecidableEq

/-- A request of the local processor at the head of the mandatory queue. -/
structure RubyRequest (A : Type) where
  lineAddress : A
  type : RubyRequestType
  deriving DecidableEq

/-! ## Destination sets -/

/-- A set of machines. The list is an enumeration without repetitions of its elements. -/
structure NetDest (N : Type) where
  elems : List N
  nodup : elems.Nodup

namespace NetDest

variable {N : Type}

/-- A machine is in the set if it is listed. -/
instance : Membership N (NetDest N) := ⟨fun set x => x ∈ set.elems⟩

/-- The empty destination set. -/
def empty : NetDest N := ⟨[], List.nodup_nil⟩

/-- The number of machines in the set. -/
def count (set : NetDest N) : Nat := set.elems.length

/-- `clear` forgets the set it is applied to. -/
def clear (_ : NetDest N) : NetDest N := empty

variable [DecidableEq N]

/-- The list is searched. -/
instance (x : N) (set : NetDest N) : Decidable (x ∈ set) :=
  inferInstanceAs (Decidable (x ∈ set.elems))

/-- Whether the machine is in the set. -/
def isElement (set : NetDest N) (x : N) : Bool := decide (x ∈ set)

/-- Add a machine. -/
def add (set : NetDest N) (x : N) : NetDest N where
  elems := set.elems.insert x
  nodup := set.nodup.insert

/-- Remove a machine. -/
def remove (set : NetDest N) (x : N) : NetDest N where
  elems := set.elems.erase x
  nodup := set.nodup.erase x

/-- Add every machine of another set. -/
def addNetDest (set other : NetDest N) : NetDest N where
  elems := set.elems ∪ other.elems
  nodup := other.nodup.union _

variable {set other : NetDest N} {x y : N}

omit [DecidableEq N] in
/-- The elements of a set are its members. -/
@[simp] theorem mem_elems : x ∈ set.elems ↔ x ∈ set := Iff.rfl

omit [DecidableEq N] in
@[simp, grind .] theorem not_mem_empty : ¬ x ∈ (empty : NetDest N) := List.not_mem_nil

omit [DecidableEq N] in
@[simp] theorem clear_eq : set.clear = empty := rfl

/-- `isElement` tells whether the machine is in the set. -/
@[simp] theorem is_element_iff : set.isElement x = true ↔ x ∈ set := by
  simp [isElement]

/-- What is in the set after `add`. -/
@[simp, grind =] theorem mem_add : y ∈ set.add x ↔ y = x ∨ y ∈ set :=
  List.mem_insert_iff

/-- What is in the set after `remove`. -/
@[simp, grind =] theorem mem_remove : y ∈ set.remove x ↔ y ≠ x ∧ y ∈ set :=
  set.nodup.mem_erase_iff

/-- What is in the set after `addNetDest`. -/
@[simp, grind =] theorem mem_add_net_dest : y ∈ set.addNetDest other ↔ y ∈ set ∨ y ∈ other :=
  show y ∈ set.elems ∪ other.elems ↔ _ from List.mem_union_iff

omit [DecidableEq N] in
@[simp] theorem count_empty : (empty : NetDest N).count = 0 := rfl

omit [DecidableEq N] in
/-- A set with no machines is empty. -/
theorem count_eq_zero : set.count = 0 ↔ ∀ x, ¬ x ∈ set :=
  List.length_eq_zero_iff.trans List.eq_nil_iff_forall_not_mem

omit [DecidableEq N] in
/-- Destination sets with the same enumeration are equal. -/
theorem ext_elems {set other : NetDest N} (h : set.elems = other.elems) : set = other := by
  cases set
  cases other
  cases h
  rfl

omit [DecidableEq N] in
/-- A set with no machines is the empty set. -/
theorem eq_empty_of_count (h : set.count = 0) : set = empty :=
  ext_elems (List.length_eq_zero_iff.mp h)

omit [DecidableEq N] in
/-- A set with a single machine has exactly that machine. -/
theorem count_eq_one : set.count = 1 ↔ ∃ x, set.elems = [x] :=
  List.length_eq_one_iff

/-- Adding to the empty set gives a singleton. -/
@[simp] theorem empty_add_elems : ((empty : NetDest N).add x).elems = [x] := by
  simp [empty, add]

/-- One machine added to the empty set is the only one. -/
@[simp] theorem empty_add_count : ((empty : NetDest N).add x).count = 1 := by
  simp [count]

/-- Removing a member leaves one machine fewer. -/
theorem count_remove_of_mem (h : x ∈ set) : (set.remove x).count + 1 = set.count := by
  have hpos : 0 < set.elems.length := List.length_pos_of_mem h
  have herase : (set.elems.erase x).length = set.elems.length - 1 := List.length_erase_of_mem h
  simp only [count, remove]
  omega

/-- Removing a machine that is not in the set changes nothing. -/
theorem remove_of_not_mem (h : ¬ x ∈ set) : set.remove x = set :=
  ext_elems (List.erase_of_not_mem h)

end NetDest

/-! ## What a triggered event leads to -/

/-- Why the simulation stops. -/
inductive Fault where
  /-- The generated controller has no transition for the state and event. -/
  | invalidTransition
  /-- A failed assertion of a function or an action. -/
  | assertion (function : String)
  /-- A field of an invalid pointer is read. -/
  | nullPointer
  /-- An `error` statement. -/
  | error (text : String)
  deriving DecidableEq, Repr

/-- The result of triggering an event, or `idle` when there is nothing to trigger it. -/
inductive Outcome (α : Type) where
  | valid (result : α)
  | stall
  | fault (fault : Fault)
  | idle

namespace Outcome

variable {α β : Type}

/-- Apply a function to the result of a valid outcome. -/
def map (f : α → β) : Outcome α → Outcome β
  | valid a => valid (f a)
  | stall => stall
  | fault e => fault e
  | idle => idle

/-- Why the simulation stops, if it does. -/
def failure : Outcome α → Option Fault
  | fault e => some e
  | valid _ | stall | idle => none

/-- The result of actions that either fail or end in a context. -/
def ofExcept : Except Fault α → Outcome α
  | .ok a => valid a
  | .error e => fault e

/-- A function is applied to a valid outcome. -/
@[simp] theorem map_eq_valid {f : α → β} {o : Outcome α} {b : β} :
    o.map f = valid b ↔ ∃ a, o = valid a ∧ f a = b := by
  cases o <;> simp [map]

/-- A fault stays the same fault. -/
@[simp] theorem map_eq_fault {f : α → β} {o : Outcome α} {e : Fault} :
    o.map f = fault e ↔ o = fault e := by
  cases o <;> simp [map]

/-- A stall stays a stall. -/
@[simp] theorem map_eq_stall {f : α → β} {o : Outcome α} :
    o.map f = stall ↔ o = stall := by
  cases o <;> simp [map]

/-- A failure stays a failure. -/
@[simp] theorem failure_map {f : α → β} {o : Outcome α} : (o.map f).failure = o.failure := by
  cases o <;> rfl

/-- What is no error is valid. -/
@[simp] theorem of_except_eq_valid {r : Except Fault α} {a : α} :
    ofExcept r = valid a ↔ r = .ok a := by
  cases r <;> simp [ofExcept]

end Outcome

/-- Check an assertion of the named function. -/
def assertThat (function : String) (condition : Prop) [Decidable condition] :
    Except Fault Unit :=
  if condition then .ok () else .error (.assertion function)

/-- An assertion that holds does not fail. -/
@[simp] theorem assert_that_of_true {function : String} {condition : Prop} [Decidable condition]
    (h : condition) : assertThat function condition = .ok () := if_pos h

/-- An assertion that does not fail holds. -/
@[simp] theorem assert_that_eq_ok {function : String} {condition : Prop} [Decidable condition]
    {u : Unit} : assertThat function condition = .ok u ↔ condition := by
  unfold assertThat
  split <;> simp [*]

end Ece552.Msi
