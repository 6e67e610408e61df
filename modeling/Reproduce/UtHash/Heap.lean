import Reproduce.Links.Doubly
import Reproduce.Tracer.Monad

/-!
# The memory of a hash

What the macros of `uthash.h` work on: the elements with their hash handles, the table with its
buckets, and the variable that points at the first element.  The fields of the handles are one map
each, from the addresses of the elements, so that a store to one field leaves the others alone.

A handle is not told from its element: `ELMT_FROM_HH` and `HH_FROM_ELMT` add and subtract a constant
offset.  The key of a handle is the key field of its own element, as `HASH_ADD` sets it, and the
bucket array is a part of its table.  `hho`, `signature` and the Bloom filter, which is not
compiled in, are left out.
-/

namespace Reproduce.UtHash

open Bytes

/-- `UT_hash_bucket` -/
structure HashBucket where
  hhHead : Option Ptr
  count : BitVec 32
  expandMult : BitVec 32
  deriving DecidableEq

/-- A bucket after `uthash_bzero`. -/
def HashBucket.zero : HashBucket := ⟨none, 0, 0⟩

/-- `UT_hash_table` -/
structure HashTable where
  buckets : List HashBucket
  numBuckets : BitVec 32
  log2NumBuckets : BitVec 32
  numItems : BitVec 32
  /-- The last element in the order of insertion. -/
  tail : Option Ptr
  idealChainMaxlen : BitVec 32
  nonidealItems : BitVec 32
  ineffExpands : BitVec 32
  noexpand : BitVec 32

/-- The address of a table. -/
abbrev TablePtr := Nat

structure Heap (α : Type) where
  /-- The variable that the macros call `head`. -/
  head : Option Ptr
  /-- The elements that are allocated. -/
  live : Ptr → Bool
  /-- What the user keeps in an element. -/
  data : Ptr → α
  tbl : Ptr → TablePtr
  prev : Ptr → Option Ptr
  next : Ptr → Option Ptr
  hhPrev : Ptr → Option Ptr
  hhNext : Ptr → Option Ptr
  keylen : Ptr → BitVec 32
  hashv : Ptr → BitVec 32
  tables : TablePtr → Option HashTable
  /-- The addresses of the next element and of the next table.  They are not used twice. -/
  nextElmt : Ptr
  nextTable : TablePtr
  /-- How often `malloc` was called. -/
  mallocs : Nat

/-- What the macros are given from outside. -/
structure Config (α : Type) where
  /-- The bytes of the key field. -/
  key : α → List Byte
  key_length : ∀ a, (key a).length < 2 ^ 32
  /-- `HASH_FUNCTION` -/
  hashFunction : List Byte → BitVec 32
  /-- Whether the `n`-th call of `malloc` grants a block of the given size. -/
  grant : Nat → Nat → Bool

abbrev HashM (α : Type) := EStateM Halt (Heap α)

namespace Heap

variable {α : Type} (h : Heap α) (p : Ptr)

def setHead (v : Option Ptr) : Heap α := { h with head := v }

def setData (v : α) : Heap α := { h with data := Function.update h.data p v }

def setTbl (v : TablePtr) : Heap α := { h with tbl := Function.update h.tbl p v }

def setPrev (v : Option Ptr) : Heap α := { h with prev := Function.update h.prev p v }

def setNext (v : Option Ptr) : Heap α := { h with next := Function.update h.next p v }

def setHhPrev (v : Option Ptr) : Heap α := { h with hhPrev := Function.update h.hhPrev p v }

def setHhNext (v : Option Ptr) : Heap α := { h with hhNext := Function.update h.hhNext p v }

def setKeylen (v : BitVec 32) : Heap α := { h with keylen := Function.update h.keylen p v }

def setHashv (v : BitVec 32) : Heap α := { h with hashv := Function.update h.hashv p v }

/-- The table at an address is set, or freed. -/
def setTable (t : TablePtr) (v : Option HashTable) : Heap α :=
  { h with tables := Function.update h.tables t v }

def setLive (v : Bool) : Heap α := { h with live := Function.update h.live p v }

/-- The address of the next element is used. -/
def useElmt : Heap α := { h with nextElmt := h.nextElmt + 1 }

/-- The address of the next table is used. -/
def useTable : Heap α := { h with nextTable := h.nextTable + 1 }

/-- `malloc` was called. -/
def countMalloc : Heap α := { h with mallocs := h.mallocs + 1 }

end Heap

variable {α β : Type}

/-- `p->field` -/
def load (field : Heap α → Ptr → β) (p : Ptr) : HashM α β := fun h =>
  if h.live p then .ok (field h p) h else .error .useAfterFree h

/-- `p->field = v` -/
def store (setField : Heap α → Ptr → β → Heap α) (p : Ptr) (v : β) : HashM α Unit := fun h =>
  if h.live p then .ok () (setField h p v) else .error .useAfterFree h

/-- `if (p) p->field = v` -/
def storeIf (setField : Heap α → Ptr → β → Heap α) : Option Ptr → β → HashM α Unit
  | none, _ => pure ()
  | some p, v => store setField p v

/-- A pointer that is dereferenced. -/
def nonNull : Option Ptr → HashM α Ptr
  | none => throw .nullDereference
  | some p => pure p

/-- `*tbl` -/
def loadTable (t : TablePtr) : HashM α HashTable := fun h =>
  match h.tables t with
  | some T => .ok T h
  | none => .error .useAfterFree h

/-- A change of `*tbl`. -/
def modifyTable (t : TablePtr) (f : HashTable → HashTable) : HashM α Unit := fun h =>
  match h.tables t with
  | some T => .ok () (h.setTable t (some (f T)))
  | none => .error .useAfterFree h

/-- `tbl->buckets[bkt]` -/
def loadBucket (t : TablePtr) (bkt : BitVec 32) : HashM α HashBucket := do
  let T ← loadTable t
  match T.buckets[bkt.toNat]? with
  | some b => pure b
  | none => throw .outOfBounds

/-- A change of `tbl->buckets[bkt]`. -/
def modifyBucket (t : TablePtr) (bkt : BitVec 32) (f : HashBucket → HashBucket) :
    HashM α Unit := do
  let b ← loadBucket t bkt
  modifyTable t fun T => { T with buckets := T.buckets.set bkt.toNat (f b) }

/-- `head` -/
def getHead : HashM α (Option Ptr) := fun h => .ok h.head h

/-- `(head)->hh.tbl` -/
def headTable : HashM α TablePtr := do
  let head ← getHead
  load Heap.tbl (← nonNull head)

/-- `head = p` -/
def assignHead (p : Option Ptr) : HashM α Unit := fun h => .ok () (h.setHead p)

/-- `*tbl` is set, or freed. -/
def assignTable (t : TablePtr) (v : Option HashTable) : HashM α Unit := fun h =>
  .ok () (h.setTable t v)

/-! ### Allocation -/

variable (C : Config α)

def allocate (size : Nat) : HashM α Bool := fun h =>
  .ok (C.grant h.mallocs size) h.countMalloc

def newTable : HashM α TablePtr := fun h => .ok h.nextTable h.useTable

/-- A block that `malloc` granted.  Its contents are what was there before. -/
def newElmt : HashM α Ptr := fun h => .ok h.nextElmt (h.useElmt.setLive h.nextElmt true)

/-- `free(p)` -/
def freeElmt (p : Ptr) : HashM α Unit := store Heap.setLive p false

/-- `exit(-1)` -/
def UTHASH_FATAL : Nat := 255

/-- `uthash_malloc` followed by the check for a null pointer: `uthash_fatal` ends the program. -/
def uthashMalloc (size : Nat) : HashM α Unit := do
  if ← allocate C size then pure () else throw (.exit UTHASH_FATAL)

end Reproduce.UtHash
