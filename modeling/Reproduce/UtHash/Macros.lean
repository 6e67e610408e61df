import Reproduce.Effect.Triple
import Reproduce.UtHash.Heap

/-!
# The macros

The macros of `uthash.h` that `hashtable.c` uses, and `HASH_FSCK`, the integrity check of the
library.  Loops along a chain run until they meet a null link; `fuel` bounds the number of elements
each of them looks at.
-/

namespace Reproduce.UtHash

open Bytes Effect

variable {α : Type} (C : Config α) (fuel : Nat)

def HASH_INITIAL_NUM_BUCKETS : BitVec 32 := 32
def HASH_INITIAL_NUM_BUCKETS_LOG2 : BitVec 32 := 5
def HASH_BKT_CAPACITY_THRESH : BitVec 32 := 10

/-- `sizeof(UT_hash_table)` -/
def sizeofHashTable : Nat := 64

/-- `sizeof(struct UT_hash_bucket)` -/
def sizeofHashBucket : Nat := 16

/-- `HASH_TO_BKT(hashv, num_bkts, bkt)` -/
def hashToBkt (hashv numBkts : BitVec 32) : BitVec 32 := hashv &&& (numBkts - 1)

/-! ### Finding -/

/-- `HASH_KEYCMP((out)->hh.key, keyptr, keylen_in) == 0` -/
def hashKeycmp (key key' : List Byte) (keylen : Nat) : Bool := key.take keylen = key'.take keylen

/-- One iteration of `HASH_FIND_IN_BKT`, on `out`. -/
def findStep (key : List Byte) (hashval : BitVec 32) (out : Option Ptr) :
    HashM α (Option Ptr ⊕ Option Ptr) := do
  match out with
  | none => pure (.inr none)
  | some p =>
    let hashv ← load Heap.hashv p
    let keylen ← load Heap.keylen p
    let data ← load Heap.data p
    if hashv = hashval && keylen.toNat = key.length && hashKeycmp (C.key data) key key.length then
      pure (.inr (some p))
    else
      pure (.inl (← load Heap.hhNext p))

def hashFindInBkt (key : List Byte) (hashval : BitVec 32) (bkt : HashBucket) :
    HashM α (Option Ptr) :=
  Effect.loop .outOfFuel (findStep C key hashval) fuel bkt.hhHead

def hashFindByHashvalue (key : List Byte) (hashval : BitVec 32) : HashM α (Option Ptr) := do
  match ← getHead with
  | none => pure none
  | some _ =>
    let tbl ← headTable
    let T ← loadTable tbl
    let bkt ← loadBucket tbl (hashToBkt hashval T.numBuckets)
    hashFindInBkt C fuel key hashval bkt

/-- `HASH_FIND(hh, head, keyptr, keylen, out)` -/
def hashFind (key : List Byte) : HashM α (Option Ptr) :=
  hashFindByHashvalue C fuel key (C.hashFunction key)

/-! ### Adding -/

/-- A new table, without its buckets. -/
def HashTable.fresh (tail : Ptr) : HashTable where
  buckets := []
  numBuckets := HASH_INITIAL_NUM_BUCKETS
  log2NumBuckets := HASH_INITIAL_NUM_BUCKETS_LOG2
  numItems := 0
  tail := some tail
  idealChainMaxlen := 0
  nonidealItems := 0
  ineffExpands := 0
  noexpand := 0

/-- `HASH_MAKE_TABLE(hh, head, oomed)` for the element that becomes the head. -/
def hashMakeTable (add : Ptr) : HashM α Unit := do
  uthashMalloc C sizeofHashTable
  let t ← newTable
  store Heap.setTbl add t
  assignTable t (some (.fresh add))
  uthashMalloc C (HASH_INITIAL_NUM_BUCKETS.toNat * sizeofHashBucket)
  modifyTable t fun T =>
    { T with buckets := List.replicate HASH_INITIAL_NUM_BUCKETS.toNat .zero }

/-- `HASH_APPEND_LIST(hh, head, add)` -/
def hashAppendList (add : Ptr) : HashM α Unit := do
  store Heap.setNext add none
  let tbl ← headTable
  let T ← loadTable tbl
  store Heap.setPrev add T.tail
  store Heap.setNext (← nonNull T.tail) (some add)
  modifyTable tbl fun T => { T with tail := some add }

/-- The local data of `HASH_EXPAND_BUCKETS`, and `nonideal_items`, which it counts. -/
structure Spread where
  newBuckets : List HashBucket
  nonidealItems : BitVec 32

/-- A bucket that gets one more element, and whose chain may become longer than it should. -/
def HashBucket.counted (ideal : BitVec 32) (newbkt : HashBucket) : HashBucket :=
  let newbkt := { newbkt with count := newbkt.count + 1 }
  if newbkt.count > ideal ∧ newbkt.count > newbkt.expandMult * ideal then
    { newbkt with expandMult := newbkt.expandMult + 1 }
  else newbkt

/-- One iteration of the inner loop of `HASH_EXPAND_BUCKETS`, on `_he_thh`: an element is moved to
the front of its new bucket. -/
def moveStep (ideal numBkts : BitVec 32) (st : Option Ptr × Spread) :
    HashM α ((Option Ptr × Spread) ⊕ Spread) := do
  let (thh, spread) := st
  match thh with
  | none => pure (.inr spread)
  | some thh =>
    let hhNxt ← load Heap.hhNext thh
    let bkt := hashToBkt (← load Heap.hashv thh) numBkts
    match spread.newBuckets[bkt.toNat]? with
    | none => throw .outOfBounds
    | some newbkt =>
      let newbkt := newbkt.counted ideal
      let nonidealItems :=
        if newbkt.count > ideal then spread.nonidealItems + 1 else spread.nonidealItems
      store Heap.setHhPrev thh none
      store Heap.setHhNext thh newbkt.hhHead
      storeIf Heap.setHhPrev newbkt.hhHead (some thh)
      let newbkt := { newbkt with hhHead := some thh }
      pure (.inl (hhNxt, ⟨spread.newBuckets.set bkt.toNat newbkt, nonidealItems⟩))

/-- The outer loop of `HASH_EXPAND_BUCKETS`, over the indices of the old buckets. -/
def moveBuckets (tbl : TablePtr) (ideal numBkts : BitVec 32) : List Nat → Spread → HashM α Spread
  | [], spread => pure spread
  | i :: is, spread => do
    let bkt ← loadBucket tbl (BitVec.ofNat 32 i)
    let spread ← Effect.loop .outOfFuel (moveStep ideal numBkts) fuel (bkt.hhHead, spread)
    moveBuckets tbl ideal numBkts is spread

/-- `HASH_EXPAND_BUCKETS(hh, tbl, oomed)` -/
def hashExpandBuckets (tbl : TablePtr) : HashM α Unit := do
  let T ← loadTable tbl
  uthashMalloc C (sizeofHashBucket * T.numBuckets.toNat * 2)
  let numBkts := T.numBuckets * 2
  let ideal := (T.numItems >>> (T.log2NumBuckets + 1).toNat) +
    (if T.numItems &&& (numBkts - 1) ≠ 0 then 1 else 0)
  let spread ← moveBuckets fuel tbl ideal numBkts (List.range T.numBuckets.toNat)
    ⟨List.replicate (T.numBuckets.toNat * 2) .zero, 0⟩
  let ineffExpands := if spread.nonidealItems > T.numItems >>> 1 then T.ineffExpands + 1 else 0
  modifyTable tbl fun T =>
    { T with
      buckets := spread.newBuckets
      numBuckets := numBkts
      log2NumBuckets := T.log2NumBuckets + 1
      idealChainMaxlen := ideal
      nonidealItems := spread.nonidealItems
      ineffExpands := ineffExpands
      noexpand := if ineffExpands > 1 then 1 else T.noexpand }

/-- The first part of `HASH_ADD_TO_BKT`: the new element becomes the head of its bucket. -/
def hashPushBkt (tbl : TablePtr) (bkt : BitVec 32) (addhh : Ptr) : HashM α HashBucket := do
  modifyBucket tbl bkt fun b => { b with count := b.count + 1 }
  let b ← loadBucket tbl bkt
  store Heap.setHhNext addhh b.hhHead
  store Heap.setHhPrev addhh none
  storeIf Heap.setHhPrev b.hhHead (some addhh)
  modifyBucket tbl bkt fun b => { b with hhHead := some addhh }
  loadBucket tbl bkt

/-- `HASH_ADD_TO_BKT(tbl->buckets[bkt], hh, addhh, oomed)` -/
def hashAddToBkt (tbl : TablePtr) (bkt : BitVec 32) (addhh : Ptr) : HashM α Unit := do
  let b ← hashPushBkt tbl bkt addhh
  let tbl ← load Heap.tbl addhh
  let T ← loadTable tbl
  if b.count ≥ (b.expandMult + 1) * HASH_BKT_CAPACITY_THRESH ∧ T.noexpand = 0 then
    hashExpandBuckets C fuel tbl
  else
    pure ()

/-- `HASH_ADD_TO_TABLE` -/
def hashAddToTable (hashval : BitVec 32) (add : Ptr) : HashM α Unit := do
  let tbl ← headTable
  modifyTable tbl fun T => { T with numItems := T.numItems + 1 }
  let T ← loadTable tbl
  hashAddToBkt C fuel tbl (hashToBkt hashval T.numBuckets) add

/-- The first element makes the table, the others are appended to the list. -/
def hashAddToList (add : Ptr) : HashM α Unit := do
  match ← getHead with
  | none =>
    store Heap.setNext add none
    store Heap.setPrev add none
    hashMakeTable C add
    assignHead (some add)
  | some _ =>
    let tbl ← headTable
    store Heap.setTbl add tbl
    hashAppendList add

/-- `HASH_ADD(hh, head, fieldname, keylen_in, add)`, down to `HASH_ADD_KEYPTR_BYHASHVALUE`. -/
def hashAdd (add : Ptr) : HashM α Unit := do
  let key := C.key (← load Heap.data add)
  let hashval := C.hashFunction key
  store Heap.setHashv add hashval
  store Heap.setKeylen add (BitVec.ofNat 32 key.length)
  hashAddToList C add
  hashAddToTable C fuel hashval add

/-! ### Deleting -/

/-- `HASH_DEL_IN_BKT(tbl->buckets[bkt], delhh)` -/
def hashDelInBkt (tbl : TablePtr) (bkt : BitVec 32) (delhh : Ptr) : HashM α Unit := do
  let hhNext ← load Heap.hhNext delhh
  modifyBucket tbl bkt fun b =>
    { b with
      count := b.count - 1
      hhHead := if b.hhHead = some delhh then hhNext else b.hhHead }
  storeIf Heap.setHhNext (← load Heap.hhPrev delhh) (← load Heap.hhNext delhh)
  storeIf Heap.setHhPrev (← load Heap.hhNext delhh) (← load Heap.hhPrev delhh)

/-- The element behind `del` follows the one in front of it, or becomes the first. -/
def hashDelNext (del : Ptr) : HashM α Unit := do
  let next ← load Heap.next del
  match ← load Heap.prev del with
  | some prev => store Heap.setNext prev next
  | none => assignHead next

/-- The element is taken out of the list. -/
def hashDelList (del : Ptr) : HashM α Unit := do
  hashDelNext del
  storeIf Heap.setPrev (← load Heap.next del) (← load Heap.prev del)

/-- `HASH_DELETE_HH(hh, head, delptrhh)` -/
def hashDeleteHh (del : Ptr) : HashM α Unit := do
  let prev ← load Heap.prev del
  let next ← load Heap.next del
  let tbl ← headTable
  if prev = none ∧ next = none then
    -- the buckets are freed with their table
    assignTable tbl none
    assignHead none
  else
    modifyTable tbl fun T => { T with tail := if T.tail = some del then prev else T.tail }
    hashDelList del
    -- the head may have changed
    let tbl ← headTable
    let T ← loadTable tbl
    let bkt := hashToBkt (← load Heap.hashv del) T.numBuckets
    hashDelInBkt tbl bkt del
    modifyTable tbl fun T => { T with numItems := T.numItems - 1 }

/-! ### Iteration -/

/-- `(tmp != NULL) ? tmp->hh.next : NULL` -/
def loadNext : Option Ptr → HashM α (Option Ptr)
  | none => pure none
  | some tmp => load Heap.next tmp

/-- `HASH_ITER(hh, head, el, tmp)` with a body that reads the element: `el` and `tmp` move along the
list, and what the body reads is collected. -/
def hashIter : Nat → Option Ptr → Option Ptr → HashM α (List α)
  | 0, _, _ => throw .outOfFuel
  | _ + 1, none, _ => pure []
  | fuel + 1, some el, tmp => do
    let data ← load Heap.data el
    let next ← loadNext tmp
    return data :: (← hashIter fuel tmp next)

/-- The start of `HASH_ITER`. -/
def hashItems : HashM α (List α) := do
  let head ← getHead
  hashIter fuel head (← loadNext head)

/-! ### The integrity check -/

/-- `HASH_OOPS` -/
def hashOops {β : Type} : HashM α β := throw (.exit UTHASH_FATAL)

/-- The check of a list with links in both directions, from `_thh` on: the number of its
elements. -/
def fsckLinks (prv nxt : Heap α → Ptr → Option Ptr) :
    Nat → Option Ptr → Option Ptr → BitVec 32 → HashM α (BitVec 32)
  | 0, _, _, _ => throw .outOfFuel
  | _ + 1, none, _, count => pure count
  | fuel + 1, some thh, prev, count => do
    if prev ≠ (← load prv thh) then hashOops
    else fsckLinks prv nxt fuel (← load nxt thh) (some thh) (count + 1)

/-- The check of the buckets, over their indices: the number of all elements. -/
def fsckBuckets (tbl : TablePtr) : List Nat → BitVec 32 → HashM α (BitVec 32)
  | [], count => pure count
  | i :: is, count => do
    let bkt ← loadBucket tbl (BitVec.ofNat 32 i)
    let bktCount ← fsckLinks Heap.hhPrev Heap.hhNext fuel bkt.hhHead none 0
    if bkt.count ≠ bktCount then hashOops
    else fsckBuckets tbl is (count + bktCount)

/-- `HASH_FSCK(hh, head, where)` -/
def hashFsck : HashM α Unit := do
  match ← getHead with
  | none => pure ()
  | some head =>
    let tbl ← headTable
    let T ← loadTable tbl
    let count ← fsckBuckets fuel tbl (List.range T.numBuckets.toNat) 0
    if count ≠ T.numItems then hashOops
    else
      let count ← fsckLinks Heap.prev Heap.next fuel (some head) none 0
      if count ≠ T.numItems then hashOops else pure ()

end Reproduce.UtHash
