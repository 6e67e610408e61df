import Reproduce.Links.Buckets
import Reproduce.UtHash.Equiv.Memory

/-!
# Well-formed hashes

A hash that holds the elements `items`, in the order of insertion (`Ok`).  Every element knows its
key's hash value, and no key occurs twice.  When there are elements there is one table (`TableOk`):
its first and last element and the links `prev` and `next` are those of the list, and every element
is in the chain of the bucket that its hash value selects, with the links `hh_prev` and `hh_next`.
The buckets count their elements.
-/

namespace Reproduce.UtHash

open Bytes Effect Links

variable {α : Type} {C : Config α} {h h' : Heap α} {p : Ptr} {items members : List Ptr}
  {t : TablePtr} {T : HashTable}

/-! ### The invariant -/

/-- The bucket of an element, out of `n`. -/
def bktOf (h : Heap α) (n : ℕ) (p : Ptr) : ℕ := (h.hashv p).toNat % n

/-- How many elements belong to a bucket. -/
def bktCount (h : Heap α) (n : ℕ) (members : List Ptr) (i : ℕ) : ℕ :=
  (members.filter fun p => bktOf h n p = i).length

/-- The number of buckets is `2 ^ k`. -/
structure Sized (T : HashTable) (k : ℕ) : Prop where
  le : k ≤ 31
  length : T.buckets.length = 2 ^ k
  numBuckets : T.numBuckets = BitVec.ofNat 32 (2 ^ k)
  log2NumBuckets : T.log2NumBuckets = BitVec.ofNat 32 k

/-- The buckets hold the members, and count them. -/
structure Placed (h : Heap α) (buckets : List HashBucket) (members : List Ptr) : Prop where
  bucketed : Bucketed h.hhPrev h.hhNext (bktOf h buckets.length)
    (buckets.map HashBucket.hhHead) members
  counts : ∀ i b, buckets[i]? = some b →
    b.count = BitVec.ofNat 32 (bktCount h buckets.length members i)

/-- The list in the order of insertion. -/
structure Listed (h : Heap α) (T : HashTable) (items : List Ptr) : Prop where
  linked : Linked h.prev h.next items
  head : h.head = items.head?
  tail : T.tail = items.getLast?

structure TableOk (h : Heap α) (t : TablePtr) (T : HashTable) (items : List Ptr) : Prop where
  /-- There is no other table. -/
  tables : h.tables = Function.update (fun _ => none) t (some T)
  tbl : ∀ p ∈ items, h.tbl p = t
  listed : Listed h T items
  sized : ∃ k, Sized T k
  placed : Placed h T.buckets items
  numItems : T.numItems = BitVec.ofNat 32 items.length

/-- The hash values of the elements are those of their keys. -/
structure Hashed (C : Config α) (h : Heap α) (items : List Ptr) : Prop where
  live : ∀ p ∈ items, h.live p = true
  hashv : ∀ p ∈ items, h.hashv p = C.hashFunction (C.key (h.data p))
  keylen : ∀ p ∈ items, (h.keylen p).toNat = (C.key (h.data p)).length

/-- There is one table, or no element. -/
structure Tabled (h : Heap α) (items : List Ptr) : Prop where
  empty : items = [] → h.head = none ∧ h.tables = fun _ => none
  table : items ≠ [] → ∃ t T, TableOk h t T items

/-- A hash of the given elements. -/
structure Ok (C : Config α) (h : Heap α) (items : List Ptr) : Prop extends Tabled h items where
  nodup : items.Nodup
  keys : (items.map fun p => C.key (h.data p)).Nodup
  hashed : Hashed C h items

theorem TableOk.at (htable : TableOk h t T items) : h.tables t = some T := by
  rw [htable.tables]
  exact Function.update_self ..

/-- The table is reached through the first element. -/
theorem headTable_listed (hhead : h.head = items.head?) (hitems : items ≠ [])
    (hlive : ∀ p ∈ items, h.live p = true) (htbl : ∀ p ∈ items, h.tbl p = t) :
    headTable h = .ok t h := by
  cases items with
  | nil => exact absurd rfl hitems
  | cons p items =>
    rw [headTable_apply hhead (hlive p List.mem_cons_self), htbl p List.mem_cons_self]

theorem TableOk.headTable (htable : TableOk h t T items) (hhashed : Hashed C h items)
    (hitems : items ≠ []) : headTable h = .ok t h :=
  headTable_listed htable.listed.head hitems hhashed.live htable.tbl

theorem Ok.head (hok : Ok C h items) : h.head = items.head? := by
  cases items with
  | nil => exact (hok.empty rfl).1
  | cons p items =>
    obtain ⟨t, T, htable⟩ := hok.table (List.cons_ne_nil p items)
    exact htable.listed.head

theorem Ok.next (hok : Ok C h items) : Follows h.next items := by
  cases items with
  | nil => exact follows_nil
  | cons p items =>
    obtain ⟨t, T, htable⟩ := hok.table (List.cons_ne_nil p items)
    exact htable.listed.linked.next

/-- Elements are allocated, freed or written to, but those of the hash are allocated and keep
their keys. -/
theorem Ok.retouch {live' : Ptr → Bool} {data' : Ptr → α} {n : Ptr} {m : ℕ} (hok : Ok C h items)
    (hlive : ∀ p ∈ items, live' p = true)
    (hkey : ∀ p ∈ items, C.key (data' p) = C.key (h.data p)) :
    Ok C { h with live := live', data := data', nextElmt := n, mallocs := m } items where
  empty := hok.empty
  table := fun hitems => by
    obtain ⟨t, T, htable⟩ := hok.table hitems
    exact ⟨t, T, htable.tables, htable.tbl,
      ⟨htable.listed.linked, htable.listed.head, htable.listed.tail⟩, htable.sized,
      ⟨htable.placed.bucketed, htable.placed.counts⟩, htable.numItems⟩
  nodup := hok.nodup
  keys := by
    rw [List.map_congr_left hkey]
    exact hok.keys
  hashed := by
    refine ⟨hlive, fun p hp => ?_, fun p hp => ?_⟩
    · exact (hok.hashed.hashv p hp).trans (congrArg C.hashFunction (hkey p hp).symm)
    · exact (hok.hashed.keylen p hp).trans (congrArg List.length (hkey p hp).symm)

/-! ### Changes of the buckets -/

variable {buckets : List HashBucket} {members' : List Ptr} {b b' : HashBucket}

theorem bktOf_congr (hhashv : h'.hashv p = h.hashv p) (n : ℕ) : bktOf h' n p = bktOf h n p := by
  unfold bktOf
  rw [hhashv]

theorem bktCount_congr (hhashv : ∀ p ∈ members, h'.hashv p = h.hashv p) (n i : ℕ) :
    bktCount h' n members i = bktCount h n members i := by
  unfold bktCount
  rw [List.filter_congr fun p hp => by rw [bktOf_congr (hhashv p hp)]]

/-- The links in the buckets and the hash values are the same. -/
theorem Placed.congr (hplaced : Placed h buckets members) (hprev : h'.hhPrev = h.hhPrev)
    (hnext : h'.hhNext = h.hhNext) (hhashv : ∀ p ∈ members, h'.hashv p = h.hashv p) :
    Placed h' buckets members where
  bucketed := by
    rw [hprev, hnext]
    exact hplaced.bucketed.congr fun p hp => bktOf_congr (hhashv p hp) _
  counts i b hb := by
    rw [bktCount_congr hhashv]
    exact hplaced.counts i b hb

theorem bktCount_perm (hperm : members.Perm members') (n i : ℕ) :
    bktCount h n members i = bktCount h n members' i := (hperm.filter _).length_eq

theorem bktCount_cons (h : Heap α) (n i : ℕ) (p : Ptr) (members : List Ptr) :
    bktCount h n (p :: members) i =
      bktCount h n members i + if bktOf h n p = i then 1 else 0 := by
  by_cases hi : bktOf h n p = i <;> simp [bktCount, hi]

/-- The order of the members does not matter. -/
theorem Placed.perm (hplaced : Placed h buckets members) (hperm : members.Perm members') :
    Placed h buckets members' where
  bucketed := hplaced.bucketed.perm hperm
  counts i b hb := by
    rw [← bktCount_perm hperm]
    exact hplaced.counts i b hb

/-- Buckets without members. -/
theorem placed_nil (n : ℕ) : Placed h (List.replicate n .zero) [] where
  bucketed := by
    rw [List.map_replicate]
    exact bucketed_empty n
  counts i b hb := by
    rw [List.eq_of_mem_replicate (List.mem_of_getElem? hb)]
    rfl

/-- The head of a bucket is a member. -/
theorem Placed.head_mem {i : ℕ} (hplaced : Placed h buckets members) (hb : buckets[i]? = some b)
    (hp : b.hhHead = some p) : p ∈ members := by
  have hhead : (buckets.map HashBucket.hhHead)[i]? = some (some p) := by
    rw [List.getElem?_map, hb, ← hp]
    rfl
  obtain ⟨chain, hchain⟩ := hplaced.bucketed i _ hhead
  exact (hchain.mem_iff.mp (List.mem_of_mem_head? (hchain.head ▸ rfl))).1

theorem Placed.push (hplaced : Placed h buckets members) (hp : p ∉ members)
    (hnodup : members.Nodup) (hb : buckets[bktOf h buckets.length p]? = some b)
    (hhead : b'.hhHead = some p) (hcount : b'.count = b.count + 1) :
    Placed (h.pushed p b.hhHead) (buckets.set (bktOf h buckets.length p) b') (p :: members) where
  bucketed := by
    have hhead' : (buckets.map HashBucket.hhHead)[bktOf h buckets.length p]? = some b.hhHead := by
      rw [List.getElem?_map, hb]
      rfl
    rw [List.length_set, List.map_set, hhead]
    exact hplaced.bucketed.push hp hnodup hhead'
  counts i c hc := by
    rw [List.length_set]
    show c.count = BitVec.ofNat 32 (bktCount h buckets.length (p :: members) i)
    rw [bktCount_cons]
    by_cases hi : bktOf h buckets.length p = i
    · subst hi
      rw [List.getElem?_set_self (List.getElem?_eq_some_iff.mp hb).1] at hc
      cases hc
      rw [if_pos rfl, hcount, hplaced.counts _ b hb, BitVec.ofNat_add]
      rfl
    · rw [List.getElem?_set_ne hi] at hc
      rw [if_neg hi, Nat.add_zero]
      exact hplaced.counts i c hc

/-! ### Bucket numbers -/

theorem hashToBkt_toNat {k : ℕ} (hk : k ≤ 31) (v : BitVec 32) :
    (hashToBkt v (BitVec.ofNat 32 (2 ^ k))).toNat = v.toNat % 2 ^ k := by
  have hpos : 1 ≤ 2 ^ k := Nat.one_le_two_pow
  have hlt : 2 ^ k < 2 ^ 32 := Nat.pow_lt_pow_right (by decide) (by omega)
  have hmask : (BitVec.ofNat 32 (2 ^ k) - 1).toNat = 2 ^ k - 1 := by
    rw [BitVec.toNat_sub_of_le]
    · rw [BitVec.toNat_ofNat, Nat.mod_eq_of_lt hlt]
      rfl
    · rw [BitVec.le_def, BitVec.toNat_ofNat, Nat.mod_eq_of_lt hlt]
      exact hpos
  rw [hashToBkt, BitVec.toNat_and, hmask, Nat.and_two_pow_sub_one_eq_mod]

theorem Sized.bkt {k : ℕ} (hsized : Sized T k) (p : Ptr) :
    (hashToBkt (h.hashv p) T.numBuckets).toNat = bktOf h T.buckets.length p := by
  rw [hsized.numBuckets, hashToBkt_toNat hsized.le, bktOf, hsized.length]

theorem Sized.toNat_numBuckets {k : ℕ} (hsized : Sized T k) : T.numBuckets.toNat = 2 ^ k := by
  have hle := hsized.le
  have hlt : 2 ^ k < 2 ^ 32 := Nat.pow_lt_pow_right (by decide) (by omega)
  rw [hsized.numBuckets, BitVec.toNat_ofNat, Nat.mod_eq_of_lt hlt]

/-- The numbers of the buckets do not overflow. -/
theorem Sized.toNat_ofNat {k i : ℕ} (hsized : Sized T k) (hi : i < T.buckets.length) :
    (BitVec.ofNat 32 i).toNat = i := by
  have hle : 2 ^ k ≤ 2 ^ 31 := Nat.pow_le_pow_right (by decide) hsized.le
  rw [hsized.length] at hi
  rw [BitVec.toNat_ofNat, Nat.mod_eq_of_lt (by omega)]

/-- There is a bucket for every hash value. -/
theorem exists_bucket {buckets : List HashBucket} (hlength : 0 < buckets.length) (v : ℕ) :
    ∃ b, buckets[v % buckets.length]? = some b :=
  ⟨_, List.getElem?_eq_getElem (Nat.mod_lt v hlength)⟩

theorem Sized.length_pos {k : ℕ} (hsized : Sized T k) : 0 < T.buckets.length := by
  rw [hsized.length]
  exact Nat.two_pow_pos k

end Reproduce.UtHash
