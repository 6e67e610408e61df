import Mathlib.Data.BitVec
import Reproduce.UtHash.Equiv.Invariant

/-!
# Reading a hash

In a well-formed hash `HASH_FIND` finds the element with the key it is given, if there is one
(`hashFind_apply`), `HASH_ITER` meets every element once in the order of insertion
(`hashItems_apply`), and the integrity check `HASH_FSCK` finds nothing (`hashFsck_apply`).  None of
them changes anything.
-/

namespace Reproduce.UtHash

open Bytes Effect Links

variable {α : Type} {C : Config α} {h : Heap α} {items chain : List Ptr} {t : TablePtr}
  {T : HashTable} {fuel : ℕ}

/-! ### Finding -/

/-- The comparison of an element with a key is exact. -/
theorem hashKeycmp_iff {key key' : List Byte} {n : ℕ} (hn : n = key.length) :
    n = key'.length ∧ hashKeycmp key key' key'.length = true ↔ key = key' := by
  subst hn
  rw [hashKeycmp, decide_eq_true_iff]
  constructor
  · rintro ⟨hlength, htake⟩
    rwa [← hlength, List.take_length, hlength, List.take_length] at htake
  · rintro rfl
    exact ⟨rfl, rfl⟩

theorem findStep_apply (hhashed : Hashed C h items) {p : Ptr} (hp : p ∈ items) (key : List Byte) :
    findStep C key (C.hashFunction key) (some p) h =
      .ok (if C.key (h.data p) = key then .inr (some p) else .inl (h.hhNext p)) h := by
  have hlive := hhashed.live p hp
  refine (bind_apply_ok (load_apply hlive)).trans ?_
  refine (bind_apply_ok (load_apply hlive)).trans ?_
  refine (bind_apply_ok (load_apply hlive)).trans ?_
  have htest : (h.hashv p = C.hashFunction key && (h.keylen p).toNat = key.length &&
      hashKeycmp (C.key (h.data p)) key key.length) = true ↔ C.key (h.data p) = key := by
    rw [Bool.and_eq_true, Bool.and_eq_true, decide_eq_true_iff, decide_eq_true_iff, and_assoc,
      hashKeycmp_iff (hhashed.keylen p hp)]
    refine ⟨fun htest => htest.2, fun hkey => ⟨?_, hkey⟩⟩
    rw [hhashed.hashv p hp, hkey]
  by_cases hkey : C.key (h.data p) = key
  · rw [if_pos (htest.mpr hkey), if_pos hkey]
    rfl
  · rw [if_neg (mt htest.mp hkey), if_neg hkey]
    exact bind_apply_ok (load_apply hlive)

/-- The search along a chain. -/
theorem hashFindInBkt_apply (hhashed : Hashed C h items) (hchain : ∀ p ∈ chain, p ∈ items)
    (hfollows : Follows h.hhNext chain) (hfuel : chain.length < fuel) (key : List Byte) :
    Effect.loop .outOfFuel (findStep C key (C.hashFunction key)) fuel chain.head? h =
      .ok (chain.find? fun p => C.key (h.data p) = key) h := by
  induction chain generalizing fuel with
  | nil =>
    obtain ⟨n, rfl⟩ := Nat.exists_eq_succ_of_ne_zero (Nat.ne_of_gt hfuel)
    exact loop_done rfl n
  | cons p chain ih =>
    obtain ⟨n, rfl⟩ := Nat.exists_eq_succ_of_ne_zero (Nat.ne_of_gt (Nat.zero_lt_of_lt hfuel))
    have hstep := findStep_apply hhashed (hchain p List.mem_cons_self) key
    by_cases hkey : C.key (h.data p) = key
    · rw [if_pos hkey] at hstep
      rw [List.find?_cons_of_pos (by simpa using hkey)]
      exact loop_done hstep n
    · rw [if_neg hkey, hfollows.1] at hstep
      rw [List.find?_cons_of_neg (by simpa using hkey)]
      refine (loop_next hstep n).trans (ih (fun q hq => hchain q ?_) hfollows.2 ?_)
      · exact List.mem_cons_of_mem p hq
      · exact Nat.lt_of_succ_lt_succ hfuel

/-- Elements with one key are one element. -/
theorem Ok.eq_of_key (hok : Ok C h items) {p q : Ptr} (hp : p ∈ items) (hq : q ∈ items)
    (hkey : C.key (h.data p) = C.key (h.data q)) : p = q :=
  List.inj_on_of_nodup_map hok.keys hp hq hkey

/-- The chain that the hash value of a key selects has the element with the key. -/
theorem Ok.find?_chain (hok : Ok C h items) {n : ℕ} {key : List Byte} {head : Option Ptr}
    (hchain : ChainOf h.hhPrev h.hhNext (bktOf h n) items ((C.hashFunction key).toNat % n) head
      chain) :
    (chain.find? fun p => C.key (h.data p) = key) =
      items.find? fun p => C.key (h.data p) = key := by
  cases hfind : items.find? fun p => C.key (h.data p) = key with
  | none =>
    rw [List.find?_eq_none] at hfind ⊢
    exact fun p hp => hfind p (hchain.mem_iff.mp hp).1
  | some p =>
    have hp := List.mem_of_find?_eq_some hfind
    have hkey : C.key (h.data p) = key := by simpa using List.find?_some hfind
    have hmem : p ∈ chain := by
      rw [hchain.mem_iff, bktOf, hok.hashed.hashv p hp, hkey]
      exact ⟨hp, rfl⟩
    -- it is the only one with the key
    cases hother : chain.find? fun p => C.key (h.data p) = key with
    | none => exact absurd (List.find?_eq_none.mp hother p hmem) (by simpa using hkey)
    | some q =>
      have hq : C.key (h.data q) = key := by simpa using List.find?_some hother
      have hq' := (hchain.mem_iff.mp (List.mem_of_find?_eq_some hother)).1
      rw [hok.eq_of_key hq' hp (hq.trans hkey.symm)]

/-- `HASH_FIND` finds the element with the key. -/
theorem hashFind_apply (hok : Ok C h items) (hfuel : items.length < fuel) (key : List Byte) :
    hashFind C fuel key h = .ok (items.find? fun p => C.key (h.data p) = key) h := by
  by_cases hitems : items = []
  · have hget : getHead h = .ok none h := by rw [getHead, (hok.empty hitems).1]
    rw [hitems]
    exact bind_apply_ok hget
  · obtain ⟨t, T, htable⟩ := hok.table hitems
    obtain ⟨k, hsized⟩ := htable.sized
    obtain ⟨p, rest, rfl⟩ := List.exists_cons_of_ne_nil hitems
    have hget : getHead h = .ok (some p) h := by rw [getHead, htable.listed.head]; rfl
    refine (bind_apply_ok hget).trans ((bind_apply_ok (htable.headTable hok.hashed hitems)).trans
      ((bind_apply_ok (loadTable_apply htable.at)).trans ?_))
    -- the bucket that the hash value selects, and its chain
    obtain ⟨b, hb⟩ := exists_bucket hsized.length_pos (C.hashFunction key).toNat
    have hbkt : T.buckets[(hashToBkt (C.hashFunction key) T.numBuckets).toNat]? = some b := by
      rw [hsized.numBuckets, hashToBkt_toNat hsized.le, ← hsized.length]
      exact hb
    refine (bind_apply_ok (loadBucket_apply htable.at hbkt)).trans ?_
    have hhead : (T.buckets.map HashBucket.hhHead)[(C.hashFunction key).toNat % T.buckets.length]? =
        some b.hhHead := by
      rw [List.getElem?_map, hb]
      rfl
    obtain ⟨chain, hchain⟩ := htable.placed.bucketed _ _ hhead
    have hle : chain.length ≤ (p :: rest).length := by
      rw [hchain.length]
      exact List.length_filter_le _ _
    rw [hashFindInBkt, hchain.head, hashFindInBkt_apply hok.hashed
      (fun q hq => (hchain.mem_iff.mp hq).1) hchain.linked.next (Nat.lt_of_le_of_lt hle hfuel),
      hok.find?_chain hchain]

/-! ### Iterating -/

theorem getHead_apply {head : Option Ptr} (hhead : h.head = head) : getHead h = .ok head h := by
  rw [getHead, hhead]

theorem loadNext_apply (hlive : ∀ p ∈ chain, h.live p = true) :
    loadNext chain.head? h = .ok (chain.head?.bind h.next) h := by
  cases chain with
  | nil => rfl
  | cons p chain => exact load_apply (hlive p List.mem_cons_self)

theorem hashIter_apply (hlive : ∀ p ∈ chain, h.live p = true) (hfollows : Follows h.next chain)
    (hfuel : chain.length < fuel) :
    hashIter fuel chain.head? (chain.head?.bind h.next) h = .ok (chain.map h.data) h := by
  induction chain generalizing fuel with
  | nil =>
    obtain ⟨n, rfl⟩ := Nat.exists_eq_succ_of_ne_zero (Nat.ne_of_gt hfuel)
    rfl
  | cons p chain ih =>
    obtain ⟨n, rfl⟩ := Nat.exists_eq_succ_of_ne_zero (Nat.ne_of_gt (Nat.zero_lt_of_lt hfuel))
    have hlive' : ∀ q ∈ chain, h.live q = true := fun q hq => hlive q (List.mem_cons_of_mem p hq)
    have hnext : (p :: chain).head?.bind h.next = chain.head? := hfollows.1
    rw [hnext]
    refine (bind_apply_ok (load_apply (hlive p List.mem_cons_self))).trans ?_
    refine (bind_apply_ok (loadNext_apply hlive')).trans ?_
    exact bind_apply_ok (ih hlive' hfollows.2 (Nat.lt_of_succ_lt_succ hfuel))

/-- `HASH_ITER` meets the elements in the order of insertion. -/
theorem hashItems_apply (hok : Ok C h items) (hfuel : items.length < fuel) :
    hashItems fuel h = .ok (items.map h.data) h := by
  refine (bind_apply_ok (getHead_apply hok.head)).trans ?_
  refine (bind_apply_ok (loadNext_apply hok.hashed.live)).trans ?_
  exact hashIter_apply hok.hashed.live hok.next hfuel

/-! ### Checking -/

/-- A well-formed list passes, and its elements are counted. -/
theorem fsckLinks_apply (prv nxt : Heap α → Ptr → Option Ptr) (before : List Ptr)
    (hlive : ∀ p ∈ chain, h.live p = true) (hlinked : Linked (prv h) (nxt h) (before ++ chain))
    (hfuel : chain.length < fuel) (count : BitVec 32) :
    fsckLinks prv nxt fuel chain.head? before.getLast? count h =
      .ok (count + BitVec.ofNat 32 chain.length) h := by
  -- along the list; what was passed is kept for the links to it
  induction chain generalizing fuel before count with
  | nil =>
    obtain ⟨n, rfl⟩ := Nat.exists_eq_succ_of_ne_zero (Nat.ne_of_gt hfuel)
    rw [List.length_nil]
    exact congrArg (EStateM.Result.ok · h) (BitVec.add_zero count).symm
  | cons p chain ih =>
    obtain ⟨n, rfl⟩ := Nat.exists_eq_succ_of_ne_zero (Nat.ne_of_gt (Nat.zero_lt_of_lt hfuel))
    have hp := hlive p List.mem_cons_self
    refine (bind_apply_ok (load_apply hp)).trans ?_
    rw [if_neg (not_not.mpr hlinked.prev_at.symm)]
    refine (bind_apply_ok (load_apply hp)).trans ?_
    rw [hlinked.next_at]
    have happend : before ++ p :: chain = (before ++ [p]) ++ chain := by simp
    have hrest := ih _ (fun q hq => hlive q (List.mem_cons_of_mem p hq)) (happend ▸ hlinked)
      (Nat.lt_of_succ_lt_succ hfuel) (count + 1)
    rw [List.getLast?_concat] at hrest
    rw [hrest, List.length_cons, Nat.add_comm chain.length 1, BitVec.ofNat_add, BitVec.add_assoc]
    rfl

/-- The buckets pass, and their elements are counted. -/
theorem fsckBuckets_apply {k : ℕ} (ht : h.tables t = some T) (hsized : Sized T k)
    (hplaced : Placed h T.buckets items) (hlive : ∀ p ∈ items, h.live p = true)
    (hfuel : items.length < fuel) (is : List ℕ) (his : ∀ i ∈ is, i < 2 ^ k) (count : BitVec 32) :
    fsckBuckets fuel t is count h =
      .ok (count + BitVec.ofNat 32 (is.map (bktCount h T.buckets.length items)).sum) h := by
  induction is generalizing count with
  | nil => exact congrArg (EStateM.Result.ok · h) (BitVec.add_zero count).symm
  | cons i is ih =>
    have hi : i < T.buckets.length := hsized.length ▸ his i List.mem_cons_self
    have hb := List.getElem?_eq_getElem hi
    set b := T.buckets[i]
    have hhead : (T.buckets.map HashBucket.hhHead)[i]? = some b.hhHead := by
      rw [List.getElem?_map, hb]
      rfl
    obtain ⟨chain, hchain⟩ := hplaced.bucketed i b.hhHead hhead
    have hbkt : T.buckets[(BitVec.ofNat 32 i).toNat]? = some b := by rw [hsized.toNat_ofNat hi, hb]
    refine (bind_apply_ok (loadBucket_apply ht hbkt)).trans ?_
    have hlength : chain.length = bktCount h T.buckets.length items i := hchain.length
    have hlt : chain.length < fuel := by
      refine Nat.lt_of_le_of_lt ?_ hfuel
      rw [hchain.length]
      exact List.length_filter_le _ _
    have hlinks := fsckLinks_apply Heap.hhPrev Heap.hhNext []
      (fun p hp => hlive p (hchain.mem_iff.mp hp).1) hchain.linked hlt 0
    rw [hchain.head]
    refine (bind_apply_ok hlinks).trans ?_
    rw [zero_add, hlength, if_neg (not_not.mpr (hplaced.counts i b hb))]
    rw [ih (fun j hj => his j (List.mem_cons_of_mem i hj)), List.map_cons, List.sum_cons,
      BitVec.ofNat_add, BitVec.add_assoc]

/-- `HASH_FSCK` finds nothing. -/
theorem hashFsck_apply (hok : Ok C h items) (hfuel : items.length < fuel) :
    hashFsck fuel h = .ok () h := by
  refine (bind_apply_ok (getHead_apply hok.head)).trans ?_
  cases items with
  | nil => rfl
  | cons p items =>
    obtain ⟨t, T, htable⟩ := hok.table (List.cons_ne_nil p items)
    obtain ⟨k, hsized⟩ := htable.sized
    refine (bind_apply_ok (htable.headTable hok.hashed (List.cons_ne_nil p items))).trans ?_
    refine (bind_apply_ok (loadTable_apply htable.at)).trans ?_
    have hrange : ∀ i ∈ List.range T.numBuckets.toNat, i < 2 ^ k := fun i hi => by
      rw [← hsized.toNat_numBuckets]
      exact List.mem_range.mp hi
    refine (bind_apply_ok (fsckBuckets_apply htable.at hsized htable.placed hok.hashed.live hfuel _
      hrange 0)).trans ?_
    have hsum : ((List.range T.numBuckets.toNat).map
        (bktCount h T.buckets.length (p :: items))).sum = (p :: items).length := by
      rw [hsized.toNat_numBuckets, ← hsized.length]
      exact sum_length_filter fun q _ => Nat.mod_lt _ hsized.length_pos
    rw [hsum, zero_add, if_neg (not_not.mpr htable.numItems.symm)]
    have hlist := fsckLinks_apply Heap.prev Heap.next []
      hok.hashed.live htable.listed.linked hfuel 0
    refine (bind_apply_ok hlist).trans ?_
    rw [zero_add, if_neg (not_not.mpr htable.numItems.symm)]
    rfl

end Reproduce.UtHash
