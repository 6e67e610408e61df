import Reproduce.UtHash.Equiv.Expand

/-!
# Adding an element

`HASH_ADD` puts an element with a new key at the end of the list and in front of its bucket, and
expands the buckets when that one is full.  The result is a well-formed hash of one more element, or
the program ended because it was refused memory (`hashAdd_served`).
-/

namespace Reproduce.UtHash

open Bytes Effect Links

variable {α : Type} {C : Config α} {h h' : Heap α} {add p : Ptr} {items : List Ptr} {t : TablePtr}
  {T : HashTable} {fuel : ℕ}

/-- The list has the new element, and the buckets do not have it yet. -/
structure Appended (h : Heap α) (t : TablePtr) (T : HashTable) (items : List Ptr)
    (add : Ptr) : Prop where
  tables : h.tables = Function.update (fun _ => none) t (some T)
  tbl : ∀ p ∈ items ++ [add], h.tbl p = t
  listed : Listed h T (items ++ [add])
  sized : ∃ k, Sized T k
  placed : Placed h T.buckets items
  numItems : T.numItems = BitVec.ofNat 32 items.length

/-! ### The list -/

/-- The first element makes the table. -/
theorem hashMakeTable_served (hlive : h.live add = true) (htables : h.tables = fun _ => none)
    (hnext : h.next add = none) (hprev : h.prev add = none) :
    Served C (hashMakeTable C add h) fun _ h' =>
      SameElements h h' ∧ ∃ t T, Appended (h'.setHead (some add)) t T [] add := by
  unfold hashMakeTable
  refine Served.bind (uthashMalloc_served _) ?_
  rintro _ _ ⟨-, rfl⟩
  refine Served.step rfl (Served.step (store_apply hlive) (Served.step rfl ?_))
  refine Served.bind (uthashMalloc_served _) ?_
  rintro _ _ ⟨-, rfl⟩
  rw [modifyTable_apply (h := ((h.countMalloc.useTable.setTbl add _).setTable _ _).countMalloc)
    (tables_setTable ..)]
  refine ⟨(((((SameElements.countMalloc h).trans (.useTable _)).trans (.setTbl _ _ _)).trans
    (.setTable _ _)).trans (.countMalloc _)).trans (.setTable _ _), h.nextTable,
    { HashTable.fresh add with buckets := List.replicate 32 .zero }, ?_⟩
  exact {
    tables := by
      show Function.update (Function.update h.tables _ _) _ _ = _
      rw [Function.update_idem, htables]
      rfl
    tbl := fun p hp => by
      rw [List.nil_append, List.mem_singleton] at hp
      rw [hp]
      exact Function.update_self ..
    listed := ⟨⟨⟨hnext, trivial⟩, hprev, trivial⟩, rfl, rfl⟩
    sized := ⟨5, by decide, List.length_replicate, rfl, rfl⟩
    placed := placed_nil _
    numItems := rfl }

/-- The others are appended to the list. -/
theorem hashAppendList_apply (htable : TableOk h t T items) (hitems : items ≠ [])
    (hnodup : items.Nodup) (hlive : ∀ p ∈ items, h.live p = true) (hadd : add ∉ items)
    (hliveAdd : h.live add = true) (htbl : h.tbl add = t) :
    ∃ h', hashAppendList add h = .ok () h' ∧ SameElements h h' ∧
      Appended h' t { T with tail := some add } items add := by
  obtain ⟨z, hlast⟩ : ∃ z, items.getLast? = some z := ⟨_, List.getLast?_eq_some_getLast hitems⟩
  have htail : T.tail = some z := htable.listed.tail.trans hlast
  have hz : z ∈ items := List.mem_of_getLast? hlast
  have hhead : headTable (h.setNext add none) = .ok t (h.setNext add none) :=
    headTable_listed htable.listed.head hitems hlive htable.tbl
  have hat : (h.setNext add none).tables t = some T := htable.at
  refine ⟨(((h.setNext add none).setPrev add T.tail).setNext z (some add)).setTable t
    (some { T with tail := some add }), ?_,
    (((SameElements.setNext h _ _).trans (.setPrev _ _ _)).trans (.setNext _ _ _)).trans
      (.setTable _ _), ?_⟩
  · refine (bind_apply_ok (store_apply hliveAdd)).trans ?_
    refine (bind_apply_ok hhead).trans ?_
    refine (bind_apply_ok (loadTable_apply hat)).trans ?_
    refine (bind_apply_ok (store_apply ?_)).trans ?_
    · exact hliveAdd
    rw [htail]
    refine (bind_apply_ok (pure_apply z _)).trans ?_
    refine (bind_apply_ok (store_apply ?_)).trans ?_
    · exact hlive z hz
    exact modifyTable_apply htable.at
  · exact {
      tables := by
        show Function.update h.tables t _ = _
        rw [htable.tables, Function.update_idem]
      tbl := fun p hp => by
        rcases List.mem_append.mp hp with hp | hp
        · exact htable.tbl p hp
        · rw [List.mem_singleton.mp hp]
          exact htbl
      listed := by
        refine ⟨?_, ?_, ?_⟩
        · show Linked (Function.update h.prev add T.tail) _ _
          rw [htail]
          exact htable.listed.linked.append hlast hadd hnodup
        · exact htable.listed.head.trans (by cases items <;> simp_all)
        · exact List.getLast?_concat.symm
      sized := htable.sized.imp fun k hsized =>
        ⟨hsized.le, hsized.length, hsized.numBuckets, hsized.log2NumBuckets⟩
      placed := htable.placed.congr rfl rfl fun _ _ => rfl
      numItems := htable.numItems }

/-- The list gets the new element. -/
theorem hashAddToList_served (htabled : Tabled h items) (hnodup : items.Nodup)
    (hlive : ∀ p ∈ items, h.live p = true) (hadd : add ∉ items) (hliveAdd : h.live add = true) :
    Served C (hashAddToList C add h) fun _ h' =>
      SameElements h h' ∧ ∃ t T, Appended h' t T items add := by
  unfold hashAddToList
  refine Served.step rfl ?_
  by_cases hitems : items = []
  · obtain ⟨hhead, htables⟩ := htabled.empty hitems
    rw [hhead]
    refine Served.step (store_apply hliveAdd) (Served.step (store_apply ?_) ?_)
    · exact hliveAdd
    have hmake := hashMakeTable_served (C := C) (h := (h.setNext add none).setPrev add none)
      hliveAdd htables (Function.update_self ..) (Function.update_self ..)
    refine Served.bind hmake ?_
    rintro _ h' ⟨hsame, happended⟩
    subst hitems
    exact ⟨(((SameElements.setNext h _ _).trans (.setPrev _ _ _)).trans hsame).trans (.setHead _ _),
      happended⟩
  · obtain ⟨t, T, htable⟩ := htabled.table hitems
    obtain ⟨p, rest, rfl⟩ := List.exists_cons_of_ne_nil hitems
    rw [htable.listed.head]
    refine Served.step (headTable_listed htable.listed.head hitems hlive htable.tbl) ?_
    refine Served.step (store_apply hliveAdd) ?_
    have htbl : ∀ q ∈ p :: rest, (h.setTbl add t).tbl q = t := fun q hq => by
      rw [← htable.tbl q hq]
      refine Function.update_of_ne ?_ _ _
      rintro rfl
      exact hadd hq
    have htable' : TableOk (h.setTbl add t) t T (p :: rest) :=
      ⟨htable.tables, htbl, ⟨htable.listed.linked, htable.listed.head, htable.listed.tail⟩,
        htable.sized, htable.placed.congr rfl rfl fun _ _ => rfl, htable.numItems⟩
    obtain ⟨h', happend, hsame, happended⟩ := hashAppendList_apply htable' hitems hnodup hlive hadd
      hliveAdd (Function.update_self ..)
    rw [happend]
    exact ⟨(SameElements.setTbl h _ _).trans hsame, t, _, happended⟩

/-! ### The bucket -/

theorem hashPushBkt_apply {bkt : BitVec 32} {b : HashBucket} (hat : h.tables t = some T)
    (hb : T.buckets[bkt.toNat]? = some b) (hlive : h.live add = true)
    (hhead : ∀ q, b.hhHead = some q → h.live q = true) :
    hashPushBkt t bkt add h = .ok { b with count := b.count + 1, hhHead := some add }
      ((h.pushed add b.hhHead).setTable t (some { T with
        buckets := T.buckets.set bkt.toNat
          { b with count := b.count + 1, hhHead := some add } })) := by
  have hlt := (List.getElem?_eq_some_iff.mp hb).1
  -- the bucket is changed twice, and the links in between
  set b₁ : HashBucket := { b with count := b.count + 1 } with hb₁
  set b₂ : HashBucket := { b with count := b.count + 1, hhHead := some add } with hb₂
  set T₁ : HashTable := { T with buckets := T.buckets.set bkt.toNat b₁ } with hT₁
  have hself₁ : T₁.buckets[bkt.toNat]? = some b₁ := List.getElem?_set_self hlt
  set h₂ := (h.setTable t (some T₁)).pushed add b.hhHead with hh₂
  have hat₂ : h₂.tables t = some T₁ := tables_setTable h t _
  have hset : modifyBucket t bkt (fun b => { b with hhHead := some add }) h₂ =
      .ok () (h₂.setTable t (some { T with buckets := T.buckets.set bkt.toNat b₂ })) := by
    rw [modifyBucket_apply hat₂ hself₁]
    simp only [hT₁, List.set_set]
    rfl
  refine (bind_apply_ok (modifyBucket_apply hat hb)).trans ?_
  refine (bind_apply_ok (loadBucket_apply (tables_setTable ..) hself₁)).trans ?_
  refine (bind_apply_ok (store_apply ?_)).trans ?_
  · exact hlive
  refine (bind_apply_ok (store_apply ?_)).trans ?_
  · exact hlive
  refine (bind_apply_ok (storeIf_hhPrev ?_)).trans ?_
  · exact hhead
  refine (bind_apply_ok hset).trans ?_
  rw [hh₂, setTable_pushed]
  exact loadBucket_apply (tables_setTable ..) (List.getElem?_set_self hlt)

/-- With the element in its bucket the hash is well-formed again. -/
theorem Appended.pushed {b : HashBucket} (happended : Appended h t T items add)
    (hnodup : (items ++ [add]).Nodup) (hb : T.buckets[bktOf h T.buckets.length add]? = some b) :
    TableOk ((h.pushed add b.hhHead).setTable t (some { T with
        numItems := T.numItems + 1
        buckets := T.buckets.set (bktOf h T.buckets.length add)
          { b with count := b.count + 1, hhHead := some add } }))
      t { T with
        numItems := T.numItems + 1
        buckets := T.buckets.set (bktOf h T.buckets.length add)
          { b with count := b.count + 1, hhHead := some add } } (items ++ [add]) where
  tables := by
    show Function.update h.tables t _ = _
    rw [happended.tables, Function.update_idem]
  tbl := happended.tbl
  listed := ⟨happended.listed.linked, happended.listed.head, happended.listed.tail⟩
  sized := happended.sized.imp fun k hsized =>
    ⟨hsized.le, by rw [List.length_set, hsized.length], hsized.numBuckets, hsized.log2NumBuckets⟩
  placed := by
    have hadd : add ∉ items := fun hadd =>
      List.disjoint_of_nodup_append hnodup hadd (List.mem_singleton_self add)
    have hhead : { b with count := b.count + 1, hhHead := some add }.hhHead = some add := rfl
    have hpush := happended.placed.push hadd hnodup.of_append_left hb hhead rfl
    exact (hpush.perm (List.perm_append_singleton add items).symm).congr rfl rfl fun _ _ => rfl
  numItems := by
    show T.numItems + 1 = _
    rw [happended.numItems, List.length_append, BitVec.ofNat_add]
    rfl

/-- The bucket gets the new element, and may be expanded. -/
theorem hashAddToTable_served (hbounded : C.Bounded) (happended : Appended h t T items add)
    (hnodup : (items ++ [add]).Nodup) (hlive : ∀ p ∈ items ++ [add], h.live p = true)
    (hfuel : items.length + 1 < fuel) :
    Served C (hashAddToTable C fuel (h.hashv add) add h) fun _ h' =>
      SameElements h h' ∧ ∃ t T, TableOk h' t T (items ++ [add]) := by
  obtain ⟨k, hsized⟩ := happended.sized
  have hat : h.tables t = some T := by rw [happended.tables, Function.update_self]
  obtain ⟨b, hb⟩ : ∃ b, T.buckets[bktOf h T.buckets.length add]? = some b :=
    exists_bucket hsized.length_pos _
  have hbkt : T.buckets[(hashToBkt (h.hashv add) T.numBuckets).toNat]? = some b := by
    rw [hsized.bkt, hb]
  have hpush := hashPushBkt_apply (h := h.setTable t (some { T with numItems := T.numItems + 1 }))
    (tables_setTable ..) hbkt (hlive add (by simp)) fun q hq =>
      hlive q (List.mem_append_left _ (happended.placed.head_mem hb hq))
  rw [setTable_pushed, hsized.bkt] at hpush
  have htable := happended.pushed hnodup hb
  set b' : HashBucket := { b with count := b.count + 1, hhHead := some add }
  set T' : HashTable := { T with
    numItems := T.numItems + 1
    buckets := T.buckets.set (bktOf h T.buckets.length add) b' }
  set h₁ := (h.pushed add b.hhHead).setTable t (some T')
  unfold hashAddToTable
  refine Served.step (headTable_listed happended.listed.head (by simp) hlive happended.tbl) ?_
  refine Served.step (modifyTable_apply hat) ?_
  refine Served.step (loadTable_apply (tables_setTable ..)) ?_
  unfold hashAddToBkt
  refine Served.step hpush ?_
  refine Served.step (load_apply (hlive add (by simp))) ?_
  have htbl : h₁.tbl add = t := htable.tbl add (by simp)
  rw [htbl]
  refine Served.step (loadTable_apply htable.at) ?_
  have hsame : SameElements h h₁ := (SameElements.pushed h _ _).trans (.setTable _ _)
  split
  · -- the bucket is full
    have hlength : (items ++ [add]).length < fuel := by
      rw [List.length_append]
      exact hfuel
    refine (hashExpandBuckets_expands (fun _ => hbounded _) htable hlive hnodup hlength).mono ?_
    rintro _ h' ⟨prv, nxt, T'', rfl, htable', -, -⟩
    refine ⟨?_, t, T'', htable'⟩
    exact ((hsame.trans (.countMalloc _)).trans (.relinked _ _ _)).trans (.setTable _ _)
  · exact ⟨hsame, t, T', htable⟩

/-! ### The whole macro -/

/-- An element with a new key is added, or the program ends because it is refused memory. -/
theorem hashAdd_served (hbounded : C.Bounded) (hok : Ok C h items) (hadd : add ∉ items)
    (hlive : h.live add = true) (hkey : ∀ p ∈ items, C.key (h.data p) ≠ C.key (h.data add))
    (hfuel : items.length + 1 < fuel) :
    Served C (hashAdd C fuel add h) fun _ h' =>
      Ok C h' (items ++ [add]) ∧ h'.live = h.live ∧ h'.data = h.data ∧
        h'.nextElmt = h.nextElmt := by
  have hne : ∀ p ∈ items, p ≠ add := by
    rintro p hp rfl
    exact hadd hp
  have hlive' : ∀ p ∈ items ++ [add], h.live p = true := fun p hp => by
    rcases List.mem_append.mp hp with hp | hp
    · exact hok.hashed.live p hp
    · rw [List.mem_singleton.mp hp]
      exact hlive
  have hnodup : (items ++ [add]).Nodup := by
    rw [List.nodup_append_comm]
    exact List.nodup_cons.mpr ⟨hadd, hok.nodup⟩
  -- its hash value is stored
  set key := C.key (h.data add) with hkeyAdd
  set h₁ := (h.setHashv add (C.hashFunction key)).setKeylen add (BitVec.ofNat 32 key.length)
  have hashv_self : h₁.hashv add = C.hashFunction key := Function.update_self ..
  have hashv_ne : ∀ p ∈ items, h₁.hashv p = h.hashv p := fun p hp =>
    Function.update_of_ne (hne p hp) _ _
  have keylen_self : h₁.keylen add = BitVec.ofNat 32 key.length := Function.update_self ..
  have keylen_ne : ∀ p ∈ items, h₁.keylen p = h.keylen p := fun p hp =>
    Function.update_of_ne (hne p hp) _ _
  have htabled : Tabled h₁ items := by
    refine ⟨hok.empty, fun hitems => ?_⟩
    obtain ⟨t, T, htable⟩ := hok.table hitems
    exact ⟨t, T, htable.tables, htable.tbl,
      ⟨htable.listed.linked, htable.listed.head, htable.listed.tail⟩, htable.sized,
      htable.placed.congr rfl rfl hashv_ne, htable.numItems⟩
  unfold hashAdd
  refine Served.step (load_apply hlive) ?_
  refine Served.step (store_apply hlive) (Served.step (store_apply ?_) ?_)
  · exact hlive
  refine Served.bind
    (hashAddToList_served (h := h₁) htabled hok.nodup hok.hashed.live hadd hlive) ?_
  rintro _ h₂ ⟨hsame, t, T, happended⟩
  have hserved := hashAddToTable_served hbounded happended hnodup (hsame.live ▸ hlive') hfuel
  rw [hsame.hashv, hashv_self] at hserved
  refine hserved.mono ?_
  rintro _ h₃ ⟨hsame', t', T', htable⟩
  have hsame'' := hsame.trans hsame'
  have hdata : h₃.data = h.data := hsame''.data
  have hlength : (BitVec.ofNat 32 key.length).toNat = key.length := by
    rw [BitVec.toNat_ofNat, Nat.mod_eq_of_lt (C.key_length _)]
  refine ⟨{
    empty := fun hempty => absurd hempty (by simp)
    table := fun _ => ⟨t', T', htable⟩
    nodup := hnodup
    keys := ?_
    hashed := ⟨?_, fun p hp => ?_, fun p hp => ?_⟩ }, hsame''.live, hdata, hsame''.nextElmt⟩
  · rw [hdata, List.map_append, List.nodup_append_comm]
    refine List.nodup_cons.mpr ⟨?_, hok.keys⟩
    rintro hmem
    obtain ⟨p, hp, hpkey⟩ := List.mem_map.mp hmem
    exact hkey p hp hpkey
  · rw [hsame''.live]
    exact hlive'
  · rw [hsame''.hashv, hdata]
    rcases List.mem_append.mp hp with hp | hp
    · rw [hashv_ne p hp, hok.hashed.hashv p hp]
    · rw [List.mem_singleton.mp hp, hashv_self]
  · rw [hsame''.keylen, hdata]
    rcases List.mem_append.mp hp with hp | hp
    · rw [keylen_ne p hp, hok.hashed.keylen p hp]
    · rw [List.mem_singleton.mp hp, keylen_self, hlength]

end Reproduce.UtHash
