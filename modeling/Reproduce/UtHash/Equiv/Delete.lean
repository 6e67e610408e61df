import Reproduce.UtHash.Equiv.Invariant

/-!
# Deleting an element

`HASH_DELETE_HH` takes an element out of the list and out of its bucket, and frees the table with
the last one.  The result is a well-formed hash of the other elements (`hashDeleteHh_apply`).
-/

namespace Reproduce.UtHash

open Bytes Effect Links

variable {α : Type} {C : Config α} {h h' : Heap α} {del p : Ptr} {items members : List Ptr}
  {t : TablePtr} {T : HashTable} {buckets : List HashBucket} {b : HashBucket}

/-! ### The list -/

/-- The list without an element. -/
def Heap.unlisted (h : Heap α) (p : Ptr) : Heap α :=
  { h with
    head := if h.prev p = none then h.next p else h.head
    prev := setLink h.prev (h.next p) (h.prev p)
    next := setLink h.next (h.prev p) (h.next p) }

theorem hashDelNext_apply (hlive : h.live del = true)
    (hprev : ∀ q, h.prev del = some q → h.live q = true) :
    hashDelNext del h = .ok () { h with
      head := if h.prev del = none then h.next del else h.head
      next := setLink h.next (h.prev del) (h.next del) } := by
  refine (bind_apply_ok (load_apply hlive)).trans ?_
  refine (bind_apply_ok (load_apply hlive)).trans ?_
  cases hq : h.prev del with
  | none => rfl
  | some q => exact store_apply (hprev q hq)

theorem hashDelList_apply (hlive : h.live del = true)
    (hprev : ∀ q, h.prev del = some q → h.live q = true)
    (hnext : ∀ q, h.next del = some q → h.live q = true) (hne : h.prev del ≠ some del) :
    hashDelList del h = .ok () (h.unlisted del) := by
  refine (bind_apply_ok (hashDelNext_apply hlive hprev)).trans ?_
  set h₁ : Heap α := { h with
    head := if h.prev del = none then h.next del else h.head
    next := setLink h.next (h.prev del) (h.next del) }
  -- its own link is still there
  have hnextDel : h₁.next del = h.next del := setLink_of_ne hne
  refine (bind_apply_ok (load_apply ?_)).trans ((bind_apply_ok (load_apply ?_)).trans ?_)
  · exact hlive
  · exact hlive
  rw [hnextDel]
  exact storeIf_prev hnext

/-! ### The bucket -/

/-- The bucket of an element without it. -/
def HashBucket.without (b : HashBucket) (h : Heap α) (p : Ptr) : HashBucket :=
  { b with count := b.count - 1, hhHead := if b.hhHead = some p then h.hhNext p else b.hhHead }

/-- The chain of an element without it. -/
def Heap.unplaced (h : Heap α) (p : Ptr) : Heap α :=
  h.relinked (setLink h.hhPrev (h.hhNext p) (h.hhPrev p))
    (setLink h.hhNext (h.hhPrev p) (h.hhNext p))

theorem hashDelInBkt_apply {bkt : BitVec 32} (hat : h.tables t = some T)
    (hb : T.buckets[bkt.toNat]? = some b) (hlive : h.live del = true)
    (hprev : ∀ q, h.hhPrev del = some q → h.live q = true)
    (hnext : ∀ q, h.hhNext del = some q → h.live q = true) (hne : h.hhPrev del ≠ some del) :
    hashDelInBkt t bkt del h = .ok () ((h.unplaced del).setTable t
      (some { T with buckets := T.buckets.set bkt.toNat (b.without h del) })) := by
  refine (bind_apply_ok (load_apply hlive)).trans ?_
  refine (bind_apply_ok (modifyBucket_apply hat hb)).trans ?_
  set h₁ := h.setTable t (some { T with buckets := T.buckets.set bkt.toNat (b.without h del) })
  refine (bind_apply_ok (load_apply (h := h₁) hlive)).trans ?_
  refine (bind_apply_ok (load_apply (h := h₁) hlive)).trans ?_
  refine (bind_apply_ok (storeIf_hhNext (h := h₁) hprev)).trans ?_
  set h₂ : Heap α := { h₁ with hhNext := setLink h₁.hhNext (h₁.hhPrev del) (h₁.hhNext del) }
  have hnextDel : h₂.hhNext del = h.hhNext del := setLink_of_ne hne
  refine (bind_apply_ok (load_apply (h := h₂) hlive)).trans ?_
  refine (bind_apply_ok (load_apply (h := h₂) hlive)).trans ?_
  rw [hnextDel]
  exact storeIf_hhPrev (h := h₂) hnext

/-- The chains hold the other members. -/
theorem Placed.remove (hplaced : Placed h buckets members) (hp : p ∈ members)
    (hnodup : members.Nodup) (hb : buckets[bktOf h buckets.length p]? = some b) :
    Placed (h.unplaced p) (buckets.set (bktOf h buckets.length p) (b.without h p))
      (members.erase p) where
  bucketed := by
    have hhead : (buckets.map HashBucket.hhHead)[bktOf h buckets.length p]? = some b.hhHead := by
      rw [List.getElem?_map, hb]
      rfl
    rw [List.length_set, List.map_set]
    exact hplaced.bucketed.remove hp hnodup hhead
  counts i c hc := by
    rw [List.length_set]
    have hcons : bktCount h buckets.length members i =
        bktCount h buckets.length (members.erase p) i +
          if bktOf h buckets.length p = i then 1 else 0 := by
      rw [bktCount_perm (List.perm_cons_erase hp), bktCount_cons]
    show c.count = BitVec.ofNat 32 (bktCount h buckets.length (members.erase p) i)
    by_cases hi : bktOf h buckets.length p = i
    · subst hi
      rw [List.getElem?_set_self (List.getElem?_eq_some_iff.mp hb).1] at hc
      cases hc
      show b.count - 1 = _
      rw [hplaced.counts _ b hb, hcons, if_pos rfl, BitVec.ofNat_add]
      exact BitVec.add_sub_cancel ..
    · rw [List.getElem?_set_ne hi] at hc
      rw [hplaced.counts i c hc, hcons, if_neg hi, Nat.add_zero]

/-! ### The whole macro -/

/-- The table without an element, of which there are others. -/
def HashTable.without (T : HashTable) (h : Heap α) (p : Ptr) (b : HashBucket) : HashTable :=
  { T with
    tail := if T.tail = some p then h.prev p else T.tail
    buckets := T.buckets.set (bktOf h T.buckets.length p) (b.without h p)
    numItems := T.numItems - 1 }

/-- The heap without an element, of which there are others. -/
def Heap.without (h : Heap α) (t : TablePtr) (T : HashTable) (p : Ptr) (b : HashBucket) : Heap α :=
  ((h.unlisted p).unplaced p).setTable t (some (T.without h p b))

@[simp] theorem setTable_unlisted (h : Heap α) (t : TablePtr) (v w x : Option HashTable) (p : Ptr) :
    ((((h.setTable t v).unlisted p).unplaced p).setTable t w).setTable t x =
      ((h.unlisted p).unplaced p).setTable t x := by
  simp only [Heap.setTable, Heap.unlisted, Heap.unplaced, Heap.relinked, Function.update_idem]
  rfl

variable {l₁ l₂ : List Ptr}

theorem Listed.without (hlisted : Listed h T (l₁ ++ del :: l₂)) (hnodup : (l₁ ++ del :: l₂).Nodup)
    (hrest : l₁ ++ l₂ ≠ []) : Listed (h.without t T del b) (T.without h del b) (l₁ ++ l₂) where
  linked := hlisted.linked.unlink hnodup
  head := by
    show (if h.prev del = none then h.next del else h.head) = _
    rw [hlisted.linked.prev_at, hlisted.linked.next_at, hlisted.head]
    cases l₁ with
    | nil => rfl
    | cons p l₁ => rw [if_neg (by simp)]; rfl
  tail := by
    show (if T.tail = some del then h.prev del else T.tail) = _
    rw [hlisted.linked.prev_at, hlisted.tail]
    cases l₂ with
    | nil => rw [if_pos List.getLast?_concat, List.append_nil]
    | cons p l₂ =>
      -- the last element is another one
      obtain ⟨z, hz⟩ : ∃ z, (p :: l₂).getLast? = some z :=
        ⟨_, List.getLast?_eq_some_getLast (List.cons_ne_nil p l₂)⟩
      have hzDel : z ≠ del := by
        rintro rfl
        have hmiddle := List.nodup_middle.mp hnodup |> List.nodup_cons.mp
        exact hmiddle.1 (List.mem_append_right l₁ (List.mem_of_getLast? hz))
      rw [List.getLast?_append, List.getLast?_append, List.getLast?_cons_cons, hz]
      exact if_neg fun hdel => hzDel (Option.some.inj hdel)

theorem TableOk.without (htable : TableOk h t T (l₁ ++ del :: l₂))
    (hnodup : (l₁ ++ del :: l₂).Nodup) (hrest : l₁ ++ l₂ ≠ [])
    (hb : T.buckets[bktOf h T.buckets.length del]? = some b) :
    TableOk (h.without t T del b) t (T.without h del b) (l₁ ++ l₂) where
  tables := by
    show Function.update h.tables t _ = _
    rw [htable.tables, Function.update_idem]
  tbl p hp := htable.tbl p (List.perm_middle.mem_iff.mpr (List.mem_cons_of_mem del hp))
  listed := htable.listed.without hnodup hrest
  sized := htable.sized.imp fun k hsized =>
    ⟨hsized.le, (List.length_set ..).trans hsized.length, hsized.numBuckets, hsized.log2NumBuckets⟩
  placed := by
    have herase : (l₁ ++ del :: l₂).erase del = l₁ ++ l₂ := by
      rw [List.erase_append_right, List.erase_cons_head]
      exact fun hmem => List.disjoint_of_nodup_append hnodup hmem List.mem_cons_self
    have hremove := htable.placed.remove (by simp) hnodup hb
    rw [herase] at hremove
    exact hremove.congr rfl rfl fun _ _ => rfl
  numItems := by
    show T.numItems - 1 = _
    rw [htable.numItems, List.length_append, List.length_cons, List.length_append, ← Nat.add_assoc,
      BitVec.ofNat_add]
    exact BitVec.add_sub_cancel ..

/-- The run that does not free the table. -/
theorem hashDeleteHh_run (htable : TableOk h t T (l₁ ++ del :: l₂))
    (hlive : ∀ p ∈ l₁ ++ del :: l₂, h.live p = true) (hnodup : (l₁ ++ del :: l₂).Nodup)
    (hrest : l₁ ++ l₂ ≠ []) (hb : T.buckets[bktOf h T.buckets.length del]? = some b) :
    hashDeleteHh del h = .ok () (h.without t T del b) := by
  obtain ⟨k, hsized⟩ := htable.sized
  have hitems : l₁ ++ del :: l₂ ≠ [] := by simp
  have hdel : del ∈ l₁ ++ del :: l₂ := by simp
  have hmem : ∀ p ∈ l₁ ++ l₂, p ∈ l₁ ++ del :: l₂ := fun p hp =>
    List.perm_middle.mem_iff.mpr (List.mem_cons_of_mem del hp)
  have hprev := htable.listed.linked.prev_at
  have hnext := htable.listed.linked.next_at
  have hprevLive : ∀ q, h.prev del = some q → h.live q = true := fun q hq =>
    hlive q (hmem q (List.mem_append_left l₂ (List.mem_of_getLast? (hprev ▸ hq))))
  have hnextLive : ∀ q, h.next del = some q → h.live q = true := fun q hq =>
    hlive q (hmem q (List.mem_append_right l₁ (List.mem_of_head? (hnext ▸ hq))))
  have hprevNe : h.prev del ≠ some del := fun hself =>
    (List.nodup_cons.mp (List.nodup_middle.mp hnodup)).1
      (List.mem_append_left l₂ (List.mem_of_getLast? (hprev ▸ hself)))
  have hhead : (T.buckets.map HashBucket.hhHead)[bktOf h T.buckets.length del]? =
      some b.hhHead := by
    rw [List.getElem?_map, hb]
    rfl
  have hneighbours : ∀ q, h.hhPrev del = some q ∨ h.hhNext del = some q → h.live q = true :=
    fun q hq => hlive q (htable.placed.bucketed.neighbours hdel hhead hq).1
  have hchainNe := (htable.placed.bucketed.links_ne hdel hnodup hhead).1
  have hlist := htable.without hnodup hrest hb
  -- the table, the list and the bucket are changed one after the other
  set T₁ : HashTable := { T with tail := if T.tail = some del then h.prev del else T.tail }
  set h₁ := h.setTable t (some T₁)
  set h₂ := h₁.unlisted del
  have hhead₂ : headTable h₂ = .ok t h₂ := headTable_listed hlist.listed.head hrest
    (fun p hp => hlive p (hmem p hp)) fun p hp => htable.tbl p (hmem p hp)
  have hat₂ : h₂.tables t = some T₁ := tables_setTable ..
  have hbkt : T₁.buckets[(hashToBkt (h₂.hashv del) T₁.numBuckets).toNat]? = some b := by
    rw [← hb, ← hsized.bkt]
    rfl
  have hdelete := hashDelInBkt_apply hat₂ hbkt (hlive del hdel)
    (fun q hq => hneighbours q (.inl hq)) (fun q hq => hneighbours q (.inr hq)) hchainNe
  refine (bind_apply_ok (load_apply (hlive del hdel))).trans ?_
  refine (bind_apply_ok (load_apply (hlive del hdel))).trans ?_
  refine (bind_apply_ok (headTable_listed htable.listed.head hitems hlive htable.tbl)).trans ?_
  have hnot : ¬(h.prev del = none ∧ h.next del = none) := by
    rintro ⟨hnone, hnone'⟩
    rw [hprev, List.getLast?_eq_none_iff] at hnone
    rw [hnext, List.head?_eq_none_iff] at hnone'
    exact hrest (by rw [hnone, hnone']; rfl)
  rw [if_neg hnot]
  refine (bind_apply_ok (modifyTable_apply htable.at)).trans ?_
  refine (bind_apply_ok (hashDelList_apply (h := h₁) (hlive del hdel) hprevLive hnextLive
    hprevNe)).trans ?_
  refine (bind_apply_ok hhead₂).trans ((bind_apply_ok (loadTable_apply hat₂)).trans ?_)
  refine (bind_apply_ok (load_apply (h := h₂) (hlive del hdel))).trans ?_
  refine (bind_apply_ok hdelete).trans ?_
  refine (modifyTable_apply (tables_setTable ..)).trans ?_
  have hindex : (hashToBkt (h₂.hashv del) T₁.numBuckets).toNat = bktOf h T.buckets.length del :=
    hsized.bkt del
  simp only [h₂, h₁, T₁, hindex, Heap.without, HashTable.without, setTable_unlisted]
  rfl

/-- An element is deleted. -/
theorem hashDeleteHh_apply (hok : Ok C h items) (hdel : del ∈ items) :
    ∃ h', hashDeleteHh del h = .ok () h' ∧ Ok C h' (items.erase del) ∧ SameElements h h' := by
  have hnodup := hok.nodup
  obtain ⟨l₁, l₂, rfl⟩ := List.append_of_mem hdel
  have hitems : l₁ ++ del :: l₂ ≠ [] := by simp
  obtain ⟨t, T, htable⟩ := hok.table hitems
  obtain ⟨k, hsized⟩ := htable.sized
  have hfresh : del ∉ l₁ := fun hmem =>
    List.disjoint_of_nodup_append hnodup hmem List.mem_cons_self
  have hsub : (l₁ ++ l₂).Sublist (l₁ ++ del :: l₂) := by simp
  rw [List.erase_append_right _ hfresh, List.erase_cons_head]
  by_cases hrest : l₁ ++ l₂ = []
  · -- it is the last one
    obtain ⟨rfl, rfl⟩ := List.append_eq_nil_iff.mp hrest
    have hlinked : Linked h.prev h.next ([] ++ del :: []) := htable.listed.linked
    have hprev : h.prev del = none := hlinked.prev_at
    have hnext : h.next del = none := hlinked.next_at
    refine ⟨(h.setTable t none).setHead none, ?_, ?_,
      (SameElements.setTable h _).trans (.setHead _ _)⟩
    · refine (bind_apply_ok (load_apply (hok.hashed.live del hdel))).trans ?_
      refine (bind_apply_ok (load_apply (hok.hashed.live del hdel))).trans ?_
      refine (bind_apply_ok (htable.headTable hok.hashed hitems)).trans ?_
      rw [if_pos ⟨hprev, hnext⟩]
      rfl
    · refine ⟨⟨fun _ => ⟨rfl, ?_⟩, fun hne => absurd rfl hne⟩, List.nodup_nil, List.nodup_nil, ?_⟩
      · show Function.update h.tables t none = _
        rw [htable.tables, Function.update_idem]
        exact Function.update_eq_self t _
      · exact ⟨by simp, by simp, by simp⟩
  · obtain ⟨b, hb⟩ : ∃ b, T.buckets[bktOf h T.buckets.length del]? = some b :=
      exists_bucket hsized.length_pos _
    have hlive := hok.hashed.live
    refine ⟨h.without t T del b, hashDeleteHh_run htable hlive hnodup hrest hb, ?_,
      ⟨rfl, rfl, rfl, rfl, rfl⟩⟩
    refine ⟨⟨fun hempty => absurd hempty hrest, fun _ => ⟨t, _, htable.without hnodup hrest hb⟩⟩,
      hsub.nodup hnodup, (hsub.map _).nodup hok.keys, ?_⟩
    exact ⟨fun p hp => hok.hashed.live p (hsub.subset hp),
      fun p hp => hok.hashed.hashv p (hsub.subset hp),
      fun p hp => hok.hashed.keylen p (hsub.subset hp)⟩

end Reproduce.UtHash
