import Mathlib.Algebra.Order.BigOperators.Group.Finset
import Mathlib.Algebra.Order.Floor.Div
import Reproduce.UtHash.Equiv.Invariant

/-!
# Expanding the buckets

`HASH_EXPAND_BUCKETS` takes every element out of its bucket and puts it in front of its new one.
While it runs the elements that were moved are placed in the new buckets, and those that were not
still have the link to the next element of their old chain (`moveChain_apply`).  At the end all of
them are placed again (`hashExpandBuckets_served`).

It also computes how long a chain should be at most, and how many elements are too many for their
bucket: `idealChainMaxlen` is the number of elements by the number of buckets, rounded up, and
`nonidealItems` counts what the buckets have above it.  From these it decides whether the table will
be expanded again (`Measured`).
-/

namespace Reproduce.UtHash

open Bytes Effect Links

variable {α : Type} {C : Config α} {h : Heap α} {p : Ptr} {items moved chain members : List Ptr}
  {t : TablePtr} {T : HashTable} {fuel k n : ℕ} {ideal : BitVec 32} {spread : Spread}

/-! ### Counting -/

/-- How many elements the buckets have above `ideal`. -/
def nonidealCount (h : Heap α) (n ideal : ℕ) (members : List Ptr) : ℕ :=
  ∑ i ∈ Finset.range n, (bktCount h n members i - ideal)

theorem nonidealCount_cons (hp : bktOf h n p < n) (ideal : ℕ) :
    nonidealCount h n ideal (p :: members) = nonidealCount h n ideal members +
      if ideal < bktCount h n members (bktOf h n p) + 1 then 1 else 0 := by
  have hstep : ∀ i, bktCount h n (p :: members) i - ideal = bktCount h n members i - ideal +
      if bktOf h n p = i then
        if ideal < bktCount h n members (bktOf h n p) + 1 then 1 else 0
      else 0 := fun i => by
    rw [bktCount_cons]
    by_cases hi : bktOf h n p = i
    · subst hi
      rw [if_pos rfl, if_pos rfl]
      split <;> omega
    · rw [if_neg hi, if_neg hi]
      omega
  unfold nonidealCount
  rw [Finset.sum_congr rfl fun i _ => hstep i, Finset.sum_add_distrib, Finset.sum_ite_eq,
    if_pos (Finset.mem_range.mpr hp)]

/-! ### Moving an element -/

/-- While elements are moved to `n` new buckets. -/
structure Spreading (h : Heap α) (n : ℕ) (ideal : BitVec 32) (spread : Spread)
    (moved : List Ptr) : Prop where
  length : spread.newBuckets.length = n
  placed : Placed h spread.newBuckets moved
  nonideal : moved.length < 2 ^ 32 →
    spread.nonidealItems = BitVec.ofNat 32 (nonidealCount h n ideal.toNat moved)

@[simp] theorem counted_hhHead (b : HashBucket) : (b.counted ideal).hhHead = b.hhHead := by
  unfold HashBucket.counted
  dsimp only
  split <;> rfl

@[simp] theorem counted_count (b : HashBucket) : (b.counted ideal).count = b.count + 1 := by
  unfold HashBucket.counted
  dsimp only
  split <;> rfl

theorem moveStep_apply (hk : k ≤ 31) (hspread : Spreading h (2 ^ k) ideal spread moved)
    (hlive : ∀ q ∈ p :: moved, h.live q = true) (hnodup : (p :: moved).Nodup) :
    ∃ head spread', moveStep ideal (BitVec.ofNat 32 (2 ^ k)) (some p, spread) h =
        .ok (.inl (h.hhNext p, spread')) (h.pushed p head) ∧
      Spreading (h.pushed p head) (2 ^ k) ideal spread' (p :: moved) := by
  obtain ⟨hp, hnodup⟩ := List.nodup_cons.mp hnodup
  have hlivep := hlive p List.mem_cons_self
  have hbktOf : (hashToBkt (h.hashv p) (BitVec.ofNat 32 (2 ^ k))).toNat =
      bktOf h spread.newBuckets.length p := by
    rw [hashToBkt_toNat hk, hspread.length]
    rfl
  have hpos : 0 < spread.newBuckets.length := hspread.length ▸ Nat.two_pow_pos k
  obtain ⟨b, hb⟩ : ∃ b, spread.newBuckets[bktOf h spread.newBuckets.length p]? = some b :=
    exists_bucket hpos _
  have hbkt : spread.newBuckets[
      (hashToBkt (h.hashv p) (BitVec.ofNat 32 (2 ^ k))).toNat]? = some b := hbktOf ▸ hb
  refine ⟨b.hhHead, ⟨spread.newBuckets.set (bktOf h spread.newBuckets.length p)
    { b.counted ideal with hhHead := some p }, if (b.counted ideal).count > ideal then
      spread.nonidealItems + 1 else spread.nonidealItems⟩, ?_, ?_, ?_, ?_⟩
  · refine (bind_apply_ok (load_apply hlivep)).trans ?_
    refine (bind_apply_ok (load_apply hlivep)).trans ?_
    rw [hbkt]
    refine (bind_apply_ok (store_apply hlivep)).trans ?_
    refine (bind_apply_ok (store_apply ?_)).trans ?_
    · exact hlivep
    refine (bind_apply_ok (storeIf_hhPrev fun q hq => ?_)).trans ?_
    · rw [counted_hhHead] at hq
      exact hlive q (List.mem_cons_of_mem p (hspread.placed.head_mem hb hq))
    · rw [hbktOf, counted_hhHead]
      rfl
  · rw [List.length_set, hspread.length]
  · exact hspread.placed.push hp hnodup hb rfl (counted_count b)
  · intro hlength
    have hmoved : moved.length < 2 ^ 32 := Nat.lt_of_succ_lt hlength
    have hcount : bktCount h (2 ^ k) moved (bktOf h (2 ^ k) p) ≤ moved.length :=
      List.length_filter_le _ _
    have hover : ideal < (b.counted ideal).count ↔
        ideal.toNat < bktCount h (2 ^ k) moved (bktOf h (2 ^ k) p) + 1 := by
      have hone : (1 : BitVec 32).toNat = 1 := rfl
      rw [List.length_cons] at hlength
      rw [BitVec.lt_def, counted_count, hspread.placed.counts _ b hb, hspread.length,
        BitVec.toNat_add, BitVec.toNat_ofNat, hone]
      omega
    show (if ideal < (b.counted ideal).count then _ else _) = _
    rw [show nonidealCount (h.pushed p b.hhHead) = nonidealCount h from rfl,
      nonidealCount_cons (Nat.mod_lt _ (Nat.two_pow_pos k)), hspread.nonideal hmoved]
    by_cases hlt : ideal.toNat < bktCount h (2 ^ k) moved (bktOf h (2 ^ k) p) + 1
    · rw [if_pos (hover.mpr hlt), if_pos hlt, BitVec.ofNat_add]
      rfl
    · rw [if_neg (mt hover.mp hlt), if_neg hlt, Nat.add_zero]

/-! ### Moving a chain -/

theorem moveChain_apply (hk : k ≤ 31) (hspread : Spreading h (2 ^ k) ideal spread moved)
    (hfollows : Follows h.hhNext chain) (hlive : ∀ q ∈ chain ++ moved, h.live q = true)
    (hnodup : (chain ++ moved).Nodup) (hfuel : chain.length < fuel) :
    ∃ prv nxt spread', Effect.loop .outOfFuel (moveStep ideal (BitVec.ofNat 32 (2 ^ k))) fuel
        (chain.head?, spread) h = .ok spread' (h.relinked prv nxt) ∧
      Spreading (h.relinked prv nxt) (2 ^ k) ideal spread' (chain.reverse ++ moved) ∧
      ∀ q, q ∉ chain → nxt q = h.hhNext q := by
  -- along the old chain, whose links are read before they are changed
  induction chain generalizing h fuel spread moved with
  | nil =>
    obtain ⟨n, rfl⟩ := Nat.exists_eq_succ_of_ne_zero (Nat.ne_of_gt hfuel)
    exact ⟨h.hhPrev, h.hhNext, spread, loop_done rfl n, hspread, fun _ _ => rfl⟩
  | cons p chain ih =>
    obtain ⟨n, rfl⟩ := Nat.exists_eq_succ_of_ne_zero (Nat.ne_of_gt (Nat.zero_lt_of_lt hfuel))
    have hmiddle : (chain ++ p :: moved).Nodup := List.nodup_middle.mpr hnodup
    have hfresh : p ∉ chain := fun hmem =>
      (List.nodup_cons.mp hnodup).1 (List.mem_append_left moved hmem)
    have hlive' : ∀ q ∈ chain ++ p :: moved, h.live q = true := fun q hq =>
      hlive q (List.perm_middle.mem_iff.mp hq)
    obtain ⟨head, spread', hstep, hspread'⟩ := moveStep_apply hk hspread
      (fun q hq => hlive' q (List.mem_append_right chain hq)) hmiddle.of_append_right
    rw [hfollows.1] at hstep
    have hfollows' : Follows (h.pushed p head).hhNext chain := by
      refine hfollows.2.congr fun q hq => Function.update_of_ne ?_ _ _
      rintro rfl
      exact hfresh hq
    obtain ⟨prv, nxt, spread'', hloop, hdone, hsame⟩ := ih hspread' hfollows' hlive' hmiddle
      (Nat.lt_of_succ_lt_succ hfuel)
    refine ⟨prv, nxt, spread'', (loop_next hstep n).trans hloop, ?_, fun q hq => ?_⟩
    · rw [List.reverse_cons, List.append_assoc]
      exact hdone
    · rw [List.mem_cons, not_or] at hq
      rw [hsame q hq.2]
      exact Function.update_of_ne hq.1 _ _

/-! ### Moving all chains -/

/-- The chains of the old buckets that are still to be moved. -/
def Waiting (h : Heap α) (buckets : List HashBucket) (items : List Ptr) (is : List ℕ) : Prop :=
  ∀ i ∈ is, ∃ b chain, buckets[(BitVec.ofNat 32 i).toNat]? = some b ∧ b.hhHead = chain.head? ∧
    Follows h.hhNext chain ∧ chain.Perm (items.filter fun p => bktOf h buckets.length p = i)

theorem moveBuckets_apply (hk : k ≤ 31) (ht : h.tables t = some T) (hitems : items.Nodup)
    (hlive : ∀ p ∈ items, h.live p = true) (hfuel : items.length < fuel) {is : List ℕ}
    (his : is.Nodup) (hwaiting : Waiting h T.buckets items is)
    (hspread : Spreading h (2 ^ k) ideal spread moved) (hmoved : moved.Nodup)
    (hmem : ∀ p ∈ moved, p ∈ items ∧ bktOf h T.buckets.length p ∉ is) :
    ∃ prv nxt spread' moved', moveBuckets fuel t ideal (BitVec.ofNat 32 (2 ^ k)) is spread h =
        .ok spread' (h.relinked prv nxt) ∧
      Spreading (h.relinked prv nxt) (2 ^ k) ideal spread' moved' ∧ moved'.Nodup ∧
      ∀ p, p ∈ moved' ↔ p ∈ moved ∨ p ∈ items ∧ bktOf h T.buckets.length p ∈ is := by
  induction is generalizing h spread moved with
  | nil =>
    refine ⟨h.hhPrev, h.hhNext, spread, moved, rfl, hspread, hmoved, fun p => ?_⟩
    simp
  | cons i is ih =>
    obtain ⟨hi, his⟩ := List.nodup_cons.mp his
    obtain ⟨b, chain, hb, hhead, hfollows, hperm⟩ := hwaiting i List.mem_cons_self
    have hchain : ∀ q, q ∈ chain ↔ q ∈ items ∧ bktOf h T.buckets.length q = i := fun q => by
      rw [hperm.mem_iff, List.mem_filter, decide_eq_true_iff]
    have hnodup : (chain ++ moved).Nodup := by
      refine List.Nodup.append (hperm.nodup_iff.mpr (hitems.filter _)) hmoved fun q hq hq' => ?_
      exact (hmem q hq').2 (List.mem_cons.mpr (.inl ((hchain q).mp hq).2))
    have hlength : chain.length < fuel := by
      rw [hperm.length_eq]
      exact Nat.lt_of_le_of_lt (List.length_filter_le _ _) hfuel
    obtain ⟨prv, nxt, spread', hloop, hspread', hsame⟩ := moveChain_apply hk hspread hfollows
      (fun q hq => hlive q ((List.mem_append.mp hq).elim (fun hq => ((hchain q).mp hq).1)
        fun hq => (hmem q hq).1)) hnodup hlength
    -- the chains behind this one are as they were
    have hwaiting' : Waiting (h.relinked prv nxt) T.buckets items is := fun j hj => by
      obtain ⟨b', chain', hb', hhead', hfollows', hperm'⟩ :=
        hwaiting j (List.mem_cons_of_mem i hj)
      refine ⟨b', chain', hb', hhead', hfollows'.congr fun q hq => hsame q fun hq' => ?_, hperm'⟩
      have hqj := (List.mem_filter.mp (hperm'.mem_iff.mp hq)).2
      rw [decide_eq_true_iff, ((hchain q).mp hq').2] at hqj
      exact hi (hqj ▸ hj)
    have hmem' : ∀ q ∈ chain.reverse ++ moved,
        q ∈ items ∧ bktOf (h.relinked prv nxt) T.buckets.length q ∉ is := fun q hq => by
      rcases List.mem_append.mp hq with hq | hq
      · obtain ⟨hqitems, hqi⟩ := (hchain q).mp (List.mem_reverse.mp hq)
        exact ⟨hqitems, fun hqis => hi (hqi ▸ hqis)⟩
      · exact ⟨(hmem q hq).1, fun hqis => (hmem q hq).2 (List.mem_cons_of_mem i hqis)⟩
    have hnodup' : (chain.reverse ++ moved).Nodup :=
      ((List.reverse_perm chain).append_right moved).nodup_iff.mpr hnodup
    obtain ⟨prv', nxt', spread'', moved', hrest, hdone, hdoneNodup, hdoneMem⟩ :=
      ih (h := h.relinked prv nxt) ht hlive his hwaiting' hspread' hnodup' hmem'
    refine ⟨prv', nxt', spread'', moved', ?_, hdone, hdoneNodup, fun q => ?_⟩
    · refine (bind_apply_ok (loadBucket_apply ht hb)).trans ?_
      rw [hhead]
      exact (bind_apply_ok hloop).trans hrest
    · rw [hdoneMem, List.mem_append, List.mem_reverse, hchain, List.mem_cons]
      show (_ ∨ q ∈ items ∧ bktOf h T.buckets.length q ∈ is) ↔ _
      tauto

/-! ### Expanding -/

/-- The statistics of the table `T'` that `T` was expanded to.  An expansion is inefficient if more
than half of the elements are too many for their bucket; the second one in a row is the last. -/
structure Measured (h : Heap α) (T T' : HashTable) (items : List Ptr) : Prop where
  ideal : T'.idealChainMaxlen.toNat = items.length ⌈/⌉ T'.buckets.length
  nonideal : T'.nonidealItems.toNat =
    nonidealCount h T'.buckets.length T'.idealChainMaxlen.toNat items
  ineffExpands : T'.ineffExpands =
    if items.length / 2 < T'.nonidealItems.toNat then T.ineffExpands + 1 else 0
  noexpand : T'.noexpand = if 1 < T'.ineffExpands then 1 else T.noexpand

theorem nonidealCount_perm (hperm : members.Perm items) (n ideal : ℕ) :
    nonidealCount h n ideal members = nonidealCount h n ideal items := by
  unfold nonidealCount
  exact Finset.sum_congr rfl fun i _ => by rw [bktCount_perm hperm]

theorem nonidealCount_le (hn : 0 < n) (ideal : ℕ) :
    nonidealCount h n ideal items ≤ items.length := by
  calc nonidealCount h n ideal items
    _ ≤ ∑ i ∈ Finset.range n, bktCount h n items i := Finset.sum_le_sum fun i _ => Nat.sub_le _ _
    _ = items.length := sum_length_filter fun p _ => Nat.mod_lt _ hn

/-- The number of elements by the number of buckets, rounded up, with a shift and a mask. -/
theorem ideal_eq {m : ℕ} (hk : k ≤ 30) (hm : m < 2 ^ 32) :
    (BitVec.ofNat 32 m >>> (BitVec.ofNat 32 k + 1).toNat +
      (if BitVec.ofNat 32 m &&& (BitVec.ofNat 32 (2 ^ k) * 2 - 1) ≠ 0 then 1 else 0)).toNat =
      m ⌈/⌉ 2 ^ (k + 1) := by
  have hshift : (BitVec.ofNat 32 k + 1).toNat = k + 1 := by
    rw [show (1 : BitVec 32) = BitVec.ofNat 32 1 from rfl, ← BitVec.ofNat_add, BitVec.toNat_ofNat]
    omega
  have hdouble : BitVec.ofNat 32 (2 ^ k) * 2 = BitVec.ofNat 32 (2 ^ (k + 1)) := by
    rw [pow_succ, BitVec.ofNat_mul]
    rfl
  have hmask : (BitVec.ofNat 32 m &&& (BitVec.ofNat 32 (2 ^ (k + 1)) - 1)).toNat =
      m % 2 ^ (k + 1) := by
    have hbkt := hashToBkt_toNat (k := k + 1) (by omega) (BitVec.ofNat 32 m)
    rwa [hashToBkt, BitVec.toNat_ofNat, Nat.mod_eq_of_lt hm] at hbkt
  have htwo : 2 ≤ 2 ^ (k + 1) := Nat.le_self_pow (Nat.succ_ne_zero k) 2
  have hdiv : m / 2 ^ (k + 1) ≤ m / 2 := Nat.div_le_div_left htwo (by decide)
  have hquot : (BitVec.ofNat 32 m >>> (k + 1)).toNat = m / 2 ^ (k + 1) := by
    rw [BitVec.toNat_ushiftRight, BitVec.toNat_ofNat, Nat.mod_eq_of_lt hm,
      Nat.shiftRight_eq_div_pow]
  have hpos := Nat.two_pow_pos (k + 1)
  have hm' := Nat.div_add_mod m (2 ^ (k + 1))
  rw [hshift, hdouble, Nat.ceilDiv_eq_add_pred_div]
  by_cases hrest : m % 2 ^ (k + 1) = 0
  · have hceil : m + 2 ^ (k + 1) - 1 = 2 ^ (k + 1) * (m / 2 ^ (k + 1)) + (2 ^ (k + 1) - 1) := by
      omega
    have hzero : BitVec.ofNat 32 m &&& (BitVec.ofNat 32 (2 ^ (k + 1)) - 1) = 0 :=
      BitVec.eq_of_toNat_eq (hmask.trans hrest)
    have hless : (2 ^ (k + 1) - 1) / 2 ^ (k + 1) = 0 := Nat.div_eq_of_lt (by omega)
    rw [if_neg (not_not.mpr hzero), add_zero, hquot, hceil, Nat.mul_add_div hpos, hless]
    exact (Nat.add_zero _).symm
  · have hceil : m + 2 ^ (k + 1) - 1 =
        2 ^ (k + 1) * (m / 2 ^ (k + 1)) + (2 ^ (k + 1) + (m % 2 ^ (k + 1) - 1)) := by
      omega
    have hlt := Nat.mod_lt m hpos
    have hzero : BitVec.ofNat 32 m &&& (BitVec.ofNat 32 (2 ^ (k + 1)) - 1) ≠ 0 := fun hzero =>
      hrest (by rw [← hmask, hzero]; rfl)
    have hless : (m % 2 ^ (k + 1) - 1) / 2 ^ (k + 1) = 0 := Nat.div_eq_of_lt (by omega)
    have hone : (1 : BitVec 32).toNat = 1 := rfl
    rw [if_pos hzero, hceil, Nat.mul_add_div hpos, Nat.add_div_left _ hpos, hless,
      BitVec.toNat_add, hquot, hone]
    omega

theorem Sized.double (hsized : Sized T k) :
    T.numBuckets * 2 = BitVec.ofNat 32 (2 ^ (k + 1)) ∧
      T.log2NumBuckets + 1 = BitVec.ofNat 32 (k + 1) ∧ T.numBuckets.toNat * 2 = 2 ^ (k + 1) := by
  refine ⟨?_, ?_, ?_⟩
  · rw [hsized.numBuckets, pow_succ, BitVec.ofNat_mul]
    rfl
  · rw [hsized.log2NumBuckets, BitVec.ofNat_add]
    rfl
  · rw [hsized.toNat_numBuckets, pow_succ]

/-- The old buckets wait to be moved. -/
theorem Placed.waiting {is : List ℕ} (hplaced : Placed h T.buckets items) (hsized : Sized T k)
    (his : ∀ i ∈ is, i < 2 ^ k) : Waiting h T.buckets items is := by
  intro i hi
  have hlt : i < T.buckets.length := hsized.length ▸ his i hi
  have hb := List.getElem?_eq_getElem hlt
  have hhead : (T.buckets.map HashBucket.hhHead)[i]? = some T.buckets[i].hhHead := by
    rw [List.getElem?_map, hb]
    rfl
  obtain ⟨chain, hchain⟩ := hplaced.bucketed i _ hhead
  refine ⟨T.buckets[i], chain, ?_, hchain.head, hchain.linked.next, hchain.perm⟩
  rw [hsized.toNat_ofNat hlt, hb]

/-- There are twice as many buckets, with the same elements, each in the bucket of its hash value.
Nothing but the table and the links in the buckets has changed. -/
def Expanded (h : Heap α) (t : TablePtr) (T : HashTable) (items : List Ptr) (h' : Heap α) : Prop :=
  ∃ prv nxt T', h' = (h.countMalloc.relinked prv nxt).setTable t (some T') ∧
    TableOk h' t T' items ∧ T'.buckets.length = 2 * T.buckets.length ∧
    (items.length < 2 ^ 32 → Measured h' T T' items)

/-- More than half of the elements, with a shift. -/
theorem half_lt_iff {m : ℕ} (hm : m < 2 ^ 32) (v : BitVec 32) :
    v > BitVec.ofNat 32 m >>> 1 ↔ m / 2 < v.toNat := by
  rw [gt_iff_lt, BitVec.lt_def, BitVec.toNat_ushiftRight, BitVec.toNat_ofNat, Nat.mod_eq_of_lt hm,
    Nat.shiftRight_eq_div_pow, pow_one]

/-- The buckets are expanded, or there is no memory for that; the largest table must not get it. -/
theorem hashExpandBuckets_expands (hsmall : T.buckets.length = 2 ^ 31 →
    C.grant h.mallocs (2 ^ 36) = false) (htable : TableOk h t T items)
    (hlive : ∀ p ∈ items, h.live p = true) (hnodup : items.Nodup) (hfuel : items.length < fuel) :
    Served C (hashExpandBuckets C fuel t h) fun _ h' => Expanded h t T items h' := by
  obtain ⟨k, hsized⟩ := htable.sized
  unfold hashExpandBuckets
  rw [bind_apply_ok (loadTable_apply htable.at)]
  refine Served.bind (uthashMalloc_served _) ?_
  rintro _ _ ⟨hgrant, rfl⟩
  -- the table would be too big
  have hk : k ≤ 30 := by
    by_contra hk
    have hk31 : k = 31 := Nat.le_antisymm hsized.le (by omega)
    rw [hsized.toNat_numBuckets, hk31] at hgrant
    exact absurd hgrant (Bool.not_eq_true _ ▸ hsmall (hk31 ▸ hsized.length))
  obtain ⟨hnum, hlog, hnat⟩ := hsized.double
  set ideal := T.numItems >>> (T.log2NumBuckets + 1).toNat +
    (if T.numItems &&& (T.numBuckets * 2 - 1) ≠ 0 then 1 else 0) with hideal
  have hempty : Spreading h.countMalloc (2 ^ (k + 1)) ideal
      ⟨List.replicate (T.numBuckets.toNat * 2) .zero, 0⟩ [] := by
    refine ⟨by rw [List.length_replicate, hnat], placed_nil _, fun _ => ?_⟩
    simp [nonidealCount, bktCount]
  have hrange : ∀ i ∈ List.range T.numBuckets.toNat, i < 2 ^ k := fun i hi => by
    rw [← hsized.toNat_numBuckets]
    exact List.mem_range.mp hi
  have hplaced : Placed h.countMalloc T.buckets items := htable.placed.congr rfl rfl fun _ _ => rfl
  obtain ⟨prv, nxt, spread, moved, hrun, hspread, hmoved, hmem⟩ :=
    moveBuckets_apply (h := h.countMalloc) (Nat.succ_le_succ hk) htable.at hnodup hlive hfuel
      List.nodup_range (hplaced.waiting hsized hrange) hempty List.nodup_nil (by simp)
  have hperm : moved.Perm items := by
    refine (List.perm_ext_iff_of_nodup hmoved hnodup).mpr fun p => ?_
    rw [hmem, List.mem_range, hsized.toNat_numBuckets, ← hsized.length]
    simp [bktOf, Nat.mod_lt _ hsized.length_pos]
  rw [← hnum] at hrun
  set h₂ := h.countMalloc.relinked prv nxt with hh₂
  have ht₂ : h₂.tables t = some T := htable.at
  have hlength : spread.newBuckets.length = 2 * T.buckets.length := by
    rw [hspread.length, hsized.length, pow_succ, Nat.mul_comm]
  rw [bind_apply_ok hrun, modifyTable_apply ht₂]
  refine ⟨prv, nxt, _, rfl, ?_, hlength, fun hitems => ?_⟩
  · exact {
      tables := by
        show Function.update h.tables t _ = _
        rw [htable.tables, Function.update_idem]
      tbl := htable.tbl
      listed := ⟨htable.listed.linked, htable.listed.head, htable.listed.tail⟩
      sized := ⟨k + 1, Nat.succ_le_succ hk, hspread.length, hnum, hlog⟩
      placed := (hspread.placed.perm hperm).congr rfl rfl fun _ _ => rfl
      numItems := htable.numItems }
  · have hidealNat : ideal.toNat = items.length ⌈/⌉ 2 ^ (k + 1) := by
      rw [hideal, htable.numItems, hsized.log2NumBuckets, hsized.numBuckets]
      exact ideal_eq hk hitems
    refine ⟨?_, ?_, ?_, rfl⟩
    · show ideal.toNat = items.length ⌈/⌉ spread.newBuckets.length
      rw [hspread.length, hidealNat]
    · show spread.nonidealItems.toNat = nonidealCount h₂ spread.newBuckets.length ideal.toNat items
      have hle : nonidealCount h₂ (2 ^ (k + 1)) ideal.toNat items ≤ items.length :=
        nonidealCount_le (Nat.two_pow_pos (k + 1)) ideal.toNat
      rw [hspread.nonideal (hperm.length_eq ▸ hitems), hspread.length, nonidealCount_perm hperm,
        BitVec.toNat_ofNat, Nat.mod_eq_of_lt (Nat.lt_of_le_of_lt hle hitems)]
    · show (if spread.nonidealItems > T.numItems >>> 1 then _ else _) = _
      rw [htable.numItems]
      exact if_congr (half_lt_iff hitems _) rfl rfl

/-- The buckets of a table that can still be doubled are expanded, or there is no memory for
that. -/
theorem hashExpandBuckets_served (htable : TableOk h t T items) (hsmall : T.buckets.length < 2 ^ 31)
    (hlive : ∀ p ∈ items, h.live p = true) (hnodup : items.Nodup) (hfuel : items.length < fuel) :
    Served C (hashExpandBuckets C fuel t h) fun _ h' => Expanded h t T items h' :=
  hashExpandBuckets_expands (fun hlargest => absurd hlargest (Nat.ne_of_lt hsmall)) htable hlive
    hnodup hfuel

/-- An element with the hash value 32, in a table of 32 buckets. -/
def single : Heap Unit where
  head := some 0
  live := fun _ => true
  data := fun _ => ()
  tbl := fun _ => 0
  prev := fun _ => none
  next := fun _ => none
  hhPrev := fun _ => none
  hhNext := fun _ => none
  keylen := fun _ => 0
  hashv := fun _ => 32
  tables := Function.update (fun _ => none) 0 (some singleTable)
  nextElmt := 1
  nextTable := 1
  mallocs := 2
where
  singleTable : HashTable := { HashTable.fresh 0 with
    buckets := ⟨some 0, 1, 0⟩ :: List.replicate 31 .zero
    numItems := 1 }

theorem tableOk_single : TableOk single 0 single.singleTable [0] where
  tables := rfl
  tbl _ _ := rfl
  listed := ⟨⟨⟨rfl, trivial⟩, rfl, trivial⟩, rfl, rfl⟩
  sized := ⟨5, by decide, rfl, rfl, rfl⟩
  placed := by
    have hhead : (⟨some 0, 1, 0⟩ : HashBucket).hhHead = some 0 := rfl
    have hpush := (placed_nil (h := single) 32).push (b := .zero) List.not_mem_nil List.nodup_nil
      rfl hhead rfl
    exact hpush.congr (Function.update_eq_self 0 _).symm (Function.update_eq_self 0 _).symm
      fun _ _ => rfl
  numItems := rfl

/-- All memory is granted but that for the largest table. -/
def singleConfig : Config Unit where
  key _ := []
  key_length _ := by decide
  hashFunction _ := 32
  grant _ size := size ≠ 2 ^ 36

theorem hashExpandBuckets_single :
    ∃ h', hashExpandBuckets singleConfig 2 0 single = .ok () h' ∧
      Expanded single 0 single.singleTable [0] h' := by
  have hrun : hashExpandBuckets singleConfig 2 0 single = .ok () _ := rfl
  have hserved : Served singleConfig (hashExpandBuckets singleConfig 2 0 single) fun _ h' =>
      Expanded single 0 single.singleTable [0] h' :=
    hashExpandBuckets_served tableOk_single (by decide) (fun _ _ => rfl) (List.nodup_singleton 0)
      (by decide)
  rw [hrun] at hserved
  exact ⟨_, hrun, hserved⟩

end Reproduce.UtHash
