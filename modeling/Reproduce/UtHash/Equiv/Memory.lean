import Reproduce.UtHash.Macros

/-!
# Loads and stores

What the accesses to memory do when the element or the table they go to is allocated, and the two
ways in which a run can end when memory may be refused (`Served`).
-/

namespace Reproduce.UtHash

open Bytes Effect Links

variable {α : Type} {C : Config α} {h h' : Heap α} {p : Ptr} {t : TablePtr} {T : HashTable}

/-! ### Loads and stores -/

theorem load_apply {β : Type} {field : Heap α → Ptr → β} (hp : h.live p = true) :
    load field p h = .ok (field h p) h := if_pos hp

theorem store_apply {β : Type} {setField : Heap α → Ptr → β → Heap α} {v : β}
    (hp : h.live p = true) : store setField p v h = .ok () (setField h p v) := if_pos hp

theorem loadTable_apply (ht : h.tables t = some T) : loadTable t h = .ok T h := by
  unfold loadTable
  rw [ht]

theorem modifyTable_apply {f : HashTable → HashTable} (ht : h.tables t = some T) :
    modifyTable t f h = .ok () (h.setTable t (some (f T))) := by
  unfold modifyTable
  rw [ht]

theorem loadBucket_apply {bkt : BitVec 32} {b : HashBucket} (ht : h.tables t = some T)
    (hb : T.buckets[bkt.toNat]? = some b) : loadBucket t bkt h = .ok b h := by
  refine (bind_apply_ok (loadTable_apply ht)).trans ?_
  rw [hb]
  rfl

theorem modifyBucket_apply {bkt : BitVec 32} {b : HashBucket} {f : HashBucket → HashBucket}
    (ht : h.tables t = some T) (hb : T.buckets[bkt.toNat]? = some b) :
    modifyBucket t bkt f h =
      .ok () (h.setTable t (some { T with buckets := T.buckets.set bkt.toNat (f b) })) :=
  (bind_apply_ok (loadBucket_apply ht hb)).trans (modifyTable_apply ht)

theorem headTable_apply (hhead : h.head = some p) (hp : h.live p = true) :
    headTable h = .ok (h.tbl p) h := by
  have hget : getHead h = .ok (some p) h := by rw [getHead, hhead]
  exact (bind_apply_ok hget).trans (load_apply hp)

section storeIf

variable {q v : Option Ptr} (hq : ∀ p, q = some p → h.live p = true)

include hq

theorem storeIf_hhPrev : storeIf Heap.setHhPrev q v h =
    .ok () { h with hhPrev := setLink h.hhPrev q v } := by
  cases q with
  | none => rfl
  | some p => exact store_apply (hq p rfl)

theorem storeIf_hhNext : storeIf Heap.setHhNext q v h =
    .ok () { h with hhNext := setLink h.hhNext q v } := by
  cases q with
  | none => rfl
  | some p => exact store_apply (hq p rfl)

theorem storeIf_prev :
    storeIf Heap.setPrev q v h = .ok () { h with prev := setLink h.prev q v } := by
  cases q with
  | none => rfl
  | some p => exact store_apply (hq p rfl)

end storeIf

/-- An element is put in front of its bucket. -/
def Heap.pushed (h : Heap α) (p : Ptr) (head : Option Ptr) : Heap α :=
  { h with
    hhPrev := setLink (Function.update h.hhPrev p none) head (some p)
    hhNext := Function.update h.hhNext p head }

/-- Other links in the buckets. -/
def Heap.relinked (h : Heap α) (prv nxt : Ptr → Option Ptr) : Heap α :=
  { h with hhPrev := prv, hhNext := nxt }

@[simp] theorem tables_setTable (h : Heap α) (t : TablePtr) (v : Option HashTable) :
    (h.setTable t v).tables t = v := Function.update_self ..

@[simp] theorem setTable_pushed (h : Heap α) (t : TablePtr) (v w : Option HashTable) (p : Ptr)
    (head : Option Ptr) :
    ((h.setTable t v).pushed p head).setTable t w = (h.pushed p head).setTable t w := by
  simp only [Heap.setTable, Heap.pushed, Function.update_idem]

/-! ### What is kept -/

/-- The elements themselves are as they were. -/
structure SameElements (h h' : Heap α) : Prop where
  live : h'.live = h.live
  data : h'.data = h.data
  keylen : h'.keylen = h.keylen
  hashv : h'.hashv = h.hashv
  nextElmt : h'.nextElmt = h.nextElmt

namespace SameElements

variable (h) (p : Ptr) (v : Option Ptr) (w : TablePtr) (T' : Option HashTable)

theorem refl : SameElements h h := ⟨rfl, rfl, rfl, rfl, rfl⟩

variable {h} in
theorem trans {h'' : Heap α} (hsame : SameElements h h') (hsame' : SameElements h' h'') :
    SameElements h h'' :=
  ⟨hsame'.live.trans hsame.live, hsame'.data.trans hsame.data, hsame'.keylen.trans hsame.keylen,
    hsame'.hashv.trans hsame.hashv, hsame'.nextElmt.trans hsame.nextElmt⟩

theorem setHead : SameElements h (h.setHead v) := ⟨rfl, rfl, rfl, rfl, rfl⟩

theorem setNext : SameElements h (h.setNext p v) := ⟨rfl, rfl, rfl, rfl, rfl⟩

theorem setPrev : SameElements h (h.setPrev p v) := ⟨rfl, rfl, rfl, rfl, rfl⟩

theorem setTbl : SameElements h (h.setTbl p w) := ⟨rfl, rfl, rfl, rfl, rfl⟩

theorem setTable : SameElements h (h.setTable t T') := ⟨rfl, rfl, rfl, rfl, rfl⟩

theorem pushed : SameElements h (h.pushed p v) := ⟨rfl, rfl, rfl, rfl, rfl⟩

theorem relinked (prv nxt : Ptr → Option Ptr) : SameElements h (h.relinked prv nxt) :=
  ⟨rfl, rfl, rfl, rfl, rfl⟩

theorem countMalloc : SameElements h h.countMalloc := ⟨rfl, rfl, rfl, rfl, rfl⟩

theorem useTable : SameElements h h.useTable := ⟨rfl, rfl, rfl, rfl, rfl⟩

end SameElements

/-! ### Allocation -/

/-- The last allocation was refused. -/
def OutOfMemory (C : Config α) (h : Heap α) : Prop :=
  ∃ n size, h.mallocs = n + 1 ∧ C.grant n size = false

/-- Memory for `2 ^ 32` buckets, which `num_buckets` cannot count, is never granted.  No `malloc`
promises this: it is an assumption about the machine, and without it the number of buckets wraps
around to zero. -/
def Config.Bounded (C : Config α) : Prop := ∀ n, C.grant n (2 ^ 36) = false

/-- A run returns with `Q`, or the program ended because it was refused memory. -/
def Served {β : Type} (C : Config α) (r : EStateM.Result Halt (Heap α) β)
    (Q : β → Heap α → Prop) : Prop :=
  match r with
  | .ok b h => Q b h
  | .error e h => e = .exit UTHASH_FATAL ∧ OutOfMemory C h

theorem Served.bind {β γ : Type} {m : HashM α β} {f : β → HashM α γ} {Q : β → Heap α → Prop}
    {R : γ → Heap α → Prop} (hm : Served C (m h) Q)
    (hf : ∀ b h', Q b h' → Served C (f b h') R) : Served C ((m >>= f) h) R := by
  cases hrun : m h with
  | ok b h' =>
    rw [hrun] at hm
    rw [bind_apply_ok hrun]
    exact hf b h' hm
  | error e h' =>
    rw [hrun] at hm
    rw [bind_apply_error hrun]
    exact hm

/-- A first part that needs no memory. -/
theorem Served.step {β γ : Type} {m : HashM α β} {f : β → HashM α γ} {b : β}
    {R : γ → Heap α → Prop} (hm : m h = .ok b h') (hf : Served C (f b h') R) :
    Served C ((m >>= f) h) R := by
  rw [bind_apply_ok hm]
  exact hf

theorem Served.mono {β : Type} {r : EStateM.Result Halt (Heap α) β} {Q R : β → Heap α → Prop}
    (hr : Served C r Q) (hQ : ∀ b h', Q b h' → R b h') : Served C r R := by
  cases r with
  | ok b h' => exact hQ b h' hr
  | error e h' => exact hr

theorem uthashMalloc_served (size : ℕ) : Served C (uthashMalloc C size h)
    fun _ h' => C.grant h.mallocs size = true ∧ h' = h.countMalloc := by
  have hallocate : allocate C size h =
    .ok (C.grant h.mallocs size) h.countMalloc := rfl
  unfold uthashMalloc
  rw [bind_apply_ok hallocate]
  cases hgrant : C.grant h.mallocs size with
  | true => exact ⟨rfl, rfl⟩
  | false => exact ⟨rfl, h.mallocs, size, rfl, hgrant⟩

end Reproduce.UtHash
