import Reproduce.UtHash.Equiv.Add
import Reproduce.UtHash.Equiv.Delete
import Reproduce.UtHash.Equiv.Read

/-!
# Every use of a hash

A client adds elements and deletes them, in any order.  It keeps to the rules of the macros when it
adds no element and no key that is there, and deletes only what is there (`itemsAfter`).  Then the
hash holds what was added and not deleted since, whatever the hash function does: it is found by its
key, it is met in the order of insertion, and the integrity check passes (`operateAll_served`), as
long as no memory is granted for `2 ^ 32` buckets.
-/

namespace Reproduce.UtHash

open Bytes Effect Links

variable {α : Type} {C : Config α} {h : Heap α} {items : List Ptr} {fuel : ℕ}

/-- What a client does. -/
inductive HashOp where
  | add (p : Ptr)
  | delete (p : Ptr)
  deriving DecidableEq

variable (C fuel) in
def HashOp.operate : HashOp → HashM α Unit
  | add p => hashAdd C fuel p
  | delete p => hashDeleteHh p

variable (C fuel) in
/-- A sequence of operations, newest first. -/
def operateAll : List HashOp → HashM α Unit
  | [] => pure ()
  | op :: ops => do
    operateAll ops
    op.operate C fuel

/-- The elements after a sequence of operations, in the order of insertion, if the client keeps to
the rules. -/
def itemsAfter (key : Ptr → List Byte) : List HashOp → Option (List Ptr)
  | [] => some []
  | .add p :: ops => (itemsAfter key ops).bind fun items =>
    if p ∈ items ∨ key p ∈ items.map key then none else some (items ++ [p])
  | .delete p :: ops => (itemsAfter key ops).bind fun items =>
    if p ∈ items then some (items.erase p) else none

/-- The hash holds the elements. -/
structure Holds (C : Config α) (fuel : ℕ) (data : Ptr → α) (items : List Ptr) (h : Heap α) :
    Prop where
  find : ∀ key, hashFind C fuel key h = .ok (items.find? fun p => C.key (data p) = key) h
  iter : hashItems fuel h = .ok (items.map data) h
  fsck : hashFsck fuel h = .ok () h

theorem operateAll_ok (hbounded : C.Bounded) (hhead : h.head = none)
    (htables : h.tables = fun _ => none) {ops : List HashOp}
    (hlive : ∀ p, .add p ∈ ops → h.live p = true)
    (hops : itemsAfter (fun p => C.key (h.data p)) ops = some items) (hfuel : ops.length < fuel) :
    Served C (operateAll C fuel ops h) fun _ h' =>
      Ok C h' items ∧ h'.live = h.live ∧ h'.data = h.data ∧ items.length ≤ ops.length := by
  -- over the operations, the newest first
  induction ops generalizing items with
  | nil =>
    cases hops
    refine ⟨⟨⟨fun _ => ⟨hhead, htables⟩, fun hne => absurd rfl hne⟩, List.nodup_nil, List.nodup_nil,
      ⟨by simp, by simp, by simp⟩⟩, rfl, rfl, Nat.le_refl _⟩
  | cons op ops ih =>
    have hlive' : ∀ p, .add p ∈ ops → h.live p = true := fun p hp =>
      hlive p (List.mem_cons_of_mem op hp)
    cases op with
    | add p =>
      obtain ⟨before, hbefore, hitems⟩ := Option.bind_eq_some_iff.mp hops
      split at hitems
      · cases hitems
      · next hrules =>
        cases hitems
        rw [not_or] at hrules
        refine Served.bind (ih hlive' hbefore (Nat.lt_of_succ_lt hfuel)) ?_
        rintro _ h₁ ⟨hok, hsameLive, hsameData, hlength⟩
        have hkey : ∀ q ∈ before, C.key (h₁.data q) ≠ C.key (h₁.data p) := fun q hq hkey => by
          rw [hsameData] at hkey
          exact hrules.2 (List.mem_map.mpr ⟨q, hq, hkey⟩)
        have hpLive : h₁.live p = true := by
          rw [hsameLive]
          exact hlive p List.mem_cons_self
        have hadd := hashAdd_served hbounded hok hrules.1 hpLive hkey
          (Nat.lt_of_le_of_lt (Nat.succ_le_succ hlength) hfuel)
        refine hadd.mono ?_
        rintro _ h₂ ⟨hok', hlive₂, hdata₂, -⟩
        refine ⟨hok', hlive₂.trans hsameLive, hdata₂.trans hsameData, ?_⟩
        rw [List.length_append]
        exact Nat.succ_le_succ hlength
    | delete p =>
      obtain ⟨before, hbefore, hitems⟩ := Option.bind_eq_some_iff.mp hops
      split at hitems
      · next hp =>
        cases hitems
        refine Served.bind (ih hlive' hbefore (Nat.lt_of_succ_lt hfuel)) ?_
        rintro _ h₁ ⟨hok, hsameLive, hsameData, hlength⟩
        obtain ⟨h₂, hrun, hok', hsame⟩ := hashDeleteHh_apply hok hp
        show Served C (hashDeleteHh p h₁) _
        rw [hrun]
        refine ⟨hok', hsame.live.trans hsameLive, hsame.data.trans hsameData, ?_⟩
        rw [List.length_erase_of_mem hp, List.length_cons]
        omega
      · cases hitems

/-- A client that keeps to the rules has a hash of what it added and did not delete since. -/
theorem operateAll_served (hbounded : C.Bounded) (hhead : h.head = none)
    (htables : h.tables = fun _ => none) {ops : List HashOp}
    (hlive : ∀ p, .add p ∈ ops → h.live p = true)
    (hops : itemsAfter (fun p => C.key (h.data p)) ops = some items) (hfuel : ops.length < fuel) :
    Served C (operateAll C fuel ops h) fun _ h' => Holds C fuel h.data items h' := by
  refine (operateAll_ok hbounded hhead htables hlive hops hfuel).mono ?_
  rintro _ h' ⟨hok, -, hdata, hlength⟩
  have hfuel' := Nat.lt_of_le_of_lt hlength hfuel
  rw [← hdata]
  exact ⟨hashFind_apply hok hfuel', hashItems_apply hok hfuel', hashFsck_apply hok hfuel'⟩

/-- Every element has the same hash value. -/
def crowdedConfig : Config Byte where
  key b := [b]
  key_length _ := by
    rw [List.length_singleton]
    decide
  hashFunction _ := 0
  grant _ size := size ≠ 2 ^ 36

/-- Element `p` has the key `p`. -/
def crowded : Heap Byte where
  head := none
  live := fun _ => true
  data := BitVec.ofNat 8
  tbl := fun _ => 0
  prev := fun _ => none
  next := fun _ => none
  hhPrev := fun _ => none
  hhNext := fun _ => none
  keylen := fun _ => 0
  hashv := fun _ => 0
  tables := fun _ => none
  nextElmt := 0
  nextTable := 0
  mallocs := 0

/-- Three elements come into one bucket, and the second is deleted. -/
def crowdedOps : List HashOp := [.delete 1, .add 2, .add 1, .add 0]

theorem operateAll_crowded :
    ∃ h', operateAll crowdedConfig 5 crowdedOps crowded = .ok () h' ∧
      Holds crowdedConfig 5 crowded.data [0, 2] h' := by
  have hrun : operateAll crowdedConfig 5 crowdedOps crowded = .ok () _ := rfl
  have hitems : itemsAfter (fun p => crowdedConfig.key (crowded.data p)) crowdedOps =
      some [0, 2] := by decide
  have hserved : Served crowdedConfig (operateAll crowdedConfig 5 crowdedOps crowded) fun _ h' =>
      Holds crowdedConfig 5 crowded.data [0, 2] h' :=
    operateAll_served (fun _ => rfl) rfl rfl (fun _ _ => rfl) hitems (by decide)
  rw [hrun] at hserved
  exact ⟨_, hrun, hserved⟩

end Reproduce.UtHash
