import Mathlib.Algebra.BigOperators.Group.Finset.Piecewise
import Mathlib.Algebra.GroupWithZero.Nat
import Mathlib.Data.List.Perm.Basic
import Reproduce.Links.Doubly

/-!
# Buckets of linked elements

A set of elements lies in memory in several chains, one for each bucket; `idx` says to which bucket
an element belongs.  The chains share the two maps of links, and `heads` holds the first element of
each.  `Bucketed` says that they hold the members, each in its bucket; it is kept when a member is
put in front of its chain (`Bucketed.push`) or taken out of it (`Bucketed.remove`).
-/

namespace Links

variable {ι : Type} {prv nxt : ι → Option ι} {idx : ι → ℕ} {heads : List (Option ι)}
  {members members' chain : List ι} {a : ι} {i : ℕ} {head : Option ι}

/-- The elements of a bucket, in the order of its chain. -/
structure ChainOf (prv nxt : ι → Option ι) (idx : ι → ℕ) (members : List ι) (i : ℕ)
    (head : Option ι) (chain : List ι) : Prop where
  head : head = chain.head?
  linked : Linked prv nxt chain
  perm : chain.Perm (members.filter fun a => idx a = i)

/-- The chains hold the members, each in its bucket. -/
def Bucketed (prv nxt : ι → Option ι) (idx : ι → ℕ) (heads : List (Option ι))
    (members : List ι) : Prop :=
  ∀ i head, heads[i]? = some head → ∃ chain, ChainOf prv nxt idx members i head chain

namespace ChainOf

variable (h : ChainOf prv nxt idx members i head chain)

include h

theorem mem_iff : a ∈ chain ↔ a ∈ members ∧ idx a = i := by
  rw [h.perm.mem_iff, List.mem_filter, decide_eq_true_iff]

theorem nodup (hmembers : members.Nodup) : chain.Nodup :=
  h.perm.nodup_iff.mpr (hmembers.filter _)

theorem length : chain.length = (members.filter fun a => idx a = i).length := h.perm.length_eq

/-- The first element of a chain belongs to its bucket. -/
theorem idx_of_head (ha : head = some a) : idx a = i := by
  have hmem : a ∈ chain := List.mem_of_mem_head? (h.head.symm.trans ha ▸ rfl)
  exact (h.mem_iff.mp hmem).2

/-- The same links, for elements of the bucket, and the same members in the bucket. -/
theorem congr {prv' nxt' : ι → Option ι} (hprv : ∀ a, idx a = i → a ∈ members → prv' a = prv a)
    (hnxt : ∀ a, idx a = i → a ∈ members → nxt' a = nxt a)
    (hmembers : members.filter (fun a => idx a = i) = members'.filter fun a => idx a = i) :
    ChainOf prv' nxt' idx members' i head chain where
  head := h.head
  linked := h.linked.congr
    (fun a ha => hprv a (h.mem_iff.mp ha).2 (h.mem_iff.mp ha).1)
    (fun a ha => hnxt a (h.mem_iff.mp ha).2 (h.mem_iff.mp ha).1)
  perm := hmembers ▸ h.perm

end ChainOf

/-- The buckets share out the members. -/
theorem sum_length_filter {n : ℕ} (hidx : ∀ a ∈ members, idx a < n) :
    ((List.range n).map fun i => (members.filter fun a => idx a = i).length).sum =
      members.length := by
  show ∑ i ∈ Finset.range n, (members.filter fun a => idx a = i).length = members.length
  induction members with
  | nil => exact Finset.sum_eq_zero fun i _ => rfl
  | cons a members ih =>
    have hstep : ∀ i, ((a :: members).filter fun a => idx a = i).length =
        (members.filter fun a => idx a = i).length + if idx a = i then 1 else 0 := fun i => by
      rw [List.filter_cons]
      by_cases hi : idx a = i
      · rw [if_pos hi, if_pos (decide_eq_true hi), List.length_cons]
      · rw [if_neg hi, if_neg fun h => hi (of_decide_eq_true h), Nat.add_zero]
    rw [Finset.sum_congr rfl fun i _ => hstep i, Finset.sum_add_distrib,
      ih fun b hb => hidx b (List.mem_cons_of_mem a hb), Finset.sum_ite_eq,
      if_pos (Finset.mem_range.mpr (hidx a List.mem_cons_self)), List.length_cons]

/-- Empty buckets. -/
theorem bucketed_empty (n : ℕ) : Bucketed prv nxt idx (List.replicate n none) [] := by
  intro i head hhead
  refine ⟨[], ?_, Linked.nil, List.Perm.refl _⟩
  exact List.eq_of_mem_replicate (List.mem_of_getElem? hhead)

/-- Only the set of the members matters. -/
theorem Bucketed.perm (h : Bucketed prv nxt idx heads members) (hperm : members.Perm members') :
    Bucketed prv nxt idx heads members' := by
  intro i head hhead
  obtain ⟨chain, hchain⟩ := h i head hhead
  exact ⟨chain, hchain.head, hchain.linked, hchain.perm.trans (hperm.filter _)⟩

/-- Only the buckets of the members matter. -/
theorem Bucketed.congr {idx' : ι → ℕ} (h : Bucketed prv nxt idx heads members)
    (hidx : ∀ a ∈ members, idx' a = idx a) : Bucketed prv nxt idx' heads members := by
  intro i head hhead
  obtain ⟨chain, hchain⟩ := h i head hhead
  refine ⟨chain, hchain.head, hchain.linked, ?_⟩
  rw [List.filter_congr fun a ha => by rw [hidx a ha]]
  exact hchain.perm

/-- A member does not follow or precede itself. -/
theorem Bucketed.links_ne (h : Bucketed prv nxt idx heads members) (ha : a ∈ members)
    (hnodup : members.Nodup) (hhead : heads[idx a]? = some head) :
    prv a ≠ some a ∧ nxt a ≠ some a := by
  obtain ⟨chain, hchain⟩ := h _ _ hhead
  obtain ⟨l₁, l₂, rfl⟩ := List.append_of_mem (hchain.mem_iff.mpr ⟨ha, rfl⟩)
  have hchainNodup := hchain.nodup hnodup
  rw [hchain.linked.prev_at, hchain.linked.next_at]
  obtain ⟨hrest, hfirst⟩ := List.nodup_middle.mp hchainNodup |> List.nodup_cons.mp
  constructor
  · intro hlast
    exact hrest (List.mem_append_left _ (List.mem_of_getLast? hlast))
  · intro hnext
    exact hrest (List.mem_append_right _ (List.mem_of_mem_head? (hnext ▸ rfl)))

/-- The neighbours of a member are members of its bucket. -/
theorem Bucketed.neighbours (h : Bucketed prv nxt idx heads members) (ha : a ∈ members)
    (hhead : heads[idx a]? = some head) {b : ι} (hb : prv a = some b ∨ nxt a = some b) :
    b ∈ members ∧ idx b = idx a := by
  obtain ⟨chain, hchain⟩ := h _ _ hhead
  obtain ⟨l₁, l₂, rfl⟩ := List.append_of_mem (hchain.mem_iff.mpr ⟨ha, rfl⟩)
  rw [hchain.linked.prev_at, hchain.linked.next_at] at hb
  refine hchain.mem_iff.mp ?_
  rcases hb with hb | hb
  · exact List.mem_append_left _ (List.mem_of_getLast? hb)
  · exact List.mem_append_right _ (List.mem_cons_of_mem _ (List.mem_of_mem_head? (hb ▸ rfl)))

variable [DecidableEq ι]

/-- A new member is put in front of its chain. -/
theorem Bucketed.push (h : Bucketed prv nxt idx heads members) (ha : a ∉ members)
    (hnodup : members.Nodup) (hhead : heads[idx a]? = some head) :
    Bucketed (setLink (Function.update prv a none) head (some a)) (Function.update nxt a head) idx
      (heads.set (idx a) (some a)) (a :: members) := by
  obtain ⟨chain, hchain⟩ := h _ _ hhead
  intro j head' hhead'
  by_cases hj : idx a = j
  · subst hj
    have hlt := (List.getElem?_eq_some_iff.mp hhead).1
    rw [List.getElem?_set_self hlt] at hhead'
    cases hhead'
    have hfresh : a ∉ chain := fun hmem => ha (hchain.mem_iff.mp hmem).1
    refine ⟨a :: chain, rfl, ?_, ?_⟩
    · have hpush := hchain.linked.push hfresh (hchain.nodup hnodup)
      rwa [← hchain.head] at hpush
    · rw [List.filter_cons_of_pos (by simp)]
      exact hchain.perm.cons a
  · -- the links of the other chains are not touched
    rw [List.getElem?_set_ne hj] at hhead'
    obtain ⟨other, hother⟩ := h j head' hhead'
    have hne : ∀ b, idx b = j → b ≠ a := by
      rintro b hb rfl
      exact hj hb
    refine ⟨other, hother.congr (fun b hb _ => ?_) (fun b hb _ => ?_) ?_⟩
    · rw [setLink_of_ne, Function.update_of_ne (hne b hb)]
      intro hfirst
      exact hj (((hchain.idx_of_head hfirst).symm.trans hb))
    · exact Function.update_of_ne (hne b hb) _ _
    · rw [List.filter_cons_of_neg (by simpa using hj)]

/-- A member is taken out of its chain. -/
theorem Bucketed.remove (h : Bucketed prv nxt idx heads members) (ha : a ∈ members)
    (hnodup : members.Nodup) (hhead : heads[idx a]? = some head) :
    Bucketed (setLink prv (nxt a) (prv a)) (setLink nxt (prv a) (nxt a)) idx
      (heads.set (idx a) (if head = some a then nxt a else head)) (members.erase a) := by
  obtain ⟨chain, hchain⟩ := h _ _ hhead
  obtain ⟨l₁, l₂, rfl⟩ := List.append_of_mem (hchain.mem_iff.mpr ⟨ha, rfl⟩)
  have hchainNodup := hchain.nodup hnodup
  have hneighbour : ∀ b, prv a = some b ∨ nxt a = some b → idx b = idx a := fun b hb =>
    (h.neighbours ha hhead hb).2
  intro j head' hhead'
  by_cases hj : idx a = j
  · subst hj
    have hlt := (List.getElem?_eq_some_iff.mp hhead).1
    rw [List.getElem?_set_self hlt] at hhead'
    cases hhead'
    refine ⟨l₁ ++ l₂, ?_, hchain.linked.unlink hchainNodup, ?_⟩
    · rw [hchain.head, hchain.linked.next_at]
      cases l₁ with
      | nil => simp
      | cons b l₁ =>
        have hba : b ≠ a := fun hba => (List.nodup_cons.mp hchainNodup).1 (by simp [hba])
        simp [hba]
    · have hfront : a ∉ l₁ := fun hmem =>
        List.disjoint_of_nodup_append hchainNodup hmem List.mem_cons_self
      rw [← List.erase_filter]
      have herase := hchain.perm.erase a
      rwa [List.erase_append_right _ hfront, List.erase_cons_head] at herase
  · rw [List.getElem?_set_ne hj] at hhead'
    obtain ⟨other, hother⟩ := h j head' hhead'
    refine ⟨other,
      hother.congr (fun b hb _ => setLink_of_ne ?_) (fun b hb _ => setLink_of_ne ?_) ?_⟩
    · intro hnext
      exact hj ((hneighbour b (.inr hnext)).symm.trans hb)
    · intro hprev
      exact hj ((hneighbour b (.inl hprev)).symm.trans hb)
    · rw [← List.erase_filter, List.erase_of_not_mem]
      intro hmem
      exact hj (by simpa using (List.mem_filter.mp hmem).2)

end Links
