import Mathlib.Data.List.Nodup
import Mathlib.Logic.Function.Basic

/-!
# Doubly linked lists in memory

A list that lies in memory is given by two maps from addresses to addresses, the links to the next
and to the previous element, which are `none` at the ends.  `Follows nxt l` says that `nxt` leads
through the list `l`; a list is `Linked` when the next links lead through it and the previous links
lead through it backwards.

The operations change a few links: an element is put in front (`Linked.push`) or at the end
(`Linked.append`), or it is taken out and its neighbours are joined (`Linked.unlink`).  Elements
that are not in the list may have any links, so that many lists share the two maps
(`Linked.congr`).
-/

namespace Links

variable {ι : Type} {nxt nxt' prv prv' : ι → Option ι} {l l₁ l₂ : List ι} {a z : ι}

/-- The links lead through the list. -/
def Follows (nxt : ι → Option ι) : List ι → Prop
  | [] => True
  | a :: l => nxt a = l.head? ∧ Follows nxt l

@[simp] theorem follows_nil : Follows nxt [] := trivial

@[simp] theorem follows_cons : Follows nxt (a :: l) ↔ nxt a = l.head? ∧ Follows nxt l := Iff.rfl

theorem Follows.congr (h : Follows nxt l) (hsame : ∀ a ∈ l, nxt' a = nxt a) : Follows nxt' l := by
  induction l with
  | nil => trivial
  | cons a l ih =>
    refine ⟨(hsame a List.mem_cons_self).trans h.1, ih h.2 fun b hb => hsame b ?_⟩
    exact List.mem_cons_of_mem a hb

/-- The links lead through every end of the list. -/
theorem Follows.right (h : Follows nxt (l₁ ++ l₂)) : Follows nxt l₂ := by
  induction l₁ with
  | nil => exact h
  | cons a l₁ ih => exact ih h.2

theorem Follows.at (h : Follows nxt (l₁ ++ a :: l₂)) : nxt a = l₂.head? := h.right.1

/-- A link is set, if there is an element to set it in. -/
def setLink [DecidableEq ι] (f : ι → Option ι) (p : Option ι) (v : Option ι) : ι → Option ι :=
  match p with
  | none => f
  | some a => Function.update f a v

section setLink

variable [DecidableEq ι] {f : ι → Option ι} {p v : Option ι}

@[simp] theorem setLink_none : setLink f none v = f := rfl

@[simp] theorem setLink_some : setLink f (some a) v = Function.update f a v := rfl

theorem setLink_of_ne (h : p ≠ some a) : setLink f p v a = f a := by
  cases p with
  | none => rfl
  | some b => exact Function.update_of_ne (fun hab => h (congrArg some hab.symm)) _ _

end setLink

variable [DecidableEq ι]

/-! ### One direction -/

/-- An element is put behind the last one. -/
theorem Follows.snoc (h : Follows nxt l) (hlast : l.getLast? = some z) (ha : a ∉ l)
    (hnodup : l.Nodup) :
    Follows (Function.update (Function.update nxt a none) z (some a)) (l ++ [a]) := by
  have hza : z ≠ a := by
    rintro rfl
    exact ha (List.mem_of_getLast? hlast)
  induction l with
  | nil => cases hlast
  | cons b l ih =>
    obtain ⟨hb, hnodup⟩ := List.nodup_cons.mp hnodup
    have hba : b ≠ a := fun hba => ha (hba ▸ List.mem_cons_self)
    have hal : a ∉ l := fun hal => ha (List.mem_cons_of_mem b hal)
    cases l with
    | nil =>
      -- the element is the last one
      rw [List.getLast?_singleton] at hlast
      cases hlast
      refine ⟨Function.update_self .., ?_, trivial⟩
      rw [Function.update_of_ne hba.symm, Function.update_self]
      rfl
    | cons c l =>
      have hlast' : (c :: l).getLast? = some z := by simpa using hlast
      have hbz : b ≠ z := fun hbz => hb (hbz ▸ List.mem_of_getLast? hlast')
      refine ⟨?_, ih h.2 hlast' hal hnodup⟩
      rw [Function.update_of_ne hbz, Function.update_of_ne hba]
      exact h.1

/-- An element is taken out: the one in front of it, if there is one, gets its link. -/
theorem Follows.remove (h : Follows nxt (l₁ ++ a :: l₂)) (hnodup : (l₁ ++ a :: l₂).Nodup) :
    Follows (setLink nxt l₁.getLast? (nxt a)) (l₁ ++ l₂) := by
  have hlink := h.at
  induction l₁ with
  | nil => exact h.2
  | cons b l₁ ih =>
    obtain ⟨hb, hnodup⟩ := List.nodup_cons.mp hnodup
    cases l₁ with
    | nil =>
      rw [List.getLast?_singleton, setLink_some]
      refine ⟨?_, h.right.2.congr fun c hc => ?_⟩
      · rw [Function.update_self, hlink]
        rfl
      · refine Function.update_of_ne ?_ _ _
        rintro rfl
        exact hb (by simp [hc])
    | cons c l₁ =>
      rw [List.getLast?_cons_cons]
      refine ⟨?_, ih h.2 hnodup⟩
      rw [setLink_of_ne]
      · exact h.1
      · intro hlast
        exact hb (List.mem_append_left _ (List.mem_of_getLast? hlast))

/-! ### Both directions -/

/-- The next links lead through the list, and the previous links back. -/
structure Linked (prv nxt : ι → Option ι) (l : List ι) : Prop where
  next : Follows nxt l
  prev : Follows prv l.reverse

namespace Linked

omit [DecidableEq ι] in
theorem nil : Linked prv nxt [] := ⟨trivial, trivial⟩

omit [DecidableEq ι] in
theorem congr (h : Linked prv nxt l) (hprv : ∀ a ∈ l, prv' a = prv a)
    (hnxt : ∀ a ∈ l, nxt' a = nxt a) : Linked prv' nxt' l where
  next := h.next.congr hnxt
  prev := h.prev.congr fun a ha => hprv a (List.mem_reverse.mp ha)

omit [DecidableEq ι] in
theorem next_at (h : Linked prv nxt (l₁ ++ a :: l₂)) : nxt a = l₂.head? := h.next.at

omit [DecidableEq ι] in
theorem prev_at (h : Linked prv nxt (l₁ ++ a :: l₂)) : prv a = l₁.getLast? := by
  have hprev := h.prev
  rw [List.reverse_append, List.reverse_cons, List.append_assoc, List.singleton_append] at hprev
  rw [hprev.at, List.head?_reverse]

/-- An element is put in front. -/
theorem push (h : Linked prv nxt l) (ha : a ∉ l) (hnodup : l.Nodup) :
    Linked (setLink (Function.update prv a none) l.head? (some a))
      (Function.update nxt a l.head?) (a :: l) where
  next := by
    refine ⟨Function.update_self .., h.next.congr fun b hb => Function.update_of_ne ?_ _ _⟩
    rintro rfl
    exact ha hb
  prev := by
    rw [List.reverse_cons]
    cases l with
    | nil => simp
    | cons b l =>
      refine h.prev.snoc ?_ (mt List.mem_reverse.mp ha) (List.nodup_reverse.mpr hnodup)
      rw [List.getLast?_reverse]
      rfl

/-- An element is put behind the last one. -/
theorem append (h : Linked prv nxt l) (hlast : l.getLast? = some z) (ha : a ∉ l)
    (hnodup : l.Nodup) :
    Linked (Function.update prv a (some z))
      (Function.update (Function.update nxt a none) z (some a)) (l ++ [a]) where
  next := h.next.snoc hlast ha hnodup
  prev := by
    rw [List.reverse_append, List.reverse_singleton, List.singleton_append]
    refine ⟨?_, h.prev.congr fun b hb => Function.update_of_ne ?_ _ _⟩
    · rw [Function.update_self, List.head?_reverse, hlast]
    · rintro rfl
      exact ha (List.mem_reverse.mp hb)

/-- An element is taken out, and its neighbours are joined. -/
theorem unlink (h : Linked prv nxt (l₁ ++ a :: l₂)) (hnodup : (l₁ ++ a :: l₂).Nodup) :
    Linked (setLink prv (nxt a) (prv a)) (setLink nxt (prv a) (nxt a)) (l₁ ++ l₂) where
  next := by
    rw [h.prev_at]
    exact h.next.remove hnodup
  prev := by
    have hprev := h.prev
    have hreverse := List.nodup_reverse.mpr hnodup
    rw [List.reverse_append, List.reverse_cons, List.append_assoc, List.singleton_append]
      at hprev hreverse
    rw [h.next_at, ← List.getLast?_reverse, List.reverse_append]
    exact hprev.remove hreverse

end Linked

end Links
