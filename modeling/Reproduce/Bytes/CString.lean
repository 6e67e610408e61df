import Reproduce.Bytes.LittleEndian

/-!
# Strings that end with a NUL

`cstr f n` is the string that starts at index 0 of `f`: its bytes before the first NUL, `n` of them
at most.  `cstr_eq_iff` says when a list is this string, by looking at single bytes.
-/

namespace Bytes

/-- The bytes `f 0, f 1, …` before the first NUL, `n` of them at most. -/
def cstr (f : Nat → Byte) (n : Nat) : List Byte := ((List.range n).map f).takeWhile fun b => b ≠ 0

@[simp] theorem cstr_zero (f : Nat → Byte) : cstr f 0 = [] := rfl

theorem cstr_succ (f : Nat → Byte) (n : Nat) :
    cstr f (n + 1) = if f 0 = 0 then [] else f 0 :: cstr (fun k => f (k + 1)) n := by
  unfold cstr
  rw [List.range_succ_eq_map, List.map_cons, List.map_map, List.takeWhile_cons]
  by_cases h : f 0 = 0
  · simp [h]
  · simp only [h, ne_eq, not_false_eq_true, decide_true, if_true, if_false]
    rfl

/-- A list is the string of `f`: it holds the first bytes of `f`, none of them NUL, and a NUL
follows unless it is as long as it can be. -/
structure IsCStr (f : Nat → Byte) (n : Nat) (l : List Byte) : Prop where
  le : l.length ≤ n
  bytes : ∀ i, (h : i < l.length) → l[i] = f i ∧ f i ≠ 0
  ends : l.length < n → f l.length = 0

theorem isCStr_cstr (f : Nat → Byte) (n : Nat) : IsCStr f n (cstr f n) := by
  induction n generalizing f with
  | zero => exact ⟨le_rfl, fun i h => absurd h (Nat.not_lt_zero i),
    fun h => absurd h (Nat.lt_irrefl 0)⟩
  | succ n ih =>
    rw [cstr_succ]
    split
    · next hzero => exact ⟨Nat.zero_le _, fun i h => absurd h (Nat.not_lt_zero i), fun _ => hzero⟩
    · next hne =>
      have hrest := ih fun k => f (k + 1)
      constructor
      · rw [List.length_cons]
        have := hrest.le
        omega
      · intro i hi
        cases i with
        | zero => exact ⟨rfl, hne⟩
        | succ i => exact hrest.bytes i (by simpa using hi)
      · intro hlt
        rw [List.length_cons] at hlt ⊢
        exact hrest.ends (by omega)

theorem IsCStr.unique {f : Nat → Byte} {n : Nat} {l l' : List Byte} (h : IsCStr f n l)
    (h' : IsCStr f n l') : l = l' := by
  have hnot : ∀ {l l' : List Byte}, IsCStr f n l → IsCStr f n l' → ¬l.length < l'.length := by
    intro l l' h h' hlt
    exact (h'.bytes l.length hlt).2 (h.ends (by have := h'.le; omega))
  have hlength : l.length = l'.length := by
    have := hnot h h'
    have := hnot h' h
    omega
  apply List.ext_getElem hlength
  intro i hi hi'
  rw [(h.bytes i hi).1, (h'.bytes i hi').1]

theorem cstr_eq_iff {f : Nat → Byte} {n : Nat} {l : List Byte} : cstr f n = l ↔ IsCStr f n l := by
  constructor
  · rintro rfl
    exact isCStr_cstr f n
  · exact (isCStr_cstr f n).unique

/-- A prefix without NUL, up to a NUL or to the end. -/
theorem cstr_eq_map {f : Nat → Byte} {n l : Nat} (hle : l ≤ n) (hbytes : ∀ j < l, f j ≠ 0)
    (hends : l < n → f l = 0) : cstr f n = (List.range l).map f := by
  rw [cstr_eq_iff]
  constructor
  · simpa using hle
  · intro i hi
    have hi' : i < l := by simpa using hi
    rw [List.getElem_map, List.getElem_range]
    exact ⟨rfl, hbytes i hi'⟩
  · simpa using hends

end Bytes
