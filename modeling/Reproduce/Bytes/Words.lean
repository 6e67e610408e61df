import Reproduce.Bytes.Memory

/-!
# Lists of words in memory

`WordsAt m a ws` says that the words `ws` can be read one after another from `a` on.  It follows the
list, so that a loop over memory is an induction over the list; `wordsAt_iff` reads it by index.
Overwriting one word of a list that does not wrap around changes that word only
(`wordsAt_overwrite`).
-/

namespace Bytes.Memory

variable {m : Memory} {a : Word} {xs ys ws : List Word}

/-- The words can be read one after another from `a` on. -/
def WordsAt (m : Memory) : Word → List Word → Prop
  | _, [] => True
  | a, w :: ws => m.peek a = some w ∧ WordsAt m (a + 8) ws

@[simp] theorem wordsAt_nil : WordsAt m a [] := trivial

theorem wordsAt_cons {w : Word} :
    WordsAt m a (w :: ws) ↔ m.peek a = some w ∧ WordsAt m (a + 8) ws := Iff.rfl

/-- Offsets add up. -/
theorem add_ofNat_add (a : Word) (n k : Nat) :
    a + BitVec.ofNat 64 n + BitVec.ofNat 64 k = a + BitVec.ofNat 64 (n + k) := by
  rw [BitVec.add_assoc, ← BitVec.ofNat_add]

/-- The address of the word behind `n + 1` words. -/
theorem add_eight_add (a : Word) (n : Nat) :
    a + 8 + BitVec.ofNat 64 (8 * n) = a + BitVec.ofNat 64 (8 * (n + 1)) := by
  have height : (8 : Word) = BitVec.ofNat 64 8 := rfl
  rw [height, add_ofNat_add, Nat.mul_succ, Nat.add_comm]

theorem wordsAt_append :
    WordsAt m a (xs ++ ys) ↔
      WordsAt m a xs ∧ WordsAt m (a + BitVec.ofNat 64 (8 * xs.length)) ys := by
  induction xs generalizing a with
  | nil => simp
  | cons w xs ih =>
    rw [List.cons_append, wordsAt_cons, wordsAt_cons, ih, add_eight_add,
      List.length_cons, and_assoc]

/-- The words by their index. -/
theorem wordsAt_iff :
    WordsAt m a ws ↔
      ∀ i, (h : i < ws.length) → m.peek (a + BitVec.ofNat 64 (8 * i)) = some ws[i] := by
  induction ws generalizing a with
  | nil => exact ⟨fun _ i h => absurd h (Nat.not_lt_zero i), fun _ => trivial⟩
  | cons w ws ih =>
    rw [wordsAt_cons, ih]
    constructor
    · rintro ⟨hfirst, hrest⟩ i hi
      cases i with
      | zero => simpa using hfirst
      | succ i =>
        rw [← add_eight_add]
        exact hrest i (by simpa using hi)
    · intro h
      constructor
      · have hfirst := h 0 (Nat.succ_pos _)
        rwa [Nat.mul_zero, BitVec.add_zero] at hfirst
      · intro i hi
        rw [add_eight_add]
        exact h (i + 1) (by simpa using hi)

/-! ### Overwriting a word -/

/-- The word that was written. -/
theorem wordAt_overwrite_self (m : Memory) (a w : Word) :
    (m.overwrite a (wordBytes w)).wordAt a = w := by
  have hlen : (wordBytes w).length = 8 := length_wordBytes w
  have hword := @wordAt_overwrite m a (wordBytes w) 0 (by omega) (by omega)
  have hsource := sourceWord_append [] [] w
  rw [BitVec.add_zero] at hword
  rw [hword]
  simpa using hsource

/-- Another word of the same list. -/
theorem wordAt_overwrite_of_ne (m : Memory) (a w : Word) {i j n : Nat} (hi : i < n) (hj : j < n)
    (hn : 8 * n ≤ 2 ^ 64) (hne : j ≠ i) :
    (m.overwrite (a + BitVec.ofNat 64 (8 * i)) (wordBytes w)).wordAt (a + BitVec.ofNat 64 (8 * j)) =
      m.wordAt (a + BitVec.ofNat 64 (8 * j)) := by
  apply wordAt_congr
  intro k hk
  apply byte_overwrite_of_le
  rw [length_wordBytes, add_ofNat_add, toNat_sub_add_ofNat _ _ (by omega),
    toNat_add_ofNat_sub a (by omega)]
  -- the other word lies behind the one that is written or, modulo `2 ^ 64`, before it
  by_cases hlt : i < j
  · rw [if_pos (by omega)]
    omega
  · rw [if_neg (by omega), Nat.mod_eq_of_lt (by omega)]
    omega

theorem peek_overwrite (m : Memory) (a b : Word) (bs : List Byte) {w : Word}
    (h : m.peek b = some w) :
    (m.overwrite a bs).peek b = some ((m.overwrite a bs).wordAt b) := by
  obtain ⟨hreadable, -⟩ := peek_eq_some.mp h
  exact peek_eq_some.mpr ⟨hreadable, rfl⟩

/-- One word of a list is overwritten; the others stay what they are. -/
theorem wordsAt_overwrite {w : Word} (w' : Word) (h : WordsAt m a (xs ++ w :: ys))
    (hlen : 8 * (xs ++ w :: ys).length ≤ 2 ^ 64) :
    WordsAt (m.overwrite (a + BitVec.ofNat 64 (8 * xs.length)) (wordBytes w')) a
      (xs ++ w' :: ys) := by
  rw [wordsAt_iff] at h ⊢
  have hsame : (xs ++ w' :: ys).length = (xs ++ w :: ys).length := by simp
  have hmiddle : xs.length < (xs ++ w :: ys).length := by simp
  intro i hi
  rw [hsame] at hi
  have hold := h i hi
  rw [peek_overwrite _ _ _ _ hold]
  congr 1
  -- the word that was overwritten, one before it, or one behind it
  by_cases heq : i = xs.length
  · subst heq
    rw [wordAt_overwrite_self, List.getElem_append_right (Nat.le_refl _)]
    simp
  · rw [wordAt_overwrite_of_ne m a w' hmiddle hi hlen heq, (peek_eq_some.mp hold).2]
    by_cases hlt : i < xs.length
    · rw [List.getElem_append_left hlt, List.getElem_append_left hlt]
    · obtain ⟨k, rfl⟩ : ∃ k, i = xs.length + 1 + k := ⟨i - xs.length - 1, by omega⟩
      rw [List.getElem_append_right (by omega), List.getElem_append_right (by omega)]
      simp [show xs.length + 1 + k - xs.length = k + 1 by omega]

end Bytes.Memory
