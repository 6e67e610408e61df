import Mathlib.Data.BitVec
import Mathlib.Tactic.IntervalCases

/-!
# Little-endian words

A 64-bit word and its eight bytes.  `getByte w j` is the byte at offset `j` of the word `w` as it
lies in memory, `ofBytes f` the word whose byte at offset `j` is `f j`; the two are inverse to each
other (`getByte_ofBytes`, `ofBytes_getByte`).
-/

namespace Bytes

abbrev Byte := BitVec 8

abbrev Word := BitVec 64

/-- The byte at offset `j` of a word in memory. -/
def getByte (w : Word) (j : Nat) : Byte := w.extractLsb' (8 * j) 8

/-- The word with the bytes `f 0, …, f 7` in memory. -/
def ofBytes (f : Nat → Byte) : Word :=
  f 7 ++ f 6 ++ f 5 ++ f 4 ++ f 3 ++ f 2 ++ f 1 ++ f 0

theorem getByte_ofBytes (f : Nat → Byte) {j : Nat} (hj : j < 8) : getByte (ofBytes f) j = f j := by
  apply BitVec.eq_of_getLsbD_eq
  intro i hi
  unfold getByte ofBytes
  simp only [BitVec.getLsbD_extractLsb', BitVec.getLsbD_append, hi]
  interval_cases j <;> interval_cases i <;> rfl

@[simp] theorem ofBytes_getByte (w : Word) : ofBytes (getByte w) = w := by
  apply BitVec.eq_of_getLsbD_eq
  intro i hi
  unfold getByte ofBytes
  simp only [BitVec.getLsbD_extractLsb', BitVec.getLsbD_append]
  interval_cases i <;> rfl

theorem ofBytes_congr {f g : Nat → Byte} (h : ∀ j < 8, f j = g j) : ofBytes f = ofBytes g := by
  unfold ofBytes
  rw [h 7 (by omega), h 6 (by omega), h 5 (by omega), h 4 (by omega), h 3 (by omega),
    h 2 (by omega),
    h 1 (by omega), h 0 (by omega)]

/-- The eight bytes of a word, in memory order. -/
def wordBytes (w : Word) : List Byte := (List.range 8).map (getByte w)

@[simp] theorem length_wordBytes (w : Word) : (wordBytes w).length = 8 := by
  simp [wordBytes]

theorem getElem?_wordBytes (w : Word) (j : Nat) :
    (wordBytes w)[j]? = if j < 8 then some (getByte w j) else none := by
  simp only [wordBytes, List.getElem?_map]
  split
  · next h => simp [h]
  · next h => simp [Nat.not_lt.mp h]

theorem wordBytes_ofBytes (f : Nat → Byte) : wordBytes (ofBytes f) = (List.range 8).map f := by
  unfold wordBytes
  refine List.map_congr_left fun j hj => ?_
  rw [getByte_ofBytes f (List.mem_range.mp hj)]

/-- Offsets below `2^64` survive the passage through a word. -/
theorem toNat_ofNat_of_lt {n : Nat} (h : n < 2 ^ 64) : (BitVec.ofNat 64 n).toNat = n := by
  rw [BitVec.toNat_ofNat, Nat.mod_eq_of_lt h]

end Bytes
