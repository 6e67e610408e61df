import Reproduce.Bytes.LittleEndian

/-!
# Byte memory with word access

A memory gives every 64-bit address a byte and says which addresses can be read and which can be
written: by the debugger, that is, through `PTRACE_PEEKDATA` and `PTRACE_POKEDATA`, whatever the
protection of the page says to its own process.  Access is by words: `peek` and `poke` succeed when
all eight bytes allow it, and addresses wrap around at `2^64`.  A word that is refused is left as it
was; that the kernel may have written its first bytes, up to the end of a page, is not modelled.

`overwrite m a bs` is the memory with the bytes `bs` at `a`.  A copy loop pokes word after word, and
its effect is an `overwrite` of everything copied so far: `poke_eq_some` reads one poke as an
`overwrite`, and `overwrite_append` puts two adjacent ones together.
-/

namespace Bytes

structure Memory where
  byte : Word → Byte
  readable : Word → Bool
  writable : Word → Bool

namespace Memory

/-- All eight bytes of the word at `a` satisfy `p`. -/
def wordAll (p : Word → Bool) (a : Word) : Bool :=
  (List.range 8).all fun j => p (a + BitVec.ofNat 64 j)

/-- The word at `a`. -/
def wordAt (m : Memory) (a : Word) : Word :=
  ofBytes fun j => m.byte (a + BitVec.ofNat 64 j)

/-- The memory with the bytes `bs` at `a` and above. -/
def overwrite (m : Memory) (a : Word) (bs : List Byte) : Memory :=
  { m with byte := fun x => bs[(x - a).toNat]?.getD (m.byte x) }

def peek (m : Memory) (a : Word) : Option Word :=
  if wordAll m.readable a then some (m.wordAt a) else none

def poke (m : Memory) (a w : Word) : Option Memory :=
  if wordAll m.writable a then some (m.overwrite a (wordBytes w)) else none

theorem wordAll_eq_true {p : Word → Bool} {a : Word} :
    wordAll p a = true ↔ ∀ j < 8, p (a + BitVec.ofNat 64 j) = true := by
  simp [wordAll]

/-- The bytes of the word at an offset. -/
theorem wordAll_offset {p : Word → Bool} {a : Word} {i : Nat} :
    wordAll p (a + BitVec.ofNat 64 i) = true ↔
      ∀ k, i ≤ k → k < i + 8 → p (a + BitVec.ofNat 64 k) = true := by
  rw [wordAll_eq_true]
  have hsum : ∀ j, a + BitVec.ofNat 64 i + BitVec.ofNat 64 j = a + BitVec.ofNat 64 (i + j) :=
    fun j => by rw [BitVec.add_assoc, ← BitVec.ofNat_add]
  constructor
  · intro h k hi hk
    have hbyte := h (k - i) (by omega)
    rwa [hsum, Nat.add_sub_cancel' hi] at hbyte
  · intro h j hj
    rw [hsum]
    exact h (i + j) (Nat.le_add_right i j) (by omega)

/-! ### Overwriting -/

@[simp] theorem readable_overwrite (m : Memory) (a : Word) (bs : List Byte) :
    (m.overwrite a bs).readable = m.readable := rfl

@[simp] theorem writable_overwrite (m : Memory) (a : Word) (bs : List Byte) :
    (m.overwrite a bs).writable = m.writable := rfl

theorem byte_overwrite (m : Memory) (a : Word) (bs : List Byte) (x : Word) :
    (m.overwrite a bs).byte x = bs[(x - a).toNat]?.getD (m.byte x) := rfl

@[simp] theorem overwrite_nil (m : Memory) (a : Word) : m.overwrite a [] = m := by
  simp [overwrite]

/-- The offset of `a + k` from `a`. -/
theorem toNat_add_ofNat_sub (a : Word) {k : Nat} (hk : k < 2 ^ 64) :
    (a + BitVec.ofNat 64 k - a).toNat = k := by
  rw [BitVec.add_comm, BitVec.add_sub_cancel, toNat_ofNat_of_lt hk]

/-- The bytes written are the bytes read back. -/
theorem byte_overwrite_add (m : Memory) (a : Word) (bs : List Byte) {k : Nat}
    (hk : k < bs.length) (hlen : bs.length ≤ 2 ^ 64) :
    (m.overwrite a bs).byte (a + BitVec.ofNat 64 k) = bs[k] := by
  rw [byte_overwrite, toNat_add_ofNat_sub a (by omega), List.getElem?_eq_getElem hk,
    Option.getD_some]

/-- What lies behind the bytes written is as before. -/
theorem byte_overwrite_of_le (m : Memory) {a x : Word} {bs : List Byte}
    (h : bs.length ≤ (x - a).toNat) : (m.overwrite a bs).byte x = m.byte x := by
  rw [byte_overwrite, List.getElem?_eq_none h, Option.getD_none]

/-- Seen from `a + n`, an offset below `n` wraps around and one from `n` on is shifted by `n`. -/
theorem toNat_sub_add_ofNat (x a : Word) {n : Nat} (hn : n ≤ 2 ^ 64) :
    (x - (a + BitVec.ofNat 64 n)).toNat =
      if n ≤ (x - a).toNat then (x - a).toNat - n
      else (2 ^ 64 + (x - a).toNat - n) % 2 ^ 64 := by
  have hx : x - (a + BitVec.ofNat 64 n) = (x - a) - BitVec.ofNat 64 n := by
    rw [BitVec.sub_sub]
  have hlt := (x - a).isLt
  rw [hx, BitVec.toNat_sub, BitVec.toNat_ofNat]
  split <;> omega

theorem overwrite_append (m : Memory) (a : Word) (xs ys : List Byte)
    (hlen : xs.length + ys.length ≤ 2 ^ 64) :
    (m.overwrite a xs).overwrite (a + BitVec.ofNat 64 xs.length) ys = m.overwrite a (xs ++ ys) := by
  unfold overwrite
  congr 1
  funext x
  have hlt := (x - a).isLt
  simp only [toNat_sub_add_ofNat x a (show xs.length ≤ 2 ^ 64 by omega)]
  by_cases hx : xs.length ≤ (x - a).toNat
  · rw [if_pos hx, List.getElem?_append_right hx, List.getElem?_eq_none hx, Option.getD_none]
  · have hx' : (x - a).toNat < xs.length := Nat.not_le.mp hx
    rw [if_neg hx, List.getElem?_append_left hx', List.getElem?_eq_getElem hx',
      Nat.mod_eq_of_lt (by omega), List.getElem?_eq_none (by omega), Option.getD_none,
      Option.getD_some]

theorem overwrite_append_of_length (m : Memory) (a : Word) {xs : List Byte} {n : Nat}
    (hn : xs.length = n) (ys : List Byte) (hlen : n + ys.length ≤ 2 ^ 64) :
    (m.overwrite a xs).overwrite (a + BitVec.ofNat 64 n) ys = m.overwrite a (xs ++ ys) := by
  subst hn
  exact overwrite_append m a xs ys hlen

/-- Writing back bytes that the memory already holds changes nothing. -/
theorem overwrite_append_self (m : Memory) (a : Word) (xs ys : List Byte)
    (hys : ∀ j, (h : j < ys.length) → ys[j] = m.byte (a + BitVec.ofNat 64 (xs.length + j))) :
    m.overwrite a (xs ++ ys) = m.overwrite a xs := by
  unfold overwrite
  congr 1
  funext x
  by_cases hx : (x - a).toNat < xs.length
  · rw [List.getElem?_append_left hx]
  · rw [List.getElem?_append_right (Nat.not_lt.mp hx), List.getElem?_eq_none (Nat.not_lt.mp hx),
      Option.getD_none]
    by_cases hy : (x - a).toNat - xs.length < ys.length
    · rw [List.getElem?_eq_getElem hy, Option.getD_some, hys _ hy]
      have hoff : xs.length + ((x - a).toNat - xs.length) = (x - a).toNat := by omega
      rw [hoff, BitVec.ofNat_toNat, BitVec.setWidth_eq, BitVec.add_comm, BitVec.sub_add_cancel]
    · rw [List.getElem?_eq_none (Nat.not_lt.mp hy), Option.getD_none]

/-! ### Word access -/

theorem peek_eq_some {m : Memory} {a w : Word} :
    m.peek a = some w ↔ wordAll m.readable a = true ∧ m.wordAt a = w := by
  unfold peek
  split <;> simp_all

theorem poke_eq_some {m m' : Memory} {a w : Word} :
    m.poke a w = some m' ↔ wordAll m.writable a = true ∧ m.overwrite a (wordBytes w) = m' := by
  unfold poke
  split <;> simp_all

theorem getByte_wordAt (m : Memory) (a : Word) {j : Nat} (hj : j < 8) :
    getByte (m.wordAt a) j = m.byte (a + BitVec.ofNat 64 j) :=
  getByte_ofBytes _ hj

/-! ### Copying word by word -/

/-- The word of a source at an offset. -/
def sourceWord (src : List Byte) (i : Nat) : Word := ofBytes fun j => (src.drop i).getD j 0

theorem wordBytes_sourceWord {src : List Byte} {i : Nat} (hi : i + 8 ≤ src.length) :
    wordBytes (sourceWord src i) = (src.drop i).take 8 := by
  unfold sourceWord
  rw [wordBytes_ofBytes]
  apply List.ext_getElem
  · simp only [List.length_map, List.length_range, List.length_take, List.length_drop]
    omega
  · intro j hj hj'
    have hlt : j < (src.drop i).length := by
      simp only [List.length_map, List.length_range] at hj
      rw [List.length_drop]
      omega
    simp only [List.getElem_map, List.getElem_range, List.getElem_take]
    rw [List.getD_eq_getElem?_getD, List.getElem?_eq_getElem hlt, Option.getD_some]

/-- The word of a source that lies behind `xs`. -/
theorem sourceWord_append (xs ys : List Byte) (w : Word) :
    sourceWord (xs ++ wordBytes w ++ ys) xs.length = w := by
  unfold sourceWord
  rw [List.append_assoc, List.drop_left]
  calc (ofBytes fun j => (wordBytes w ++ ys).getD j 0) = ofBytes (getByte w) := by
        refine ofBytes_congr fun j hj => ?_
        rw [List.getD_eq_getElem?_getD, List.getElem?_append_left (by simpa using hj),
          getElem?_wordBytes, if_pos hj, Option.getD_some]
    _ = w := ofBytes_getByte w

/-- A word that was overwritten. -/
theorem wordAt_overwrite (m : Memory) (a : Word) {bs : List Byte} {i : Nat} (hi : i + 8 ≤ bs.length)
    (hlen : bs.length ≤ 2 ^ 64) :
    (m.overwrite a bs).wordAt (a + BitVec.ofNat 64 i) = sourceWord bs i := by
  unfold wordAt sourceWord
  refine ofBytes_congr fun j hj => ?_
  have hij : i + j < bs.length := by omega
  rw [BitVec.add_assoc, ← BitVec.ofNat_add, byte_overwrite_add m a bs hij hlen,
    List.getD_eq_getElem?_getD, List.getElem?_drop, List.getElem?_eq_getElem hij, Option.getD_some]

/-- Two words that were overwritten. -/
theorem wordAt_overwrite_pair (m : Memory) (a v w : Word) :
    (m.overwrite a (wordBytes v ++ wordBytes w)).wordAt a = v ∧
      (m.overwrite a (wordBytes v ++ wordBytes w)).wordAt (a + 8) = w := by
  have hlen : (wordBytes v ++ wordBytes w).length = 16 := by simp
  constructor
  · have hfirst := @wordAt_overwrite m a (wordBytes v ++ wordBytes w) 0 (by omega) (by omega)
    rw [BitVec.add_zero] at hfirst
    rw [hfirst]
    exact sourceWord_append [] (wordBytes w) v
  · have hsecond := @wordAt_overwrite m a (wordBytes v ++ wordBytes w) 8 (by omega) (by omega)
    have hsource := sourceWord_append (wordBytes v) [] w
    rw [List.append_nil, length_wordBytes] at hsource
    exact hsecond.trans hsource

/-- Writing back the word behind `xs` changes nothing. -/
theorem overwrite_append_wordAt (m : Memory) (a : Word) (xs : List Byte) :
    m.overwrite a (xs ++ wordBytes (m.wordAt (a + BitVec.ofNat 64 xs.length))) =
      m.overwrite a xs := by
  refine overwrite_append_self m a xs _ fun j hj => ?_
  have hj8 : j < 8 := by simpa using hj
  simp only [wordBytes, List.getElem_map, List.getElem_range]
  rw [getByte_wordAt m _ hj8, BitVec.add_assoc, ← BitVec.ofNat_add]

/-- Memories that agree on eight bytes agree on the word. -/
theorem wordAt_congr {m m' : Memory} {a : Word}
    (h : ∀ j < 8, m.byte (a + BitVec.ofNat 64 j) = m'.byte (a + BitVec.ofNat 64 j)) :
    m.wordAt a = m'.wordAt a :=
  ofBytes_congr h

/-- One more word of a copy. -/
theorem overwrite_take_word (m : Memory) (dest : Word) {src : List Byte} {i : Nat}
    (hi : i + 8 ≤ src.length) (hlen : src.length ≤ 2 ^ 64) :
    (m.overwrite dest (src.take i)).overwrite (dest + BitVec.ofNat 64 i)
      (wordBytes (sourceWord src i)) = m.overwrite dest (src.take (i + 8)) := by
  have htake : (src.take i).length = i := by
    rw [List.length_take]
    omega
  rw [wordBytes_sourceWord hi, List.take_add]
  refine overwrite_append_of_length m dest htake _ ?_
  rw [List.length_take, List.length_drop]
  omega

/-- The last word of a copy: the bytes of the source from `i` on, and then what the memory holds. -/
theorem overwrite_take_tail (m : Memory) (dest : Word) {src : List Byte} {i : Nat}
    (hi : i ≤ src.length) (hlast : src.length < i + 8) (hlen : src.length + 8 ≤ 2 ^ 64) :
    (m.overwrite dest (src.take i)).overwrite (dest + BitVec.ofNat 64 i)
      (wordBytes (ofBytes fun j => if i + j < src.length then src.getD (i + j) 0
        else getByte ((m.overwrite dest (src.take i)).wordAt (dest + BitVec.ofNat 64 i)) j)) =
      m.overwrite dest src := by
  have htake : (src.take i).length = i := by
    rw [List.length_take]
    omega
  -- the bytes behind the source are those that the memory holds there
  have hbytes : wordBytes (ofBytes fun j => if i + j < src.length then src.getD (i + j) 0
      else getByte ((m.overwrite dest (src.take i)).wordAt (dest + BitVec.ofNat 64 i)) j) =
      src.drop i ++ (List.range (8 - (src.length - i))).map
        fun j => m.byte (dest + BitVec.ofNat 64 (src.length + j)) := by
    rw [wordBytes_ofBytes]
    apply List.ext_getElem
    · simp only [List.length_map, List.length_range, List.length_append, List.length_drop]
      omega
    · intro j hj hj'
      have hj8 : j < 8 := by simpa using hj
      simp only [List.getElem_map, List.getElem_range]
      -- byte `j` of the word comes from the source, or is the one that was peeked
      by_cases hsrc : i + j < src.length
      · have hdrop : j < (src.drop i).length := by
          rw [List.length_drop]
          omega
        rw [if_pos hsrc, List.getElem_append_left hdrop, List.getElem_drop,
          List.getD_eq_getElem?_getD, List.getElem?_eq_getElem hsrc, Option.getD_some]
      · have hdrop : (src.drop i).length ≤ j := by
          rw [List.length_drop]
          omega
        rw [if_neg hsrc, List.getElem_append_right hdrop, getByte_wordAt _ _ hj8,
          List.getElem_map, List.getElem_range, byte_overwrite]
        have haddr : dest + BitVec.ofNat 64 i + BitVec.ofNat 64 j =
            dest + BitVec.ofNat 64 (src.length + (j - (src.drop i).length)) := by
          rw [BitVec.add_assoc, ← BitVec.ofNat_add, List.length_drop]
          congr 2
          rw [List.length_drop] at hdrop
          omega
        have hout : (dest + BitVec.ofNat 64 i + BitVec.ofNat 64 j - dest).toNat = i + j := by
          rw [BitVec.add_assoc, ← BitVec.ofNat_add]
          exact toNat_add_ofNat_sub dest (by omega)
        rw [List.getElem?_eq_none (by omega), Option.getD_none, haddr]
  have hroom : i + (src.drop i ++ (List.range (8 - (src.length - i))).map
      fun j => m.byte (dest + BitVec.ofNat 64 (src.length + j))).length ≤ 2 ^ 64 := by
    rw [List.length_append, List.length_map, List.length_range, List.length_drop]
    omega
  rw [hbytes, overwrite_append_of_length m dest htake _ hroom, ← List.append_assoc,
    List.take_append_drop]
  refine overwrite_append_self m dest src _ fun j hj => ?_
  simp

/-- A copy of `len` bytes to `dest` by words is possible: every full word can be written, and a
last, partial word can be read and written. -/
def Accepts (m : Memory) (dest : Word) (len : Nat) : Prop :=
  (∀ k < len / 8, wordAll m.writable (dest + BitVec.ofNat 64 (8 * k)) = true) ∧
    (len % 8 ≠ 0 →
      wordAll m.readable (dest + BitVec.ofNat 64 (8 * (len / 8))) = true ∧
        wordAll m.writable (dest + BitVec.ofNat 64 (8 * (len / 8))) = true)

instance (m : Memory) (dest : Word) (len : Nat) : Decidable (m.Accepts dest len) :=
  inferInstanceAs (Decidable (_ ∧ _))

/-- On a buffer that is mapped, a copy is possible when its last, partial word is mapped
as a whole. -/
theorem accepts_iff_of_mapped {m : Memory} {dest : Word} {len : Nat}
    (hmapped : ∀ k < len, m.readable (dest + BitVec.ofNat 64 k) = true ∧
      m.writable (dest + BitVec.ofNat 64 k) = true) :
    m.Accepts dest len ↔ (len % 8 ≠ 0 → ∀ k, len ≤ k → k < 8 * (len / 8) + 8 →
      m.readable (dest + BitVec.ofNat 64 k) = true ∧
        m.writable (dest + BitVec.ofNat 64 k) = true) := by
  constructor
  · rintro ⟨-, htail⟩ hpartial k hle hlt
    obtain ⟨hreadable, hwritable⟩ := htail hpartial
    have hstart : 8 * (len / 8) ≤ k := by omega
    exact ⟨wordAll_offset.mp hreadable k hstart hlt, wordAll_offset.mp hwritable k hstart hlt⟩
  · intro hslack
    -- the last word is mapped: its bytes lie in the buffer or in the slack behind it
    have hall : ∀ k, len % 8 ≠ 0 → k < 8 * (len / 8) + 8 →
        m.readable (dest + BitVec.ofNat 64 k) = true ∧
          m.writable (dest + BitVec.ofNat 64 k) = true := by
      intro k hpartial hlt
      by_cases hk : k < len
      · exact hmapped k hk
      · exact hslack hpartial k (Nat.not_lt.mp hk) hlt
    refine ⟨fun k hk => ?_, fun hpartial => ⟨?_, ?_⟩⟩
    · rw [wordAll_offset]
      intro n _ hn
      exact (hmapped n (by omega)).2
    · rw [wordAll_offset]
      intro n _ hn
      exact (hall n hpartial hn).1
    · rw [wordAll_offset]
      intro n _ hn
      exact (hall n hpartial hn).2

end Memory

end Bytes
