import Reproduce.Linux.Equiv.Held
import Reproduce.Tracer.Equiv.Peeked

/-!
# Reading a path

`read_child_c_string` in an attended environment: it reads the string at an address into the static
buffer, as far as the buffer goes, exactly when the words it looks at can be read and none of them
is taken for an error (`triple_readChildCString`).  The loop invariant says that the buffer holds
the bytes so far, that none of them is NUL, and that the next word to look at lies behind them
(`Reading`); what the buffer held before does not matter.
-/

namespace Reproduce

open Bytes

/-- The words that `read_child_c_string` looks at from an address on, `n` of them at most, can be
read and are not taken for an error. -/
def PathReadable (m : Memory) (addr : Word) : Nat → Prop
  | 0 => True
  | n + 1 =>
    ∃ word ∈ m.peek addr, word ≠ -1 ∧
      ((stringBytes word).length = 8 → PathReadable m (addr + 8) n)

instance decidablePathReadable (m : Memory) (addr : Word) : (n : Nat) →
    Decidable (PathReadable m addr n)
  | 0 => isTrue trivial
  | n + 1 =>
    have := decidablePathReadable m (addr + 8) n
    inferInstanceAs (Decidable (∃ word ∈ m.peek addr, _ ∧ (_ → _)))

/-- The bytes of a memory from an address on. -/
def bytesAt (m : Memory) (addr : Word) (k : Nat) : Byte := m.byte (addr + BitVec.ofNat 64 k)

/-- The string at an address, cut to what fits into the buffer. -/
def cString (m : Memory) (addr : Word) : List Byte := cstr (bytesAt m addr) (MAX_BUFFER_SIZE - 1)

/-- A string lies at an address, with a NUL behind it. -/
def GuestString (m : Memory) (addr : Word) (str : List Byte) : Prop :=
  (∀ i, (h : i < str.length) → bytesAt m addr i = str[i]) ∧ bytesAt m addr str.length = 0

/-- A string that fits into the buffer is read as it is, and no other string is read as this one. -/
theorem cString_eq_iff {m : Memory} {addr : Word} {str : List Byte}
    (hstr : ∀ i, (h : i < str.length) → str[i] ≠ 0) (hlen : str.length < MAX_BUFFER_SIZE - 1) :
    cString m addr = str ↔ GuestString m addr str := by
  unfold cString
  rw [cstr_eq_iff]
  constructor
  · intro h
    exact ⟨fun i hi => (h.bytes i hi).1.symm, h.ends hlen⟩
  · rintro ⟨hbytes, hnul⟩
    refine ⟨hlen.le, fun i hi => ⟨(hbytes i hi).symm, ?_⟩, fun _ => hnul⟩
    rw [hbytes i hi]
    exact hstr i hi

theorem cString_ne_zero (m : Memory) (addr : Word) (i : Nat) (hi : i < (cString m addr).length) :
    (cString m addr)[i] ≠ 0 := by
  have hstr : IsCStr _ _ (cString m addr) := isCStr_cstr _ _
  rw [(hstr.bytes i hi).1]
  exact (hstr.bytes i hi).2

theorem length_cString_lt (m : Memory) (addr : Word) :
    (cString m addr).length < MAX_BUFFER_SIZE := by
  have hstr : IsCStr _ _ (cString m addr) := isCStr_cstr _ _
  have hle : (cString m addr).length ≤ 1023 := hstr.le
  show _ < 1024
  omega

/-- The bytes before the NUL in a word of memory. -/
theorem isCStr_stringBytes {m : Memory} {addr word : Word} {len : Nat}
    (hpeek : m.peek (addr + BitVec.ofNat 64 len) = some word) :
    IsCStr (fun j => bytesAt m addr (len + j)) 8 (stringBytes word) := by
  have hbyte : ∀ j < 8, getByte word j = bytesAt m addr (len + j) := by
    intro j hj
    rw [← (Memory.peek_eq_some.mp hpeek).2, Memory.getByte_wordAt m _ hj, BitVec.add_assoc,
      ← BitVec.ofNat_add]
    rfl
  have hstr : IsCStr (getByte word) 8 (stringBytes word) := isCStr_cstr _ _
  constructor
  · exact hstr.le
  · intro i hi
    rw [← hbyte i (by have := hstr.le; omega)]
    exact hstr.bytes i hi
  · intro hlt
    rw [← hbyte _ hlt]
    exact hstr.ends hlt

theorem bytesAt_add (m : Memory) (addr : Word) (n k : Nat) :
    bytesAt m (addr + BitVec.ofNat 64 n) k = bytesAt m addr (n + k) := by
  unfold bytesAt
  rw [BitVec.add_assoc, ← BitVec.ofNat_add]

/-- A word without a NUL. -/
theorem length_stringBytes_eq {m : Memory} {addr word : Word} (hpeek : m.peek addr = some word) :
    (stringBytes word).length = 8 ↔ ∀ j < 8, bytesAt m addr j ≠ 0 := by
  have hstr := @isCStr_stringBytes m addr word 0 (by rwa [BitVec.add_zero])
  simp only [Nat.zero_add] at hstr
  have hle := hstr.le
  constructor
  · intro hfull j hj
    exact (hstr.bytes j (by omega)).2
  · intro hbytes
    by_contra hne
    exact hbytes _ (by omega) (hstr.ends (by omega))

/-- The words that are looked at, one by one: a word is looked at when the words before it
hold no NUL. -/
theorem pathReadable_iff {m : Memory} {addr : Word} {n : Nat} :
    PathReadable m addr n ↔ ∀ k < n, (∀ j < 8 * k, bytesAt m addr j ≠ 0) →
      Memory.wordAll m.readable (addr + BitVec.ofNat 64 (8 * k)) = true ∧
        m.wordAt (addr + BitVec.ofNat 64 (8 * k)) ≠ -1 := by
  induction n generalizing addr with
  | zero => exact ⟨fun _ k hk => absurd hk (Nat.not_lt_zero k), fun _ => trivial⟩
  | succ n ih =>
    have hnext : ∀ k, addr + 8 + BitVec.ofNat 64 (8 * k) =
        addr + BitVec.ofNat 64 (8 * (k + 1)) := by
      intro k
      rw [BitVec.add_assoc, show (8 : Word) = BitVec.ofNat 64 8 from rfl, ← BitVec.ofNat_add,
        Nat.mul_succ, Nat.add_comm]
    constructor
    · rintro ⟨word, hpeek, hne, hrest⟩ k hk hlook
      obtain ⟨hreadable, hword⟩ := Memory.peek_eq_some.mp hpeek
      -- the first word, and then the words behind it
      cases k with
      | zero =>
        rw [Nat.mul_zero, BitVec.add_zero]
        exact ⟨hreadable, hword ▸ hne⟩
      | succ k =>
        have hfull : (stringBytes word).length = 8 :=
          (length_stringBytes_eq hpeek).mpr fun j hj => hlook j (by omega)
        rw [← hnext]
        refine ih.mp (hrest hfull) k (by omega) fun j hj => ?_
        have hbyte := hlook (8 + j) (by omega)
        rwa [← bytesAt_add] at hbyte
    · intro h
      obtain ⟨hreadable, hne⟩ := h 0 (by omega) fun j hj => absurd hj (Nat.not_lt_zero j)
      rw [Nat.mul_zero, BitVec.add_zero] at hreadable hne
      have hpeek : m.peek addr = some (m.wordAt addr) := Memory.peek_eq_some.mpr ⟨hreadable, rfl⟩
      refine ⟨_, hpeek, hne, fun hfull => ih.mpr fun k hk hlook => ?_⟩
      rw [hnext]
      refine h (k + 1) (by omega) fun j hj => ?_
      -- byte `j` lies in the first word, or behind it
      by_cases hfirst : j < 8
      · exact (length_stringBytes_eq hpeek).mp hfull j hfirst
      · obtain ⟨i, rfl⟩ : ∃ i, j = 8 + i := ⟨j - 8, by omega⟩
        have hbyte := hlook i (by omega)
        rwa [show (8 : Word) = BitVec.ofNat 64 8 from rfl, bytesAt_add] at hbyte

end Reproduce

namespace Reproduce.Linux

open Bytes Effect

variable {env : Env} {pid : PidT} {table : List ChildProcess} {heap : Nat} {t : Task} {m : Memory}

/-! ### Reading a path -/

/-- A word that was read leaves the rest of the path to be read if it holds no NUL. -/
theorem pathReadable_succ {addr word : Word} (hpeek : m.peek addr = some word) (hne : word ≠ -1)
    (n : Nat) : PathReadable m addr (n + 1) ↔
      ((stringBytes word).length = 8 → PathReadable m (addr + 8) n) := by
  constructor
  · rintro ⟨word', hpeek', -, hrest⟩
    cases hpeek.symm.trans hpeek'
    exact hrest
  · exact fun hrest => ⟨word, hpeek, hne, hrest⟩

theorem triple_peekReturn (henv : Spared env pid t.mm) (hstop : t.isStopped = true)
    (addr : Word) :
    Triple (Tracked pid table heap t m) (peekReturn (kernel env) pid (.data addr))
      (fun val s => ∃ word, val = some word ∧ m.peek addr = some word ∧ word ≠ -1 ∧
        Tracked pid table heap t m s)
      (fun _ _ => ¬∃ word, m.peek addr = some word ∧ word ≠ -1) := by
  refine Triple.bind (triple_peek henv hstop addr _) fun answer => ?_
  cases answer with
  | error e =>
    refine Triple.ite (fun he => Triple.pure fun s hs => ?_) (fun _ => Triple.throw fun s hs => ?_)
    · rw [hs.1] at he
      cases he
    · rintro ⟨word, hpeek, -⟩
      rw [hs.2.1] at hpeek
      cases hpeek
  | ok word =>
    -- a word of all ones is taken for an error
    refine Triple.ite (fun hword => Triple.throw fun s hs => ?_)
      (fun hword => Triple.pure fun s hs => ⟨word, rfl, hs.1, hword, hs.2⟩)
    rintro ⟨word', hpeek, hne⟩
    cases hs.1.symm.trans hpeek
    exact hne hword

/-- A look at the memory leaves the buffer alone. -/
theorem pokes_sameBuffer (K : Kernel World) (pid : PidT) :
    Pokes K (fun s s' => s'.buffer = s.buffer) pid where
  peek _ _ := rfl
  poke _ _ _ := rfl

instance : IsPreorder (Tracer World) fun s s' => s'.buffer = s.buffer where
  refl _ := rfl
  trans _ _ _ h h' := h'.trans h

theorem triple_storeBuffer {i : Nat} (hi : i < MAX_BUFFER_SIZE) (b : Byte) (buffer : Nat → Byte)
    (E : Halt → Tracer World → Prop) :
    Triple (fun s => Tracked pid table heap t m s ∧ s.buffer = buffer) (storeBuffer i b)
      (fun _ s => Tracked pid table heap t m s ∧ s.buffer = Function.update buffer i b) E := by
  rintro s ⟨hs, hbuffer⟩
  unfold storeBuffer
  rw [if_pos hi]
  exact ⟨⟨hs.held, hs.table, hs.heap⟩, by rw [← hbuffer]⟩

/-- A chunk is stored behind what the buffer holds. -/
theorem triple_storeChunk (bs : List Byte) {length : Nat}
    (h : length + bs.length ≤ MAX_BUFFER_SIZE) (buffer : Nat → Byte)
    (E : Halt → Tracer World → Prop) :
    Triple (fun s => Tracked pid table heap t m s ∧ s.buffer = buffer) (storeChunk length bs)
      (fun _ s => Tracked pid table heap t m s ∧ (∀ j < length, s.buffer j = buffer j) ∧
        ∀ i, (hi : i < bs.length) → s.buffer (length + i) = bs[i]) E := by
  rintro s ⟨hs, rfl⟩
  obtain ⟨f, hrun, hbefore, hchunk, -⟩ := storeChunk_eq _ bs h s
  rw [hrun]
  exact ⟨⟨hs.held, hs.table, hs.heap⟩, hbefore, hchunk⟩

/-- The buffer holds the first bytes at an address, and none of them is NUL. -/
def Holds (m : Memory) (raddr : Word) (length : Nat) (buffer : Nat → Byte) : Prop :=
  ∀ j < length, buffer j = bytesAt m raddr j ∧ bytesAt m raddr j ≠ 0

/-- What has been read of a path before an iteration: the words so far were readable and full. -/
structure Reading (m : Memory) (raddr : Word) (st : Word × Nat) (buffer : Nat → Byte) : Prop where
  next : st.1 = raddr + BitVec.ofNat 64 st.2
  words : 8 ∣ st.2
  lt : st.2 < MAX_BUFFER_SIZE
  holds : Holds m raddr st.2 buffer
  path : PathReadable m raddr 128 ↔ PathReadable m st.1 (128 - st.2 / 8)

/-- What has been read when the loop ends: the string, up to its NUL or to the end of the buffer. -/
structure Read (m : Memory) (raddr : Word) (length : Nat) (buffer : Nat → Byte) : Prop where
  lt : length < MAX_BUFFER_SIZE
  holds : Holds m raddr length buffer
  ends : length < MAX_BUFFER_SIZE - 1 → bytesAt m raddr length = 0
  path : PathReadable m raddr 128

/-- A chunk of the string behind what the buffer holds. -/
theorem Holds.chunk {raddr : Word} {length : Nat} {buffer buffer' : Nat → Byte} {bs : List Byte}
    (h : Holds m raddr length buffer) (hbefore : ∀ j < length, buffer' j = buffer j)
    (hchunk : ∀ i, (hi : i < bs.length) → buffer' (length + i) = bs[i])
    (hbytes : ∀ i, (hi : i < bs.length) →
      bs[i] = bytesAt m raddr (length + i) ∧ bytesAt m raddr (length + i) ≠ 0) :
    Holds m raddr (length + bs.length) buffer' := by
  intro j hj
  by_cases hlt : j < length
  · rw [hbefore j hlt]
    exact h j hlt
  · obtain ⟨i, rfl⟩ : ∃ i, j = length + i := ⟨j - length, by omega⟩
    have hi : i < bs.length := by omega
    rw [hchunk i hi]
    exact hbytes i hi

/-- The buffer spells the string once the NUL is stored. -/
theorem Read.spells {raddr : Word} {length : Nat} {buffer : Nat → Byte}
    (h : Read m raddr length buffer) :
    Spells (Function.update buffer length 0) (cString m raddr) := by
  have hle : length ≤ MAX_BUFFER_SIZE - 1 := Nat.le_sub_one_of_lt h.lt
  have hstring : cString m raddr = (List.range length).map (bytesAt m raddr) :=
    cstr_eq_map hle (fun j hj => (h.holds j hj).2) h.ends
  rw [hstring]
  constructor
  · intro i hi
    have hi' : i < length := by simpa using hi
    rw [Function.update_of_ne (by omega), (h.holds i hi').1, List.getElem_map, List.getElem_range]
  · rw [List.length_map, List.length_range, Function.update_self]

theorem triple_peekReturn_holds (henv : Spared env pid t.mm) (hstop : t.isStopped = true)
    (raddr addr : Word) (length : Nat) :
    Triple (fun s => Tracked pid table heap t m s ∧ Holds m raddr length s.buffer)
      (peekReturn (kernel env) pid (.data addr))
      (fun val s => ∃ word, val = some word ∧ m.peek addr = some word ∧ word ≠ -1 ∧
        Tracked pid table heap t m s ∧ Holds m raddr length s.buffer)
      (fun _ _ => ¬∃ word, m.peek addr = some word ∧ word ≠ -1) := by
  have hsame := (pokes_sameBuffer (kernel env) pid).within_peekReturn (.data addr)
  have hkeeps : ∀ s s' : Tracer World, s'.buffer = s.buffer → Holds m raddr length s.buffer →
      Holds m raddr length s'.buffer := by
    intro s s' h hholds
    rwa [h]
  refine (hsame.frame hkeeps (triple_peekReturn henv hstop addr)).conseq (fun s hs => hs) ?_
    (fun _ _ he => he)
  rintro val s ⟨⟨word, hval, hpeek, hne, hs⟩, hholds⟩
  exact ⟨word, hval, hpeek, hne, hs, hholds⟩

/-- A chunk of a word is stored behind what the buffer holds. -/
theorem triple_storeWord {raddr word : Word} {length : Nat}
    (hpeek : m.peek (raddr + BitVec.ofNat 64 length) = some word) (n : Nat)
    (hroom : length + ((stringBytes word).take n).length ≤ MAX_BUFFER_SIZE)
    (E : Halt → Tracer World → Prop) :
    Triple (fun s => Tracked pid table heap t m s ∧ Holds m raddr length s.buffer)
      (storeChunk length ((stringBytes word).take n))
      (fun _ s => Tracked pid table heap t m s ∧
        Holds m raddr (length + ((stringBytes word).take n).length) s.buffer) E := by
  rintro s ⟨hs, hholds⟩
  refine (triple_storeChunk _ hroom s.buffer E).conseq (fun s hs => hs) ?_ (fun _ _ he => he) s
    ⟨hs, rfl⟩
  rintro _ s' ⟨hs', hbefore, hchunk⟩
  refine ⟨hs', hholds.chunk hbefore hchunk fun i hi => ?_⟩
  have hi' : i < (stringBytes word).length := by
    rw [List.length_take] at hi
    omega
  rw [List.getElem_take]
  exact (isCStr_stringBytes hpeek).bytes i hi'

theorem triple_readChunk (henv : Spared env pid t.mm) (hstop : t.isStopped = true) (raddr : Word)
    (st : Word × Nat) :
    Triple (fun s => Tracked pid table heap t m s ∧ Reading m raddr st s.buffer)
      (readChunk (kernel env) pid st)
      (fun r s => r.elim
        (fun st' => (Tracked pid table heap t m s ∧ Reading m raddr st' s.buffer) ∧
          (MAX_BUFFER_SIZE - 1 - st'.2) / 8 < (MAX_BUFFER_SIZE - 1 - st.2) / 8)
        (fun length => ∃ l, length = some l ∧ Tracked pid table heap t m s ∧
          Read m raddr l s.buffer))
      (fun _ _ => ¬PathReadable m raddr 128) := by
  obtain ⟨addr, length⟩ := st
  rintro s ⟨hs, hreading⟩
  obtain ⟨k, rfl⟩ : ∃ k, length = 8 * k := hreading.words
  obtain rfl : addr = raddr + BitVec.ofNat 64 (8 * k) := hreading.next
  have hk : 8 * k < 1024 := hreading.lt
  obtain ⟨n, hn⟩ : ∃ n, 128 - 8 * k / 8 = n + 1 := ⟨127 - k, by omega⟩
  have hpath : PathReadable m raddr 128 ↔
      PathReadable m (raddr + BitVec.ofNat 64 (8 * k)) (n + 1) := hn ▸ hreading.path
  have hlt : 8 * k < MAX_BUFFER_SIZE - 1 := by
    show 8 * k < 1023
    omega
  refine Triple.ite (P := fun s => Tracked pid table heap t m s ∧ Holds m raddr (8 * k) s.buffer)
    (fun _ => ?_) (fun hge => absurd hlt hge) s ⟨hs, hreading.holds⟩
  refine Triple.bind ((triple_peekReturn_holds henv hstop raddr _ _).conseq (fun s hs => hs)
    (fun _ _ hs => hs) (fun _ _ hno hreadable => ?_)) (fun val => ?_)
  · obtain ⟨word, hpeek, hne, -⟩ := hpath.mp hreadable
    exact hno ⟨word, hpeek, hne⟩
  rintro s ⟨word, rfl, hpeek, hne, hs⟩
  have hnext := hpath.trans (pathReadable_succ hpeek hne n)
  have hchunk := isCStr_stringBytes hpeek
  have hle := hchunk.le
  refine Triple.ite (P := fun s => Tracked pid table heap t m s ∧ Holds m raddr (8 * k) s.buffer)
    (fun hge => ?_) (fun hfits => ?_) s hs
  · -- the last word that fits into the buffer
    have hge' : 1023 ≤ 8 * k + (stringBytes word).length := hge
    have hlast : n = 0 := by omega
    have hdone : PathReadable m raddr 128 := by
      rw [hnext, hlast]
      exact fun _ => trivial
    have htake : ((stringBytes word).take (MAX_BUFFER_SIZE - 1 - 8 * k)).length = 1023 - 8 * k := by
      rw [List.length_take]
      show min (1023 - 8 * k) _ = _
      omega
    refine Triple.bind (triple_storeWord hpeek _ ?_ _) fun _ => Triple.pure ?_
    · rw [htake]
      show 8 * k + (1023 - 8 * k) ≤ 1024
      omega
    · rintro s ⟨hs, hholds⟩
      rw [htake] at hholds
      have hend : 8 * k + (1023 - 8 * k) = 1023 := by omega
      refine ⟨_, rfl, hs, ⟨?_, hholds, fun hmore => ?_, hdone⟩⟩
      · show 8 * k + (1023 - 8 * k) < 1024
        omega
      · have hmore' : 8 * k + (1023 - 8 * k) < 1023 := hmore
        omega
  · have hfits' : 8 * k + (stringBytes word).length < 1023 := Nat.not_le.mp hfits
    have hroom : 8 * k + (stringBytes word).length < MAX_BUFFER_SIZE := by
      show _ < 1024
      omega
    have hall : (stringBytes word).take 8 = stringBytes word := List.take_of_length_le hle
    have hstore := @triple_storeWord pid table heap t m raddr word (8 * k) hpeek 8
    rw [hall] at hstore
    refine Triple.bind (hstore hroom.le _) fun _ => ?_
    refine Triple.ite (fun hfull => Triple.pure fun s hs => ?_)
      (fun hnul => Triple.pure fun s hs => ?_)
    · -- no NUL yet
      refine ⟨⟨hs.1, ⟨?_, ?_, hroom, hs.2, ?_⟩⟩, ?_⟩
      · show raddr + BitVec.ofNat 64 (8 * k) + BitVec.ofNat 64 (stringBytes word).length = _
        rw [BitVec.add_assoc, ← BitVec.ofNat_add]
      · show 8 ∣ 8 * k + (stringBytes word).length
        omega
      · show _ ↔ PathReadable m (raddr + BitVec.ofNat 64 (8 * k) + BitVec.ofNat 64 _)
          (128 - (8 * k + (stringBytes word).length) / 8)
        rw [hfull, show 128 - (8 * k + 8) / 8 = n by omega, hnext]
        exact ⟨fun h => h hfull, fun h _ => h⟩
      · show (1023 - (8 * k + (stringBytes word).length)) / 8 < (1023 - 8 * k) / 8
        omega
    · -- the word holds the NUL, and the string ends in it
      refine ⟨_, rfl, hs.1, ⟨hroom, hs.2, fun _ => hchunk.ends (by omega), ?_⟩⟩
      rw [hnext]
      exact fun hfull => absurd hfull hnul

/-- What the buffer holds after a read: the string, whatever it held before. -/
theorem triple_readChildCString (henv : Spared env pid t.mm) (hstop : t.isStopped = true)
    (raddr : Word) :
    Triple (Tracked pid table heap t m) (readChildCString (kernel env) raddr pid)
      (fun str s => str = .buffer ∧ PathReadable m raddr 128 ∧ Tracked pid table heap t m s ∧
        Spells s.buffer (cString m raddr))
      (fun _ _ => ¬PathReadable m raddr 128) := by
  have hstart : ∀ buffer, Reading m raddr (raddr, 0) buffer := by
    intro buffer
    refine ⟨?_, Nat.dvd_zero 8, by show 0 < 1024; decide, fun j hj => absurd hj (Nat.not_lt_zero j),
      by simp⟩
    simp
  -- 128 rounds are enough: each but the last stores eight bytes
  have hloop : Triple (fun s => Tracked pid table heap t m s ∧ Reading m raddr (raddr, 0) s.buffer)
      (loop .outOfFuel (readChunk (kernel env) pid) 128 (raddr, 0)) _ _ :=
    Triple.loop_variant (fun st : Word × Nat => (MAX_BUFFER_SIZE - 1 - st.2) / 8)
      (triple_readChunk henv hstop raddr) 128 (raddr, 0) (by show (1023 - 0) / 8 < 128; decide)
  refine Triple.bind (hloop.conseq (fun s hs => ⟨hs, hstart s.buffer⟩) (fun _ _ hs => hs)
    (fun _ _ he => he)) fun length => ?_
  rintro s ⟨l, rfl, hs, hread⟩
  refine Triple.bind (triple_storeBuffer hread.lt 0 s.buffer _)
    (fun _ => Triple.pure ?_) s ⟨hs, rfl⟩
  rintro s' ⟨hs', hbuffer⟩
  refine ⟨rfl, hread.path, hs', ?_⟩
  rw [hbuffer]
  exact hread.spells

end Reproduce.Linux
