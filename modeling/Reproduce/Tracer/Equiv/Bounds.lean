import Reproduce.Tracer.Equiv.Peeked

/-!
# Bounds of a string read

`read_child_c_string`, for every kernel: whatever words the traced program holds ready and wherever
a `PEEKDATA` fails.

Before each iteration the address stands as far behind its start as bytes have been stored, a
multiple of eight, and at most `MAX_BUFFER_SIZE - 1` of them (`Scanning`).  So the clamp does not
wrap, and the last chunk ends within the buffer with room for the terminator; after 127 full words
the loop makes one more peek at most (`readChildCString_safe`).
-/

namespace Reproduce

open Bytes Effect

variable {W : Type} (K : Kernel W)

/-- The peeks at successive words from an address on, with their answers, newest first. -/
def peekEvents (pid : PidT) (raddr : Word) : List (Except Errno Word) → List (Event W)
  | [] => []
  | answer :: answers =>
    .ptrace (.peek pid (.data (raddr + BitVec.ofNat 64 (8 * answers.length)))) answer ::
      peekEvents pid raddr answers

/-- Between `s₀` and `s`, `n` successive words were peeked, and nothing outside the buffer
was written. -/
structure Looked (pid : PidT) (raddr : Word) (s₀ : Tracer W) (n : Nat) (s : Tracer W) : Prop where
  peeks : ∃ answers, answers.length = n ∧ s.trace = peekEvents pid raddr answers ++ s₀.trace
  outside : ∀ i, MAX_BUFFER_SIZE ≤ i → s.buffer i = s₀.buffer i

/-- The state before an iteration, on the address and the number of bytes stored. -/
structure Scanning (pid : PidT) (raddr : Word) (s₀ : Tracer W) (st : Word × Nat) (s : Tracer W) :
    Prop where
  next : st.1 = raddr + BitVec.ofNat 64 st.2
  words : 8 ∣ st.2
  le : st.2 ≤ MAX_BUFFER_SIZE - 1
  looked : Looked pid raddr s₀ (st.2 / 8) s
  bytes : ∀ j < st.2, s.buffer j ≠ 0

/-- The state in which the loop ends: `NULL` is returned, or some bytes have been stored. -/
def Scanned (pid : PidT) (raddr : Word) (s₀ : Tracer W) (length : Option Nat)
    (s : Tracer W) : Prop :=
  (∃ n ≤ 128, Looked pid raddr s₀ n s) ∧
    ∀ l, length = some l → l ≤ MAX_BUFFER_SIZE - 1 ∧ ∀ j < l, s.buffer j ≠ 0

/-- The only way in which a read stops. -/
def Exited (pid : PidT) (raddr : Word) (s₀ : Tracer W) (e : Halt) (s : Tracer W) : Prop :=
  e = .exit EXIT_FAILURE ∧ ∃ n ≤ 128, Looked pid raddr s₀ n s

variable {K} {pid : PidT} {raddr : Word} {s₀ s : Tracer W} {st : Word × Nat}

/-- The next peek is one word further. -/
theorem Scanning.asked (h : Scanning pid raddr s₀ st s) :
    Looked pid raddr s₀ (st.2 / 8 + 1) (s.asked K (.peek pid (.data st.1))) := by
  obtain ⟨⟨answers, hlength, htrace⟩, houtside⟩ := h.looked
  refine ⟨⟨(K.ptrace (.peek pid (.data st.1)) s.os).1 :: answers, ?_, ?_⟩, houtside⟩
  · rw [List.length_cons, hlength]
  · have hstart : 8 * (st.2 / 8) = st.2 := Nat.mul_div_cancel' h.words
    have haddr : raddr + BitVec.ofNat 64 (8 * answers.length) = st.1 := by
      rw [hlength, hstart, h.next]
    rw [peekEvents, haddr]
    show _ :: s.trace = _
    rw [htrace]
    rfl

/-- A chunk of a word is stored behind bytes that are not NUL. -/
theorem storeChunk_bytes {length : Nat} (word : Word) (n : Nat)
    (hroom : length + ((stringBytes word).take n).length ≤ MAX_BUFFER_SIZE)
    (hbytes : ∀ j < length, s.buffer j ≠ 0) :
    ∃ f, storeChunk length ((stringBytes word).take n) s = .ok () { s with buffer := f } ∧
      (∀ i, MAX_BUFFER_SIZE ≤ i → f i = s.buffer i) ∧
      ∀ j < length + ((stringBytes word).take n).length, f j ≠ 0 := by
  obtain ⟨f, hrun, hbefore, hchunk, hbehind⟩ := storeChunk_eq length _ hroom s
  refine ⟨f, hrun, fun i hi => hbehind i (hroom.trans hi), fun j hj => ?_⟩
  by_cases hlt : j < length
  · rw [hbefore j hlt]
    exact hbytes j hlt
  · obtain ⟨i, rfl⟩ : ∃ i, j = length + i := ⟨j - length, by omega⟩
    rw [hchunk i (by omega)]
    exact stringBytes_ne_zero (List.mem_of_mem_take (List.getElem_mem _))

theorem triple_peekReturn_looked {P : Tracer W → Prop} {place : Peek} {E : Halt → Tracer W → Prop}
    (hE : ∀ s, P s → E (.exit EXIT_FAILURE) (s.asked K (.peek pid place))) :
    Triple P (peekReturn K pid place)
      (fun _ s => ∃ s', P s' ∧ s = s'.asked K (.peek pid place)) E := by
  refine Triple.bind (triple_ptrace K _ P E) fun answer => ?_
  have hexit : ∀ s, (∃ s', P s' ∧ (K.ptrace (.peek pid place) s'.os).1 = answer ∧
      s = s'.asked K (.peek pid place)) → E (.exit EXIT_FAILURE) s := by
    rintro s ⟨s', hs', -, rfl⟩
    exact hE s' hs'
  have hkeep : ∀ s, (∃ s', P s' ∧ (K.ptrace (.peek pid place) s'.os).1 = answer ∧
      s = s'.asked K (.peek pid place)) → ∃ s', P s' ∧ s = s'.asked K (.peek pid place) := by
    rintro s ⟨s', hs', -, rfl⟩
    exact ⟨s', hs', rfl⟩
  cases answer with
  | ok val => exact Triple.ite (fun _ => Triple.throw hexit) fun _ => Triple.pure hkeep
  | error e => exact Triple.ite (fun _ => Triple.pure hkeep) fun _ => Triple.throw hexit

/-- What has been looked at when a chunk is stored. -/
theorem Looked.stored {n : Nat} (h : Looked pid raddr s₀ n s) {f : Nat → Byte}
    (hf : ∀ i, MAX_BUFFER_SIZE ≤ i → f i = s.buffer i) :
    Looked pid raddr s₀ n { s with buffer := f } :=
  ⟨h.peeks, fun i hi => (hf i hi).trans (h.outside i hi)⟩

/-- One iteration, from bytes and peeks that keep the bounds. -/
theorem triple_readChunk_scanning (s₀ : Tracer W) (st : Word × Nat) :
    Triple (Scanning pid raddr s₀ st) (readChunk K pid st)
      (fun r s => r.elim
        (fun st' => Scanning pid raddr s₀ st' s ∧
          (MAX_BUFFER_SIZE - 1 - st'.2) / 8 < (MAX_BUFFER_SIZE - 1 - st.2) / 8)
        (fun length => Scanned pid raddr s₀ length s))
      (Exited pid raddr s₀) := by
  obtain ⟨addr, length⟩ := st
  intro s hs
  obtain ⟨k, rfl⟩ : ∃ k, length = 8 * k := hs.words
  have hle : 8 * k ≤ 1023 := hs.le
  have hcount : 8 * k / 8 + 1 ≤ 128 := by omega
  -- the length is a multiple of eight, so the guard of the loop always holds
  have hroom : 8 * k < MAX_BUFFER_SIZE - 1 := by
    show 8 * k < 1023
    omega
  refine Triple.ite (P := Scanning pid raddr s₀ (addr, 8 * k)) (fun _ => ?_)
    (fun hfull => absurd hroom hfull) s hs
  refine Triple.bind (triple_peekReturn_looked fun s hs => ⟨rfl, _, hcount, hs.asked⟩) fun val => ?_
  rintro s ⟨s', hs', rfl⟩
  have hlooked := hs'.asked (K := K)
  -- a word that cannot be peeked ends the read without a string
  cases val with
  | none => exact ⟨⟨_, hcount, hlooked⟩, by rintro l ⟨⟩⟩
  | some word =>
    have hword : (stringBytes word).length ≤ 8 := (isCStr_word word).le
    have hbytes := hs'.bytes
    dsimp only
    by_cases hlast : MAX_BUFFER_SIZE - 1 ≤ 8 * k + (stringBytes word).length
    · -- the clamp leaves room for the terminator
      have htake : ((stringBytes word).take (MAX_BUFFER_SIZE - 1 - 8 * k)).length =
          MAX_BUFFER_SIZE - 1 - 8 * k := by
        rw [List.length_take]
        omega
      obtain ⟨f, hrun, houtside, hclean⟩ :=
        storeChunk_bytes (s := s'.asked K (.peek pid (.data addr)))
        word (MAX_BUFFER_SIZE - 1 - 8 * k) (by rw [htake]; omega) hbytes
      rw [if_pos hlast, bind_apply_ok hrun]
      refine ⟨⟨_, hcount, hlooked.stored houtside⟩, ?_⟩
      rintro l ⟨⟩
      rw [htake] at hclean
      exact ⟨by omega, hclean⟩
    · have hfits : 8 * k + (stringBytes word).length < MAX_BUFFER_SIZE - 1 := Nat.not_le.mp hlast
      have hall : (stringBytes word).take 8 = stringBytes word := List.take_of_length_le hword
      obtain ⟨f, hrun, houtside, hclean⟩ :=
        storeChunk_bytes (s := s'.asked K (.peek pid (.data addr)))
        word 8 (by rw [hall]; omega) hbytes
      rw [hall] at hrun hclean
      rw [if_neg hlast, bind_apply_ok hrun]
      -- a full word is followed by another iteration; a shorter chunk holds the NUL
      by_cases hmore : (stringBytes word).length = 8
      · rw [if_pos hmore]
        rw [hmore] at hfits hclean
        refine ⟨⟨?_, ?_, by rw [hmore]; omega, ?_, by rw [hmore]; exact hclean⟩, ?_⟩
        · show addr + BitVec.ofNat 64 (stringBytes word).length = _
          rw [show addr = raddr + BitVec.ofNat 64 (8 * k) from hs'.next, BitVec.add_assoc,
            ← BitVec.ofNat_add]
        · exact Nat.dvd_add (Nat.dvd_mul_right 8 k) (hmore ▸ Nat.dvd_refl 8)
        · rw [hmore, Nat.add_div_right _ (by omega)]
          exact hlooked.stored houtside
        · have hfits' : 8 * k + 8 < 1023 := hfits
          show (1023 - (8 * k + (stringBytes word).length)) / 8 < (1023 - 8 * k) / 8
          omega
      · rw [if_neg hmore]
        refine ⟨⟨_, hcount, hlooked.stored houtside⟩, ?_⟩
        rintro l ⟨⟩
        exact ⟨hfits.le, hclean⟩

/-- The first iteration. -/
theorem scanning_start (pid : PidT) (raddr : Word) (s : Tracer W) :
    Scanning pid raddr s (raddr, 0) s where
  next := (BitVec.add_zero raddr).symm
  words := Nat.dvd_zero 8
  le := Nat.zero_le _
  looked := ⟨⟨[], by rw [Nat.zero_div, List.length_nil], rfl⟩, fun _ _ => rfl⟩
  bytes j hj := absurd hj (Nat.not_lt_zero j)

/-- The whole read: the terminator is stored behind the bytes. -/
theorem triple_readChildCString_scanning (s₀ : Tracer W) :
    Triple (fun s => s = s₀) (readChildCString K raddr pid)
      (fun str s => (∃ n ≤ 128, Looked pid raddr s₀ n s) ∧
        (str = .buffer → ∃ length < MAX_BUFFER_SIZE, s.buffer length = 0 ∧ ∀ j < length,
          s.buffer j ≠ 0))
      (Exited pid raddr s₀) := by
  have hloop : Triple (Scanning pid raddr s₀ (raddr, 0))
      (loop .outOfFuel (readChunk K pid) 128 (raddr, 0)) (Scanned pid raddr s₀)
      (Exited pid raddr s₀) :=
    Triple.loop_variant (fun st : Word × Nat => (MAX_BUFFER_SIZE - 1 - st.2) / 8)
      (triple_readChunk_scanning s₀) 128 (raddr, 0) (by show (1023 - 0) / 8 < 128; decide)
  rintro s rfl
  refine Triple.bind hloop (fun length => ?_) s (scanning_start pid raddr s)
  cases length with
  | none => exact Triple.pure fun s' hs => ⟨hs.1, nofun⟩
  | some length =>
    rintro s' ⟨⟨n, hn, hlooked⟩, hlength⟩
    obtain ⟨hle, hbytes⟩ := hlength length rfl
    -- the terminator is stored inside the buffer
    have hroom : length < MAX_BUFFER_SIZE := Nat.lt_of_le_of_lt hle (by decide)
    have hstore : (storeBuffer length 0 : TracerM W Unit) s' =
        .ok () { s' with buffer := Function.update s'.buffer length 0 } := if_pos hroom
    dsimp only
    rw [bind_apply_ok hstore]
    refine ⟨⟨n, hn, hlooked.stored fun i hi => Function.update_of_ne (by omega) _ _⟩, fun _ => ?_⟩
    refine ⟨length, hroom, Function.update_self .., fun j hj => ?_⟩
    show Function.update s'.buffer length 0 j ≠ 0
    rw [Function.update_of_ne (by omega)]
    exact hbytes j hj

/-- A read is safe: it returns or exits, before each iteration the address has advanced by the bytes
stored and the clamp would not wrap, at most 128 successive words are peeked, nothing is written
outside the buffer, and a string that is returned ends with its first NUL. -/
structure ReadsSafely (K : Kernel W) (pid : PidT) (raddr : Word) (s : Tracer W) : Prop where
  ends : ∀ e s', readChildCString K raddr pid s = .error e s' → e = .exit EXIT_FAILURE
  iterations : ∀ addr length s', Iterates (readChunk K pid) (raddr, 0) s (addr, length) s' →
    addr = raddr + BitVec.ofNat 64 length ∧ length ≤ MAX_BUFFER_SIZE - 1
  peeks : ∃ answers, answers.length ≤ 128 ∧
    (finalState (readChildCString K raddr pid s)).trace = peekEvents pid raddr answers ++ s.trace
  outside : ∀ i, MAX_BUFFER_SIZE ≤ i →
    (finalState (readChildCString K raddr pid s)).buffer i = s.buffer i
  string : ∀ s', readChildCString K raddr pid s = .ok .buffer s' →
    ∃ length < MAX_BUFFER_SIZE, s'.buffer length = 0 ∧ ∀ j < length, s'.buffer j ≠ 0

theorem readChildCString_safe (K : Kernel W) (pid : PidT) (raddr : Word) (s : Tracer W) :
    ReadsSafely K pid raddr s := by
  have hread := @triple_readChildCString_scanning W K pid raddr s
  obtain ⟨n, hn, ⟨⟨answers, hlength, htrace⟩, houtside⟩⟩ :
      ∃ n ≤ 128, Looked pid raddr s n (finalState (readChildCString K raddr pid s)) := by
    cases hrun : readChildCString K raddr pid s with
    | ok str s' => exact (hread.ok rfl hrun).1
    | error e s' => exact (hread.error rfl hrun).2
  constructor
  · exact fun e s' hrun => (hread.error rfl hrun).1
  · intro addr length s' hiterates
    -- the invariant of the loop, at every state that its iterations reach
    have hscanning := hiterates.invariant
      (fun st => (triple_readChunk_scanning s st).conseq (fun _ hs => hs)
        (fun r _ hr => by cases r with | inl st' => exact hr.1 | inr l =>
          exact hr) fun _ _ he => he)
      (scanning_start pid raddr s)
    exact ⟨hscanning.next, hscanning.le⟩
  · exact ⟨answers, hlength ▸ hn, htrace⟩
  · exact houtside
  · exact fun s' hrun => (hread.ok rfl hrun).2 rfl

end Reproduce
