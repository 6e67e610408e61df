import Reproduce.Bytes.CString
import Reproduce.Tracer.Equiv.Frame

/-!
# The path of an open call

What `read_child_c_string` leaves in the static buffer is the string that the answers to its
`PEEKDATA` requests spell, cut to what fits (`readChildCString_spells`).  So the answers decide
whether `redirect_dev_random` does anything (`redirectDevRandom_passes`).
-/

namespace Reproduce

open Bytes Effect

variable {W : Type} (K : Kernel W)

/-! ### Strings in the buffer -/

/-- The buffer holds a string, and a NUL behind it. -/
structure Spells (buffer : Nat → Byte) (str : List Byte) : Prop where
  bytes : ∀ i, (h : i < str.length) → buffer i = str[i]
  nul : buffer str.length = 0

theorem stringFrom_eq_cstr (buffer : Nat → Byte) (i n : Nat) :
    stringFrom buffer i n = cstr (fun k => buffer (i + k)) n := by
  induction n generalizing i with
  | zero => rfl
  | succ n ih =>
    rw [stringFrom, cstr_succ, ih]
    simp only [Nat.add_zero, Nat.add_assoc, Nat.add_comm 1]

/-- `strcmp` sees the string that the buffer holds. -/
theorem stringFrom_of_spells {buffer : Nat → Byte} {str : List Byte} (h : Spells buffer str)
    (hstr : ∀ i, (hi : i < str.length) → str[i] ≠ 0) {n : Nat} (hn : str.length < n) :
    stringFrom buffer 0 n = str := by
  rw [stringFrom_eq_cstr, cstr_eq_iff]
  simp only [Nat.zero_add]
  constructor
  · exact hn.le
  · intro i hi
    have hbyte := h.bytes i hi
    exact ⟨hbyte.symm, hbyte ▸ hstr i hi⟩
  · exact fun _ => h.nul

/-- A chunk that fits is stored behind what the buffer holds. -/
theorem storeChunk_eq (length : Nat) (bs : List Byte) (h : length + bs.length ≤ MAX_BUFFER_SIZE)
    (s : Tracer W) :
    ∃ f, storeChunk length bs s = .ok () { s with buffer := f } ∧ (∀ j < length, f j = s.buffer j) ∧
      (∀ i, (hi : i < bs.length) → f (length + i) = bs[i]) ∧
      ∀ j, length + bs.length ≤ j → f j = s.buffer j := by
  -- over the chunk: its first byte lies in front of what the rest stores
  induction bs generalizing length s with
  | nil =>
    exact ⟨s.buffer, rfl, fun _ _ => rfl, fun i hi => absurd hi (Nat.not_lt_zero i), fun _ _ => rfl⟩
  | cons b bs ih =>
    rw [List.length_cons] at h
    have hstore : (storeBuffer length b : TracerM W Unit) s =
        .ok () { s with buffer := Function.update s.buffer length b } := by
      unfold storeBuffer
      rw [if_pos (by omega)]
    obtain ⟨f, hrun, hbefore, hchunk, hbehind⟩ := ih (length + 1) (by omega)
      { s with buffer := Function.update s.buffer length b }
    refine ⟨f, ?_, fun j hj => ?_, fun i hi => ?_, fun j hj => ?_⟩
    · rw [storeChunk, bind_apply_ok hstore, hrun]
    · rw [hbefore j (by omega)]
      exact Function.update_of_ne (by omega) _ _
    · cases i with
      | zero =>
        rw [Nat.add_zero, hbefore length (by omega)]
        exact Function.update_self ..
      | succ i =>
        have hstored := hchunk i (by simpa using hi)
        rwa [Nat.add_right_comm] at hstored
    · rw [List.length_cons] at hj
      rw [hbehind j (by omega)]
      exact Function.update_of_ne (by omega) _ _

/-! ### Strings that are peeked -/

/-- The string that `PEEKDATA` answers from an address on, `n` words of it at most. -/
def peekedString (pid : PidT) : Nat → Word → W → List Byte
  | 0, _, _ => []
  | n + 1, addr, w =>
    match (K.ptrace (.peek pid (.data addr)) w).1 with
    | .ok (word : Word) =>
      if (stringBytes word).length = 8 then
        stringBytes word ++ peekedString pid n (addr + 8) (K.ptrace (.peek pid (.data addr)) w).2
      else stringBytes word
    | .error _ => []

theorem isCStr_word (word : Word) : IsCStr (getByte word) 8 (stringBytes word) := isCStr_cstr _ _

theorem stringBytes_ne_zero {word : Word} {b : Byte} (hb : b ∈ stringBytes word) : b ≠ 0 := by
  obtain ⟨i, hi, rfl⟩ := List.getElem_of_mem hb
  obtain ⟨hbyte, hne⟩ := (isCStr_word word).bytes i hi
  rwa [hbyte]

theorem peekedString_ne_zero (pid : PidT) (n : Nat) (addr : Word) (w : W) :
    ∀ b ∈ peekedString K pid n addr w, b ≠ 0 := by
  induction n generalizing addr w with
  | zero => exact fun b hb => nomatch hb
  | succ n ih =>
    intro b hb
    unfold peekedString at hb
    split at hb
    · split at hb
      · rcases List.mem_append.mp hb with hb | hb
        · exact stringBytes_ne_zero hb
        · exact ih _ _ b hb
      · exact stringBytes_ne_zero hb
    · cases hb

variable {K} {pid : PidT}

theorem peekReturn_eq_ok {place : Peek} {s s' : Tracer W} {val : Option Word}
    (h : peekReturn K pid place s = .ok val s') :
    s' = s.asked K (.peek pid place) ∧
      ∀ word, val = some word → (K.ptrace (.peek pid place) s.os).1 = .ok word := by
  rw [peekReturn, bind_apply_ok (ptrace_apply K _ s)] at h
  cases hanswer : (K.ptrace (.peek pid place) s.os).1 with
  | ok answer =>
    rw [hanswer] at h
    dsimp only at h
    split at h
    · cases h
    · cases h
      exact ⟨rfl, fun word hword => by rw [Option.some.inj hword]⟩
  | error e =>
    rw [hanswer] at h
    dsimp only at h
    split at h
    · cases h
      exact ⟨rfl, by rintro word ⟨⟩⟩
    · cases h

/-- The first bytes of the buffer are a list. -/
def Starts (buffer : Nat → Byte) (l : List Byte) : Prop := ∀ i, (h : i < l.length) → buffer i = l[i]

theorem Starts.append {buffer buffer' : Nat → Byte} {l bs : List Byte} (h : Starts buffer l)
    (hbefore : ∀ j < l.length, buffer' j = buffer j)
    (hchunk : ∀ i, (hi : i < bs.length) → buffer' (l.length + i) = bs[i]) :
    Starts buffer' (l ++ bs) := by
  intro i hi
  by_cases hlt : i < l.length
  · rw [List.getElem_append_left hlt, hbefore i hlt]
    exact h i hlt
  · obtain ⟨j, rfl⟩ : ∃ j, i = l.length + j := ⟨i - l.length, by omega⟩
    rw [List.length_append] at hi
    rw [List.getElem_append_right (by omega)]
    simp only [Nat.add_sub_cancel_left]
    exact hchunk j (by omega)

/-- What the buffer holds when the loop ends: what it held before, then the peeked string, cut to
what fits. -/
theorem readLoop_starts (n : Nat) {addr : Word} (before : List Byte) {s s' : Tracer W}
    {length : Nat}
    (hlength : before.length ≤ MAX_BUFFER_SIZE - 1) (hbefore : Starts s.buffer before)
    (hrun : Effect.loop .outOfFuel (readChunk K pid) n (addr, before.length) s = .ok
      (some length) s') :
    length = ((before ++ peekedString K pid n addr s.os).take (MAX_BUFFER_SIZE - 1)).length ∧
      Starts s'.buffer ((before ++ peekedString K pid n addr s.os).take (MAX_BUFFER_SIZE - 1)) := by
  induction n generalizing addr before s with
  | zero => cases hrun
  | succ n ih =>
    obtain ⟨r, s₁, hbody, hrest⟩ := bind_eq_ok.mp hrun
    by_cases hroom : before.length < MAX_BUFFER_SIZE - 1
    swap
    · -- the buffer was full before
      have hall : (before ++ peekedString K pid (n + 1) addr s.os).take (MAX_BUFFER_SIZE - 1) =
          before := by
        rw [show MAX_BUFFER_SIZE - 1 = before.length by omega, List.take_left]
      rw [readChunk, if_neg hroom] at hbody
      cases hbody
      rw [hall]
      cases hrest
      exact ⟨rfl, hbefore⟩
    rw [readChunk, if_pos hroom] at hbody
    obtain ⟨val, s₂, hpeek, hbody⟩ := bind_eq_ok.mp hbody
    obtain ⟨rfl, hanswer⟩ := peekReturn_eq_ok hpeek
    cases val with
    | none =>
      cases hbody
      cases hrest
    | some word =>
      -- the peeked string begins with this word
      have hpeeked : peekedString K pid (n + 1) addr s.os =
          if (stringBytes word).length = 8 then
            stringBytes word ++ peekedString K pid n (addr + 8)
              (s.asked K (.peek pid (.data addr))).os
          else stringBytes word := by
        rw [peekedString, hanswer word rfl]
        rfl
      obtain ⟨rest, hsplit⟩ : ∃ rest, peekedString K pid (n + 1) addr s.os = stringBytes
        word ++ rest := by
        rw [hpeeked]
        split
        · exact ⟨_, rfl⟩
        · exact ⟨[], (List.append_nil _).symm⟩
      have hle := (isCStr_word word).le
      dsimp only at hbody
      by_cases hlast : MAX_BUFFER_SIZE - 1 ≤ before.length + (stringBytes word).length
      · -- the last word that fits
        rw [if_pos hlast] at hbody
        obtain ⟨_, s₃, hstore, hbody⟩ := bind_eq_ok.mp hbody
        have htake : ((stringBytes word).take (MAX_BUFFER_SIZE - 1 - before.length)).length =
            MAX_BUFFER_SIZE - 1 - before.length := by
          rw [List.length_take]
          omega
        obtain ⟨f, hrun', hbefore', hchunk, -⟩ := storeChunk_eq before.length
          ((stringBytes word).take (MAX_BUFFER_SIZE - 1 - before.length)) (by rw [htake]; omega)
          (s.asked K (.peek pid (.data addr)))
        cases hrun'.symm.trans hstore
        cases hbody
        cases hrest
        have hall : (before ++ peekedString K pid (n + 1) addr s.os).take (MAX_BUFFER_SIZE - 1) =
            before ++ (stringBytes word).take (MAX_BUFFER_SIZE - 1 - before.length) := by
          rw [hsplit, List.take_append, List.take_of_length_le hlength,
            List.take_append_of_le_length]
          omega
        rw [hall]
        refine ⟨?_, Starts.append hbefore hbefore' hchunk⟩
        rw [List.length_append, htake]
      · rw [if_neg hlast] at hbody
        obtain ⟨_, s₃, hstore, hbody⟩ := bind_eq_ok.mp hbody
        obtain ⟨f, hrun', hbefore', hchunk, -⟩ := storeChunk_eq before.length (stringBytes word)
          (by omega) (s.asked K (.peek pid (.data addr)))
        cases hrun'.symm.trans hstore
        have hstarts : Starts f (before ++ stringBytes word) :=
          Starts.append hbefore hbefore' hchunk
        by_cases hfull : (stringBytes word).length = 8
        · -- no NUL yet
          rw [if_pos hfull] at hbody
          cases hbody
          rw [hpeeked, if_pos hfull, ← List.append_assoc]
          rw [hfull] at hrest
          have hlen : before.length + 8 = (before ++ stringBytes word).length := by
            rw [List.length_append, hfull]
          rw [hlen] at hrest
          exact ih (s := { s.asked K (.peek pid (.data addr)) with buffer := f }) _
            (by omega) hstarts hrest
        · rw [if_neg hfull] at hbody
          cases hbody
          cases hrest
          -- the NUL lies in this word, and the string ends with its chunk
          rw [hpeeked, if_neg hfull, List.take_of_length_le (by rw [List.length_append]; omega)]
          exact ⟨(List.length_append ..).symm, hstarts⟩

/-- The buffer holds the peeked string when `read_child_c_string` returns it. -/
theorem readChildCString_spells {addr : Word} {s s' : Tracer W}
    (h : readChildCString K addr pid s = .ok .buffer s') :
    Spells s'.buffer ((peekedString K pid 128 addr s.os).take (MAX_BUFFER_SIZE - 1)) := by
  obtain ⟨answer, s₁, hloop, h⟩ := bind_eq_ok.mp h
  cases answer with
  | none => cases h
  | some length =>
    obtain ⟨hlength, hstarts⟩ := readLoop_starts 128 [] (Nat.zero_le _)
      (fun i hi => absurd hi (Nat.not_lt_zero i)) hloop
    rw [List.nil_append] at hlength hstarts
    obtain ⟨_, s₂, hstore, h⟩ := bind_eq_ok.mp h
    cases h
    have hroom : length < MAX_BUFFER_SIZE := by
      rw [hlength, List.length_take]
      show min 1023 _ < 1024
      omega
    unfold storeBuffer at hstore
    rw [if_pos hroom] at hstore
    cases hstore
    constructor
    · intro i hi
      rw [← hstarts i hi]
      exact Function.update_of_ne (by omega) _ _
    · rw [← hlength]
      exact Function.update_self ..

/-- What `strcmp` says of a string that was read: whether it is the string that was peeked. -/
theorem strcmpEq_peeked {addr : Word} {s s' : Tracer W} {literal : List Byte}
    (h : readChildCString K addr pid s = .ok .buffer s')
    (hliteral : literal.length < MAX_BUFFER_SIZE - 1) :
    (strcmpEq .buffer literal : TracerM W Bool) s' =
      .ok (peekedString K pid 128 addr s.os = literal) s' := by
  have hspells := readChildCString_spells h
  have hstring : stringFrom s'.buffer 0 MAX_BUFFER_SIZE =
      (peekedString K pid 128 addr s.os).take (MAX_BUFFER_SIZE - 1) := by
    refine stringFrom_of_spells hspells (fun i hi => ?_) ?_
    · rw [List.getElem_take]
      exact peekedString_ne_zero K pid 128 addr s.os _ (List.getElem_mem _)
    · rw [List.length_take]
      show min 1023 _ < 1024
      omega
  -- a literal is shorter than the buffer, so the cut does not matter
  have hcut : (peekedString K pid 128 addr s.os).take (MAX_BUFFER_SIZE - 1) = literal ↔
      peekedString K pid 128 addr s.os = literal := by
    by_cases hfits : (peekedString K pid 128 addr s.os).length ≤ MAX_BUFFER_SIZE - 1
    · rw [List.take_of_length_le hfits]
    · constructor
      · intro heq
        rw [← heq, List.length_take] at hliteral
        omega
      · intro heq
        rw [heq] at hfits
        omega
  show EStateM.Result.ok (decide (stringFrom s'.buffer 0 MAX_BUFFER_SIZE = literal)) s' = _
  rw [hstring]
  simp only [hcut]

/-- The path of an open call, as it is peeked, is one of the random devices. -/
def NamesDevice (K : Kernel W) (pid : PidT) (regs : UserRegsStruct) (w : W) : Prop :=
  peekedString K pid 128 (rArg2 regs) w = devRandom ∨
    peekedString K pid 128 (rArg2 regs) w = devUrandom

instance (K : Kernel W) (pid : PidT) (regs : UserRegsStruct) (w : W) :
    Decidable (NamesDevice K pid regs w) :=
  inferInstanceAs (Decidable (_ ∨ _))

/-- An open call of another path is looked at only. -/
theorem redirectDevRandom_passes {R : Tracer W → Tracer W → Prop} [IsPreorder (Tracer W) R]
    (h : Looks K R pid) {regs : UserRegsStruct} {s : Tracer W}
    (hpath : ¬NamesDevice K pid regs s.os) :
    R s (finalState (redirectDevRandom K pid regs s)) := by
  have hread := h.within_readChildCString (rArg2 regs) s
  obtain ⟨hrandom, hurandom⟩ := not_or.mp hpath
  rw [redirectDevRandom]
  cases hrun : readChildCString K (rArg2 regs) pid s with
  | error e s₁ =>
    rw [hrun] at hread
    rw [bind_apply_error hrun]
    exact hread
  | ok str s₁ =>
    rw [hrun] at hread
    rw [bind_apply_ok hrun]
    cases str with
    | null => exact hread
    | buffer =>
      rw [bind_apply_ok (strcmpEq_peeked hrun (by decide)),
        bind_apply_ok (strcmpEq_peeked hrun (by decide))]
      simp only [hrandom, hurandom, decide_false, Bool.or_false, Bool.false_eq_true, if_false]
      exact hread

/-- An open call of a random device lets the kernel carry the call out. -/
theorem redirectDevRandom_eq_ok {regs : UserRegsStruct} (hpath : NamesDevice K pid regs s.os)
    (hrun : redirectDevRandom K pid regs s = .ok () s') :
    ∃ regs', (readChildCString K (rArg2 regs) pid >>= fun _ => childContinueSyscall K pid
      regs >>= fun regs =>
      childReturns K pid regs stdinFileno) s = .ok regs' s' := by
  obtain ⟨str, s₁, hread, hrun⟩ := bind_eq_ok.mp hrun
  cases str with
  | null => cases hrun
  | buffer =>
    have hdevice : (decide (peekedString K pid 128 (rArg2 regs) s.os = devRandom) ||
        decide (peekedString K pid 128 (rArg2 regs) s.os = devUrandom)) = true := by
      simpa [NamesDevice] using hpath
    rw [bind_apply_ok (strcmpEq_peeked hread (by decide)),
      bind_apply_ok (strcmpEq_peeked hread (by decide)), if_pos hdevice] at hrun
    obtain ⟨regs₁, s₂, hcontinue, hrun⟩ := bind_eq_ok.mp hrun
    obtain ⟨regs', s₃, hreturns, hrun⟩ := bind_eq_ok.mp hrun
    cases hrun
    exact ⟨regs', bind_eq_ok.mpr ⟨_, s₁, hread, bind_eq_ok.mpr ⟨_, s₂, hcontinue, hreturns⟩⟩⟩

end Reproduce
