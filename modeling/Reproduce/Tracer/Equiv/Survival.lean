import Reproduce.Linux.Run
import Reproduce.Tracer.Equiv.Table

/-!
# When `handle_syscall` returns to the event loop

A tracee can die at any request or wait of a handler.  Most of the code takes an `ESRCH` for this
and carries on, but a wait that reports the death ends the tracer, and so does an `ESRCH` while a
path is read, by `strcmp` on `NULL`.  `Fatal` lists these answers together with the failures that
have nothing to do with a death, and `handleSyscall_returnsToLoop_iff` says that a handler returns
exactly when it is given none of them.

The proof is one pass over the helpers.  `Clean` holds as long as no fatal answer was given and
`Doomed` once one was: every helper leads from `Clean` to `Clean`, or stops and is `Doomed`.
-/

namespace Reproduce

open Bytes Effect

variable {W : Type} (K : Kernel W)

/-- The answers that end the tracer.  `opens` is set in the open calls, which take every failing
`PEEK` for a string that could not be read. -/
def Fatal (opens : Bool) : Event W → Prop
  | .ptrace (.peek _ _) (.ok (val : Word)) => opens = true ∧ val = -1
  | .ptrace (.peek _ _) (.error e) => opens = true ∨ e ≠ .ESRCH
  | .ptrace _ (.error e) => e ≠ .ESRCH
  | .wait _ (some (.ok (_, status))) => terminated status = true
  | .wait _ _ => True
  | .malloc size granted => granted = false ∧ size ≠ 0
  | _ => False

/-- No fatal answer was given since the trace was `t₀`, and the entry is in the table. -/
structure Clean (opens : Bool) (t₀ : List (Event W)) (child : Ptr) (s : Tracer W) : Prop where
  tracked : (blockAt s.processTable child).isSome
  clean : ∃ new, s.trace = new ++ t₀ ∧ ∀ e ∈ new, ¬Fatal opens e

/-- A fatal answer was given since the trace was `t₀`. -/
def Doomed (opens : Bool) (t₀ : List (Event W)) (s : Tracer W) : Prop :=
  ∃ new, s.trace = new ++ t₀ ∧ ∃ e ∈ new, Fatal opens e

variable {opens : Bool} {t₀ : List (Event W)} {child : Ptr}

theorem Clean.of_event {s s' : Tracer W} {e : Event W} (h : Clean opens t₀ child s)
    (htable : s'.processTable = s.processTable) (htrace : s'.trace = e :: s.trace)
    (he : ¬Fatal opens e) : Clean opens t₀ child s' := by
  obtain ⟨new, hnew, hclean⟩ := h.clean
  refine ⟨htable ▸ h.tracked, e :: new, by rw [htrace, hnew, List.cons_append], fun e' he' => ?_⟩
  rcases List.mem_cons.mp he' with rfl | he'
  · exact he
  · exact hclean e' he'

theorem Clean.doomed {s s' : Tracer W} {e : Event W} (h : Clean opens t₀ child s)
    (htrace : s'.trace = e :: s.trace) (he : Fatal opens e) : Doomed opens t₀ s' := by
  obtain ⟨new, hnew, -⟩ := h.clean
  exact ⟨e :: new, by rw [htrace, hnew, List.cons_append], e, List.mem_cons_self, he⟩

/-- `m` stays clean, or stops after a fatal answer. -/
abbrev Survives (opens : Bool) (t₀ : List (Event W)) (child : Ptr) {α : Type}
    (m : TracerM W α) : Prop :=
  Triple (Clean opens t₀ child) m (fun _ => Clean opens t₀ child) (fun _ => Doomed opens t₀)

theorem Survives.pure {α : Type} (a : α) : Survives opens t₀ child (Pure.pure a : TracerM W α) :=
  Triple.pure fun _ h => h

/-! ### Requests and waits -/

theorem survives_ptraceReturn {r : Request} (hr : ∀ pid place, r ≠ .peek pid place) :
    Survives opens t₀ child (ptraceReturn K r) := by
  refine Triple.bind (triple_ptrace K r _ _) fun answer => ?_
  cases answer with
  | ok reply =>
    refine Triple.pure ?_
    rintro _ ⟨s, hs, hanswer, rfl⟩
    refine hs.of_event rfl rfl ?_
    rw [hanswer]
    cases r with
    | peek pid place => exact absurd rfl (hr pid place)
    | _ => exact id
  | error e =>
    -- an error other than `ESRCH` is fatal, and `ptrace_return` exits on it
    have hfatal : Fatal opens (W := W) (.ptrace r (.error e)) ↔ e ≠ .ESRCH := by
      cases r with
      | peek pid place => exact absurd rfl (hr pid place)
      | _ => exact Iff.rfl
    refine Triple.ite (fun he => Triple.pure ?_) (fun he => Triple.throw ?_)
    · rintro _ ⟨s, hs, hanswer, rfl⟩
      refine hs.of_event rfl rfl ?_
      rw [hanswer, hfatal]
      exact fun h => h he
    · rintro _ ⟨s, hs, hanswer, rfl⟩
      refine hs.doomed rfl ?_
      rw [hanswer, hfatal]
      exact he

/-- A wait that returns is clean unless it reports a death. -/
theorem triple_waitpidOrExit (pid : PidT) :
    Triple (Clean opens t₀ child) (waitpidOrExit K pid)
      (fun status s => if terminated status then Doomed opens t₀ s else Clean opens t₀ child s)
      (fun _ => Doomed opens t₀) := by
  refine Triple.bind (Q := fun answer s => ∃ s₀, Clean opens t₀ child s₀ ∧
    (K.waitpid (some pid) s₀.os).1 = some answer ∧ s = s₀.waited K (some pid)) ?_ fun answer => ?_
  · intro s hs
    rw [waitpid_apply]
    cases hanswer : (K.waitpid (some pid) s.os).1 with
    | none => exact hs.doomed rfl (by rw [hanswer]; trivial)
    | some answer => exact ⟨s, hs, hanswer, rfl⟩
  · -- an error exits; a death is fatal for the callers, which look at the status
    match answer with
    | .error e =>
      refine Triple.throw ?_
      rintro _ ⟨s, hs, hanswer, rfl⟩
      exact hs.doomed rfl (by rw [hanswer]; trivial)
    | .ok (p, status) =>
      refine Triple.pure ?_
      rintro _ ⟨s, hs, hanswer, rfl⟩
      split
      · next h => exact hs.doomed rfl (by rw [hanswer]; exact h)
      · next h => exact hs.of_event rfl rfl (by rw [hanswer]; exact h)

theorem survives_resumeAndWait (pid : PidT) :
    Survives opens t₀ child (resumeAndWait K pid) := by
  refine Triple.bind (survives_ptraceReturn K nofun) fun more => ?_
  refine Triple.ite (fun _ => ?_) (fun _ => Survives.pure _)
  refine Triple.bind (triple_waitpidOrExit K pid) fun status => ?_
  refine Triple.ite (fun h => Triple.throw fun s hs => ?_) (fun h => Triple.pure fun s hs => ?_)
  · rwa [if_pos h] at hs
  · rwa [if_neg h] at hs

theorem survives_childCancelSyscall (pid : PidT) (regs : UserRegsStruct) :
    Survives opens t₀ child (childCancelSyscall K pid regs) := by
  refine Triple.bind (survives_ptraceReturn K nofun) fun more => ?_
  refine Triple.ite (fun _ => ?_) (fun _ => Survives.pure _)
  exact Triple.bind (survives_resumeAndWait K pid) fun _ => Survives.pure _

theorem survives_childReturns (pid : PidT) (regs : UserRegsStruct) (data : Word) :
    Survives opens t₀ child (childReturns K pid regs data) :=
  Triple.bind (survives_ptraceReturn K nofun) fun _ => Survives.pure _

/-! ### Copying a buffer -/

variable {src : List Byte} {len : Word}

/-- The bounds that make the copy loop end and keep its reads inside the buffer. -/
structure Fits (src : List Byte) (len : Word) : Prop where
  length : src.length = len.toNat
  small : len.toNat ≤ PTRDIFF_MAX

theorem toNat_add_eight {i : Word} (h : i.toNat ≤ PTRDIFF_MAX) : (i + 8).toNat = i.toNat + 8 := by
  have hbound : i.toNat + 8 < 2 ^ 64 := by
    unfold PTRDIFF_MAX at h
    omega
  rw [BitVec.toNat_add]
  exact Nat.mod_eq_of_lt hbound

theorem survives_srcWord {i : Nat} (h : i + 8 ≤ src.length) :
    Survives opens t₀ child (srcWord src i : TracerM W Word) := by
  unfold srcWord
  rw [if_pos h]
  exact Survives.pure _

theorem survives_pokeWord (hfits : Fits src len) (pid : PidT) (dest i : Word)
    (hi : i.toNat ≤ len.toNat) :
    Triple (Clean opens t₀ child) (pokeWord K pid src dest len i)
      (fun r s => r.elim
        (fun i' => (Clean opens t₀ child s ∧ i'.toNat ≤ len.toNat) ∧
          (len.toNat - i'.toNat) / 8 < (len.toNat - i.toNat) / 8)
        (fun _ => Clean opens t₀ child s)) (fun _ => Doomed opens t₀) := by
  have hadd := toNat_add_eight (i := i) (hi.trans hfits.small)
  refine Triple.ite (fun hle => ?_) (fun _ => Triple.pure fun s hs => hs)
  have hle' : i.toNat + 8 ≤ len.toNat := hadd ▸ BitVec.le_def.mp hle
  refine Triple.bind (survives_srcWord (by rw [hfits.length]; exact hle')) fun word => ?_
  refine Triple.bind (survives_ptraceReturn K nofun) fun more => ?_
  refine Triple.ite (fun _ => ?_) (fun _ => Triple.pure fun s hs => hs)
  refine Triple.pure fun s hs => ⟨⟨hs, ?_⟩, ?_⟩
  · rw [hadd]
    exact hle'
  · rw [hadd]
    omega

theorem survives_pokeTail (hfits : Fits src len) (pid : PidT) (dest i : Word) :
    Survives false t₀ child (pokeTail K pid src dest len i) := by
  refine Triple.bind (triple_ptrace K _ _ _) fun answer => ?_
  cases answer with
  | error e =>
    refine Triple.ite (fun he => Triple.pure ?_) (fun he => Triple.throw ?_)
    · rintro _ ⟨s, hs, hanswer, rfl⟩
      refine hs.of_event rfl rfl ?_
      rw [hanswer]
      rintro (h | h)
      · exact nomatch h
      · exact h he
    · rintro _ ⟨s, hs, hanswer, rfl⟩
      exact hs.doomed rfl (by rw [hanswer]; exact .inr he)
  | ok word =>
    -- outside an open call a word of all ones is a word like any other
    have hclean : ∀ s, (∃ s₀, Clean false t₀ child s₀ ∧
        (K.ptrace (.peek pid (.data (dest + i))) s₀.os).1 = .ok word ∧
        s = s₀.asked K (.peek pid (.data (dest + i)))) → Clean false t₀ child s := by
      rintro _ ⟨s, hs, hanswer, rfl⟩
      refine hs.of_event rfl rfl ?_
      rw [hanswer]
      exact fun h => nomatch h.1
    refine Triple.conseq ?_ hclean (fun _ _ hs => hs) (fun _ _ hs => hs)
    refine Triple.bind (Q := fun _ => Clean false t₀ child) ?_ fun word' => ?_
    · unfold tailWord
      rw [if_pos (le_of_eq hfits.length.symm)]
      exact Survives.pure _
    · exact Triple.bind (survives_ptraceReturn K nofun) fun _ => Survives.pure _

theorem survives_replaceBuf (hfits : Fits src len) (pid : PidT) (dest : Word) :
    Survives false t₀ child (replaceBuf K pid src dest len) := by
  -- the index stays within the length, and what is left shrinks by a word in each iteration
  have hloop : Triple (Clean false t₀ child)
      (loop .outOfFuel (pokeWord K pid src dest len) (len.toNat / 8 + 1) 0)
      (fun _ => Clean false t₀ child) (fun _ => Doomed false t₀) := by
    refine Triple.conseq (Triple.loop_variant
      (I := fun i s => Clean false t₀ child s ∧ i.toNat ≤ len.toNat)
      (fun i => (len.toNat - i.toNat) / 8) (fun i s hs => ?_) _ 0 ?_) ?_
      (fun _ _ hs => hs) (fun _ _ hs => hs)
    · exact survives_pokeWord K hfits pid dest i hs.2 s hs.1
    · exact Nat.lt_succ_of_le (Nat.div_le_div_right (Nat.sub_le _ _))
    · exact fun s hs => ⟨hs, Nat.zero_le _⟩
  refine Triple.bind hloop fun answer => ?_
  cases answer with
  | none => exact Survives.pure _
  | some i =>
    exact Triple.ite (fun _ => survives_pokeTail K hfits pid dest i) (fun _ => Survives.pure _)

/-! ### Reading a path -/

theorem survives_storeBuffer {i : Nat} (hi : i < MAX_BUFFER_SIZE) (b : Byte) :
    Survives opens t₀ child (storeBuffer i b : TracerM W Unit) := by
  intro s hs
  unfold storeBuffer
  rw [if_pos hi]
  exact ⟨hs.tracked, hs.clean⟩

theorem survives_storeChunk (bs : List Byte) {length : Nat}
    (h : length + bs.length ≤ MAX_BUFFER_SIZE) :
    Survives opens t₀ child (storeChunk length bs : TracerM W Unit) := by
  induction bs generalizing length with
  | nil => exact Survives.pure _
  | cons b bs ih =>
    rw [List.length_cons] at h
    exact Triple.bind (survives_storeBuffer (by omega) b) fun _ => ih (by omega)

/-- In an open call a `PEEK` that gives no word is fatal. -/
theorem triple_peekReturn (pid : PidT) (place : Peek) :
    Triple (Clean true t₀ child) (peekReturn K pid place)
      (fun val s => match val with
        | none => Doomed true t₀ s
        | some _ => Clean true t₀ child s) (fun _ => Doomed true t₀) := by
  refine Triple.bind (triple_ptrace K _ _ _) fun answer => ?_
  cases answer with
  | error e =>
    have hdoomed : ∀ s, (∃ s₀, Clean true t₀ child s₀ ∧
        (K.ptrace (.peek pid place) s₀.os).1 = .error e ∧ s = s₀.asked K (.peek pid place)) →
        Doomed true t₀ s := by
      rintro _ ⟨s, hs, hanswer, rfl⟩
      exact hs.doomed rfl (by rw [hanswer]; exact .inl rfl)
    exact Triple.ite (fun _ => Triple.pure hdoomed) (fun _ => Triple.throw hdoomed)
  | ok val =>
    refine Triple.ite (fun hval => Triple.throw ?_) (fun hval => Triple.pure ?_)
    · rintro _ ⟨s, hs, hanswer, rfl⟩
      exact hs.doomed rfl (by rw [hanswer]; exact ⟨rfl, hval⟩)
    · rintro _ ⟨s, hs, hanswer, rfl⟩
      exact hs.of_event rfl rfl (by rw [hanswer]; exact fun h => hval h.2)

/-- An iteration that continues has stored eight bytes. -/
theorem triple_readChunk (pid : PidT) (st : Word × Nat) (hst : st.2 < MAX_BUFFER_SIZE) :
    Triple (Clean true t₀ child) (readChunk K pid st)
      (fun r s => r.elim
        (fun st' => (Clean true t₀ child s ∧ st'.2 < MAX_BUFFER_SIZE) ∧
          (MAX_BUFFER_SIZE - 1 - st'.2) / 8 < (MAX_BUFFER_SIZE - 1 - st.2) / 8)
        (fun length => match length with
          | none => Doomed true t₀ s
          | some length => Clean true t₀ child s ∧ length < MAX_BUFFER_SIZE))
      (fun _ => Doomed true t₀) := by
  obtain ⟨raddr, length⟩ := st
  refine Triple.ite (fun hlt => ?_) (fun _ => Triple.pure fun s hs => ⟨hs, hst⟩)
  refine Triple.bind (triple_peekReturn K pid _) fun val => ?_
  cases val with
  | none => exact Triple.pure fun s hs => hs
  | some word =>
    refine Triple.ite (fun hge => ?_) (fun hfits => ?_)
    · -- the clamped chunk ends the loop with the buffer full
      refine Triple.bind (survives_storeChunk _ ?_) fun _ => Triple.pure fun s hs => ⟨hs, ?_⟩
      · rw [List.length_take]
        omega
      · unfold MAX_BUFFER_SIZE at *
        omega
    · refine Triple.bind (survives_storeChunk _ (by omega)) fun _ => ?_
      refine Triple.ite (fun hfull => ?_) (fun _ => ?_)
      · refine Triple.pure fun s hs => ⟨⟨hs, ?_⟩, ?_⟩
        · show length + _ < _
          omega
        · show (_ - (length + _)) / 8 < (_ - length) / 8
          unfold MAX_BUFFER_SIZE at *
          omega
      · exact Triple.pure fun s hs => ⟨hs, by omega⟩

/-- A path is `NULL` only after a fatal answer. -/
def PathRead (t₀ : List (Event W)) (child : Ptr) : CharPtr → Tracer W → Prop
  | .null, s => Doomed true t₀ s
  | .buffer, s => Clean true t₀ child s

theorem triple_readChildCString (raddr : Word) (pid : PidT) :
    Triple (Clean true t₀ child) (readChildCString K raddr pid) (PathRead t₀ child)
      (fun _ => Doomed true t₀) := by
  have hloop : Triple (fun s => Clean true t₀ child s ∧ 0 < MAX_BUFFER_SIZE)
      (loop .outOfFuel (readChunk K pid) 128 (raddr, 0)) _ _ :=
    Triple.loop_variant (I := fun st s => Clean true t₀ child s ∧ st.2 < MAX_BUFFER_SIZE)
      (fun st => (MAX_BUFFER_SIZE - 1 - st.2) / 8)
      (fun st s hs => triple_readChunk K pid st hs.2 s hs.1) 128 (raddr, 0)
      (by show (MAX_BUFFER_SIZE - 1 - 0) / 8 < 128; decide)
  refine Triple.bind (hloop.conseq (fun s hs => ⟨hs, Nat.zero_lt_succ _⟩) (fun _ _ hs => hs)
    (fun _ _ hs => hs)) fun length => ?_
  cases length with
  | none => exact Triple.pure fun s hs => hs
  | some length =>
    rintro s ⟨hs, hlength⟩
    refine Triple.bind (survives_storeBuffer hlength 0) (fun _ => ?_) s hs
    exact Triple.pure fun s hs => hs

theorem triple_strcmpEq (str : CharPtr) (literal : List Byte) :
    Triple (PathRead t₀ child str) (strcmpEq str literal : TracerM W Bool)
      (fun _ s => str = .buffer ∧ Clean true t₀ child s) (fun _ => Doomed true t₀) := by
  intro s hs
  cases str with
  | null => exact hs
  | buffer => exact ⟨rfl, hs⟩

theorem survives_redirectDevRandom (pid : PidT) (regs : UserRegsStruct) :
    Survives true t₀ child (redirectDevRandom K pid regs) := by
  refine Triple.bind (triple_readChildCString K _ pid) fun str => ?_
  refine Triple.bind (triple_strcmpEq str devRandom) fun isRandom => ?_
  have hclean : Triple (fun s => str = .buffer ∧ Clean true t₀ child s)
      (strcmpEq str devUrandom : TracerM W Bool) (fun _ => Clean true t₀ child)
      (fun _ => Doomed true t₀) := by
    rintro s ⟨rfl, hs⟩
    exact hs
  refine Triple.bind hclean fun isUrandom => ?_
  refine Triple.ite (fun _ => ?_) (fun _ => Survives.pure _)
  refine Triple.bind (Triple.bind (survives_resumeAndWait K pid) fun _ => Survives.pure _)
    fun regs' => ?_
  exact Triple.bind (survives_childReturns K pid _ _) fun _ => Survives.pure _

/-! ### The emulated calls -/

theorem survives_deref : Survives opens t₀ child (deref child : TracerM W ChildProcess) := by
  intro s hs
  obtain ⟨c, hc⟩ := Option.isSome_iff_exists.mp hs.tracked
  unfold deref
  rw [hc]
  exact hs

theorem survives_setClock (t : Timespec) :
    Survives opens t₀ child (setClock child t : TracerM W Unit) := by
  refine Triple.bind survives_deref fun _ s hs => ⟨?_, hs.clean⟩
  show (blockAt (retime child (fun _ => t) s.processTable) child).isSome
  rw [blockAt_retime, Option.isSome_map]
  exact hs.tracked

/-- A block that is refused is fatal unless it is empty, and one that is granted is not
too large. -/
theorem triple_malloc (size : Nat) :
    Triple (Clean opens t₀ child) (malloc K size)
      (fun granted s => if granted = false ∧ size ≠ 0 then Doomed opens t₀ s
        else Clean opens t₀ child s ∧ size ≤ PTRDIFF_MAX) (fun _ => Doomed opens t₀) := by
  intro s hs
  by_cases hlarge : PTRDIFF_MAX < size
  · have hne : size ≠ 0 := Nat.ne_zero_of_lt hlarge
    rw [malloc_large K s hlarge]
    dsimp only
    rw [if_pos ⟨rfl, hne⟩]
    exact hs.doomed rfl ⟨rfl, hne⟩
  · rw [malloc_small K s (Nat.not_lt.mp hlarge)]
    dsimp only
    split
    · next h => exact hs.doomed rfl h
    · next h => exact ⟨hs.of_event rfl rfl h, Nat.not_lt.mp hlarge⟩

theorem survives_hookGetrandom (pid : PidT) (regs : UserRegsStruct) :
    Survives false t₀ child (hookGetrandom K pid regs) := by
  refine Triple.bind (survives_childCancelSyscall K pid regs) fun regs' => ?_
  refine Triple.bind (triple_malloc K _) fun testdata => ?_
  refine Triple.ite (fun h => Triple.throw fun s hs => ?_) (fun h s hs => ?_)
  · rw [if_pos] at hs
    · exact hs
    · simpa [← BitVec.toNat_inj] using h
  · rw [if_neg] at hs
    · refine Triple.bind (survives_replaceBuf K ⟨?_, hs.2⟩ pid _) (fun _ => ?_) s hs.1
      · exact List.length_replicate
      · exact Triple.bind (survives_childReturns K pid _ _) fun _ => Survives.pure _
    · simpa [← BitVec.toNat_inj] using h

theorem fits_bytes (t : Timespec) : Fits t.bytes sizeofTimespec where
  length := by simp [Timespec.bytes, sizeofTimespec]
  small := by decide

theorem survives_writeAndAdvance (pid : PidT) (regs : UserRegsStruct) (addr : Word) :
    Survives false t₀ child (writeAndAdvance K child pid regs addr) := by
  refine Triple.bind (survives_childCancelSyscall K pid regs) fun regs' => ?_
  refine Triple.bind survives_deref fun c => ?_
  refine Triple.bind (survives_replaceBuf K (fits_bytes _) pid addr) fun _ => ?_
  refine Triple.bind survives_deref fun c' => ?_
  refine Triple.bind (survives_setClock _) fun _ => ?_
  exact Triple.bind (survives_childReturns K pid _ _) fun _ => Survives.pure _

theorem survives_hookTime (pid : PidT) (regs : UserRegsStruct) :
    Survives false t₀ child (hookTime K child pid regs) := by
  refine Triple.bind (survives_childCancelSyscall K pid regs) fun regs' => ?_
  refine Triple.bind survives_deref fun c => ?_
  refine Triple.bind (survives_setClock _) fun _ => ?_
  have hwrite : Survives false t₀ child (writeTime K child pid (rArg1 regs)) :=
    Triple.ite (fun _ => Triple.bind survives_deref fun c =>
      survives_replaceBuf K (fits_bytes _) pid _) (fun _ => Survives.pure _)
  refine Triple.bind hwrite fun _ => ?_
  refine Triple.bind survives_deref fun c' => ?_
  exact Triple.bind (survives_childReturns K pid _ _) fun _ => Survives.pure _

/-- The hook reads a path. -/
def opensPath (hook : Option Hook) : Bool := hook.any fun h => !h.emulated

theorem survives_runHook (pid : PidT) (regs : UserRegsStruct) (hook : Option Hook) :
    Survives (opensPath hook) t₀ child (runHook K child pid regs hook) := by
  match hook with
  | some .getrandom => exact survives_hookGetrandom K pid regs
  | some .gettimeofday => exact survives_writeAndAdvance K pid regs _
  | some .time => exact survives_hookTime K pid regs
  | some .clockGettime => exact survives_writeAndAdvance K pid regs _
  | some .openat | some .open | some .openat2 => exact survives_redirectDevRandom K pid regs
  | none => exact Survives.pure _

/-! ### The return to the event loop -/

/-- A handler leaves the entries of all other processes as they are. -/
theorem hashFind_handleSyscall {s : Tracer W} {c : ChildProcess} (hok : TableOk s)
    (hc : c ∈ s.processTable) (regs : UserRegsStruct) {pid : PidT} (hpid : pid ≠ c.pid) :
    hashFind (finalState (handleSyscall K c.addr regs s)).processTable pid =
      hashFind s.processTable pid := by
  obtain ⟨f, hf⟩ := (within_handleSyscall K regs (hok.blockAt_of_mem hc)).1.processTable
  rw [hf, hashFind_retime]
  show (hashFind s.processTable pid).map _ = _
  cases hfind : hashFind s.processTable pid with
  | none => rfl
  | some d =>
    obtain ⟨hd, hdpid⟩ := hashFind_eq_some hfind
    -- the retimed entry is another one, for it lies at another address
    rw [Option.map_some, if_neg]
    intro haddr
    exact hpid (hdpid ▸ congrArg ChildProcess.pid (hok.eq_of_addr hd hc haddr))

/-- `handle_syscall` returns, with every other process's entry unchanged. -/
def ReturnsToLoop (c : ChildProcess) (regs : UserRegsStruct) (s : Tracer W) : Prop :=
  ∃ s', handleSyscall K c.addr regs s = .ok () s' ∧
    ∀ pid ≠ c.pid, hashFind s'.processTable pid = hashFind s.processTable pid

/-- `handle_syscall` returns without a fatal answer, or stops after one. -/
theorem clean_or_doomed {s : Tracer W} {c : ChildProcess}
    (hblock : blockAt s.processTable child = some c) (regs : UserRegsStruct) :
    Triple (fun s' => s' = s) (handleSyscall K child regs)
      (fun _ => Clean (opensPath (hookOf regs.origRax)) s.trace child)
      (fun _ => Doomed (opensPath (hookOf regs.origRax)) s.trace) := by
  rintro s rfl
  have htracked : (blockAt s.processTable child).isSome := by
    rw [hblock]
    rfl
  -- the call is noted before the handler runs
  have hstart : Clean (opensPath (hookOf regs.origRax)) s.trace child
      (s.noted (.handleSyscall child regs)) :=
    ⟨htracked, [_], rfl, fun e he => by rw [List.mem_singleton.mp he]; exact id⟩
  rw [handleSyscall_eq K hblock]
  exact survives_runHook K c.pid regs (hookOf regs.origRax) _ hstart

/-- `handle_syscall` returns to the event loop exactly when it is given no fatal answer. -/
theorem handleSyscall_returnsToLoop_iff {s : Tracer W} {c : ChildProcess} (hok : TableOk s)
    (hc : c ∈ s.processTable) (regs : UserRegsStruct) :
    ReturnsToLoop K c regs s ↔
      Extends (fun e => ¬Fatal (opensPath (hookOf regs.origRax)) e) s
        (finalState (handleSyscall K c.addr regs s)) := by
  have hblock := hok.blockAt_of_mem hc
  have hend := clean_or_doomed K hblock regs s rfl
  have hothers := fun pid (hpid : pid ≠ c.pid) => hashFind_handleSyscall K hok hc regs hpid
  cases hrun : handleSyscall K c.addr regs s with
  | ok _ s' =>
    rw [hrun] at hend hothers
    exact ⟨fun _ => hend.clean, fun _ => ⟨s', hrun, hothers⟩⟩
  | error e s' =>
    rw [hrun] at hend
    obtain ⟨new, hnew, e, he, hfatal⟩ := hend
    constructor
    · rintro ⟨s'', hreturns, -⟩
      rw [hrun] at hreturns
      cases hreturns
    · -- the fatal answer is among the events of the call
      rintro ⟨new', hnew', hclean⟩
      have hsame : new = new' := List.append_cancel_right (hnew.symm.trans hnew')
      exact absurd hfatal (hclean e (hsame ▸ he))

/-! ### Three deaths -/

theorem tableOk_atEntry (b : Linux.Boot) (regs : UserRegsStruct) : TableOk (b.atEntry regs) where
  pids := List.nodup_singleton _
  addrs := List.nodup_singleton _
  fresh := by simp [Linux.Boot.atEntry]
  count := rfl

def getrandomCall : UserRegsStruct := { (default : UserRegsStruct) with origRax := NR_getrandom }

def openatCall : UserRegsStruct := { (default : UserRegsStruct) with origRax := NR_openat }

/-- The sample task at the entry of a call, with a second process in the table. -/
def besideEntry (regs : UserRegsStruct) : Tracer Linux.World :=
  { Linux.Boot.sample.atEntry regs with
    processTable := [⟨1, 101, initialClock⟩, ⟨0, 100, initialClock⟩]
    entryCount := 2
    nextAddr := 2 }

/-- The task is killed when it has come to the end of its cancelled call. -/
def killedAfterwards : Linux.Env :=
  Linux.scripted [(2, ⟨[.finish 100 default], 100⟩), (3, ⟨[.die 100 9], 100⟩)]

/-- The death is an `ESRCH` for the request that sets the result, which is passed over. -/
theorem killedAfterwards_returnsToLoop :
    (∃ regs, Event.ptrace (.setregs 100 regs) (.error .ESRCH) ∈
      (finalState (handleSyscall (Linux.kernel killedAfterwards) 0 getrandomCall
        (besideEntry getrandomCall))).trace) ∧
    ReturnsToLoop (Linux.kernel killedAfterwards) ⟨0, 100, initialClock⟩ getrandomCall
      (besideEntry getrandomCall) := by
  refine ⟨⟨_, .head _⟩, ?_⟩
  have hok : TableOk (besideEntry getrandomCall) := ⟨by decide, by decide, by decide, rfl⟩
  refine (handleSyscall_returnsToLoop_iff _ hok (.tail _ (.head _)) _).mpr
    ⟨[_, _, _, _, _, _], rfl, ?_⟩
  simp only [List.forall_mem_cons]
  exact ⟨fun h => h rfl, fun h => h.2 rfl, Bool.false_ne_true, id, id, id, fun _ h => nomatch h⟩

/-- The answers that a tracee can cause by dying: `ESRCH` to a request, or its termination status
to a wait. -/
def MayDie : Event W → Prop
  | .ptrace _ (.error e) => e = .ESRCH
  | .wait _ answer => ∃ p, answer = some (.ok p)
  | .malloc _ granted => granted = true
  | _ => True

/-- The task is killed before the query with the given number is answered. -/
def killedAt (tick : Nat) : Linux.Env :=
  fun n _ => ⟨if n = tick then [.die 100 9] else [], 100⟩

/-- A tracee that dies in the wait for its cancelled call ends the tracer, and so does one that dies
before its path is read. -/
theorem not_returnsToLoop_killedAt :
    (Extends MayDie (Linux.Boot.sample.atEntry getrandomCall)
        (finalState (handleSyscall (Linux.kernel (killedAt 2)) 0 getrandomCall
          (Linux.Boot.sample.atEntry getrandomCall))) ∧
      ¬ReturnsToLoop (Linux.kernel (killedAt 2)) ⟨0, 100, initialClock⟩ getrandomCall
        (Linux.Boot.sample.atEntry getrandomCall)) ∧
    (Extends MayDie (Linux.Boot.sample.atEntry openatCall)
        (finalState (handleSyscall (Linux.kernel (killedAt 0)) 0 openatCall
          (Linux.Boot.sample.atEntry openatCall))) ∧
      ¬ReturnsToLoop (Linux.kernel (killedAt 0)) ⟨0, 100, initialClock⟩ openatCall
        (Linux.Boot.sample.atEntry openatCall)) := by
  refine ⟨⟨⟨[_, _, _, _], rfl, ?_⟩, ?_⟩, ⟨[_, _], rfl, ?_⟩, ?_⟩
  · simp only [List.forall_mem_cons]
    exact ⟨⟨_, rfl⟩, trivial, trivial, trivial, fun _ h => nomatch h⟩
  · rintro ⟨s', hrun, -⟩
    cases hrun
  · simp only [List.forall_mem_cons]
    exact ⟨rfl, trivial, fun _ h => nomatch h⟩
  · rintro ⟨s', hrun, -⟩
    cases hrun

end Reproduce
