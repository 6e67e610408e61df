import Reproduce.Linux.Equiv.Arguments
import Reproduce.Tracer.Equiv.Clock
import Reproduce.Tracer.Equiv.Parts
import Reproduce.Tracer.Equiv.Phases

/-!
# What the tracer changes in its tracees, and why

Whatever the kernel answers, a tracee is changed for two reasons only.  `remove_vdso` overwrites a
word that it has just read as `AT_SYSINFO_EHDR` (`HidesVdso`).  `handle_syscall` answers a hooked
call: it writes the output of the hook to its destination, where the bytes of the last word that lie
behind the output are put back as they were read just before (`Delivers`), and it sets the registers
it was handed, with the number and the result of the call changed (`Answers`).

Output and result depend on these registers and on one number only: how many calls that read the
clock were handled before on the same entry (`clockCalls`).  Nothing else that the tracer or the
kernel knows, of this process or of others, gets into a tracee.  `Justified` says all this of every
write of a trace; the recorded calls tell which function a write was made in (`lastCall`).
-/

namespace Reproduce

open Bytes Effect

variable {W : Type}

/-! ### Writes that are justified -/

/-- The last recorded call, with the process table at that moment and the trace before it. -/
def lastCall : List (Event W) → Option (Call × List ChildProcess × List (Event W))
  | [] => none
  | .call c table _ :: older => some (c, table, older)
  | _ :: older => lastCall older

/-- `handle_syscall` is at work for this process and on these registers, and `n` calls that read the
clock were handled before on the same entry. -/
def Handling (pid : PidT) (regs : UserRegsStruct) (n : Nat) (older : List (Event W)) : Prop :=
  ∃ child table before c, lastCall older = some (.handleSyscall child regs, table, before) ∧
    blockAt table child = some c ∧ c.pid = pid ∧ clockCalls child before = n

/-- The word at `addr` gets bytes of the output, and behind the output the bytes that the last event
has read there. -/
def Delivers (pid : PidT) (dest : Word) (output : List Byte) (addr data : Word)
    (older : List (Event W)) : Prop :=
  ∃ i : Word, addr = dest + i ∧ i.toNat < output.length ∧ ∀ j < 8,
    if i.toNat + j < output.length then getByte data j = output.getD (i.toNat + j) 0
    else ∃ word : Word, older.head? = some (.ptrace (.peek pid (.data addr)) (.ok word)) ∧
      getByte data j = getByte word j

/-- `remove_vdso` is at work, and replaces the key that the last event has read. -/
def HidesVdso (pid : PidT) (addr data : Word) (older : List (Event W)) : Prop :=
  (∃ table before, lastCall older = some (.removeVdso pid, table, before)) ∧ data = AT_IGNORE ∧
    older.head? = some (.ptrace (.peek pid (.data addr)) (.ok AT_SYSINFO_EHDR))

/-- The registers after a call was cancelled, or let run. -/
def Hook.passed (hook : Hook) (regs : UserRegsStruct) : UserRegsStruct :=
  if hook.emulated then { regs with origRax := -1 } else regs

/-- The registers of a hooked call are set, without a result yet or with the result of the hook. -/
def Answers (regs : UserRegsStruct) (clock : Timespec) (regs' : UserRegsStruct) : Prop :=
  ∃ hook, hookOf (rSyscall regs) = some hook ∧
    (regs' = hook.passed regs ∨ regs' = wReturn (hook.passed regs) (hook.result regs clock))

/-- Every write to a tracee is one of these. -/
def Justified : List (Event W) → Prop
  | [] => True
  | .ptrace (.pokedata pid addr data) _ :: older =>
    (HidesVdso pid addr data older ∨ ∃ regs n hook, Handling pid regs n older ∧
      hookOf (rSyscall regs) = some hook ∧ Delivers pid (hook.dest regs)
        (hook.output regs (initialClock.after n)) addr data older) ∧ Justified older
  | .ptrace (.setregs pid regs') _ :: older =>
    (∃ regs n, Handling pid regs n older ∧ Answers regs (initialClock.after n) regs') ∧
      Justified older
  | _ :: older => Justified older

/-! ### Events that write nothing -/

/-- No write to a tracee. -/
def Reads : Event W → Prop
  | .ptrace (.pokedata ..) _ | .ptrace (.setregs ..) _ => False
  | _ => True

/-- No write to a tracee, and no recorded call. -/
def Inside : Event W → Prop
  | .call .. => False
  | e => Reads e

theorem Inside.reads {e : Event W} (h : Inside e) : Reads e := by
  match e with
  | .ptrace .. | .wait .. | .malloc .. => exact h

theorem Reads.justified_cons {e : Event W} (he : Reads e) (trace : List (Event W)) :
    Justified (e :: trace) ↔ Justified trace := by
  match e with
  | .ptrace (.peek ..) _ | .ptrace (.getregs _) _ | .ptrace (.syscall ..) _
  | .ptrace (.geteventmsg _) _ | .wait .. | .malloc .. | .call .. => exact Iff.rfl

theorem Inside.lastCall_cons {e : Event W} (he : Inside e) (trace : List (Event W)) :
    lastCall (e :: trace) = lastCall trace := by
  match e with
  | .ptrace .. | .wait .. | .malloc .. => rfl

theorem Justified.extended {s s' : Tracer W} (h : Justified s.trace) (hs : Extends Reads s s') :
    Justified s'.trace :=
  hs.keeps (fun _ trace he => (he.justified_cons trace).mpr) h

theorem lastCall_extended {s s' : Tracer W} (hs : Extends Inside s s') :
    lastCall s'.trace = lastCall s.trace :=
  hs.keeps (P := fun trace => lastCall trace = lastCall s.trace)
    (fun _ trace he h => (he.lastCall_cons trace).trans h) rfl

/-- The table is kept, nothing is written to a tracee and nothing is called. -/
def Harmless (s s' : Tracer W) : Prop := TableKept s s' ∧ Extends Inside s s'

instance : IsPreorder (Tracer W) Harmless where
  refl s := ⟨.refl s, Std.Refl.refl s⟩
  trans _ _ _ h h' := ⟨h.1.trans h'.1, IsTrans.trans _ _ _ h.2 h'.2⟩

variable (K : Kernel W)

theorem harmless_ptrace {r : Request} (hr : ∀ answer, Inside (.ptrace r answer : Event W)) :
    Within Harmless (ptrace K r) :=
  fun _ => ⟨⟨rfl, rfl, rfl⟩, extends_one rfl (hr _)⟩

theorem harmless_waitpid (target : WaitTarget) : Within Harmless (waitpid K target) := by
  intro s
  rw [waitpid_apply]
  split <;> exact ⟨⟨rfl, rfl, rfl⟩, extends_one rfl trivial⟩

theorem harmless_malloc (size : Nat) : Within Harmless (malloc K size) := by
  intro s
  unfold malloc
  split <;> exact ⟨⟨rfl, rfl, rfl⟩, extends_one rfl trivial⟩

theorem harmless_looks (pid : PidT) : Looks K Harmless pid where
  peek _ := harmless_ptrace K fun _ => trivial
  buffer _ _ := ⟨⟨rfl, rfl, rfl⟩, [], rfl, List.forall_mem_nil _⟩

theorem harmless_peekReturn (pid : PidT) (place : Peek) :
    Within Harmless (peekReturn K pid place) :=
  fun s => IsTrans.trans _ _ _ ((harmless_looks K pid).peek place s) (peekReturn_from place s)

theorem harmless_resumeAndWait (pid : PidT) : Within Harmless (resumeAndWait K pid) := by
  have hresume : Within Harmless (ptraceReturn K (.syscall pid 0)) :=
    within_ptraceReturn (harmless_ptrace K fun _ => trivial)
  refine Within.bind hresume fun more => Within.ite (fun _ => ?_) (fun _ => Within.pure _)
  refine Within.bind (within_waitpidOrExit (harmless_waitpid K _)) fun status => ?_
  exact Within.ite (fun _ => Within.throw _) (fun _ => Within.pure _)

/-- What holds where the tracer stops. -/
def EndsJustified (_ : Halt) (s : Tracer W) : Prop := Justified s.trace

/-! ### Answering a call -/

/-- `handle_syscall` is at work on an entry that has this clock now, and all writes so far were
justified. -/
structure Serving (c : ChildProcess) (regs : UserRegsStruct) (n : Nat) (clock : Timespec)
    (s : Tracer W) : Prop where
  handling : Handling c.pid regs n s.trace
  entry : blockAt s.processTable c.addr = some { c with gettimeData := clock }
  justified : Justified s.trace

namespace Serving

variable {K} {c : ChildProcess} {regs : UserRegsStruct} {n : Nat} {clock : Timespec} {hook : Hook}
  {src : List Byte} {dest len : Word}

theorem harmless {s s' : Tracer W} (h : Serving c regs n clock s) (hs : Harmless s s') :
    Serving c regs n clock s' where
  handling := by
    rw [Handling, lastCall_extended hs.2]
    exact h.handling
  entry := hs.1.processTable ▸ h.entry
  justified := h.justified.extended (hs.2.mono fun _ he => he.reads)

theorem poked {s : Tracer W} (h : Serving c regs n clock s)
    (hhook : hookOf (rSyscall regs) = some hook) {addr data : Word}
    (hdelivers : Delivers c.pid (hook.dest regs) (hook.output regs (initialClock.after n)) addr data
      s.trace) :
    Serving c regs n clock (s.asked K (.pokedata c.pid addr data)) :=
  ⟨h.handling, h.entry, .inr ⟨regs, n, hook, h.handling, hhook, hdelivers⟩, h.justified⟩

theorem answered {s : Tracer W} (h : Serving c regs n clock s) {regs' : UserRegsStruct}
    (hregs : Answers regs (initialClock.after n) regs') :
    Serving c regs n clock (s.asked K (.setregs c.pid regs')) :=
  ⟨h.handling, h.entry, ⟨regs, n, h.handling, hregs⟩, h.justified⟩

theorem triple_harmless {α : Type} {m : TracerM W α} (h : Within Harmless m) :
    Triple (Serving c regs n clock) m (fun _ => Serving c regs n clock) EndsJustified :=
  Triple.intro (fun _ _ _ hs hm => hs.harmless (h.ok hm))
    (fun _ _ _ hs hm => (hs.harmless (h.error hm)).justified)

theorem triple_deref :
    Triple (Serving c regs n clock) (deref c.addr : TracerM W ChildProcess)
      (fun c' s => c' = { c with gettimeData := clock } ∧ Serving c regs n clock s)
      EndsJustified := by
  intro s hs
  unfold deref
  rw [hs.entry]
  exact ⟨rfl, hs⟩

theorem triple_setClock (clock' : Timespec) :
    Triple (Serving c regs n clock) (setClock c.addr clock' : TracerM W Unit)
      (fun _ => Serving c regs n clock') EndsJustified := by
  refine Triple.bind triple_deref fun _ s hs => ⟨hs.2.handling, ?_, hs.2.justified⟩
  show blockAt (retime c.addr (fun _ => clock') s.processTable) c.addr = _
  rw [blockAt_retime, hs.2.entry, Option.map_some, if_pos rfl]

variable (K)

theorem triple_ptraceReturn {r : Request} {P : Tracer W → Prop}
    (hr : ∀ s, P s → Serving c regs n clock (s.asked K r)) :
    Triple P (ptraceReturn K r) (fun _ => Serving c regs n clock) EndsJustified := by
  refine Triple.bind (Q := fun _ => Serving c regs n clock) hr fun answer => ?_
  cases answer with
  | ok reply => exact Triple.pure fun _ hs => hs
  | error e =>
    refine Triple.ite (fun _ => Triple.pure fun _ hs => hs) (fun _ => ?_)
    exact Triple.throw fun _ hs => hs.justified

/-- What a hook has to write, and where. -/
structure Writes (hook : Hook) (regs : UserRegsStruct) (n : Nat) (src : List Byte)
    (dest len : Word) : Prop where
  hooked : hookOf (rSyscall regs) = some hook
  output : hook.output regs (initialClock.after n) = src
  dest : hook.dest regs = dest
  length : src.length = len.toNat
  small : len.toNat ≤ PTRDIFF_MAX

/-- A whole word of the output. -/
theorem triple_pokeWord (h : Writes hook regs n src dest len) (i : Word) :
    Triple (fun s => Serving c regs n clock s ∧ i ≤ len) (pokeWord K c.pid src dest len i)
      (fun r s => r.elim (fun i => Serving c regs n clock s ∧ i ≤ len)
        fun _ => Serving c regs n clock s) EndsJustified := by
  refine Triple.ite (fun hroom => ?_) (fun _ => Triple.pure fun _ hs => hs.1)
  rintro s ⟨hs, hi⟩
  have hnat := toNat_add_eight (Nat.le_trans hi h.small)
  have hroom' : i.toNat + 8 ≤ len.toNat := hnat ▸ hroom
  have hword : Triple (Serving c regs n clock) (srcWord src i.toNat : TracerM W Word)
      (fun word s => (∀ j < 8, getByte word j = src.getD (i.toNat + j) 0) ∧
        Serving c regs n clock s) EndsJustified := by
    refine Triple.ite (fun _ => Triple.pure fun s hs => ⟨fun j hj => ?_, hs⟩)
      (fun _ => Triple.throw fun _ hs => hs.justified)
    rw [getByte_ofBytes _ hj, List.getD_eq_getElem?_getD, List.getElem?_drop,
      List.getD_eq_getElem?_getD]
  have hpoke : ∀ word, Triple (fun s => (∀ j < 8, getByte word j = src.getD (i.toNat + j) 0) ∧
      Serving c regs n clock s) (ptraceReturn K (.pokedata c.pid (dest + i) word))
      (fun _ => Serving c regs n clock) EndsJustified := by
    refine fun word => triple_ptraceReturn K ?_
    rintro s ⟨hbytes, hs⟩
    refine hs.poked h.hooked ⟨i, by rw [h.dest], ?_, fun j hj => ?_⟩
    · rw [h.output, h.length]
      omega
    · rw [h.output, if_pos (by rw [h.length]; omega)]
      exact hbytes j hj
  refine Triple.bind hword (fun word => Triple.bind (hpoke word) fun more => ?_) s hs
  refine Triple.ite (fun _ => Triple.pure fun _ hs => ⟨hs, hroom⟩) (fun _ => ?_)
  exact Triple.pure fun _ hs => hs

/-- The last word is read, and what lies behind the output is put back. -/
theorem triple_pokeTail (h : Writes hook regs n src dest len) {i : Word} (hi : i < len) :
    Triple (Serving c regs n clock) (pokeTail K c.pid src dest len i)
      (fun _ => Serving c regs n clock) EndsJustified := by
  refine Triple.bind (Q := fun answer s => Serving c regs n clock s ∧
    s.trace.head? = some (.ptrace (.peek c.pid (.data (dest + i))) answer)) ?_ fun answer => ?_
  · intro s hs
    exact ⟨hs.harmless ⟨⟨rfl, rfl, rfl⟩, extends_one rfl trivial⟩, rfl⟩
  cases answer with
  | error e =>
    exact Triple.ite (fun _ => Triple.pure fun _ hs => hs.1)
      (fun _ => Triple.throw fun _ hs => hs.1.justified)
  | ok word =>
    refine Triple.bind (Q := fun word' s => (Serving c regs n clock s ∧
      s.trace.head? = some (.ptrace (.peek c.pid (.data (dest + i))) (.ok word))) ∧
      ∀ j < 8, getByte word' j =
        if i.toNat + j < len.toNat then src.getD (i.toNat + j) 0 else getByte word j) ?_
      fun word' => ?_
    · refine Triple.ite (fun _ => Triple.pure fun s hs => ⟨hs, fun j hj => ?_⟩)
        (fun _ => Triple.throw fun _ hs => hs.1.justified)
      exact getByte_ofBytes _ hj
    · refine Triple.bind (triple_ptraceReturn K ?_) fun _ => Triple.pure fun _ hs => hs
      rintro s ⟨⟨hs, hhead⟩, hbytes⟩
      refine hs.poked h.hooked ⟨i, by rw [h.dest], ?_, fun j hj => ?_⟩
      · rw [h.output, h.length]
        exact hi
      · rw [h.output, h.length]
        have hbyte := hbytes j hj
        split at hbyte
        · next hlt =>
          rw [if_pos hlt]
          exact hbyte
        · next hbehind =>
          rw [if_neg hbehind]
          exact ⟨word, hhead, hbyte⟩

theorem triple_replaceBuf (h : Writes hook regs n src dest len) :
    Triple (Serving c regs n clock) (replaceBuf K c.pid src dest len)
      (fun _ => Serving c regs n clock) EndsJustified := by
  have hloop : Triple (fun s => Serving c regs n clock s ∧ 0 ≤ len)
      (Effect.loop .outOfFuel (pokeWord K c.pid src dest len) (len.toNat / 8 + 1) 0)
      (fun _ => Serving c regs n clock) EndsJustified :=
    Triple.loop (triple_pokeWord K h) (fun _ _ hs => hs.1.justified) (len.toNat / 8 + 1) 0
  refine Triple.bind (hloop.conseq (fun s hs => ⟨hs, Nat.zero_le _⟩) (fun _ _ hs => hs)
    fun _ _ he => he) fun rest => ?_
  cases rest with
  | none => exact Triple.pure fun _ hs => hs
  | some i =>
    refine Triple.ite (fun hi => triple_pokeTail K h hi) (fun _ => ?_)
    exact Triple.pure fun _ hs => hs

/-! ### The handlers -/

/-- The result is set last. -/
theorem triple_childReturns (hhook : hookOf (rSyscall regs) = some hook) {data : Word}
    (hdata : data = hook.result regs (initialClock.after n)) :
    Triple (Serving c regs n clock)
      (childReturns K c.pid (hook.passed regs) data >>= fun _ => pure ())
      (fun _ => Serving c regs n clock) EndsJustified := by
  refine Triple.bind (Q := fun _ => Serving c regs n clock) ?_ fun _ => Triple.pure fun _ hs => hs
  refine Triple.bind (triple_ptraceReturn K fun s hs => ?_) fun _ => Triple.pure fun _ hs => hs
  exact hs.answered ⟨hook, hhook, .inr (by rw [hdata])⟩

/-- An emulated call is cancelled first. -/
theorem triple_cancelled (hhook : hookOf (rSyscall regs) = some hook)
    (hemulated : hook.emulated = true) {rest : UserRegsStruct → TracerM W Unit}
    {Q : Unit → Tracer W → Prop}
    (hrest : Triple (Serving c regs n clock) (rest (hook.passed regs)) Q EndsJustified) :
    Triple (Serving c regs n clock) (childCancelSyscall K c.pid regs >>= rest) Q
      EndsJustified := by
  have hpassed : hook.passed regs = { regs with origRax := -1 } := if_pos hemulated
  have hset : Answers regs (initialClock.after n) { regs with origRax := -1 } :=
    ⟨hook, hhook, .inl hpassed.symm⟩
  have hcancel : Triple (Serving c regs n clock) (childCancelSyscall K c.pid regs)
      (fun _ => Serving c regs n clock) EndsJustified := by
    refine Triple.bind (triple_ptraceReturn K fun s hs => hs.answered hset) fun more => ?_
    refine Triple.ite (fun _ => ?_) (fun _ => Triple.pure fun _ hs => hs)
    refine Triple.bind (triple_harmless (harmless_resumeAndWait K c.pid)) fun _ => ?_
    exact Triple.pure fun _ hs => hs
  refine Triple.bind (hcancel.value (V := fun regs' => regs' = hook.passed regs)
    fun _ _ _ hrun => (childCancelSyscall_eq_ok hrun).trans hpassed.symm) fun regs' => ?_
  rintro s ⟨rfl, hs⟩
  exact hrest s hs

/-- A block that `malloc` granted is not larger than any object can be. -/
theorem triple_hookGetrandom (hhook : hookOf (rSyscall regs) = some .getrandom) :
    Triple (Serving c regs n clock) (hookGetrandom K c.pid regs)
      (fun _ => Serving c regs n clock) EndsJustified := by
  refine triple_cancelled K hhook rfl ?_
  refine Triple.bind ((triple_harmless (harmless_malloc K (rArg2 regs).toNat)).value
    (V := fun granted => granted = true → (rArg2 regs).toNat ≤ PTRDIFF_MAX)
    fun s granted s' hrun => ?_) fun granted => ?_
  · rintro rfl
    by_contra hlarge
    rw [malloc_large K s (Nat.lt_of_not_le hlarge)] at hrun
    cases hrun
  refine Triple.ite (fun _ => Triple.throw fun _ hs => hs.2.justified) (fun hgranted => ?_)
  rintro s ⟨hsmall, hs⟩
  have hlen : (rArg2 regs).toNat ≤ PTRDIFF_MAX := by
    cases granted with
    | true => exact hsmall rfl
    | false =>
      have hzero : rArg2 regs = 0 := by simpa using hgranted
      rw [hzero]
      exact Nat.zero_le _
  have hwrites : Writes .getrandom regs n (List.replicate (rArg2 regs).toNat 0x22) (rArg1 regs)
      (rArg2 regs) := ⟨hhook, rfl, rfl, List.length_replicate, hlen⟩
  refine Triple.bind (triple_replaceBuf K hwrites) (fun _ => ?_) s hs
  exact triple_childReturns K hhook rfl

theorem triple_writeAndAdvance (hhook : hookOf (rSyscall regs) = some hook)
    (hemulated : hook.emulated = true)
    (houtput : ∀ clock, hook.output regs clock = clock.bytes)
    (hresult : ∀ clock, hook.result regs clock = 0) :
    Triple (Serving c regs n (initialClock.after n))
      (writeAndAdvance K c.addr c.pid regs (hook.dest regs))
      (fun _ => Serving c regs n (initialClock.after n).advance) EndsJustified := by
  have hwrites : Writes hook regs n (initialClock.after n).bytes (hook.dest regs)
      sizeofTimespec := ⟨hhook, houtput _, rfl, by simp [Timespec.bytes]; rfl, by decide⟩
  refine triple_cancelled K hhook hemulated ?_
  refine Triple.bind triple_deref fun c₁ => ?_
  rintro s ⟨rfl, hs⟩
  refine Triple.bind (triple_replaceBuf K hwrites) (fun _ => ?_) s hs
  refine Triple.bind triple_deref fun c₂ => ?_
  rintro s ⟨rfl, hs⟩
  refine Triple.bind (triple_setClock _) (fun _ => ?_) s hs
  exact triple_childReturns K hhook (hresult _).symm

theorem triple_hookTime (hhook : hookOf (rSyscall regs) = some .time) :
    Triple (Serving c regs n (initialClock.after n)) (hookTime K c.addr c.pid regs)
      (fun _ => Serving c regs n (initialClock.after n).advance) EndsJustified := by
  refine triple_cancelled K hhook rfl ?_
  refine Triple.bind triple_deref fun c₁ => ?_
  rintro s ⟨rfl, hs⟩
  refine Triple.bind (triple_setClock _) (fun _ => ?_) s hs
  have hwrite : Triple (Serving c regs n (initialClock.after n).advance)
      (writeTime K c.addr c.pid (rArg1 regs))
      (fun _ => Serving c regs n (initialClock.after n).advance) EndsJustified := by
    refine Triple.ite (fun hne => ?_) (fun _ => Triple.pure fun _ hs => hs)
    have hwrites : Writes .time regs n (initialClock.after n).advance.bytes (rArg1 regs)
        sizeofTimespec := ⟨hhook, if_neg hne, rfl, by simp [Timespec.bytes]; rfl, by decide⟩
    refine Triple.bind triple_deref fun c₂ => ?_
    rintro s ⟨rfl, hs⟩
    exact triple_replaceBuf K hwrites s hs
  refine Triple.bind hwrite fun _ => ?_
  refine Triple.bind triple_deref fun c₃ => ?_
  rintro s ⟨rfl, hs⟩
  exact triple_childReturns K hhook rfl s hs

theorem triple_redirectDevRandom (hhook : hookOf (rSyscall regs) = some hook)
    (hopen : hook.emulated = false) :
    Triple (Serving c regs n clock) (redirectDevRandom K c.pid regs)
      (fun _ => Serving c regs n clock) EndsJustified := by
  have hcompare : ∀ str literal, Triple (Serving c regs n clock)
      (strcmpEq str literal : TracerM W Bool) (fun _ => Serving c regs n clock) EndsJustified :=
    fun str literal => triple_harmless (Requests.within_strcmpEq str literal)
  refine Triple.bind (triple_harmless ((harmless_looks K c.pid).within_readChildCString _))
    fun str => ?_
  refine Triple.bind (hcompare str _) fun isRandom => ?_
  refine Triple.bind (hcompare str _) fun isUrandom => ?_
  refine Triple.ite (fun _ => ?_) (fun _ => Triple.pure fun _ hs => hs)
  have hproceed : Triple (Serving c regs n clock) (childContinueSyscall K c.pid regs)
      (fun regs' s => regs' = hook.passed regs ∧ Serving c regs n clock s) EndsJustified := by
    refine Triple.bind (triple_harmless (harmless_resumeAndWait K c.pid)) fun _ => ?_
    refine Triple.pure fun s hs => ⟨?_, hs⟩
    rw [Hook.passed, hopen]
    rfl
  have hresult : stdinFileno = hook.result regs (initialClock.after n) := by
    cases hook
    case openat | «open» | openat2 => rfl
    all_goals cases hopen
  refine Triple.bind hproceed fun regs' => ?_
  rintro s ⟨rfl, hs⟩
  exact triple_childReturns K hhook hresult s hs

/-- Whatever the call is, the process gets what the registers and the number of earlier calls
determine. -/
theorem triple_runHook :
    Triple (Serving c regs n (initialClock.after n))
      (runHook K c.addr c.pid regs (hookOf (rSyscall regs))) (fun _ s => Justified s.trace)
      EndsJustified := by
  have hend : ∀ {m : TracerM W Unit} {clock : Timespec},
      Triple (Serving c regs n (initialClock.after n)) m (fun _ => Serving c regs n clock)
        EndsJustified →
      Triple (Serving c regs n (initialClock.after n)) m (fun _ s => Justified s.trace)
        EndsJustified :=
    fun h => h.conseq (fun _ hs => hs) (fun _ _ hs => hs.justified) fun _ _ he => he
  cases hhook : hookOf (rSyscall regs) with
  | none => exact Triple.pure fun _ hs => hs.justified
  | some hook =>
    cases hook with
    | getrandom => exact hend (triple_hookGetrandom K hhook)
    | gettimeofday =>
      have hwrite := triple_writeAndAdvance (c := c) (n := n) K hhook rfl (fun _ => rfl)
        fun _ => rfl
      exact hend hwrite
    | time => exact hend (triple_hookTime K hhook)
    | clockGettime =>
      have hwrite := triple_writeAndAdvance (c := c) (n := n) K hhook rfl (fun _ => rfl)
        fun _ => rfl
      exact hend hwrite
    | openat | «open» | openat2 => exact hend (triple_redirectDevRandom K hhook rfl)

end Serving

/-! ### Hiding the vDSO -/

/-- `remove_vdso` is at work, and all writes so far were justified. -/
def Hiding (pid : PidT) (s : Tracer W) : Prop :=
  (∃ table before, lastCall s.trace = some (.removeVdso pid, table, before)) ∧ Justified s.trace

/-- The last event has read this word. -/
def JustRead (pid : PidT) (addr val : Word) (s : Tracer W) : Prop :=
  s.trace.head? = some (.ptrace (.peek pid (.data addr)) (.ok val))

namespace Hiding

variable {pid : PidT}

theorem harmless {s s' : Tracer W} (h : Hiding pid s) (hs : Harmless s s') : Hiding pid s' := by
  refine ⟨?_, h.2.extended (hs.2.mono fun _ he => he.reads)⟩
  rw [lastCall_extended hs.2]
  exact h.1

theorem triple_harmless {α : Type} {m : TracerM W α} (h : Within Harmless m) :
    Triple (Hiding pid) m (fun _ => Hiding pid) EndsJustified :=
  Triple.intro (fun _ _ _ hs hm => hs.harmless (h.ok hm))
    (fun _ _ _ hs hm => (hs.harmless (h.error hm)).2)

theorem triple_peekReturn (addr : Word) :
    Triple (Hiding pid) (peekReturn K pid (.data addr))
      (fun read s => Hiding pid s ∧ ∀ val, read = some val → JustRead pid addr val s)
      EndsJustified := by
  refine Triple.bind (Q := fun answer s => Hiding pid s ∧
    s.trace.head? = some (.ptrace (.peek pid (.data addr)) answer)) ?_ fun answer => ?_
  · intro s hs
    exact ⟨hs.harmless ⟨⟨rfl, rfl, rfl⟩, extends_one rfl trivial⟩, rfl⟩
  cases answer with
  | error e =>
    exact Triple.ite (fun _ => Triple.pure fun _ hs => ⟨hs.1, nofun⟩)
      (fun _ => Triple.throw fun _ hs => hs.1.2)
  | ok val =>
    refine Triple.ite (fun _ => Triple.throw fun _ hs => hs.1.2) (fun _ => ?_)
    refine Triple.pure fun s hs => ⟨hs.1, fun val' hval => ?_⟩
    cases hval
    exact hs.2

/-- The word that is compared is always the one that was just read. -/
theorem triple_searchWord (st : Word × Word) :
    Triple (fun s => Hiding pid s ∧ JustRead pid st.1 st.2 s) (searchWord K pid st)
      (fun r s => r.elim (fun st => Hiding pid s ∧ JustRead pid st.1 st.2 s)
        fun _ => Justified s.trace) EndsJustified := by
  obtain ⟨pos, val⟩ := st
  refine Triple.ite (fun _ => Triple.pure fun _ hs => hs.1.2) (fun _ => ?_)
  refine Triple.ite (fun hval => ?_) (fun _ => ?_)
  · refine Triple.bind (Q := fun _ (s : Tracer W) => Justified s.trace) ?_
      fun _ => Triple.pure fun _ hs => hs
    refine Triple.bind (Q := fun _ s => Justified s.trace) ?_ fun answer => ?_
    · rintro s ⟨hs, hread⟩
      cases hval
      exact ⟨.inl ⟨hs.1, rfl, hread⟩, hs.2⟩
    cases answer with
    | ok reply => exact Triple.pure fun _ hs => hs
    | error e =>
      refine Triple.ite (fun _ => Triple.pure fun _ hs => hs) (fun _ => ?_)
      exact Triple.throw fun _ hs => hs
  · refine Triple.bind ((triple_peekReturn K (pos + 16)).conseq (fun _ hs => hs.1)
      (fun _ _ hs => hs) fun _ _ he => he) fun read => ?_
    cases read with
    | none => exact Triple.pure fun _ hs => hs.1.2
    | some val' => exact Triple.pure fun _ hs => ⟨hs.1, hs.2 val' rfl⟩

theorem triple_removeVdso (scan : Nat) :
    Triple (fun s => Justified s.trace) (removeVdso K scan pid) (fun _ s => Justified s.trace)
      EndsJustified := by
  have hskip : ∀ st, Within Harmless (skipWord K pid st) := by
    rintro ⟨pos, zeroCount⟩
    refine Within.ite (fun _ => ?_) (fun _ => Within.pure _)
    refine Within.bind (harmless_peekReturn K pid _) fun read => ?_
    cases read with
    | none => exact Within.pure _
    | some val => exact Within.pure _
  refine Triple.bind (Q := fun _ => Hiding pid) (fun s hs => ⟨⟨_, _, rfl⟩, hs⟩) fun _ => ?_
  refine Triple.bind (triple_harmless (harmless_peekReturn K pid _)) fun rsp => ?_
  cases rsp with
  | none => exact Triple.pure fun _ hs => hs.2
  | some rsp =>
    refine Triple.bind (triple_harmless (Within.loop hskip scan _)) fun pos => ?_
    cases pos with
    | none => exact Triple.pure fun _ hs => hs.2
    | some pos =>
      refine Triple.bind (triple_peekReturn K (pos + 8)) fun read => ?_
      cases read with
      | none => exact Triple.pure fun _ hs => hs.1.2
      | some val =>
        refine Triple.conseq (P := fun s => Hiding pid s ∧ JustRead pid (pos + 8) val s) ?_
          (fun _ hs => ⟨hs.1, hs.2 val rfl⟩) (fun _ _ hs => hs) fun _ _ he => he
        exact Triple.loop (triple_searchWord K) (fun _ _ hs => hs.1.2) scan (pos + 8, val)

end Hiding

/-! ### Every run -/

theorem triple_procInit_justified (scan : Nat) (pid : PidT) :
    Triple (fun s => Justified s.trace) (procInit K scan pid) (fun _ s => Justified s.trace)
      EndsJustified := by
  have hresume : Within Harmless (ptraceReturn K (.syscall pid 0)) :=
    within_ptraceReturn (harmless_ptrace K fun _ => trivial)
  have hkept : Within (Preserves fun s => Justified s.trace) (ptraceReturn K (.syscall pid 0)) :=
    hresume.mono fun _ _ hs h => h.extended (hs.2.mono fun _ he => he.reads)
  refine Triple.bind (Hiding.triple_removeVdso K scan) fun _ => ?_
  refine Triple.bind (hkept.triple fun _ _ hs => hs) fun _ => ?_
  exact Triple.pure fun _ hs => hs

/-- The clock that a handler finds is the initial one, advanced once for each earlier call. -/
theorem triple_handleSyscall_justified (child : Ptr) (regs : UserRegsStruct) :
    Triple (fun s => Timed s ∧ Justified s.trace) (handleSyscall K child regs)
      (fun _ s => Justified s.trace) EndsJustified := by
  rintro s ⟨htimed, hs⟩
  cases hblock : blockAt s.processTable child with
  | none =>
    rw [handleSyscall_stale K hblock]
    exact hs
  | some c =>
    obtain ⟨hc, rfl⟩ := blockAt_eq_some hblock
    have hclock := htimed.clocks c hc
    have hserving : Serving c regs (clockCalls c.addr s.trace)
        (initialClock.after (clockCalls c.addr s.trace))
        (s.noted (.handleSyscall c.addr regs)) := by
      refine ⟨⟨c.addr, s.processTable, s.trace, c, rfl, hblock, rfl, rfl⟩, ?_, hs⟩
      rw [← hclock]
      exact hblock
    rw [handleSyscall_eq K hblock]
    exact Serving.triple_runHook K _ hserving

theorem justified_parts :
    Parts K (fun s => Timed s ∧ Justified s.trace) EndsJustified where
  message _ _ hs := ⟨hs.1.1.asked K _, hs.1.2⟩
  getregs _ _ hs := ⟨hs.1.asked K _, hs.2⟩
  resume _ _ hs := ⟨hs.1.asked K _, hs.2⟩
  wait target s hs := by
    have hwaited : Timed (s.waited K target) ∧ Justified (s.waited K target).trace :=
      ⟨hs.1.waited K target, hs.2⟩
    rw [waitpid_apply]
    cases (K.waitpid target s.os).1 with
    | none => exact hwaited.2
    | some answer => exact hwaited
  insert pid := by
    have hreads : Within (Extends Reads) (insertProcess K pid) :=
      extends_insertProcess K (fun _ _ => trivial) fun _ _ => trivial
    exact Triple.intro
      (fun _ _ _ hs hrun => ⟨hs.1.insertProcess K hrun, hs.2.extended (hreads.ok hrun)⟩)
      (fun _ _ _ hs hrun => hs.2.extended (hreads.error hrun))
  delete pid s hs := by
    rw [deleteProcess_apply]
    refine ⟨hs.1.deleted pid, ?_⟩
    rw [trace_deleted]
    exact hs.2
  init scan pid := Triple.intro
    (fun _ _ _ hs hrun =>
      ⟨hs.1.procInit K hrun, (triple_procInit_justified K scan pid).ok hs.2 hrun⟩)
    (fun _ _ _ hs hrun => (triple_procInit_justified K scan pid).error hs.2 hrun)
  handle child regs := by
    have hhandle := triple_handleSyscall_justified K child regs
    refine Triple.intro (fun s _ s' hs hrun => ⟨?_, hhandle.ok hs hrun⟩)
      (fun _ _ _ hs hrun => hhandle.error hs hrun)
    cases hblock : blockAt s.processTable child with
    | none =>
      rw [handleSyscall_stale K hblock] at hrun
      cases hrun
    | some c =>
      obtain ⟨hc, rfl⟩ := blockAt_eq_some hblock
      exact hs.1.handleSyscall K hc hrun
  stop _ _ hs := hs.2

/-- In every run, whatever the kernel answers, the tracer changes a tracee only to hide its vDSO or
to answer a hooked call, and what it answers depends on the registers of that call and on the number
of earlier calls of the same process that read the clock. -/
theorem traceChild_justified (scan n : Nat) (childPid : PidT) (os : W) :
    Justified (finalState (traceChild K scan n childPid (Tracer.start os))).trace :=
  ((justified_parts K).triple_traceChild scan n childPid).final (fun _ _ hs => hs.2)
    (fun _ _ hs => hs) ⟨Timed.start os, trivial⟩

end Reproduce
