import Reproduce.Linux.Equiv.Copy
import Reproduce.Linux.Equiv.Path

/-!
# Which arguments end the tracer

In an attended environment nothing goes wrong but through the arguments of the call itself.
`Hook.ArgsOk` says, for each hook, which registers and which memory the handler gets along with, and
`handleSyscall_served_iff` that it serves the tracee exactly on those: on all others the tracer
exits or dereferences a null pointer.
-/

namespace Reproduce

open Bytes

/-- The registers and the memory with which a handler gets to its end; `heap` is the largest block
that `malloc` grants.  What is readable and writable is what `PTRACE_PEEKDATA` and
`PTRACE_POKEDATA` accept.  All open calls read the path at their second argument. -/
def Hook.ArgsOk (regs : UserRegsStruct) (m : Memory) (heap : Nat) : Hook → Prop
  | .getrandom =>
    (rArg2 regs ≠ 0 → (rArg2 regs).toNat ≤ PTRDIFF_MAX ∧ (rArg2 regs).toNat ≤ heap) ∧
      m.Accepts (rArg1 regs) (rArg2 regs).toNat
  | .gettimeofday => m.Accepts (rArg1 regs) sizeofTimespec.toNat
  | .time => rArg1 regs ≠ 0 → m.Accepts (rArg1 regs) sizeofTimespec.toNat
  | .clockGettime => m.Accepts (rArg2 regs) sizeofTimespec.toNat
  | .openat | .open | .openat2 => PathReadable m (rArg2 regs) 128

instance (regs : UserRegsStruct) (m : Memory) (heap : Nat) : (hook : Hook) →
    Decidable (hook.ArgsOk regs m heap)
  | .getrandom => inferInstanceAs (Decidable ((_ → _ ∧ _) ∧ m.Accepts _ _))
  | .gettimeofday => inferInstanceAs (Decidable (m.Accepts _ _))
  | .time => inferInstanceAs (Decidable (_ → m.Accepts _ _))
  | .clockGettime => inferInstanceAs (Decidable (m.Accepts _ _))
  | .openat | .open | .openat2 => decidablePathReadable m _ 128

/-- Where an emulated call writes. -/
def Hook.dest (regs : UserRegsStruct) : Hook → Word
  | .clockGettime => rArg2 regs
  | _ => rArg1 regs

/-- What an emulated call writes for a process with this clock. -/
def Hook.output (regs : UserRegsStruct) (clock : Timespec) : Hook → List Byte
  | .getrandom => List.replicate (rArg2 regs).toNat 0x22
  | .gettimeofday => clock.bytes
  | .time => if rArg1 regs = 0 then [] else clock.advance.bytes
  | .clockGettime => clock.bytes
  | _ => []

end Reproduce

namespace Reproduce.Linux

open Bytes Effect

variable {env : Env} {pid : PidT} {table : List ChildProcess} {heap : Nat} {t : Task} {m : Memory}

/-! ### Going on to the end of the call -/

/-- A task in an ordinary system call is stepped to its exit stop. -/
theorem triple_waitpidOrExit (henv : Attends env pid t.mm) {fresh : Bool}
    (hstate : t.state = .kernel fresh) (hcreation : isCreation t.regs.origRax = false)
    (hexecve : isExecve t.regs.origRax = false) (E : Halt → Tracer World → Prop) :
    Triple (Tracked pid table heap t m) (waitpidOrExit (kernel env) pid)
      (fun status s => terminated status = false ∧ ∃ regs,
        Tracked pid table heap
          { t.finish regs with state := .stopped .syscallExit true } m s) E := by
  intro s hs
  obtain ⟨regs, hmem⟩ := henv.finishes s.os.tick
  obtain ⟨regs', hheld⟩ := held_finish hstate hcreation hexecve
    (henv.spares s.os.tick (.wait (some pid))) hs.held hmem
  obtain ⟨hrun, hos⟩ := waitpidOrExit_of_finish hheld.task
  rw [hrun]
  refine ⟨terminated_stopStatus _ _, regs', ?_, hs.table, ?_⟩
  · rw [hos]
    exact ⟨Function.update_self .., hheld.mem, hheld.fresh⟩
  · rw [hos]
    exact (heap_asked env s.os _).trans hs.heap

theorem triple_resumeAndWait (henv : Attends env pid t.mm) {reported : Bool}
    (hstate : t.state = .stopped .syscallEntry reported)
    (hcreation : isCreation t.regs.origRax = false) (hexecve : isExecve t.regs.origRax = false)
    (E : Halt → Tracer World → Prop) :
    Triple (Tracked pid table heap t m) (resumeAndWait (kernel env) pid)
      (fun _ s => ∃ regs, Tracked pid table heap
        { (t.resume .syscallEntry 0).finish regs with state := .stopped .syscallExit true } m s)
      E := by
  refine Triple.bind (triple_resume henv.spared hstate E) fun more => ?_
  refine Triple.ite (fun _ => ?_) (fun hmore => Triple.pure fun s hs => absurd hs.1 hmore)
  have hwait : Triple (Tracked pid table heap (t.resume .syscallEntry 0) m) _ _ _ :=
    triple_waitpidOrExit (t := t.resume .syscallEntry 0) henv rfl hcreation hexecve E
  refine Triple.bind (hwait.conseq (fun s hs => hs.2) (fun _ _ hs => hs) (fun _ _ he => he))
    fun status => ?_
  refine Triple.ite (fun hterminated => Triple.throw fun s hs => ?_)
    (fun _ => Triple.pure fun s hs => hs.2)
  rw [hs.1] at hterminated
  cases hterminated

theorem triple_childCancelSyscall (henv : Attends env pid t.mm)
    (hstate : t.state = .stopped .syscallEntry true) (regs : UserRegsStruct)
    (E : Halt → Tracer World → Prop) :
    Triple (Tracked pid table heap t m) (childCancelSyscall (kernel env) pid regs)
      (fun regs' s => regs' = { regs with origRax := -1 } ∧
        Tracked pid table heap (t.skipped { regs with origRax := -1 }) m s) E := by
  have hstop : t.isStopped = true := by simp [Task.isStopped, hstate]
  refine Triple.bind (triple_setregs henv.spared hstop _ E) fun more => ?_
  refine Triple.ite (fun _ => ?_) (fun hmore => Triple.pure fun s hs => absurd hs.1 hmore)
  have hskip : isCreation (-1) = false ∧ isExecve (-1) = false := by decide
  have hresume : Triple (Tracked pid table heap { t with regs := { regs with origRax := -1 } } m)
      _ _ _ :=
    triple_resumeAndWait (t := { t with regs := { regs with origRax := -1 } }) henv hstate hskip.1
      hskip.2 E
  refine Triple.bind (hresume.conseq (fun s hs => hs.2) (fun _ _ hs => hs) (fun _ _ he => he))
    fun _ => Triple.pure ?_
  rintro s ⟨regs', hs⟩
  exact ⟨rfl, hs⟩

theorem triple_childContinueSyscall (henv : Attends env pid t.mm) {reported : Bool}
    (hstate : t.state = .stopped .syscallEntry reported)
    (hcreation : isCreation t.regs.origRax = false) (hexecve : isExecve t.regs.origRax = false)
    (regs : UserRegsStruct) (E : Halt → Tracer World → Prop) :
    Triple (Tracked pid table heap t m) (childContinueSyscall (kernel env) pid regs)
      (fun regs' s => regs' = regs ∧ ∃ exitRegs, Tracked pid table heap
        { (t.resume .syscallEntry 0).finish exitRegs with state := .stopped .syscallExit true } m s)
      E :=
  Triple.bind (triple_resumeAndWait henv hstate hcreation hexecve E) fun _ =>
    Triple.pure fun _ hs => ⟨rfl, hs⟩

theorem triple_childReturns (henv : Attends env pid t.mm) (hstop : t.isStopped = true)
    (regs : UserRegsStruct) (data : Word) (E : Halt → Tracer World → Prop) :
    Triple (Tracked pid table heap t m) (childReturns (kernel env) pid regs data)
      (fun _ => Tracked pid table heap { t with regs := wReturn regs data } m) E :=
  Triple.bind (triple_setregs henv.spared hstop _ E) fun _ => Triple.pure fun _ hs => hs.2

/-! ### The entry of the caller and the allocator -/

variable {c : ChildProcess} {child : Ptr}

theorem triple_deref (hc : blockAt table child = some c) (E : Halt → Tracer World → Prop) :
    Triple (Tracked pid table heap t m) (deref child)
      (fun c' s => c' = c ∧ Tracked pid table heap t m s) E := by
  intro s hs
  unfold deref
  rw [hs.table, hc]
  exact ⟨rfl, hs⟩

theorem triple_setClock (hc : blockAt table child = some c) (clock : Timespec)
    (E : Halt → Tracer World → Prop) :
    Triple (Tracked pid table heap t m) (setClock child clock)
      (fun _ => Tracked pid (retime child (fun _ => clock) table) heap t m) E := by
  refine Triple.bind (triple_deref hc E) fun _ s hs => ?_
  obtain ⟨-, hs⟩ := hs
  refine ⟨hs.held, ?_, hs.heap⟩
  rw [← hs.table]
  rfl

theorem triple_malloc (size : Nat) (E : Halt → Tracer World → Prop) :
    Triple (Tracked pid table heap t m) (malloc (kernel env) size)
      (fun granted s => (granted = true ↔ size ≤ PTRDIFF_MAX ∧ size ≤ heap) ∧
        Tracked pid table heap t m s) E := by
  intro s hs
  by_cases hlarge : PTRDIFF_MAX < size
  · rw [malloc_large _ s hlarge]
    refine ⟨⟨nofun, fun h => absurd hlarge (Nat.not_lt.mpr h.1)⟩, hs.held, hs.table, hs.heap⟩
  · rw [malloc_small _ s (Nat.not_lt.mp hlarge)]
    refine ⟨?_, hs.held, hs.table, hs.heap⟩
    show decide (size ≤ s.os.heap) = true ↔ _
    rw [decide_eq_true_iff, hs.heap]
    exact ⟨fun h => ⟨Nat.not_lt.mp hlarge, h⟩, fun h => h.2⟩

/-- The tracee of an open call: the kernel has yet to make the call, or it was made and its result
was replaced by the descriptor of standard input. -/
def Redirected (t t' : Task) (regs : UserRegsStruct) : Prop :=
  t' = t ∨ (t'.stop? = some .syscallExit ∧ t'.regs = wReturn regs stdinFileno)

/-- The path that is compared: one of the two devices. -/
def IsDevice (m : Memory) (addr : Word) : Prop :=
  cString m addr = devRandom ∨ cString m addr = devUrandom

/-- What the decision about a path leaves. -/
structure Decided (m : Memory) (regs : UserRegsStruct) (t t' : Task) : Prop where
  /-- The call was made and its result replaced. -/
  device : IsDevice m (rArg2 regs) →
    t'.stop? = some .syscallExit ∧ t'.regs = wReturn regs stdinFileno
  other : ¬IsDevice m (rArg2 regs) → t' = t

theorem Decided.redirected {regs : UserRegsStruct} {t' : Task} (h : Decided m regs t t') :
    Redirected t t' regs := by
  by_cases hdevice : IsDevice m (rArg2 regs)
  · exact .inr (h.device hdevice)
  · exact .inl (h.other hdevice)

theorem triple_strcmpEq (str literal : List Byte) (hstr : ∀ i, (hi : i < str.length) → str[i] ≠ 0)
    (hlen : str.length < MAX_BUFFER_SIZE) (E : Halt → Tracer World → Prop) :
    Triple (fun s => Tracked pid table heap t m s ∧ Spells s.buffer str)
      (strcmpEq .buffer literal)
      (fun r s => r = decide (str = literal) ∧ Tracked pid table heap t m s ∧ Spells s.buffer str)
      E := by
  rintro s ⟨hs, hspells⟩
  refine ⟨?_, hs, hspells⟩
  rw [stringFrom_of_spells hspells hstr hlen]

theorem triple_redirectDevRandom (henv : Attends env pid t.mm)
    (hstate : t.state = .stopped .syscallEntry true) (hcreation : isCreation t.regs.origRax = false)
    (hexecve : isExecve t.regs.origRax = false) (regs : UserRegsStruct) :
    Triple (Tracked pid table heap t m) (redirectDevRandom (kernel env) pid regs)
      (fun _ s => PathReadable m (rArg2 regs) 128 ∧
        ∃ t', Decided m regs t t' ∧ Tracked pid table heap t' m s)
      (fun _ _ => ¬PathReadable m (rArg2 regs) 128) := by
  have hstop : t.isStopped = true := by simp [Task.isStopped, hstate]
  have hcompare := fun literal =>
    @triple_strcmpEq pid table heap t m (cString m (rArg2 regs)) literal
    (cString_ne_zero m _) (length_cString_lt m _) fun _ _ => ¬PathReadable m (rArg2 regs) 128
  refine Triple.bind (triple_readChildCString henv.spared hstop _) fun str => ?_
  rintro s ⟨rfl, hpath, hs⟩
  refine Triple.bind (hcompare devRandom) (fun isRandom => ?_) s hs
  rintro s ⟨hrandom, hs⟩
  refine Triple.bind (hcompare devUrandom) (fun isUrandom => ?_) s hs
  rintro s ⟨hurandom, hs, -⟩
  -- the two `strcmp`s decide whether the path names a device
  have hdecision : (isRandom || isUrandom) = true ↔ IsDevice m (rArg2 regs) := by
    rw [hrandom, hurandom, Bool.or_eq_true, decide_eq_true_iff, decide_eq_true_iff, IsDevice]
  refine Triple.ite (fun hdevice => ?_) (fun hother => Triple.pure fun s hs => ?_) s hs
  · -- the open is carried out, and its result is replaced by stdin
    refine Triple.bind (triple_childContinueSyscall henv hstate hcreation hexecve regs _)
      fun regs' => ?_
    rintro s ⟨rfl, exitRegs, hs⟩
    refine Triple.bind (triple_childReturns (by rw [mm_finish]; exact henv) rfl _ _ _)
      (fun _ => Triple.pure fun s hs => ⟨hpath, _, ⟨fun _ => ⟨rfl, rfl⟩, fun hno => ?_⟩, hs⟩) s hs
    exact absurd (hdecision.mp hdevice) hno
  · -- another path: the kernel is left to make the call
    exact ⟨hpath, t, ⟨fun hdevice => absurd (hdecision.mpr hdevice) hother, fun _ => rfl⟩, hs⟩

/-! ### The emulated calls -/

/-- A copy into the tracee at the exit stop of its cancelled call. -/
theorem triple_replaceBuf_skipped (henv : Attends env pid t.mm) (regs : UserRegsStruct)
    {src : List Byte} {len : Word} (hfits : Fits src len) (dest : Word) {ok : Prop}
    (hok : ok → m.Accepts dest len.toNat) :
    Triple (Tracked pid table heap (t.skipped regs) m) (replaceBuf (kernel env) pid src dest len)
      (fun _ s => m.Accepts dest len.toNat ∧
        Tracked pid table heap (t.skipped regs) (m.overwrite dest src) s)
      (fun _ _ => ¬ok) := by
  obtain ⟨hstop, hinitial⟩ := stopped_skipped t regs
  refine (triple_replaceBuf (t := t.skipped regs) henv.spared hstop hinitial hfits dest).conseq
    (fun s hs => hs) (fun _ _ hs => hs) ?_
  rintro _ _ ⟨-, hrefused⟩ hargs
  exact hrefused (hok hargs)

/-- The result of a cancelled call. -/
theorem triple_childReturns_skipped (henv : Attends env pid t.mm) (regs : UserRegsStruct)
    (data : Word) (E : Halt → Tracer World → Prop) :
    Triple (Tracked pid table heap (t.skipped { regs with origRax := -1 }) m)
      (childReturns (kernel env) pid { regs with origRax := -1 } data)
      (fun _ => Tracked pid table heap (t.emulated regs data) m) E :=
  triple_childReturns (t := t.skipped { regs with origRax := -1 }) henv rfl _ _ _

theorem triple_hookGetrandom (henv : Attends env pid t.mm)
    (hstate : t.state = .stopped .syscallEntry true) (regs : UserRegsStruct) :
    Triple (Tracked pid table heap t m) (hookGetrandom (kernel env) pid regs)
      (fun _ s => Hook.ArgsOk regs m heap .getrandom ∧
        Tracked pid table heap (t.emulated regs (rArg2 regs))
          (m.overwrite (rArg1 regs) (List.replicate (rArg2 regs).toNat 0x22)) s)
      (fun _ _ => ¬Hook.ArgsOk regs m heap .getrandom) := by
  refine Triple.bind (triple_childCancelSyscall henv hstate regs _) fun regs' => ?_
  rintro s ⟨rfl, hs⟩
  refine Triple.bind (triple_malloc _ _) (fun testdata => ?_) s hs
  rintro s ⟨hgranted, hs⟩
  refine Triple.ite (fun hnull => Triple.throw fun _ _ hargs => ?_) (fun hblock => ?_) s hs
  · -- `malloc` refuses a length other than zero
    simp only [Bool.and_eq_true, Bool.not_eq_true', decide_eq_true_eq] at hnull
    have := hgranted.mpr (hargs.1 hnull.2)
    rw [hnull.1] at this
    cases this
  · -- a null block is let through for the length zero only
    have hsize : rArg2 regs ≠ 0 →
        (rArg2 regs).toNat ≤ PTRDIFF_MAX ∧ (rArg2 regs).toNat ≤ heap := by
      intro hne
      refine hgranted.mp ?_
      cases testdata with
      | true => rfl
      | false => exact absurd (by simpa using hne) hblock
    have hsmall : (rArg2 regs).toNat ≤ PTRDIFF_MAX := by
      by_cases hzero : rArg2 regs = 0
      · rw [hzero]
        exact Nat.zero_le _
      · exact (hsize hzero).1
    have hfits : Fits (List.replicate (rArg2 regs).toNat 0x22) (rArg2 regs) :=
      ⟨List.length_replicate, hsmall⟩
    refine Triple.bind (triple_replaceBuf_skipped henv _ hfits (rArg1 regs) (fun hargs => hargs.2))
      fun _ => ?_
    rintro s ⟨haccepts, hs⟩
    exact Triple.bind (triple_childReturns_skipped henv regs _ _)
      (fun _ => Triple.pure fun s hs => ⟨⟨hsize, haccepts⟩, hs⟩) s hs

theorem triple_writeAndAdvance (henv : Attends env pid t.mm)
    (hstate : t.state = .stopped .syscallEntry true) (hc : blockAt table child = some c)
    (regs : UserRegsStruct) (addr : Word) :
    Triple (Tracked pid table heap t m) (writeAndAdvance (kernel env) child pid regs addr)
      (fun _ s => m.Accepts addr sizeofTimespec.toNat ∧
        Tracked pid (retime child (fun _ => c.gettimeData.advance) table) heap (t.emulated regs 0)
          (m.overwrite addr c.gettimeData.bytes) s)
      (fun _ _ => ¬m.Accepts addr sizeofTimespec.toNat) := by
  refine Triple.bind (triple_childCancelSyscall henv hstate regs _) fun regs' => ?_
  rintro s ⟨rfl, hs⟩
  refine Triple.bind (triple_deref hc _) (fun c₁ => ?_) s hs
  rintro s ⟨rfl, hs⟩
  refine Triple.bind (triple_replaceBuf_skipped henv _ (fits_bytes _) addr id) (fun _ => ?_) s hs
  rintro s ⟨haccepts, hs⟩
  refine Triple.bind (triple_deref hc _) (fun c₂ => ?_) s hs
  rintro s ⟨rfl, hs⟩
  refine Triple.bind (triple_setClock hc _ _) (fun _ => ?_) s hs
  exact Triple.bind (triple_childReturns_skipped henv regs _ _) fun _ =>
    Triple.pure fun s hs => ⟨haccepts, hs⟩

theorem triple_hookTime (henv : Attends env pid t.mm)
    (hstate : t.state = .stopped .syscallEntry true) (hc : blockAt table child = some c)
    (regs : UserRegsStruct) :
    Triple (Tracked pid table heap t m) (hookTime (kernel env) child pid regs)
      (fun _ s => Hook.ArgsOk regs m heap .time ∧
        Tracked pid (retime child (fun _ => c.gettimeData.advance) table) heap
          (t.emulated regs c.gettimeData.advance.tvSec)
          (m.overwrite (rArg1 regs) (Hook.output regs c.gettimeData .time)) s)
      (fun _ _ => ¬Hook.ArgsOk regs m heap .time) := by
  -- the clock is advanced before it is read, so the entry holds the new time from here on
  have hc' : blockAt (retime child (fun _ => c.gettimeData.advance) table) child =
      some { c with gettimeData := c.gettimeData.advance } := by
    rw [blockAt_retime, hc, Option.map_some, if_pos (blockAt_eq_some hc).2]
  refine Triple.bind (triple_childCancelSyscall henv hstate regs _) fun regs' => ?_
  rintro s ⟨rfl, hs⟩
  refine Triple.bind (triple_deref hc _) (fun c₁ => ?_) s hs
  rintro s ⟨rfl, hs⟩
  refine Triple.bind (triple_setClock hc _ _) (fun _ => ?_) s hs
  -- the write is left out where `time` is called with a null pointer
  have hwrite : Triple (Tracked pid (retime child (fun _ => c₁.gettimeData.advance) table) heap
      (t.skipped { regs with origRax := -1 }) m) (writeTime (kernel env) child pid (rArg1 regs))
      (fun _ s => Hook.ArgsOk regs m heap .time ∧
        Tracked pid (retime child (fun _ => c₁.gettimeData.advance) table) heap
          (t.skipped { regs with origRax := -1 })
          (m.overwrite (rArg1 regs) (Hook.output regs c₁.gettimeData .time)) s)
      (fun _ _ => ¬Hook.ArgsOk regs m heap .time) := by
    refine Triple.ite (fun hne => ?_) (fun hnull => Triple.pure fun s hs => ?_)
    · refine Triple.bind (triple_deref hc' _) fun c₂ => ?_
      rintro s ⟨rfl, hs⟩
      refine (triple_replaceBuf_skipped henv _ (fits_bytes _) (rArg1 regs)
        (fun hargs => hargs hne)).conseq (fun s hs => hs) (fun _ s hs => ?_) (fun _ _ he => he) s hs
      refine ⟨fun _ => hs.1, ?_⟩
      rw [Hook.output, if_neg hne]
      exact hs.2
    · refine ⟨fun hne => absurd hne hnull, ?_⟩
      rw [Hook.output, if_pos (not_not.mp hnull), Memory.overwrite_nil]
      exact hs
  refine Triple.bind hwrite fun _ => ?_
  rintro s ⟨hargs, hs⟩
  refine Triple.bind (triple_deref hc' _) (fun c₂ => ?_) s hs
  rintro s ⟨rfl, hs⟩
  exact Triple.bind (triple_childReturns_skipped henv regs _ _)
    (fun _ => Triple.pure fun s hs => ⟨hargs, hs⟩) s hs

/-- An emulated call is carried out in full exactly on good arguments. -/
theorem triple_runHook_emulated (henv : Attends env pid t.mm)
    (hstate : t.state = .stopped .syscallEntry true) (hc : blockAt table child = some c)
    (hone : ∀ f, retime child (fun _ => f c.gettimeData) table = retime child f table)
    (regs : UserRegsStruct) {hook : Hook} (hemulated : hook.emulated = true) :
    Triple (Tracked pid table heap t m) (runHook (kernel env) child pid regs (some hook))
      (fun _ s => hook.ArgsOk regs m heap ∧
        Tracked pid (retime child hook.clock table) heap
          (t.emulated regs (hook.result regs c.gettimeData))
          (m.overwrite (hook.dest regs) (hook.output regs c.gettimeData)) s)
      (fun _ _ => ¬hook.ArgsOk regs m heap) := by
  have hadvance := hone Timespec.advance
  -- `getrandom` leaves the clock alone; the three clock calls advance it once
  match hook with
  | .getrandom =>
    show Triple _ _ (fun _ s => _ ∧ Tracked pid (retime child id table) heap _ _ s) _
    rw [retime_id]
    exact triple_hookGetrandom henv hstate regs
  | .gettimeofday => exact hadvance ▸ triple_writeAndAdvance henv hstate hc regs _
  | .time => exact hadvance ▸ triple_hookTime henv hstate hc regs
  | .clockGettime => exact hadvance ▸ triple_writeAndAdvance henv hstate hc regs _

/-! ### All hooks -/

/-- The tracee when its handler has returned: an emulated call has its result, an open call was
redirected or is still to be made by the kernel. -/
def Answered (clock : Timespec) (t t' : Task) (hook : Hook) : Prop :=
  if hook.emulated then t' = t.emulated t.regs (hook.result t.regs clock)
  else Redirected t t' t.regs

theorem triple_runHook (henv : Attends env pid t.mm)
    (hstate : t.state = .stopped .syscallEntry true) (hc : blockAt table child = some c)
    (hone : ∀ f, retime child (fun _ => f c.gettimeData) table = retime child f table) {hook : Hook}
    (hhook : hookOf t.regs.origRax = some hook) :
    Triple (Tracked pid table heap t m) (runHook (kernel env) child pid t.regs (some hook))
      (fun _ s => hook.ArgsOk t.regs m heap ∧
        ∃ t', Answered c.gettimeData t t' hook ∧ s.os.task pid = some t')
      (fun _ _ => ¬hook.ArgsOk t.regs m heap) := by
  cases hemulated : hook.emulated with
  | true =>
    refine (triple_runHook_emulated henv hstate hc hone t.regs hemulated).conseq (fun s hs => hs)
      (fun _ s hs => ⟨hs.1, _, ?_, hs.2.held.task⟩) (fun _ _ he => he)
    rw [Answered, if_pos hemulated]
  | false =>
    -- the open calls all run `redirect_dev_random`
    obtain ⟨hcreation, hexecve⟩ := ordinary_of_hookOf hhook
    have hopen : Triple (Tracked pid table heap t m) _ _ _ :=
      triple_redirectDevRandom henv hstate hcreation hexecve t.regs
    have hanswered : Triple (Tracked pid table heap t m)
        (redirectDevRandom (kernel env) pid t.regs)
        (fun _ s => PathReadable m (rArg2 t.regs) 128 ∧
          ∃ t', Answered c.gettimeData t t' hook ∧ s.os.task pid = some t')
        (fun _ _ => ¬PathReadable m (rArg2 t.regs) 128) := by
      refine hopen.conseq (fun s hs => hs) ?_ (fun _ _ he => he)
      rintro _ s ⟨hpath, t', hdecided, hs⟩
      refine ⟨hpath, t', ?_, hs.held.task⟩
      rw [Answered, if_neg (by simp [hemulated])]
      exact hdecided.redirected
    match hook with
    | .openat | .open | .openat2 => exact hanswered

/-- The handler returns to the event loop and the tracee is answered. -/
def Served (env : Env) (c : ChildProcess) (t : Task) (hook : Hook) (s : Tracer World) : Prop :=
  ∃ s', handleSyscall (kernel env) c.addr t.regs s = .ok () s' ∧
    ∃ t', s'.os.task c.pid = some t' ∧ Answered c.gettimeData t t' hook

/-- A tracee that is left alone is served exactly when the handler gets along with its arguments. -/
theorem handleSyscall_served_iff {s : Tracer World} (henv : Attends env c.pid t.mm)
    (hok : TableOk s) (hc : c ∈ s.processTable) (hheld : Held c.pid t m s.os)
    (hstate : t.state = .stopped .syscallEntry true) {hook : Hook}
    (hhook : hookOf t.regs.origRax = some hook) :
    Served env c t hook s ↔ hook.ArgsOk t.regs m s.os.heap := by
  have hblock := hok.blockAt_of_mem hc
  have hrun : handleSyscall (kernel env) c.addr t.regs s = _ := handleSyscall_eq (kernel env) hblock
  rw [hhook] at hrun
  have htracked : Tracked c.pid s.processTable s.os.heap t m
      (s.noted (.handleSyscall c.addr t.regs)) :=
    ⟨hheld, rfl, rfl⟩
  have hend := triple_runHook henv hstate hblock (hok.retime_const hc) hhook _ htracked
  rw [← hrun] at hend
  -- the handler returns only on good arguments, and stops the tracer only on bad ones
  cases hfinal : handleSyscall (kernel env) c.addr t.regs s with
  | ok _ s' =>
    rw [hfinal] at hend
    obtain ⟨hargs, t', hanswered, ht'⟩ := hend
    exact ⟨fun _ => hargs, fun _ => ⟨s', hfinal, t', ht', hanswered⟩⟩
  | error e s' =>
    rw [hfinal] at hend
    refine ⟨?_, fun hargs => absurd hargs hend⟩
    rintro ⟨s'', hreturns, -⟩
    rw [hfinal] at hreturns
    cases hreturns

/-! ### Two bad arguments -/

theorem attends_finishing (pid : PidT) : Attends (finishing pid) pid 0 where
  spares n q move hmove := by
    cases q with
    | ptrace r => cases hmove
    | wait target =>
      cases List.mem_singleton.mp hmove
      trivial
  finishes n := ⟨default, List.mem_singleton.mpr rfl⟩

theorem held_atEntry (b : Boot) (regs : UserRegsStruct) :
    Held b.childPid (b.entryTask regs) b.memory (b.atEntry regs).os :=
  ⟨Function.update_self .., rfl, Nat.zero_lt_one⟩

theorem clockGettimeCall_served_iff :
    Served (finishing 100) ⟨0, 100, initialClock⟩
      (Boot.sample.entryTask clockGettimeCall) .clockGettime
        (Boot.sample.atEntry clockGettimeCall) ↔
      Hook.ArgsOk clockGettimeCall Boot.sample.memory 4096 .clockGettime :=
  handleSyscall_served_iff (attends_finishing 100) (tableOk_atEntry _ _)
    (List.mem_singleton.mpr rfl) (held_atEntry Boot.sample _) rfl rfl

/-- The first page is not mapped. -/
def Boot.unmappedPage : Boot :=
  { Boot.sample with memory := ⟨fun _ => 0, fun a => 4096 ≤ a, fun a => 4096 ≤ a⟩ }

def gettimeofdayCall : UserRegsStruct :=
  { (default : UserRegsStruct) with origRax := NR_gettimeofday }

/-- `open(path, O_RDONLY)`; the flags are the second argument. -/
def openCall : UserRegsStruct := { (default : UserRegsStruct) with origRax := NR_open, rdi := 4096 }

/-- `gettimeofday` with a null pointer ends the tracer, and so does a plain `open` for reading. -/
theorem not_served_null :
    (Attends (finishing 100) 100 0 ∧
      ¬Served (finishing 100) ⟨0, 100, initialClock⟩ (Boot.unmappedPage.entryTask gettimeofdayCall)
        .gettimeofday (Boot.unmappedPage.atEntry gettimeofdayCall)) ∧
    ¬Served (finishing 100) ⟨0, 100, initialClock⟩ (Boot.unmappedPage.entryTask openCall) .open
      (Boot.unmappedPage.atEntry openCall) := by
  refine ⟨⟨attends_finishing 100, ?_⟩, ?_⟩
  · rintro ⟨s', hrun, -⟩
    cases hrun
  · rintro ⟨s', hrun, -⟩
    cases hrun

end Reproduce.Linux
