import Reproduce.Linux.Equiv.Delivered

/-!
# The open calls

What `read_child_c_string` returns, when an open call is redirected, and which string is looked at.

The read takes a word of all ones for an error (`readsString_iff`).  Where it completes, the
decision is exact: the two devices are redirected and nothing else is (`redirect_exact`).  The path
is taken from the second argument, which for `open` are the flags (`opens_agree_iff`).
-/

namespace Reproduce

open Bytes

/-- The argument of an open call that holds its path. -/
def Hook.pathArg (regs : UserRegsStruct) : Hook → Word
  | .open => rArg1 regs
  | _ => rArg2 regs

/-- The registers of the open calls on a path; the flags of `open` are its second argument. -/
def openRegs (path flags : Word) : Hook → UserRegsStruct
  | .open => { (default : UserRegsStruct) with origRax := NR_open, rdi := path, rsi := flags }
  | .openat => { (default : UserRegsStruct) with origRax := NR_openat, rsi := path }
  | .openat2 => { (default : UserRegsStruct) with origRax := NR_openat2, rsi := path }
  | _ => default

theorem hookOf_openRegs (path flags : Word) {hook : Hook} (hopen : hook.emulated = false) :
    hookOf (openRegs path flags hook).origRax = some hook := by
  cases hook with
  | openat | «open» | openat2 => rfl
  | getrandom | gettimeofday | time | clockGettime => cases hopen

theorem pathArg_openRegs (path flags : Word) {hook : Hook} (hopen : hook.emulated = false) :
    hook.pathArg (openRegs path flags hook) = path := by
  cases hook with
  | openat | «open» | openat2 => rfl
  | getrandom | gettimeofday | time | clockGettime => cases hopen

end Reproduce

namespace Reproduce.Linux

open Bytes Effect

variable {env : Env} {pid : PidT} {c : ChildProcess} {t : Task} {m : Memory} {hook : Hook}
  {s s' : Tracer World}

/-! ### Every string -/

/-- The read returns, and the buffer holds the string. -/
def ReadsString (env : Env) (pid : PidT) (m : Memory) (raddr : Word) (s : Tracer World) : Prop :=
  ∃ s', readChildCString (kernel env) raddr pid s = .ok .buffer s' ∧
    Spells s'.buffer (cString m raddr)

/-- Where every word that is looked at can be peeked, the string is read unless one of them is all
ones. -/
theorem readsString_iff (henv : Spared env pid t.mm) (hstop : t.isStopped = true)
    (hheld : Held pid t m s.os) {raddr : Word}
    (hpeeks : ∀ k < 128, (∀ j < 8 * k, bytesAt m raddr j ≠ 0) →
      Memory.wordAll m.readable (raddr + BitVec.ofNat 64 (8 * k)) = true) :
    ReadsString env pid m raddr s ↔ ∀ k < 128, (∀ j < 8 * k, bytesAt m raddr j ≠ 0) →
      m.wordAt (raddr + BitVec.ofNat 64 (8 * k)) ≠ -1 := by
  have htracked : Tracked pid s.processTable s.os.heap t m s := ⟨hheld, rfl, rfl⟩
  have hread := triple_readChildCString henv hstop raddr _ htracked
  constructor
  · rintro ⟨s', hrun, -⟩ k hk hlook
    rw [hrun] at hread
    exact (pathReadable_iff.mp hread.2.1 k hk hlook).2
  · intro hones
    have hpath : PathReadable m raddr 128 :=
      pathReadable_iff.mpr fun k hk hlook => ⟨hpeeks k hk hlook, hones k hk hlook⟩
    -- a read that ends the tracer has met a word that cannot be read
    cases hrun : readChildCString (kernel env) raddr pid s with
    | ok str s' =>
      rw [hrun] at hread
      obtain ⟨rfl, -, -, hspells⟩ := hread
      exact ⟨s', hrun, hspells⟩
    | error e s' =>
      rw [hrun] at hread
      exact absurd hpath hread


/-- A memory of all ones: every word can be peeked, and the first one ends the tracer. -/
theorem not_readsString_filled :
    (∀ k < 128, (∀ j < 8 * k, bytesAt (Boot.filled 0xff).memory 4096 j ≠ 0) →
        Memory.wordAll (Boot.filled 0xff).memory.readable (4096 + BitVec.ofNat 64 (8 * k)) = true) ∧
      ¬ReadsString (finishing 100) 100 (Boot.filled 0xff).memory 4096
        ((Boot.filled 0xff).atEntry openCall) := by
  refine ⟨fun k _ _ => rfl, ?_⟩
  rintro ⟨s', hrun, -⟩
  cases hrun

/-- `"/dev/random"` lies at 4096, with a NUL behind it; all other bytes are zero. -/
def Boot.random : Boot :=
  { Boot.sample with
    memory := ⟨fun a => devRandom[(a - 4096).toNat]?.getD 0, fun _ => true, fun _ => true⟩ }

theorem pathReadable_random : PathReadable Boot.random.memory 4096 128 := by
  refine pathReadable_iff.mpr fun k _ hlook => ⟨rfl, ?_⟩
  have hnul : bytesAt Boot.random.memory 4096 11 = 0 := by decide +kernel
  have hfirst : k = 0 ∨ k = 1 := by
    by_contra hlater
    exact hlook 11 (by omega) hnul
  rcases hfirst with rfl | rfl
  · decide +kernel
  · decide +kernel

theorem readsString_random :
    ReadsString (finishing 100) 100 Boot.random.memory 4096 (Boot.random.atEntry openCall) := by
  refine (readsString_iff (attends_finishing 100).spared rfl (held_atEntry Boot.random openCall)
    fun k _ _ => rfl).mpr fun k hk hlook => ?_
  exact (pathReadable_iff.mp pathReadable_random k hk hlook).2

/-! ### The decision -/

/-- The comparison sees a device exactly when the guest string is one. -/
theorem isDevice_iff {a : Word} :
    IsDevice m a ↔ GuestString m a devRandom ∨ GuestString m a devUrandom := by
  have hrandom : cString m a = devRandom ↔ GuestString m a devRandom :=
    cString_eq_iff (by decide) (by decide)
  have hurandom : cString m a = devUrandom ↔ GuestString m a devUrandom :=
    cString_eq_iff (by decide) (by decide)
  rw [IsDevice, hrandom, hurandom]

namespace AtCall

/-- All open calls share one handler. -/
theorem open_eq (h : AtCall env c t m hook s) (hopen : hook.emulated = false) :
    handleSyscall (kernel env) c.addr t.regs s =
      redirectDevRandom (kernel env) c.pid t.regs (s.noted (.handleSyscall c.addr t.regs)) := by
  rw [h.run_eq]
  cases hook with
  | openat | «open» | openat2 => rfl
  | getrandom | gettimeofday | time | clockGettime => cases hopen

/-- An open call that returns had a readable path, and the decision was made on it. -/
theorem decided (h : AtCall env c t m hook s) (hopen : hook.emulated = false)
    (hrun : handleSyscall (kernel env) c.addr t.regs s = .ok () s') :
    PathReadable m (rArg2 t.regs) 128 ∧ ∃ t', Decided m t.regs t t' ∧
      Tracked c.pid s.processTable s.os.heap t' m s' := by
  rw [h.open_eq hopen] at hrun
  obtain ⟨hcreation, hexecve⟩ := ordinary_of_hookOf h.hook
  exact (triple_redirectDevRandom h.attends h.entry hcreation hexecve t.regs).ok h.noted hrun

theorem open_returns (h : AtCall env c t m hook s) (hopen : hook.emulated = false)
    (hpath : PathReadable m (rArg2 t.regs) 128) :
    ∃ s', handleSyscall (kernel env) c.addr t.regs s = .ok () s' := by
  apply h.returns
  cases hook with
  | openat | «open» | openat2 => exact hpath
  | getrandom | gettimeofday | time | clockGettime => cases hopen

end AtCall

/-- Where the path can be read, `openat` and `openat2` are redirected exactly on the two devices,
and left alone on every other path. -/
theorem redirect_exact (h : AtCall env c t m hook s) (hopen : hook = .openat ∨ hook = .openat2)
    (hpath : PathReadable m (rArg2 t.regs) 128) :
    ∃ s' t', handleSyscall (kernel env) c.addr t.regs s = .ok () s' ∧ s'.os.task c.pid = some t' ∧
      (t'.stop? = some .syscallExit ∧ t'.regs = wReturn t.regs stdinFileno ↔
        GuestString m (rArg2 t.regs) devRandom ∨ GuestString m (rArg2 t.regs) devUrandom) ∧
      (¬(GuestString m (rArg2 t.regs) devRandom ∨ GuestString m (rArg2 t.regs) devUrandom) →
        t' = t ∧ s'.os.mem t.mm = m) := by
  have hfamily : hook.emulated = false := by
    rcases hopen with rfl | rfl
    · rfl
    · rfl
  obtain ⟨s', hrun⟩ := h.open_returns hfamily hpath
  obtain ⟨-, t', hdecided, hdone⟩ := h.decided hfamily hrun
  refine ⟨s', t', hrun, hdone.held.task, ?_, ?_⟩
  · rw [← isDevice_iff]
    constructor
    · rintro ⟨hstop, -⟩
      by_contra hother
      rw [hdecided.other hother, Task.stop?, h.entry] at hstop
      cases hstop
    · exact hdecided.device
  · rw [← isDevice_iff]
    intro hother
    -- another path leaves the task alone
    have hsame := hdecided.other hother
    have hmem := hdone.held.mem
    rw [hsame] at hmem
    exact ⟨hsame, hmem⟩

theorem guestString_random : GuestString Boot.random.memory 4096 devRandom := by
  have hbytes : ∀ i < 11, ∀ h : i < devRandom.length,
      bytesAt Boot.random.memory 4096 i = devRandom[i] := by decide +kernel
  exact ⟨fun i hi => hbytes i hi hi, by decide +kernel⟩

/-- The sample device is redirected. -/
theorem redirect_random :
    ∃ s' t', handleSyscall (kernel (finishing 100)) 0 (openRegs 4096 0 .openat)
        (Boot.random.atEntry (openRegs 4096 0 .openat)) = .ok () s' ∧ s'.os.task 100 = some t' ∧
      t'.stop? = some .syscallExit ∧ t'.regs = wReturn (openRegs 4096 0 .openat) stdinFileno := by
  have hcall := @atCall_atEntry Boot.random (openRegs 4096 0 .openat) .openat rfl
  obtain ⟨s', t', hrun, ht', hdecision, -⟩ := redirect_exact hcall (.inl rfl) pathReadable_random
  exact ⟨s', t', hrun, ht', hdecision.mpr (.inl guestString_random)⟩

/-! ### Three calls, one handler -/

/-- The call returns with the descriptor of standard input. -/
def Redirects (env : Env) (c : ChildProcess) (t : Task) (s : Tracer World) : Prop :=
  ∃ s' t', handleSyscall (kernel env) c.addr t.regs s = .ok () s' ∧ s'.os.task c.pid = some t' ∧
    t'.stop? = some .syscallExit ∧ t'.regs = wReturn t.regs stdinFileno

/-- The first thing that the handler does is to look at the word at `a`. -/
def Examines (env : Env) (c : ChildProcess) (t : Task) (s : Tracer World) (a : Word) : Prop :=
  ∃ answer, .ptrace (.peek c.pid (.data a)) answer ::
      (s.noted (.handleSyscall c.addr t.regs)).trace <:+
    (finalState (handleSyscall (kernel env) c.addr t.regs s)).trace

namespace AtCall

theorem redirects_iff (h : AtCall env c t m hook s) (hopen : hook.emulated = false) :
    Redirects env c t s ↔ PathReadable m (rArg2 t.regs) 128 ∧ IsDevice m (rArg2 t.regs) := by
  constructor
  · rintro ⟨s', t', hrun, ht', hstop, -⟩
    obtain ⟨hpath, t'', hdecided, hdone⟩ := h.decided hopen hrun
    refine ⟨hpath, ?_⟩
    by_contra hother
    cases ht'.symm.trans hdone.held.task
    rw [hdecided.other hother, Task.stop?, h.entry] at hstop
    cases hstop
  · rintro ⟨hpath, hdevice⟩
    obtain ⟨s', hrun⟩ := h.open_returns hopen hpath
    obtain ⟨-, t', hdecided, hdone⟩ := h.decided hopen hrun
    exact ⟨s', t', hrun, hdone.held.task, hdecided.device hdevice⟩

theorem examines_iff (h : AtCall env c t m hook s) (hopen : hook.emulated = false) {a : Word} :
    Examines env c t s a ↔ a = rArg2 t.regs := by
  have hfirst := ((later_steps env).requests c.pid).redirectDevRandom_from t.regs
    (s.noted (.handleSyscall c.addr t.regs))
  rw [← h.open_eq hopen] at hfirst
  constructor
  · rintro ⟨answer, hlook⟩
    -- both looks stand right behind the call in one trace
    have hsame :=
      (List.suffix_of_suffix_length_le hlook hfirst.trace (Nat.le_refl _)).eq_of_length rfl
    injection hsame with hevent
    injection hevent with hrequest
    injection hrequest with _ hplace
    injection hplace
  · rintro rfl
    exact ⟨_, hfirst.trace⟩

end AtCall

/-- The open calls agree: all of them are redirected or none, and each looks at its own path. -/
def OpensAgree (env : Hook → Env) (c : Hook → ChildProcess) (t : Hook → Task)
    (s : Hook → Tracer World) : Prop :=
  (∀ hook hook', hook.emulated = false → hook'.emulated = false →
    (Redirects (env hook) (c hook) (t hook) (s hook) ↔
      Redirects (env hook') (c hook') (t hook') (s hook'))) ∧
  ∀ hook, hook.emulated = false →
    Examines (env hook) (c hook) (t hook) (s hook) (hook.pathArg (t hook).regs)

/-- On one memory and one path, the calls agree exactly when the flags of `open` happen to be the
address of the path. -/
theorem opens_agree_iff {env : Hook → Env} {c : Hook → ChildProcess} {t : Hook → Task}
    {s : Hook → Tracer World} {path : Word}
    (h : ∀ hook, hook.emulated = false → AtCall (env hook) (c hook) (t hook) m hook (s hook))
    (hpath : ∀ hook : Hook, hook.emulated = false → hook.pathArg (t hook).regs = path) :
    OpensAgree env c t s ↔ rArg2 (t .open).regs = path := by
  constructor
  · rintro ⟨-, hexamines⟩
    rw [← ((h .open rfl).examines_iff rfl).mp (hexamines .open rfl)]
    exact hpath .open rfl
  · intro hflags
    -- now every call reads its path at the second argument
    have harg : ∀ hook, hook.emulated = false → rArg2 (t hook).regs = path := by
      intro hook hopen
      cases hook with
      | «open» => exact hflags
      | openat => exact hpath .openat rfl
      | openat2 => exact hpath .openat2 rfl
      | getrandom | gettimeofday | time | clockGettime => cases hopen
    constructor
    · intro hook hook' hopen hopen'
      rw [(h hook hopen).redirects_iff hopen, (h hook' hopen').redirects_iff hopen',
        harg hook hopen,
        harg hook' hopen']
    · intro hook hopen
      rw [(h hook hopen).examines_iff hopen, hpath hook hopen, harg hook hopen]

/-- The sample task at the entry of an open call on `"/dev/random"`. -/
theorem atCall_openRegs (flags : Word) {hook : Hook} (hopen : hook.emulated = false) :
    AtCall (finishing 100) ⟨0, 100, initialClock⟩ (Boot.random.entryTask (openRegs 4096 flags hook))
      Boot.random.memory hook (Boot.random.atEntry (openRegs 4096 flags hook)) :=
  atCall_atEntry Boot.random (hookOf_openRegs 4096 flags hopen)

/-- `openat` is redirected, but a plain `open` for reading looks at the null pointer instead. -/
theorem not_opensAgree_random :
    (∀ hook, hook.emulated = false →
        AtCall (finishing 100) ⟨0, 100, initialClock⟩ (Boot.random.entryTask (openRegs 4096 0 hook))
            Boot.random.memory hook (Boot.random.atEntry (openRegs 4096 0 hook)) ∧
          hook.pathArg (openRegs 4096 0 hook) = 4096) ∧
      ¬OpensAgree (fun _ => finishing 100) (fun _ => ⟨0, 100, initialClock⟩)
        (fun hook => Boot.random.entryTask (openRegs 4096 0 hook))
        (fun hook => Boot.random.atEntry (openRegs 4096 0 hook)) := by
  refine ⟨fun hook hopen => ⟨atCall_openRegs 0 hopen, pathArg_openRegs 4096 0 hopen⟩, ?_⟩
  rintro ⟨hredirects, -⟩
  have hopenat := (@atCall_openRegs 0 .openat rfl).redirects_iff rfl
  have hplain := (@atCall_openRegs 0 .open rfl).redirects_iff rfl
  have hdevice : IsDevice Boot.random.memory 4096 := isDevice_iff.mpr (.inl guestString_random)
  obtain ⟨-, hnull⟩ := hplain.mp ((hredirects .openat .open rfl rfl).mp
    (hopenat.mpr ⟨pathReadable_random, hdevice⟩))
  -- the memory at the null pointer does not start with a slash
  have hslash : ∀ str : List Byte, ∀ h : 0 < str.length, str[0] = 0x2f →
      ¬GuestString Boot.random.memory 0 str := by
    rintro str hstr hfirst ⟨hbytes, -⟩
    have hbyte := (hbytes 0 hstr).trans hfirst
    revert hbyte
    decide +kernel
  rcases isDevice_iff.mp hnull with hstring | hstring
  · exact hslash devRandom (by decide) rfl hstring
  · exact hslash devUrandom (by decide) rfl hstring

theorem opensAgree_random :
    OpensAgree (fun _ => finishing 100) (fun _ => ⟨0, 100, initialClock⟩)
      (fun hook => Boot.random.entryTask (openRegs 4096 4096 hook))
      (fun hook => Boot.random.atEntry (openRegs 4096 4096 hook)) :=
  (opens_agree_iff (fun _ hopen => atCall_openRegs 4096 hopen)
    fun _ hopen => pathArg_openRegs 4096 4096 hopen).mpr rfl

end Reproduce.Linux
