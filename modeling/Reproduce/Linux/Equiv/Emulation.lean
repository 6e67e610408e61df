import Reproduce.Linux.Equiv.Amiss
import Reproduce.Tracer.Equiv.Survival

/-!
# The protocol of the emulated calls

`getrandom`, `gettimeofday`, `time` and `clock_gettime` are cancelled at their entry stop, stepped
to their exit stop and given a result there.  `emulated_or_refused` follows a handler through its
two `SETREGS`, the resumption and the wait, in every environment: as long as the requests succeed,
the wait reports the end of the cancelled call and no other thread replaces the program, the tracee
ends at its exit stop with the registers of the entry, `orig_rax` -1 and the emulated result, or
`getrandom` gets no block for its bytes.
-/

namespace Reproduce

open Bytes

/-- What an emulated call returns to a process with this clock. -/
def Hook.result (regs : UserRegsStruct) (clock : Timespec) : Hook → Word
  | .getrandom => rArg2 regs
  | .time => clock.advance.tvSec
  | _ => 0

/-- The clock after an emulated call. -/
def Hook.clock : Hook → Timespec → Timespec
  | .getrandom => id
  | _ => Timespec.advance

end Reproduce

namespace Reproduce.Linux

open Bytes Effect

variable (env : Env)

/-! ### When all goes well -/

/-- An answer that a call does not get when all goes well. -/
def Unexpected (pid : PidT) : Event World → Prop
  | .ptrace _ (.error _) => True
  | .wait _ answer => answer ≠ some (.ok (pid, Stop.syscallExit.status))
  | _ => False

/-- An unexpected answer was given, or the task was replaced. -/
abbrev Bad (pid : PidT) : Tracer World → Tracer World → Prop :=
  Amiss (fun x => ∃ q regs image, x.2 = .exec q pid regs image) (Unexpected pid)

/-! ### Where the tracee is -/

/-- A call of `waitpid`. -/
def isWait : Event World → Bool
  | .wait .. => true
  | _ => false

/-- The task, the process table, and the number of waits so far. -/
structure AtTask (pid : PidT) (table : List ChildProcess) (waits : Nat) (t : Task)
    (s : Tracer World) : Prop where
  task : s.os.task pid = some t
  table : s.processTable = table
  waits : s.trace.countP isWait = waits

variable {pid : PidT} {table : List ChildProcess} {n : Nat} {t t' : Task}

theorem bad_of_error {r : Request} {s : Tracer World} {e : Errno}
    (h : (World.ptrace env r s.os).1 = .error e) : Bad pid s (s.asked (kernel env) r) := by
  refine .inr ⟨[.ptrace r _], rfl, _, List.mem_singleton.mpr rfl, ?_⟩
  show Unexpected _ (.ptrace r (World.ptrace env r s.os).1)
  rw [h]
  trivial

/-- A request to a stopped task is carried out on it, unless something went wrong. -/
theorem asked_or_bad {r : Request} {s : Tracer World} (hr : r.pid = pid)
    (h : AtTask pid table n t s) (hstop : t.isStopped = true) :
    (∃ w : World, w.task pid = some t ∧ World.ptrace env r s.os = w.perform t r) ∨
      Bad pid s (s.asked (kernel env) r) := by
  subst hr
  rcases ptrace_cases env h.task hstop with ⟨ht, hperform⟩ | hgone | hreplaced
  · exact .inl ⟨_, ht, hperform⟩
  · exact .inr (bad_of_error env hgone)
  · refine .inr (.inl ?_)
    show Added _ _ (World.ptrace env r s.os).2.history
    rw [history_ptrace]
    exact hreplaced

theorem keeps_ptrace {r : Request} (hr : r.pid = pid) (hstop : t.isStopped = true)
    (heffect : ∀ w : World, w.task pid = some t → (w.perform t r).2.task pid = some t) :
    Within (Keeps Later (Bad pid) (AtTask pid table n t)) (ptrace (kernel env) r) := by
  intro s
  refine ⟨later_ptrace env r s, fun hs => ?_⟩
  rcases asked_or_bad env hr hs hstop with ⟨w, hw, hperform⟩ | hbad
  · refine .inl ⟨?_, hs.table, hs.waits⟩
    show (World.ptrace env r s.os).2.task pid = some t
    rw [hperform]
    exact heffect w hw
  · exact .inr hbad

theorem unless_ptraceReturn {r : Request} (hr : r.pid = pid) (hstop : t.isStopped = true)
    (heffect : ∀ (w : World) reply, w.task pid = some t → (w.perform t r).1 = .ok reply →
      (w.perform t r).2.task pid = some t') :
    Unless Later (Bad pid) (AtTask pid table n t) (ptraceReturn (kernel env) r)
      (fun more s => more = true ∧ AtTask pid table n t' s) where
  within := within_ptraceReturn (later_ptrace env r)
  post := by
    intro s more s' hs hm
    obtain ⟨rfl, ⟨rfl, reply, hanswer⟩ | ⟨-, hanswer⟩⟩ := ptraceReturn_eq_ok _ hm
    · rcases asked_or_bad env hr hs hstop with ⟨w, hw, hperform⟩ | hbad
      · refine .inl ⟨rfl, ?_, hs.table, hs.waits⟩
        have hok : (w.perform t r).1 = .ok reply := by
          rw [← hperform]
          exact hanswer
        show (World.ptrace env r s.os).2.task pid = some t'
        rw [hperform]
        exact heffect w reply hw hok
      · exact .inr hbad
    · exact .inr (bad_of_error env hanswer)

theorem pokes_keep (hstop : t.isStopped = true) (hinitial : t.stop? ≠ some .initial) :
    Pokes (kernel env) (Keeps Later (Bad pid) (AtTask pid table n t)) pid where
  peek place := keeps_ptrace env rfl hstop fun w hw => by
    cases place <;> unfold World.perform <;> dsimp only <;> split <;> exact hw
  poke addr data := keeps_ptrace env rfl hstop fun w hw => by
    unfold World.perform
    dsimp only
    split
    · unfold World.countPoke
      rw [if_neg hinitial]
      exact hw
    · exact hw

/-! ### Cancelling the call -/

/-- A task in a skipped call is stepped to its exit stop. -/
theorem unless_waitpidOrExit (hstate : t.state = .kernel true) (hskip : t.regs.origRax = -1) :
    Unless Later (Bad pid) (AtTask pid table n t) (waitpidOrExit (kernel env) pid)
      (fun status s => terminated status = false ∧
        AtTask pid table (n + 1) { t with state := .stopped .syscallExit true } s) where
  within := within_waitpidOrExit ((later_steps env).wait pid)
  post := by
    intro s status s' hs hm
    -- the number -1 is no system call, so the kernel does nothing for it
    have hordinary : isCreation t.regs.origRax = false ∧ isExecve t.regs.origRax = false := by
      rw [hskip]
      decide
    obtain ⟨rfl, q, hanswer⟩ := waitpidOrExit_eq_ok _ hm
    rcases waitpid_cases env hs.task hstate hordinary.1 hordinary.2 with
      ⟨regs, -, hreport⟩ | hother | hreplaced
    · have hanswer' : (World.waitpid env (some pid) s.os).1 = some (.ok (q, status)) := hanswer
      rw [hreport] at hanswer'
      cases hanswer'
      refine .inl ⟨terminated_stopStatus _ _, ?_, hs.table, ?_⟩
      · show (World.waitpid env (some pid) s.os).2.task pid = _
        rw [hreport]
        simp [Task.finish, hskip]
      · exact (List.countP_cons_of_pos rfl).trans (congrArg (· + 1) hs.waits)
    · exact .inr (.inr ⟨[.wait (some pid) _], rfl, _, List.mem_singleton.mpr rfl, hother⟩)
    · refine .inr (.inl ?_)
      show Added _ _ (World.waitpid env (some pid) s.os).2.history
      rw [history_waitpid]
      exact hreplaced

/-- The tracee at the exit stop of a skipped call. -/
def Task.skipped (t : Task) (regs : UserRegsStruct) : Task :=
  { t with
    regs := regs
    state := .stopped .syscallExit true }

theorem unless_childCancelSyscall (hstate : t.state = .stopped .syscallEntry true)
    (regs : UserRegsStruct) :
    Unless Later (Bad pid) (AtTask pid table n t) (childCancelSyscall (kernel env) pid regs)
      (fun regs' s => regs' = { regs with origRax := -1 } ∧
        AtTask pid table (n + 1) (t.skipped { regs with origRax := -1 }) s) := by
  have hstop : t.isStopped = true := by simp [Task.isStopped, hstate]
  -- the number of the call is set to -1, and the task goes on into the kernel
  have hset : Unless Later (Bad pid) (AtTask pid table n t)
      (ptraceReturn (kernel env) (.setregs pid { regs with origRax := -1 }))
      (fun more s => more = true ∧
        AtTask pid table n { t with regs := { regs with origRax := -1 } } s) :=
    unless_ptraceReturn env rfl hstop fun _ _ _ _ => Function.update_self ..
  have hresume : Unless Later (Bad pid)
      (AtTask pid table n { t with regs := { regs with origRax := -1 } })
      (ptraceReturn (kernel env) (.syscall pid 0))
      (fun more s => more = true ∧ AtTask pid table n
        { t with regs := { regs with origRax := -1 }, state := .kernel true } s) := by
    refine unless_ptraceReturn env rfl hstop fun w _ hw _ => ?_
    simp [World.perform, Task.stop?, hstate, Task.resume]
  refine Unless.bind hset fun more => Unless.ite (fun _ => ?_)
    (fun h => Unless.pure fun s hs => absurd hs.1 h)
  refine Unless.bind (Unless.bind (hresume.conseq (fun s hs => hs.2) fun _ _ hs => hs) fun more' =>
    Unless.ite (fun _ => ?_) (fun h => Unless.pure fun s hs => absurd hs.1 h)) fun _ =>
    Unless.pure fun s hs => ⟨rfl, hs⟩
  refine Unless.bind ((unless_waitpidOrExit env rfl rfl).conseq (fun s hs => hs.2)
    fun _ _ hs => hs) fun status => ?_
  exact Unless.ite (fun _ => Unless.throw) (fun _ => Unless.pure fun s hs => hs.2)

theorem unless_childReturns (hstop : t.isStopped = true) (regs : UserRegsStruct) (data : Word) :
    Unless Later (Bad pid) (AtTask pid table n t) (childReturns (kernel env) pid regs data)
      (fun _ => AtTask pid table n { t with regs := { regs with rax := data } }) :=
  Unless.bind (unless_ptraceReturn env rfl hstop fun _ _ _ _ => Function.update_self ..)
    fun _ => Unless.pure fun _ hs => hs.2

theorem unless_replaceBuf (hstop : t.isStopped = true) (hinitial : t.stop? ≠ some .initial)
    (src : List Byte) (dest len : Word) :
    Unless Later (Bad pid) (AtTask pid table n t) (replaceBuf (kernel env) pid src dest len)
      (fun _ => AtTask pid table n t) :=
  Unless.of_keeps ((pokes_keep env hstop hinitial).within_replaceBuf src dest len)

/-! ### The entry of the caller -/

variable {c : ChildProcess} {child : Ptr}

theorem unless_deref (hc : blockAt table child = some c) :
    Unless Later (Bad pid) (AtTask pid table n t) (deref child)
      (fun c' s => c' = c ∧ AtTask pid table n t s) where
  within := Requests.within_deref child
  post := by
    intro s c' s' hs hm
    unfold deref at hm
    rw [hs.table, hc] at hm
    cases hm
    exact .inl ⟨rfl, hs⟩

theorem unless_setClock (hc : blockAt table child = some c) (clock : Timespec) :
    Unless Later (Bad pid) (AtTask pid table n t) (setClock child clock)
      (fun _ => AtTask pid (retime child (fun _ => clock) table) n t) where
  within := Within.bind (Requests.within_deref child) fun _ _ =>
    ⟨List.suffix_rfl, List.suffix_rfl⟩
  post := by
    intro s _ s' hs hm
    obtain ⟨c', s₁, hderef, hm⟩ := bind_eq_ok.mp hm
    unfold deref at hderef
    rw [hs.table, hc] at hderef
    cases hderef
    cases hm
    exact .inl ⟨hs.task, by rw [← hs.table]; rfl, hs.waits⟩

theorem unless_malloc (size : Nat) :
    Unless Later (Bad pid) (AtTask pid table n t) (malloc (kernel env) size)
      (fun _ => AtTask pid table n t) where
  within := (later_steps env).malloc size
  post := by
    intro s granted s' hs hm
    by_cases hlarge : PTRDIFF_MAX < size
    · rw [malloc_large _ s hlarge] at hm
      cases hm
      exact .inl ⟨hs.task, hs.table, hs.waits⟩
    · rw [malloc_small _ s (Nat.not_lt.mp hlarge)] at hm
      cases hm
      exact .inl ⟨hs.task, hs.table, hs.waits⟩

/-! ### The emulated calls -/

/-- The tracee after an emulated call. -/
def Task.emulated (t : Task) (regs : UserRegsStruct) (result : Word) : Task :=
  t.skipped { regs with origRax := -1, rax := result }

theorem stopped_skipped (t : Task) (regs : UserRegsStruct) :
    (t.skipped regs).isStopped = true ∧ (t.skipped regs).stop? ≠ some .initial :=
  ⟨rfl, nofun⟩

theorem unless_hookGetrandom (hstate : t.state = .stopped .syscallEntry true)
    (regs : UserRegsStruct) :
    Unless Later (Bad pid) (AtTask pid table n t) (hookGetrandom (kernel env) pid regs)
      (fun _ => AtTask pid table (n + 1) (t.emulated regs (rArg2 regs))) := by
  obtain ⟨hstop, hinitial⟩ := stopped_skipped t { regs with origRax := -1 }
  refine Unless.bind (unless_childCancelSyscall env hstate regs) fun regs' => ?_
  refine Unless.bind (unless_malloc env _).frame fun testdata => ?_
  refine Unless.ite (fun _ => Unless.throw) (fun _ => ?_)
  refine Unless.bind (unless_replaceBuf env hstop hinitial _ _ _).frame fun _ => ?_
  refine Unless.bind (unless_childReturns env hstop regs' _).frame fun _ => ?_
  exact Unless.pure fun s hs => by obtain ⟨rfl, hs⟩ := hs; exact hs

theorem unless_writeAndAdvance (hstate : t.state = .stopped .syscallEntry true)
    (hc : blockAt table child = some c) (regs : UserRegsStruct) (addr : Word) :
    Unless Later (Bad pid) (AtTask pid table n t)
      (writeAndAdvance (kernel env) child pid regs addr)
      (fun _ => AtTask pid (retime child (fun _ => c.gettimeData.advance) table) (n + 1)
        (t.emulated regs 0)) := by
  obtain ⟨hstop, hinitial⟩ := stopped_skipped t { regs with origRax := -1 }
  refine Unless.bind (unless_childCancelSyscall env hstate regs) fun regs' => ?_
  refine Unless.bind (unless_deref hc).frame fun c₁ => ?_
  refine Unless.bind (unless_replaceBuf env hstop hinitial _ _ _).frame.frame fun _ => ?_
  refine Unless.bind (unless_deref hc).frame.frame fun c₂ => ?_
  refine Unless.bind (unless_setClock hc _).frame.frame.frame fun _ => ?_
  refine Unless.bind (unless_childReturns env hstop regs' _).frame.frame.frame fun _ => ?_
  refine Unless.pure fun s hs => ?_
  obtain ⟨rfl, -, rfl, hs⟩ := hs
  exact hs

theorem unless_writeTime (hstop : t.isStopped = true) (hinitial : t.stop? ≠ some .initial)
    (hc : blockAt table child = some c) (timeArg : Word) :
    Unless Later (Bad pid) (AtTask pid table n t) (writeTime (kernel env) child pid timeArg)
      (fun _ => AtTask pid table n t) := by
  refine Unless.ite (fun _ => ?_) (fun _ => Unless.pure fun s hs => hs)
  refine Unless.bind (unless_deref hc) fun c' => ?_
  exact (unless_replaceBuf env hstop hinitial _ _ _).conseq (fun s hs => hs.2) fun _ _ hs => hs

theorem unless_hookTime (hstate : t.state = .stopped .syscallEntry true)
    (hc : blockAt table child = some c) (regs : UserRegsStruct) :
    Unless Later (Bad pid) (AtTask pid table n t) (hookTime (kernel env) child pid regs)
      (fun _ => AtTask pid (retime child (fun _ => c.gettimeData.advance) table) (n + 1)
        (t.emulated regs c.gettimeData.advance.tvSec)) := by
  obtain ⟨hstop, hinitial⟩ := stopped_skipped t { regs with origRax := -1 }
  have hc' : ∀ clock, blockAt (retime child (fun _ => clock) table) child =
      some { c with gettimeData := clock } := by
    intro clock
    rw [blockAt_retime, hc, Option.map_some, if_pos (blockAt_eq_some hc).2]
  refine Unless.bind (unless_childCancelSyscall env hstate regs) fun regs' => ?_
  refine Unless.bind (unless_deref hc).frame fun c₁ => ?_
  refine Unless.bind (unless_setClock hc _).frame.frame fun _ => ?_
  refine Unless.bind (unless_writeTime env hstop hinitial (hc' _) _).frame.frame fun _ => ?_
  refine Unless.bind (unless_deref (hc' _)).frame.frame fun c₂ => ?_
  refine Unless.bind (unless_childReturns env hstop regs' _).frame.frame.frame fun _ => ?_
  refine Unless.pure fun s hs => ?_
  obtain ⟨rfl, rfl, rfl, hs⟩ := hs
  exact hs

/-- Every emulated call follows the protocol. -/
theorem unless_runHook (hstate : t.state = .stopped .syscallEntry true)
    (hc : blockAt table child = some c)
    (hone : ∀ f, retime child (fun _ => f c.gettimeData) table = retime child f table)
    (regs : UserRegsStruct) {hook : Hook} (hemulated : hook.emulated = true) :
    Unless Later (Bad pid) (AtTask pid table n t)
      (runHook (kernel env) child pid regs (some hook))
      (fun _ => AtTask pid (retime child hook.clock table) (n + 1)
        (t.emulated regs (hook.result regs c.gettimeData))) := by
  have hadvance := hone Timespec.advance
  match hook with
  | .getrandom =>
    show Unless _ _ _ _ fun _ => AtTask pid (retime child id table) _ _
    rw [retime_id]
    exact unless_hookGetrandom env hstate regs
  | .gettimeofday => exact hadvance ▸ unless_writeAndAdvance env hstate hc regs _
  | .time => exact hadvance ▸ unless_hookTime env hstate hc regs
  | .clockGettime => exact hadvance ▸ unless_writeAndAdvance env hstate hc regs _

/-! ### The protocol -/

/-- A task in user mode comes to no exit stop. -/
theorem steady_user : Steady fun t => t.state = .user ∨ t.stop? = some .syscallEntry ∨
    ∃ sig, t.stop? = some (.signal sig) where
  enter _ _ _ _ := .inr (.inl rfl)
  finish t fresh _ h hstate := by simp [Task.stop?, hstate] at h
  fork t _ _ _ h hstate _ := by simp [Task.stop?, hstate] at h
  exec t h hstate := by simp [Task.stop?, hstate] at h
  signal _ sig _ _ _ := .inr (.inr ⟨sig, rfl⟩)

/-- What an emulated call leaves behind. -/
structure Emulated (c : ChildProcess) (t : Task) (hook : Hook) (s s' : Tracer World) : Prop where
  /-- The task is at the exit stop with its registers, `orig_rax` -1 and the result; nothing else of
  it has changed, and in particular not the list of calls the kernel carried out. -/
  task : s'.os.task c.pid = some (t.emulated t.regs (hook.result t.regs c.gettimeData))
  oneStop : s'.trace.countP isWait = s.trace.countP isWait + 1
  table : s'.processTable = retime c.addr hook.clock s.processTable
  /-- Once the task is resumed, its next stop is the entry of a new call, or a signal. -/
  next : ∀ (w : World) moves,
    w.task c.pid =
      some ((t.emulated t.regs (hook.result t.regs c.gettimeData)).resume .syscallExit 0) →
    Fate c.pid w.history (fun t => t.state = .user ∨ t.stop? = some .syscallEntry ∨
      ∃ sig, t.stop? = some (.signal sig)) (w.runMoves moves)

/-- The block for the random bytes was refused. -/
def StagingRefused (s s' : Tracer World) : Prop :=
  Added (fun e => ∃ size, e = .malloc size false ∧ size ≠ 0) s.trace s'.trace

/-- The only fatal answer among the expected ones is a refused block. -/
theorem refused_of_fatal {e : Event World} (hexpected : ¬Unexpected pid e) (h : Fatal false e) :
    ∃ size, e = .malloc size false ∧ size ≠ 0 := by
  match e with
  | .ptrace r (.error _) => exact absurd trivial hexpected
  | .ptrace (.peek ..) (.ok _) => exact nomatch h.1
  | .ptrace (.pokedata ..) (.ok _) | .ptrace (.getregs _) (.ok _) | .ptrace (.setregs ..) (.ok _)
  | .ptrace (.syscall ..) (.ok _) | .ptrace (.geteventmsg _) (.ok _) => exact h.elim
  | .wait target answer =>
    have hanswer : answer = some (.ok (pid, Stop.syscallExit.status)) := not_not.mp hexpected
    rw [hanswer] at h
    have hterminated : terminated Stop.syscallExit.status = true := h
    rw [Stop.status, terminated_stopStatus] at hterminated
    cases hterminated
  | .malloc size granted => exact ⟨size, by rw [h.1], h.2⟩
  | .call .. => exact h.elim

/-- In every environment: when the requests of an emulated call succeed, its wait reports the end of
the cancelled call and no other thread replaces the program, the call follows the protocol or
`getrandom` gets no block for its bytes. -/
theorem emulated_or_refused {s : Tracer World} {c : ChildProcess} {t : Task} {hook : Hook}
    (hok : TableOk s) (hc : c ∈ s.processTable) (ht : s.os.task c.pid = some t)
    (hstate : t.state = .stopped .syscallEntry true) (hhook : hookOf t.regs.origRax = some hook)
    (hemulated : hook.emulated = true)
    (hexpected : ¬Added (Unexpected c.pid) s.trace
      (finalState (handleSyscall (kernel env) c.addr t.regs s)).trace)
    (hsame : ¬Replaced c.pid s.os.history
      (finalState (handleSyscall (kernel env) c.addr t.regs s)).os) :
    (∃ s', handleSyscall (kernel env) c.addr t.regs s = .ok () s' ∧ Emulated c t hook s s') ∨
      StagingRefused s (finalState (handleSyscall (kernel env) c.addr t.regs s)) := by
  have hblock := hok.blockAt_of_mem hc
  have hrun : handleSyscall (kernel env) c.addr t.regs s = _ := handleSyscall_eq (kernel env) hblock
  rw [hhook] at hrun
  have hend := clean_or_doomed (kernel env) hblock t.regs s rfl
  rw [hhook, show opensPath (some hook) = false by simp [opensPath, hemulated]] at hend
  -- the tracer stops only on an answer that is unexpected or on a refusal of the block
  cases hfinal : handleSyscall (kernel env) c.addr t.regs s with
  | error e s' =>
    rw [hfinal] at hend hexpected
    obtain ⟨new, hnew, e, he, hfatal⟩ := hend
    have hexpected' : ¬Unexpected c.pid e := fun h => hexpected ⟨new, hnew, e, he, h⟩
    exact .inr ⟨new, hnew, e, he, refused_of_fatal hexpected' hfatal⟩
  | ok _ s' =>
    rw [hfinal] at hexpected hsame
    rw [hrun] at hfinal
    have hat : AtTask c.pid s.processTable (s.trace.countP isWait) t
        (s.noted (.handleSyscall c.addr t.regs)) := ⟨ht, rfl, rfl⟩
    rcases (unless_runHook env hstate hblock (hok.retime_const hc) t.regs hemulated).post _ _ _ hat
      hfinal with hdone | hreplaced | hunexpected
    · refine .inl ⟨s', rfl, hdone.task, hdone.waits, hdone.table, fun w moves hw => ?_⟩
      exact fate_runMoves steady_user ⟨List.suffix_rfl, .inl ⟨_, hw, .inl (.inl rfl)⟩⟩ moves
    · exact absurd hreplaced hsame
    · exact absurd (added_of_suffix (List.suffix_cons _ _) hunexpected) hexpected

/-- The task reaches the end of its call whenever the tracer waits. -/
def finishing (pid : PidT) : Env
  | _, .wait _ => ⟨[.finish pid default], pid⟩
  | _, .ptrace _ => ⟨[], pid⟩

end Reproduce.Linux
