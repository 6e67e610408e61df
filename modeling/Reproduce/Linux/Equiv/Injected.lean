import Reproduce.Linux.Equiv.Emulation
import Reproduce.Linux.Equiv.Held

/-!
# Injected system calls

`child_syscall` on a process at the entry of a system call that nobody else disturbs.  The fourth
argument of a system call is passed in `r10`, that of a function in `rcx`, and `w_arg4` writes
`rcx`; so the kernel finds the arguments that were given when there are at most three of them, or
when `r10` and `rcx` hold the fourth one already (`writeArgs_eq_calling_iff`).  The wait takes the
next stop for the end of the call, which it is not when the call creates a process or executes a
program (`childSyscall_injects_iff`).
-/

namespace Reproduce

open Bytes

/-- The arguments of a system call, as the kernel finds them. -/
def syscallArgs (regs : UserRegsStruct) : List Word :=
  [regs.rdi, regs.rsi, regs.rdx, regs.r10, regs.r8, regs.r9]

/-- The registers for a system call: its number and its arguments are set, all others are kept. -/
def UserRegsStruct.calling (regs : UserRegsStruct) (nr : Word) (args : List Word) :
    UserRegsStruct :=
  { regs with
    origRax := nr
    rdi := args.getD 0 regs.rdi
    rsi := args.getD 1 regs.rsi
    rdx := args.getD 2 regs.rdx
    r10 := args.getD 3 regs.r10
    r8 := args.getD 4 regs.r8
    r9 := args.getD 5 regs.r9 }

/-- The arguments of the call that `calling` asks for are the given ones. -/
theorem syscallArgs_calling (regs : UserRegsStruct) (nr : Word) {args : List Word}
    (h : args.length ≤ 6) : (syscallArgs (regs.calling nr args)).take args.length = args := by
  apply List.ext_getElem?
  intro i
  by_cases hi : i < args.length
  · rw [List.getElem?_take_of_lt hi]
    have hi' : i < 6 := by omega
    interval_cases i <;> simp [syscallArgs, UserRegsStruct.calling, hi]
  · rw [List.getElem?_take_eq_none (by omega), List.getElem?_eq_none (by omega)]

/-- `child_syscall` writes the fourth argument to `rcx`. -/
theorem writeArgs_wSyscall (regs : UserRegsStruct) (nr : Word) (args : List Word) :
    writeArgs (wSyscall regs nr) args =
      { regs.calling nr args with r10 := regs.r10, rcx := args.getD 3 regs.rcx } := by
  unfold writeArgs UserRegsStruct.calling
  match args with
  | [] | [_] | [_, _] | [_, _, _] | [_, _, _, _] | [_, _, _, _, _] |
    _ :: _ :: _ :: _ :: _ :: _ :: _ =>
    simp [wSyscall, wArg1, wArg2, wArg3, wArg4, wArg5, wArg6]

theorem writeArgs_eq_calling_iff {regs : UserRegsStruct} {nr : Word} {args : List Word} :
    writeArgs (wSyscall regs nr) args = regs.calling nr args ↔
      ∀ a, args[3]? = some a → a = regs.rcx ∧ a = regs.r10 := by
  rw [writeArgs_wSyscall, UserRegsStruct.calling]
  simp only [UserRegsStruct.mk.injEq, true_and, and_true, List.getD_eq_getElem?_getD]
  cases h : args[3]? with
  | none => simp
  | some a => simp [eq_comm, and_comm]

end Reproduce

namespace Reproduce.Linux

open Bytes Effect

variable {env : Env} {pid : PidT} {t t' : Task} {regs : UserRegsStruct} {nr : Word}
  {args : List Word}

/-! ### The helper -/

/-- Nobody else kills the process or replaces its program, and it comes to the end of its system
call whenever the tracer waits for that. -/
structure Completes (env : Env) (pid : PidT) : Prop where
  leaves : ∀ n q, ∀ m ∈ (env n q).moves, m.Leaves pid
  finishes : ∀ n, ∃ regs, Move.finish pid regs ∈ (env n (.wait (some pid))).moves

/-- The process is the task `t`. -/
def IsTask (pid : PidT) (t : Task) (s : Tracer World) : Prop := s.os.task pid = some t

/-- A request to a stopped process is carried out on it. -/
theorem Completes.asked_eq (h : Completes env pid) {r : Request} (hr : r.pid = pid)
    (hstop : t.isStopped = true) {s : Tracer World} (hs : IsTask pid t s) :
    ∃ w : World, w.task pid = some t ∧ World.ptrace env r s.os = w.perform t r := by
  have hasked : (s.os.asked env (.ptrace r)).task pid = some t :=
    left_stopped hstop (h.leaves s.os.tick (.ptrace r)) hs
  exact ⟨_, hasked, ptrace_of_stopped env (by rw [hr]; exact hasked) hstop⟩

theorem Completes.triple_ptraceReturn (h : Completes env pid) {r : Request} (hr : r.pid = pid)
    (hstop : t.isStopped = true)
    (heffect : ∀ w : World, (∃ reply, (w.perform t r).1 = .ok reply) ∧
      (w.perform t r).2.task pid = some t') :
    Triple (IsTask pid t) (ptraceReturn (kernel env) r)
      (fun more s => more = true ∧ IsTask pid t' s) (fun _ _ => False) := by
  intro s hs
  obtain ⟨w, -, hperform⟩ := h.asked_eq hr hstop hs
  obtain ⟨⟨reply, hreply⟩, htask⟩ := heffect w
  have hanswer : ((kernel env).ptrace r s.os).1 = .ok reply :=
    (congrArg Prod.fst hperform).trans hreply
  have hrun : ptraceReturn (kernel env) r s = .ok true (s.asked (kernel env) r) := by
    rw [ptraceReturn, bind_apply_ok (ptrace_apply _ r s), hanswer]
    rfl
  rw [hrun]
  refine ⟨rfl, ?_⟩
  show (World.ptrace env r s.os).2.task pid = some t'
  rw [hperform]
  exact htask

/-- A process in an ordinary system call is stepped to its exit stop. -/
theorem Completes.triple_waitpidOrExit (h : Completes env pid) {fresh : Bool}
    (hstate : t.state = .kernel fresh) (hcreation : isCreation t.regs.origRax = false)
    (hexecve : isExecve t.regs.origRax = false) :
    Triple (IsTask pid t) (waitpidOrExit (kernel env) pid)
      (fun status s => terminated status = false ∧
        ∃ regs, IsTask pid { t.finish regs with state := .stopped .syscallExit true } s)
      (fun _ _ => False) := by
  intro s hs
  obtain ⟨regs, hmem⟩ := h.finishes s.os.tick
  obtain ⟨regs', hasked⟩ := left_finish hstate hcreation hexecve
    (h.leaves s.os.tick (.wait (some pid))) hs hmem
  obtain ⟨hrun, hos⟩ := waitpidOrExit_of_finish hasked
  rw [hrun]
  refine ⟨terminated_stopStatus _ _, regs', ?_⟩
  rw [IsTask, hos]
  exact World.task_setTask_self ..

/-- The registers of a stopped process are read. -/
theorem Completes.triple_getregs (h : Completes env pid) (hstop : t.isStopped = true) :
    Triple (IsTask pid t) (ptrace (kernel env) (.getregs pid))
      (fun answer s => answer = .ok t.regs ∧ IsTask pid t s) (fun _ _ => False) := by
  intro s hs
  obtain ⟨w, hw, hperform⟩ := h.asked_eq (r := .getregs pid) rfl hstop hs
  have hanswer : ((kernel env).ptrace (.getregs pid) s.os).1 = .ok t.regs :=
    congrArg Prod.fst hperform
  rw [ptrace_apply, hanswer]
  refine ⟨rfl, ?_⟩
  show (World.ptrace env (.getregs pid) s.os).2.task pid = some t
  rw [hperform]
  exact hw

/-- The task at the end of an injected call, which the kernel began with the registers `k`. -/
structure Task.Injected (t : Task) (k : UserRegsStruct) (t' : Task) : Prop where
  exit : t'.state = .stopped .syscallExit true
  executed : t'.executed = if k.origRax = -1 then t.executed else (t.entered, k) :: t.executed

/-- An ordinary call runs to its exit stop, whose registers are returned. -/
theorem Completes.triple_childExecSyscall (h : Completes env pid)
    (hstate : t.state = .stopped .syscallEntry true) (hcreation : isCreation regs.origRax = false)
    (hexecve : isExecve regs.origRax = false) :
    Triple (IsTask pid t) (childExecSyscall (kernel env) pid regs)
      (fun regs' s => ∃ t', regs' = t'.regs ∧ IsTask pid t' s ∧ t.Injected regs t')
      (fun _ _ => False) := by
  have hstop : t.isStopped = true := by simp [Task.isStopped, hstate]
  -- the registers are set, the call is begun, and the wait reports its end
  have hset : Triple (IsTask pid t) (ptraceReturn (kernel env) (.setregs pid regs))
      (fun more s => more = true ∧ IsTask pid { t with regs := regs } s) (fun _ _ => False) :=
    h.triple_ptraceReturn rfl hstop fun w => ⟨⟨(), rfl⟩, World.task_setTask_self ..⟩
  have hentry : Task.stop? { t with regs := regs } = some .syscallEntry := by
    simp [Task.stop?, hstate]
  have hresume : Triple (IsTask pid { t with regs := regs })
      (ptraceReturn (kernel env) (.syscall pid 0))
      (fun more s => more = true ∧
        IsTask pid (Task.resume { t with regs := regs } .syscallEntry 0) s)
      (fun _ _ => False) := by
    refine h.triple_ptraceReturn rfl hstop fun w => ?_
    rw [World.perform, hentry]
    exact ⟨⟨(), rfl⟩, World.task_setTask_self ..⟩
  refine Triple.bind hset fun more =>
    Triple.ite (fun _ => ?_) fun hno => fun s hs => absurd hs.1 hno
  refine Triple.bind
    (hresume.conseq (fun s hs => hs.2) (fun _ _ hs => hs) fun _ _ he => he) fun more' =>
    Triple.ite (fun _ => ?_) fun hno => fun s hs => absurd hs.1 hno
  have hwait :=
    h.triple_waitpidOrExit (t := Task.resume { t with regs := regs } .syscallEntry 0) rfl
    hcreation hexecve
  refine Triple.bind
    (hwait.conseq (fun s hs => hs.2) (fun _ _ hs => hs) fun _ _ he => he) fun status => ?_
  rintro s ⟨hlive, exitRegs, hs⟩
  rw [hlive]
  refine Triple.bind (h.triple_getregs rfl) (fun answer => ?_) s hs
  rintro s' ⟨rfl, hs'⟩
  exact ⟨_, rfl, hs', rfl, executed_finish _ _⟩

/-! ### What the kernel executes -/

/-- From the entry stop of a call, the kernel executes the given call with the given arguments,
all other registers being kept, and the registers at its exit stop are returned, with the result
of the call. -/
def InjectsCall (regs : UserRegsStruct) (nr : Word) (args : List Word) : Prop :=
  ∀ (env : Env) (pid : PidT) (t : Task) (s : Tracer World), Completes env pid → t.regs = regs →
    t.state = .stopped .syscallEntry true → IsTask pid t s →
    ∃ s' t', childSyscall (kernel env) pid regs nr args s = .ok (t'.regs, t'.regs.rax) s' ∧
      IsTask pid t' s' ∧ t'.state = .stopped .syscallExit true ∧
      t'.executed = (t.entered, regs.calling nr args) :: t.executed

theorem writeArgs_origRax (regs : UserRegsStruct) (nr : Word) (args : List Word) :
    (writeArgs (wSyscall regs nr) args).origRax = nr := by
  rw [writeArgs_wSyscall]
  rfl

/-- An ordinary call is begun with the registers that `child_syscall` has written. -/
theorem Completes.childSyscall_runs (h : Completes env pid)
    (hstate : t.state = .stopped .syscallEntry true) (hcreation : isCreation nr = false)
    (hexecve : isExecve nr = false) {s : Tracer World} (hs : IsTask pid t s) :
    ∃ s' t', childSyscall (kernel env) pid regs nr args s = .ok (t'.regs, t'.regs.rax) s' ∧
      IsTask pid t' s' ∧ t.Injected (writeArgs (wSyscall regs nr) args) t' := by
  have hnr := writeArgs_origRax regs nr args
  have hexec : Triple (IsTask pid t)
      (childExecSyscall (kernel env) pid (writeArgs (wSyscall regs nr) args)) _ _ :=
    h.triple_childExecSyscall hstate (hnr.symm ▸ hcreation) (hnr.symm ▸ hexecve)
  have hexec := hexec s hs
  cases hrun : childExecSyscall (kernel env) pid (writeArgs (wSyscall regs nr) args) s with
  | error e s' =>
    rw [hrun] at hexec
    exact hexec.elim
  | ok regs' s' =>
    rw [hrun] at hexec
    obtain ⟨t', rfl, hs', hinjected⟩ := hexec
    exact ⟨s', t', bind_apply_ok hrun, hs', hinjected⟩

/-- The task comes to an event stop first. -/
def interrupted (pid : PidT) (m : Move) : Env
  | _, .wait _ => ⟨[m, .finish pid default], pid⟩
  | _, .ptrace _ => ⟨[], pid⟩

theorem completes_interrupted {m : Move} (hm : m.Leaves pid) :
    Completes (interrupted pid m) pid where
  leaves n q move hmove := by
    cases q with
    | ptrace r => cases hmove
    | wait target =>
      rcases List.mem_cons.mp hmove with rfl | hmove
      · exact hm
      · cases List.mem_singleton.mp hmove
        trivial
  finishes _ := ⟨default, List.mem_cons_of_mem _ List.mem_cons_self⟩

theorem completes_finishing (pid : PidT) : Completes (finishing pid) pid where
  leaves n q move hmove := by
    cases q with
    | ptrace r => cases hmove
    | wait target =>
      cases List.mem_singleton.mp hmove
      trivial
  finishes _ := ⟨default, List.mem_singleton.mpr rfl⟩

namespace InjectsCall

/-- The stop in which the sample task ends up. -/
theorem sample_exit (h : InjectsCall regs nr args) {env : Env} (henv : Completes env 100) :
    ((finalState
      (childSyscall (kernel env) 100 regs nr args (Boot.sample.atEntry regs))).os.task 100).map
      Task.state = some (.stopped .syscallExit true) := by
  obtain ⟨s', t', hrun, hs', hexit, -⟩ :=
    h env 100 (Boot.sample.entryTask regs) (Boot.sample.atEntry regs) henv rfl rfl rfl
  rw [hrun]
  show Option.map _ (s'.os.task 100) = _
  rw [hs', Option.map_some, hexit]

/-- A call that creates a process stops for that first. -/
theorem not_creation (h : InjectsCall regs nr args) : isCreation nr = false := by
  refine Bool.eq_false_iff.mpr fun hcreation => ?_
  have hfork : (Move.fork 100 101 .fork false false 0).Leaves 100 := trivial
  have hexit := h.sample_exit (completes_interrupted hfork)
  have hnr : ((nr = NR_clone ∨ nr = NR_fork) ∨ nr = NR_vfork) ∨ nr = NR_clone3 := by
    simpa [isCreation] using hcreation
  rw [childSyscall, writeArgs_wSyscall] at hexit
  rcases hnr with ((rfl | rfl) | rfl) | rfl <;> cases hexit

/-- A call that executes a program stops for that first. -/
theorem not_execve (h : InjectsCall regs nr args) : isExecve nr = false := by
  refine Bool.eq_false_iff.mpr fun hexecve => ?_
  have hexec : (Move.exec 100 100 default Boot.sample.memory).Leaves 100 := fun _ => rfl
  have hexit := h.sample_exit (completes_interrupted hexec)
  have hnr : nr = NR_execve ∨ nr = NR_execveat := by simpa [isExecve] using hexecve
  rw [childSyscall, writeArgs_wSyscall] at hexit
  rcases hnr with rfl | rfl <;> cases hexit

/-- The registers that are written are the right ones, and the call is one that is carried out. -/
theorem written (h : InjectsCall regs nr args) :
    nr ≠ -1 ∧ writeArgs (wSyscall regs nr) args = regs.calling nr args := by
  have htask : IsTask 100 (Boot.sample.entryTask regs) (Boot.sample.atEntry regs) := rfl
  have henv := completes_finishing 100
  obtain ⟨s', t', hrun, hs', -, hexecuted⟩ := h (finishing 100) 100 _ _ henv rfl rfl htask
  obtain ⟨s'', t'', hrun', hs'', hinjected⟩ :=
    henv.childSyscall_runs rfl h.not_creation h.not_execve htask
  -- both describe one run
  obtain rfl : s' = s'' := by injection hrun.symm.trans hrun'
  cases hs'.symm.trans hs''
  have hboth := hexecuted.symm.trans hinjected.executed
  rw [writeArgs_origRax] at hboth
  by_cases hnr : nr = -1
  · rw [if_pos hnr] at hboth
    cases hboth
  · rw [if_neg hnr] at hboth
    injection hboth with hcall
    injection hcall with _ hregs
    exact ⟨hnr, hregs.symm⟩

end InjectsCall

/-- The arguments arrive when the fourth one, if there is one, is in `r10` and in `rcx` already; the
number has to be one of a call that the kernel carries out without a stop of its own. -/
theorem childSyscall_injects_iff (regs : UserRegsStruct) (nr : Word) (args : List Word) :
    InjectsCall regs nr args ↔
      nr ≠ -1 ∧ isCreation nr = false ∧ isExecve nr = false ∧
        ∀ a, args[3]? = some a → a = regs.rcx ∧ a = regs.r10 := by
  constructor
  · intro h
    obtain ⟨hnr, hwritten⟩ := h.written
    exact ⟨hnr, h.not_creation, h.not_execve, writeArgs_eq_calling_iff.mp hwritten⟩
  · rintro ⟨hnr, hcreation, hexecve, hargs⟩ env pid t s henv rfl hstate hs
    obtain ⟨s', t', hrun, hs', hinjected⟩ := henv.childSyscall_runs hstate hcreation hexecve hs
    refine ⟨s', t', hrun, hs', hinjected.exit, ?_⟩
    rw [hinjected.executed, writeArgs_origRax, if_neg hnr, writeArgs_eq_calling_iff.mpr hargs]

/-- `mmap` of an anonymous page: the flags stay behind in `rcx`. -/
theorem not_injectsCall_mmap : ¬InjectsCall default 9 [0, 4096, 3, 0x22, -1, 0] := by
  intro h
  have hflags := congrArg UserRegsStruct.r10 h.written.2
  rw [writeArgs_wSyscall] at hflags
  revert hflags
  decide

end Reproduce.Linux
