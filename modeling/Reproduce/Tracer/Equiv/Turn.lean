import Reproduce.Tracer.Equiv.Table

/-!
# What one turn of the event loop does

`Turned` lists the ways in which a turn that goes on can have gone, each with the states between its
parts, and `Registered` those of `register_new_child`.  Everything that is shown about the runs of
the loop is shown by cases on them (`turn_cases`, `register_cases`).

A turn whose `PTRACE_GETREGS` is answered `ESRCH` is not among them: it calls `handle_syscall` with
freed memory and goes no further.
-/

namespace Reproduce

open Bytes Effect

variable {W : Type} (K : Kernel W)

/-! ### Registration -/

/-- The child whose pid is the message of a fork event. -/
abbrev childOf (message : Word) : PidT := message.setWidth 32

/-- The state in which `register_new_child` has inserted the child. -/
def Tracer.registering (s : Tracer W) (pid : PidT) (child : PidT) : Tracer W :=
  ((s.asked K (.geteventmsg pid)).allocated K child).inserted child

inductive Registered (pid : PidT) (s : Tracer W) : Tracer W → Prop
  /-- The parent is gone. -/
  | vanished (hmessage : (K.ptrace (.geteventmsg pid) s.os).1 = .error .ESRCH) :
      Registered pid s (s.asked K (.geteventmsg pid))
  /-- The child is tracked already. -/
  | known {message : Word} (hmessage : (K.ptrace (.geteventmsg pid) s.os).1 = .ok message)
      (hfind : (hashFind s.processTable (childOf message)).isSome) :
      Registered pid s (s.asked K (.geteventmsg pid))
  | inserted {message : Word} {q : PidT} {status : Status}
      (hmessage : (K.ptrace (.geteventmsg pid) s.os).1 = .ok message)
      (hfind : hashFind s.processTable (childOf message) = none)
      (hwait : (K.waitpid (some (childOf message))
        (s.registering K pid (childOf message)).os).1 = some (.ok (q, status)))
      (hresume : (∃ reply, (K.ptrace (.syscall (childOf message) 0)
          ((s.registering K pid (childOf message)).waited K (some (childOf message))).os).1 =
            .ok reply) ∨
        (K.ptrace (.syscall (childOf message) 0)
          ((s.registering K pid (childOf message)).waited K (some (childOf message))).os).1 =
            .error .ESRCH) :
      Registered pid s (((s.registering K pid (childOf message)).waited K
        (some (childOf message))).asked K (.syscall (childOf message) 0))

variable {K} {s s' : Tracer W} {pid : PidT}

theorem register_cases (h : registerNewChild K pid s = .ok () s') : Registered K pid s s' := by
  rw [registerNewChild, bind_apply_ok (ptrace_apply K _ s)] at h
  -- `ESRCH` is passed over; a process that has an entry is left alone; a new one is waited for
  cases hmessage : (K.ptrace (.geteventmsg pid) s.os).1 with
  | error e =>
    rw [hmessage] at h
    dsimp only at h
    split at h
    · next he =>
      subst he
      cases h
      exact .vanished hmessage
    · cases h
  | ok message =>
    rw [hmessage] at h
    obtain ⟨added, s₁, hinsert, h⟩ := bind_eq_ok.mp h
    rw [insertProcess_eq] at hinsert
    split at hinsert
    · next hfind =>
      cases hinsert
      cases h
      exact .known hmessage hfind
    · next hfind =>
      split at hinsert
      · cases hinsert
        obtain ⟨status, s₂, hwait, h⟩ := bind_eq_ok.mp h
        obtain ⟨more, s₃, hresume, h⟩ := bind_eq_ok.mp h
        cases h
        obtain ⟨rfl, q, hanswer⟩ := waitpidOrExit_eq_ok K hwait
        obtain ⟨rfl, hresumed⟩ := ptraceReturn_eq_ok K hresume
        refine .inserted hmessage (Option.not_isSome_iff_eq_none.mp hfind) hanswer ?_
        exact hresumed.imp (fun h => h.2) (fun h => h.2)
      · cases hinsert

variable (K)

/-! ### One turn -/

/-- The status of a `PTRACE_EVENT_EXEC` stop. -/
def isExecStop (status : Status) : Bool := wifstopped status && eventOf status = PTRACE_EVENT_EXEC

theorem terminated_of_isExecStop {status : Status} (h : isExecStop status = true) :
    terminated status = false :=
  terminated_of_wifstopped (Bool.and_eq_true_iff.mp h).1

/-- How the stopped process was handled: the states after the reports, after the registers were read
and after `handle_syscall`. -/
inductive Turned (scan : Nat) (s : Tracer W) : Tracer W → Prop
  | died {pid : PidT} {status : Status}
      (hwait : (K.waitpid none s.os).1 = some (.ok (pid, status)))
      (hdead : terminated status = true) : Turned scan s ((s.waited K none).deleted pid)
  | execd {pid : PidT} {status : Status} {s' : Tracer W}
      (hwait : (K.waitpid none s.os).1 = some (.ok (pid, status)))
      (hlive : terminated status = false) (hexec : isExecStop status = true)
      (hinit : procInit K scan pid (s.waited K none) = .ok () s') : Turned scan s s'
  | unexpected {pid : PidT} {status : Status} {added : Bool} {s₁ s₂ s' : Tracer W}
      (hwait : (K.waitpid none s.os).1 = some (.ok (pid, status)))
      (hlive : terminated status = false) (hexec : isExecStop status = false)
      (hregister : registerForkEvent K pid status (s.waited K none) = .ok () s₁)
      (hfind : hashFind s₁.processTable pid = none) (hinit : procInit K scan pid s₁ = .ok () s₂)
      (hinsert : insertProcess K pid s₂ = .ok added s') : Turned scan s s'
  | handled {pid : PidT} {status : Status} {c : ChildProcess} {regs : UserRegsStruct}
      {s₁ s₂ s' : Tracer W} (hwait : (K.waitpid none s.os).1 = some (.ok (pid, status)))
      (hlive : terminated status = false) (hexec : isExecStop status = false)
      (hregister : registerForkEvent K pid status (s.waited K none) = .ok () s₁)
      (hfind : hashFind s₁.processTable pid = some c)
      (hregs : (K.ptrace (.getregs pid) s₁.os).1 = .ok regs)
      (hhandle : handleSyscall K c.addr regs (s₁.asked K (.getregs pid)) = .ok () s₂)
      (hresume : ((∃ reply, (K.ptrace (.syscall pid 0) s₂.os).1 = .ok reply) ∧
          s' = s₂.asked K (.syscall pid 0)) ∨
        ((K.ptrace (.syscall pid 0) s₂.os).1 = .error .ESRCH ∧
          s' = (s₂.asked K (.syscall pid 0)).deleted pid)) : Turned scan s s'

variable {K} {scan : Nat}

theorem ptraceDelete_eq_ok {r : Request} {reply : Option r.Reply}
    (h : ptraceDelete K r pid s = .ok reply s') :
    (∃ answer, (K.ptrace r s.os).1 = .ok answer ∧ reply = some answer ∧ s' = s.asked K r) ∨
      ((K.ptrace r s.os).1 = .error .ESRCH ∧ reply = none ∧ s' = (s.asked K r).deleted pid) := by
  rw [ptraceDelete, bind_apply_ok (ptrace_apply K r s)] at h
  cases hanswer : (K.ptrace r s.os).1 with
  | ok answer =>
    rw [hanswer] at h
    cases h
    exact .inl ⟨answer, rfl, rfl, rfl⟩
  | error e =>
    rw [hanswer] at h
    dsimp only at h
    split at h
    · next he =>
      subst he
      rw [bind_apply_ok (deleteProcess_apply _ _)] at h
      cases h
      exact .inr ⟨rfl, rfl, rfl⟩
    · cases h

theorem waitpid_eq_ok {target : WaitTarget} {answer : Except Errno (PidT × Status)}
    (h : waitpid K target s = .ok answer s') :
    (K.waitpid target s.os).1 = some answer ∧ s' = s.waited K target := by
  cases hanswer : (K.waitpid target s.os).1 with
  | none =>
    rw [waitpid_apply, hanswer] at h
    cases h
  | some answer' =>
    rw [waitpid_of_some K hanswer] at h
    cases h
    exact ⟨rfl, rfl⟩

/-- What a wait of the loop reports is handed on. -/
theorem receiveStop_eq {pid : PidT} {status : Status}
    (hwait : (K.waitpid none s.os).1 = some (.ok (pid, status))) :
    receiveStop K scan s = dispatchStop K scan pid status (s.waited K none) := by
  rw [receiveStop, bind_apply_ok (waitpid_of_some K hwait)]

/-- A tracked process is handed on with its registers, or with a stale entry. -/
theorem lookUpStop_eq_ok {dispatch : Dispatch} (h : lookUpStop K scan pid s = .ok dispatch s') :
    (hashFind s.processTable pid = none ∧ dispatch = .next ∧ ∃ s₁ added,
      procInit K scan pid s = .ok () s₁ ∧ insertProcess K pid s₁ = .ok added s') ∨
    ∃ c regs, hashFind s.processTable pid = some c ∧ dispatch = .hook pid c.addr regs ∧
      (((K.ptrace (.getregs pid) s.os).1 = .ok regs ∧ s' = s.asked K (.getregs pid)) ∨
        s' = (s.asked K (.getregs pid)).deleted pid) := by
  rw [lookUpStop, bind_apply_ok (findProcess_apply pid s)] at h
  -- without an entry the process is initialised and inserted
  cases hfind : hashFind s.processTable pid with
  | none =>
    rw [hfind] at h
    obtain ⟨_, s₁, hinit, h⟩ := bind_eq_ok.mp h
    obtain ⟨added, s₂, hinsert, h⟩ := bind_eq_ok.mp h
    cases h
    exact .inl ⟨rfl, rfl, s₁, added, hinit, hinsert⟩
  | some c =>
    rw [hfind] at h
    obtain ⟨reply, s₁, hregs, h⟩ := bind_eq_ok.mp h
    right
    rcases ptraceDelete_eq_ok hregs with ⟨regs, hanswer, rfl, rfl⟩ | ⟨-, rfl, rfl⟩
    · cases h
      exact ⟨c, regs, rfl, rfl, .inl ⟨hanswer, rfl⟩⟩
    · cases h
      exact ⟨c, _, rfl, rfl, .inr rfl⟩

/-- A stop that is handed to `handle_syscall` is one of a tracked process, whose registers were
read, or whose entry is stale. -/
theorem receiveStop_hook {scan : Nat} {child : Ptr} {regs : UserRegsStruct}
    (h : receiveStop K scan s = .ok (.hook pid child regs) s') :
    ∃ (s₁ : Tracer W) (c : ChildProcess), hashFind s₁.processTable pid = some c ∧ child = c.addr ∧
      (((K.ptrace (.getregs pid) s₁.os).1 = .ok regs ∧ s' = s₁.asked K (.getregs pid)) ∨
        s' = (s₁.asked K (.getregs pid)).deleted pid) := by
  obtain ⟨answer, s₀, hwait, h⟩ := bind_eq_ok.mp h
  cases answer with
  | error e =>
    dsimp only at h
    split at h <;> cases h
  | ok p =>
    obtain ⟨q, status⟩ := p
    dsimp only [dispatchStop] at h
    split at h
    · rw [bind_apply_ok (deleteProcess_apply _ _)] at h
      cases h
    split at h
    · obtain ⟨_, s₁, -, h⟩ := bind_eq_ok.mp h
      cases h
    obtain ⟨_, s₁, -, hlook⟩ := bind_eq_ok.mp h
    -- deaths and exec stops hand nothing on, so the stop was looked up
    rcases lookUpStop_eq_ok hlook with ⟨-, hnext, -⟩ | ⟨c, regs', hfind, hhook, hread⟩
    · cases hnext
    · cases hhook
      exact ⟨s₁, c, hfind, rfl, hread⟩

theorem turn_cases (h : handleEventTurn K scan () s = .ok (.inl ()) s') : Turned K scan s s' := by
  obtain ⟨empty, s₀, hempty, h⟩ := bind_eq_ok.mp h
  cases hempty
  split at h
  · cases h
  obtain ⟨dispatch, s₂, hreceive, h⟩ := bind_eq_ok.mp h
  obtain ⟨answer, s₁, hwait, hreceive⟩ := bind_eq_ok.mp hreceive
  obtain ⟨hanswer, rfl⟩ := waitpid_eq_ok hwait
  cases answer with
  | error e =>
    dsimp only at hreceive
    split at hreceive
    · cases hreceive
      cases h
    · cases hreceive
  | ok p =>
    obtain ⟨pid, status⟩ := p
    dsimp only [dispatchStop] at hreceive
    split at hreceive
    · next hdead =>
      rw [bind_apply_ok (deleteProcess_apply _ _)] at hreceive
      cases hreceive
      cases h
      exact .died hanswer hdead
    next hlive =>
    have hlive' : terminated status = false := by simpa using hlive
    split at hreceive
    · next hexec =>
      obtain ⟨_, s₃, hinit, hreceive⟩ := bind_eq_ok.mp hreceive
      cases hreceive
      cases h
      exact .execd hanswer hlive' hexec hinit
    next hexec =>
    have hexec' : isExecStop status = false := by simpa [isExecStop] using hexec
    obtain ⟨_, s₃, hregister, hlook⟩ := bind_eq_ok.mp hreceive
    rcases lookUpStop_eq_ok hlook with
      ⟨hfind, rfl, s₄, added, hinit, hinsert⟩ | ⟨c, regs, hfind, rfl, hread⟩
    · cases h
      exact .unexpected hanswer hlive' hexec' hregister hfind hinit hinsert
    · obtain ⟨_, s₄, hhandle, h⟩ := bind_eq_ok.mp h
      obtain ⟨reply, s₅, hresume, h⟩ := bind_eq_ok.mp h
      cases h
      rcases hread with ⟨hregs, rfl⟩ | rfl
      · refine .handled hanswer hlive' hexec' hregister hfind hregs hhandle ?_
        rcases ptraceDelete_eq_ok hresume with ⟨reply, hok, -, rfl⟩ | ⟨herror, -, rfl⟩
        · exact .inl ⟨⟨reply, hok⟩, rfl⟩
        · exact .inr ⟨herror, rfl⟩
      · -- the entry is freed, and `handle_syscall` does not return
        have hstale : blockAt ((s₃.asked K (.getregs pid)).deleted pid).processTable
            c.addr = none :=
          blockAt_deleted hfind
        rw [handleSyscall_stale K hstale] at hhandle
        cases hhandle

/-- The loop ends at an empty table, or when no child is left. -/
theorem turn_ends {answer : Unit} (h : handleEventTurn K scan () s = .ok (.inr answer) s') :
    (s.entryCount = 0 ∧ s' = s) ∨
      ((K.waitpid none s.os).1 = some (.error .ECHILD) ∧ s' = s.waited K none) := by
  obtain ⟨empty, s₀, hempty, h⟩ := bind_eq_ok.mp h
  cases hempty
  split at h
  · next hcount =>
    cases h
    exact .inl ⟨by simpa using hcount, rfl⟩
  obtain ⟨dispatch, s₂, hreceive, h⟩ := bind_eq_ok.mp h
  cases dispatch with
  | next => cases h
  | hook pid child regs =>
    obtain ⟨_, s₃, -, h⟩ := bind_eq_ok.mp h
    obtain ⟨_, s₄, -, h⟩ := bind_eq_ok.mp h
    cases h
  | stop =>
    cases h
    obtain ⟨answer, s₁, hwait, hreceive⟩ := bind_eq_ok.mp hreceive
    obtain ⟨hanswer, rfl⟩ := waitpid_eq_ok hwait
    cases answer with
    | error e =>
      dsimp only at hreceive
      split at hreceive
      · next he =>
        cases hreceive
        exact .inr ⟨he ▸ hanswer, rfl⟩
      · cases hreceive
    | ok p =>
      -- a report goes on to the next iteration or to the handler
      dsimp only [dispatchStop] at hreceive
      split at hreceive
      · rw [bind_apply_ok (deleteProcess_apply _ _)] at hreceive
        cases hreceive
      split at hreceive
      · obtain ⟨_, s₂, -, hreceive⟩ := bind_eq_ok.mp hreceive
        cases hreceive
      obtain ⟨_, s₂, -, hlook⟩ := bind_eq_ok.mp hreceive
      rcases lookUpStop_eq_ok hlook with ⟨-, hnext, -⟩ | ⟨c, regs, -, hhook, -⟩
      · cases hnext
      · cases hhook

/-- A turn that hands a stop to `handle_syscall` and resumes the process. -/
theorem turn_of_handled {status : Status} {c : ChildProcess} {regs : UserRegsStruct}
    {s₁ s₂ : Tracer W} {reply : Unit} (hcount : s.entryCount ≠ 0)
    (hwait : (K.waitpid none s.os).1 = some (.ok (pid, status)))
    (hlive : terminated status = false) (hexec : isExecStop status = false)
    (hregister : registerForkEvent K pid status (s.waited K none) = .ok () s₁)
    (hfind : hashFind s₁.processTable pid = some c)
    (hregs : (K.ptrace (.getregs pid) s₁.os).1 = .ok regs)
    (hhandle : handleSyscall K c.addr regs (s₁.asked K (.getregs pid)) = .ok () s₂)
    (hresume : (K.ptrace (.syscall pid 0) s₂.os).1 = .ok reply) :
    handleEventTurn K scan () s = .ok (.inl ()) (s₂.asked K (.syscall pid 0)) := by
  -- from the inside out: the read of the registers, the look-up, the dispatch and the turn
  have hread : ptraceDelete K (.getregs pid) pid s₁ =
      .ok (some regs) (s₁.asked K (.getregs pid)) := by
    rw [ptraceDelete, bind_apply_ok (ptrace_apply K _ _), hregs]
    rfl
  have hlook : lookUpStop K scan pid s₁ = .ok (.hook pid c.addr regs)
      (s₁.asked K (.getregs pid)) := by
    rw [lookUpStop, bind_apply_ok (findProcess_apply pid s₁), hfind]
    exact bind_apply_ok hread
  have hdispatch : dispatchStop K scan pid status (s.waited K none) =
      .ok (.hook pid c.addr regs) (s₁.asked K (.getregs pid)) := by
    have hexec' : ¬(wifstopped status && eventOf status = PTRACE_EVENT_EXEC) = true := by
      simpa [isExecStop] using hexec
    rw [dispatchStop, if_neg (by simp [hlive]), if_neg hexec', bind_apply_ok hregister, hlook]
  have hempty : (isHashTableEmpty : TracerM W Bool) s = .ok (decide (s.entryCount = 0)) s := rfl
  rw [handleEventTurn, bind_apply_ok hempty, if_neg (by simpa using hcount),
    bind_apply_ok ((receiveStop_eq hwait).trans hdispatch)]
  have hdelete : ptraceDelete K (.syscall pid 0) pid s₂ =
      .ok (some reply) (s₂.asked K (.syscall pid 0)) := by
    rw [ptraceDelete, bind_apply_ok (ptrace_apply K _ _), hresume]
    rfl
  show (handleSyscall K c.addr regs >>= fun _ => _) _ = _
  rw [bind_apply_ok hhandle, bind_apply_ok hdelete]
  rfl

end Reproduce
