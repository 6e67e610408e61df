import Reproduce.Linux.Run
import Reproduce.Tracer.Equiv.Table

/-!
# What `handle_syscall` is called with

`handle_event` looks an entry up, reads the registers of its process and hands both to
`handle_syscall`.  `LiveEntries` says of a trace that every such call had an entry of the table and
registers read at the current stop.  The read is guarded by `PTRACE_DELETE`, whose `continue` does
not leave the iteration: after an `ESRCH` the entry is deleted and then handed on all the same.

`Good` is the invariant of the loop.  An iteration either keeps it, or its `PTRACE_GETREGS` was
answered `ESRCH`, and then the run ends in `handle_syscall` on freed memory.
-/

namespace Reproduce

open Effect

variable {W : Type} (K : Kernel W)

/-- The last event is a successful read of the registers of `pid`, and the process that the loop
waited for last is `pid`. -/
def ReadAtStop (pid : PidT) (regs : UserRegsStruct) (trace : List (Event W)) : Prop :=
  ∃ mid status older,
    trace = .ptrace (.getregs pid) (.ok regs) :: mid ++
      .wait none (some (.ok (pid, status))) :: older ∧
    ∀ answer, .wait none answer ∉ mid

/-- Every recorded call of `handle_syscall` was made with an entry of the table and with registers
read at the current stop. -/
def LiveEntries : List (Event W) → Prop
  | [] => True
  | .call (.handleSyscall child regs) table _ :: older =>
    (∃ c, blockAt table child = some c ∧ ReadAtStop c.pid regs older) ∧ LiveEntries older
  | _ :: older => LiveEntries older

/-- A `PTRACE_GETREGS` was answered `ESRCH`. -/
def GetregsVanished (trace : List (Event W)) : Prop :=
  ∃ pid, .ptrace (.getregs pid) (.error .ESRCH) ∈ trace

/-! ### Events that do not matter -/

/-- Neither a read of registers, nor the wait of the loop, nor a call of `handle_syscall`. -/
def Quiet : Event W → Prop
  | .ptrace (.getregs _) _ => False
  | .wait none _ => False
  | .call (.handleSyscall ..) .. => False
  | _ => True

theorem OnProcess.quiet {pid : PidT} {e : Event W} (h : OnProcess pid e) : Quiet e := by
  match e with
  | .ptrace (.getregs p) _ => exact h.2 (h.1 ▸ rfl)
  | .ptrace (.peek ..) _ | .ptrace (.pokedata ..) _ | .ptrace (.setregs ..) _
  | .ptrace (.syscall ..) _ | .ptrace (.geteventmsg _) _ => trivial
  | .wait none _ => exact nomatch h
  | .wait (some _) _ => trivial
  | .malloc .. => trivial
  | .call (.insertProcess _) .. | .call (.deleteProcess _) .. | .call (.removeVdso _) .. => trivial

theorem liveEntries_cons {e : Event W} (he : ∀ child regs table os,
    e ≠ .call (.handleSyscall child regs) table os) (trace : List (Event W)) :
    LiveEntries (e :: trace) ↔ LiveEntries trace := by
  match e with
  | .call (.handleSyscall child regs) table os => exact absurd rfl (he child regs table os)
  | .call (.insertProcess _) .. | .call (.deleteProcess _) .. | .call (.removeVdso _) ..
  | .ptrace .. | .wait .. | .malloc .. => exact Iff.rfl

theorem Quiet.liveEntries_cons {e : Event W} (he : Quiet e) (trace : List (Event W)) :
    LiveEntries (e :: trace) ↔ LiveEntries trace :=
  Reproduce.liveEntries_cons (fun _ _ _ _ h => by rw [h] at he; exact he) trace

theorem liveEntries_append {new : List (Event W)} (hnew : ∀ e ∈ new, Quiet e)
    (trace : List (Event W)) : LiveEntries (new ++ trace) ↔ LiveEntries trace := by
  induction new with
  | nil => exact Iff.rfl
  | cons e new ih =>
    rw [List.cons_append, (hnew e List.mem_cons_self).liveEntries_cons]
    exact ih fun e' he' => hnew e' (List.mem_cons_of_mem _ he')

theorem getregsVanished_cons {e : Event W}
    (he : ∀ pid, e ≠ .ptrace (.getregs pid) (.error .ESRCH)) (trace : List (Event W)) :
    GetregsVanished (e :: trace) ↔ GetregsVanished trace := by
  refine exists_congr fun pid => ?_
  rw [List.mem_cons]
  exact or_iff_right (Ne.symm (he pid))

theorem getregsVanished_append {new : List (Event W)} (hnew : ∀ e ∈ new, Quiet e)
    (trace : List (Event W)) : GetregsVanished (new ++ trace) ↔ GetregsVanished trace := by
  refine exists_congr fun pid => ?_
  rw [List.mem_append]
  exact or_iff_right fun h => hnew _ h

/-! ### The invariant -/

structure Good (s : Tracer W) : Prop where
  tableOk : TableOk s
  live : LiveEntries s.trace
  answered : ¬GetregsVanished s.trace

/-- What is left to show of the final state. -/
def Verdict (s : Tracer W) : Prop := LiveEntries s.trace ↔ ¬GetregsVanished s.trace

theorem good_start (os : W) : Good (Tracer.start os) :=
  ⟨tableOk_start os, trivial, fun ⟨_, h⟩ => nomatch h⟩

theorem Good.verdict {s : Tracer W} (h : Good s) : Verdict s :=
  ⟨fun _ => h.answered, fun _ => h.live⟩

/-- A step that keeps the table in order and adds quiet events. -/
def Aside (s s' : Tracer W) : Prop := (TableOk s → TableOk s') ∧ Extends Quiet s s'

instance : IsPreorder (Tracer W) Aside where
  refl s := ⟨id, Std.Refl.refl s⟩
  trans _ _ _ h h' := ⟨h'.1 ∘ h.1, IsTrans.trans _ _ _ h.2 h'.2⟩

theorem Good.aside {s s' : Tracer W} (h : Good s) (hs : Aside s s') : Good s' := by
  obtain ⟨new, htrace, hnew⟩ := hs.2
  refine ⟨hs.1 h.tableOk, ?_, ?_⟩
  · rw [htrace, liveEntries_append hnew]
    exact h.live
  · rw [htrace, getregsVanished_append hnew]
    exact h.answered

/-- The loop's last wait reported `pid`. -/
def AtStop (pid : PidT) (trace : List (Event W)) : Prop :=
  ∃ mid status older, trace = mid ++ .wait none (some (.ok (pid, status))) :: older ∧
    ∀ e ∈ mid, Quiet e

theorem AtStop.aside {pid : PidT} {s s' : Tracer W} (h : AtStop pid s.trace) (hs : Aside s s') :
    AtStop pid s'.trace := by
  obtain ⟨mid, status, older, htrace, hmid⟩ := h
  obtain ⟨new, htrace', hnew⟩ := hs.2
  refine ⟨new ++ mid, status, older, by rw [htrace', htrace, List.append_assoc], fun e he => ?_⟩
  rcases List.mem_append.mp he with he | he
  · exact hnew e he
  · exact hmid e he

theorem Helper.aside {pid : PidT} {α : Type} {m : TracerM W α} (h : Within (Helper pid) m) :
    Within Aside m :=
  h.mono fun _ _ h => ⟨fun hok => hok.tableKept h.1, h.2.mono fun _ he => he.quiet⟩

theorem Handler.aside {child : Ptr} {pid : PidT} {s s' : Tracer W} (h : Handler child pid s s') :
    Aside s s' :=
  ⟨fun hok => hok.clockOnly h.1, h.2.mono fun _ he => he.quiet⟩

theorem aside_insertProcess (pid : PidT) : Within Aside (insertProcess K pid) := by
  intro s
  have hquiet : Extends Quiet s (s.allocated K pid) :=
    ⟨[_, _], rfl, fun e he => by
      rcases List.mem_pair.mp he with rfl | rfl <;> trivial⟩
  rw [insertProcess_eq]
  split
  · exact Std.Refl.refl s
  · next hfind =>
    split
    · refine ⟨fun hok => TableOk.inserted (hok.tableKept ⟨rfl, rfl, rfl⟩) ?_, hquiet⟩
      exact Option.not_isSome_iff_eq_none.mp hfind
    · exact ⟨fun hok => hok.tableKept ⟨rfl, rfl, rfl⟩, hquiet⟩

theorem aside_deleteProcess (pid : PidT) :
    Within Aside (deleteProcess pid : TracerM W Unit) := by
  intro s
  rw [deleteProcess_apply]
  refine ⟨fun hok => hok.deleted pid, [_], trace_deleted pid s, fun e he => ?_⟩
  rw [List.mem_singleton.mp he]
  trivial

theorem aside_registerNewChild (pid : PidT) : Within Aside (registerNewChild K pid) := by
  refine Within.bind (Helper.aside (helper_ptrace K ⟨rfl, nofun⟩)) fun answer => ?_
  cases answer with
  | error e => exact Within.ite (fun _ => Within.pure _) (fun _ => Within.throw _)
  | ok newChild =>
    refine Within.bind (aside_insertProcess K _) fun added => ?_
    refine Within.ite (fun _ => ?_) (fun _ => Within.pure _)
    refine Within.bind
      (Helper.aside (within_waitpidOrExit (helper_requests K _).wait)) fun status => ?_
    exact Within.bind
      (Helper.aside (within_ptraceReturn (helper_requests K _).resume)) fun _ => Within.pure _

theorem aside_ptraceDelete_syscall (pid : PidT) :
    Within Aside (ptraceDelete K (.syscall pid 0) pid) := by
  refine Within.bind (Helper.aside (helper_ptrace K ⟨rfl, nofun⟩)) fun answer => ?_
  cases answer with
  | ok reply => exact Within.pure _
  | error e =>
    refine Within.ite (fun _ => ?_) (fun _ => Within.throw _)
    exact Within.bind (aside_deleteProcess pid) fun _ => Within.pure _

/-! ### One iteration -/

/-- A quiet program keeps the invariant. -/
theorem triple_good {α : Type} {m : TracerM W α} (h : Within Aside m) :
    Triple Good m (fun _ => Good) (fun _ => Verdict) :=
  Triple.intro (fun _ _ _ hs hm => hs.aside (h.ok hm))
    (fun _ _ _ hs hm => (hs.aside (h.error hm)).verdict)

/-- A quiet program keeps the stop the loop is at, too. -/
theorem triple_atStop {α : Type} {m : TracerM W α} (h : Within Aside m) (pid : PidT) :
    Triple (fun s => Good s ∧ AtStop pid s.trace) m (fun _ s => Good s ∧ AtStop pid s.trace)
      (fun _ => Verdict) :=
  Triple.intro (fun _ _ _ hs hm => ⟨hs.1.aside (h.ok hm), hs.2.aside (h.ok hm)⟩)
    (fun _ _ _ hs hm => (hs.1.aside (h.error hm)).verdict)

/-- What `handle_syscall` is handed: a live entry and fresh registers, or after an `ESRCH` a pointer
to freed memory. -/
def Handed (child : Ptr) (regs : UserRegsStruct) (s : Tracer W) : Prop :=
  (Good s ∧ ∃ c, blockAt s.processTable child = some c ∧ ReadAtStop c.pid regs s.trace) ∨
    (GetregsVanished s.trace ∧ blockAt s.processTable child = none)

/-- How an iteration goes on. -/
def Dispatched : Dispatch → Tracer W → Prop
  | .next, s | .stop, s => Good s
  | .hook _ child regs, s => Handed child regs s

/-- The registers are read from the process of the entry that was found. -/
theorem triple_readRegs {pid : PidT} {c : ChildProcess} :
    Triple (fun s => (Good s ∧ AtStop pid s.trace) ∧ hashFind s.processTable pid = some c)
      (ptraceDelete K (.getregs pid) pid)
      (fun reply s => match reply with
        | some (regs : UserRegsStruct) => Handed c.addr regs s
        | none => GetregsVanished s.trace ∧ blockAt s.processTable c.addr = none)
      (fun _ => Verdict) := by
  refine Triple.bind (triple_ptrace K _ _ _) fun answer => ?_
  cases answer with
  | ok regs =>
    refine Triple.pure ?_
    rintro _ ⟨s, ⟨⟨hgood, mid, status, older, htrace, hmid⟩, hfind⟩, hanswer, rfl⟩
    have hgood' : Good (s.asked K (.getregs pid)) := by
      refine ⟨hgood.tableOk.tableKept ⟨rfl, rfl, rfl⟩, hgood.live, ?_⟩
      rw [Tracer.asked, hanswer, getregsVanished_cons (by simp)]
      exact hgood.answered
    refine .inl ⟨hgood', c, hgood.tableOk.blockAt_of_hashFind hfind, ?_⟩
    rw [(hashFind_eq_some hfind).2]
    refine ⟨mid, status, older, ?_, fun answer hmem => hmid _ hmem⟩
    simp [Tracer.asked, hanswer, htrace]
  | error e =>
    refine Triple.ite (fun he => ?_) (fun he => ?_)
    · -- `ESRCH`: the entry is deleted, and what is handed on is the pointer that was found before
      subst he
      refine Triple.intro ?_ ?_
      · rintro _ a s' ⟨s, ⟨⟨hgood, -⟩, hfind⟩, hanswer, rfl⟩ hrun
        rw [bind_apply_ok (deleteProcess_apply _ _)] at hrun
        cases hrun
        refine ⟨⟨pid, ?_⟩, blockAt_deleted hfind⟩
        rw [trace_deleted, Tracer.asked, hanswer]
        exact List.mem_cons_of_mem _ List.mem_cons_self
      · rintro _ e s' - hrun
        rw [bind_apply_ok (deleteProcess_apply _ _)] at hrun
        cases hrun
    · -- any other error ends the run before `handle_syscall` is called
      refine Triple.throw ?_
      rintro _ ⟨s, ⟨⟨hgood, -⟩, -⟩, hanswer, rfl⟩
      refine ⟨fun _ => ?_, fun _ => hgood.live⟩
      rw [Tracer.asked, hanswer, getregsVanished_cons (by simp [he])]
      exact hgood.answered

theorem triple_lookUpStop (scan : Nat) (pid : PidT) :
    Triple (fun s => Good s ∧ AtStop pid s.trace) (lookUpStop K scan pid) Dispatched
      (fun _ => Verdict) := by
  refine Triple.bind (Q := fun child s => (Good s ∧ AtStop pid s.trace) ∧
    child = (hashFind s.processTable pid).map ChildProcess.addr) (fun s hs => ⟨hs, rfl⟩)
    fun child => ?_
  cases child with
  | none =>
    refine Triple.bind ((triple_atStop (Helper.aside (helper_procInit K scan pid)) pid).conseq
      (fun _ hs => hs.1) (fun _ _ hs => hs) fun _ _ hs => hs) fun _ => ?_
    refine Triple.bind (triple_atStop (aside_insertProcess K pid) pid) fun _ => ?_
    exact Triple.pure fun s hs => hs.1
  | some child =>
    rintro s ⟨hs, hchild⟩
    obtain ⟨c, hfind, rfl⟩ := Option.map_eq_some_iff.mp hchild.symm
    refine Triple.bind (triple_readRegs K) (fun reply => ?_) s ⟨hs, hfind⟩
    cases reply with
    | some regs => exact Triple.pure fun s hs => hs
    | none => exact fun s hs => .inr hs

theorem triple_dispatchStop (scan : Nat) (pid : PidT) (status : Status) :
    Triple (fun s => Good s ∧ AtStop pid s.trace) (dispatchStop K scan pid status) Dispatched
      (fun _ => Verdict) := by
  refine Triple.ite (fun _ => ?_) (fun _ => Triple.ite (fun _ => ?_) (fun _ => ?_))
  · refine Triple.bind (triple_atStop (aside_deleteProcess pid) pid) fun _ => ?_
    exact Triple.pure fun s hs => hs.1
  · refine Triple.bind (triple_atStop (Helper.aside (helper_procInit K scan pid)) pid) fun _ => ?_
    exact Triple.pure fun s hs => hs.1
  · -- the new process is registered before the stop is looked up
    have hregister : Within Aside (registerForkEvent K pid status) :=
      Within.ite (fun _ => aside_registerNewChild K pid) (fun _ => Within.pure _)
    exact Triple.bind (triple_atStop hregister pid) fun _ => triple_lookUpStop K scan pid

/-- The wait of the loop is no read of registers. -/
theorem Good.waited {s : Tracer W} (h : Good s) : Good (s.waited K none) := by
  refine ⟨h.tableOk.tableKept ⟨rfl, rfl, rfl⟩, h.live, ?_⟩
  rw [Tracer.waited, getregsVanished_cons (by simp)]
  exact h.answered

theorem triple_receiveStop (scan : Nat) :
    Triple Good (receiveStop K scan) Dispatched (fun _ => Verdict) := by
  refine Triple.bind (Q := fun answer s => Good s ∧ ∀ pid status, answer = .ok (pid, status) →
    AtStop pid s.trace) ?_ fun answer => ?_
  · intro s hs
    rw [waitpid_apply]
    cases hanswer : (K.waitpid none s.os).1 with
    | none => exact hs.waited K |>.verdict
    | some answer =>
      refine ⟨hs.waited K, fun pid status h => ⟨[], status, s.trace, ?_, by simp⟩⟩
      simp [Tracer.waited, hanswer, h]
  · cases answer with
    | error e =>
      exact Triple.ite (fun _ => Triple.pure fun s hs => hs.1)
        (fun _ => Triple.throw fun s hs => hs.1.verdict)
    | ok p =>
      obtain ⟨pid, status⟩ := p
      exact (triple_dispatchStop K scan pid status).conseq
        (fun s hs => ⟨hs.1, hs.2 pid status rfl⟩) (fun _ _ hs => hs) (fun _ _ hs => hs)

/-- On what an iteration hands it, `handle_syscall` keeps the invariant or ends the run. -/
theorem triple_handleSyscall (child : Ptr) (regs : UserRegsStruct) :
    Triple (Handed child regs) (handleSyscall K child regs) (fun _ => Good)
      (fun _ => Verdict) := by
  -- the call itself becomes part of the record, with a live entry
  have hlive : ∀ {s : Tracer W}, Good s →
      (∃ c, blockAt s.processTable child = some c ∧ ReadAtStop c.pid regs s.trace) →
      Good (finalState (handleSyscall K child regs s)) := by
    rintro s hgood ⟨c, hblock, hread⟩
    have hnoted : Good (s.noted (.handleSyscall child regs)) := by
      refine ⟨hgood.tableOk.tableKept ⟨rfl, rfl, rfl⟩, ⟨⟨c, hblock, hread⟩, hgood.live⟩, ?_⟩
      rw [Tracer.noted, getregsVanished_cons (by simp)]
      exact hgood.answered
    exact hnoted.aside (within_handleSyscall K regs hblock).aside
  -- or with a stale one, and then a read of registers has vanished before
  have hstale : ∀ {s : Tracer W}, GetregsVanished s.trace → blockAt s.processTable child = none →
      Verdict (s.noted (.handleSyscall child regs)) := by
    rintro s ⟨p, hp⟩ hblock
    refine ⟨fun hentries => ?_, fun h => absurd ⟨p, List.mem_cons_of_mem _ hp⟩ h⟩
    obtain ⟨⟨c, hc, -⟩, -⟩ := hentries
    rw [hblock] at hc
    cases hc
  refine Triple.intro ?_ ?_
  · rintro s a s' (⟨hgood, hentry⟩ | ⟨hvanished, hblock⟩) hrun
    · have := hlive hgood hentry
      rwa [hrun] at this
    · rw [handleSyscall_stale K hblock] at hrun
      cases hrun
  · rintro s e s' (⟨hgood, hentry⟩ | ⟨hvanished, hblock⟩) hrun
    · have := hlive hgood hentry
      rw [hrun] at this
      exact this.verdict
    · rw [handleSyscall_stale K hblock] at hrun
      cases hrun
      exact hstale hvanished hblock

/-- One turn of the loop keeps the invariant or ends the run. -/
theorem triple_handleEventTurn (scan : Nat) :
    Triple Good (handleEventTurn K scan ())
      (fun r s => r.elim (fun _ => Good s) (fun _ => Verdict s)) (fun _ => Verdict) := by
  refine Triple.bind (Q := fun _ => Good) (fun s hs => hs) fun empty => ?_
  refine Triple.ite (fun _ => Triple.pure fun s hs => hs.verdict) (fun _ => ?_)
  refine Triple.bind (triple_receiveStop K scan) fun dispatch => ?_
  match dispatch with
  | .next => exact Triple.pure fun s hs => hs
  | .stop => exact Triple.pure fun s hs => hs.verdict
  | .hook pid child regs =>
    refine Triple.bind (triple_handleSyscall K child regs) fun _ => ?_
    refine Triple.bind (triple_good (aside_ptraceDelete_syscall K pid)) fun _ => ?_
    exact Triple.pure fun s hs => hs

theorem triple_handleEvent (scan n : Nat) :
    Triple Good (handleEvent K scan n) (fun _ => Verdict) (fun _ => Verdict) :=
  Triple.loop (I := fun _ => Good) (fun _ => triple_handleEventTurn K scan)
    (fun _ _ hs => hs.verdict) n ()

/-! ### Every run -/

/-- In every run, every call of `handle_syscall` has a live entry and registers read at the current
stop exactly when no `PTRACE_GETREGS` was answered `ESRCH`. -/
theorem traceChild_liveEntries_iff (scan n : Nat) (childPid : PidT) (os : W) :
    LiveEntries (finalState (traceChild K scan n childPid (Tracer.start os))).trace ↔
      ¬GetregsVanished (finalState (traceChild K scan n childPid (Tracer.start os))).trace := by
  have hrun : Triple (Good (W := W)) (traceChild K scan n childPid) (fun _ => Verdict)
      (fun _ => Verdict) := by
    have hask : Within Aside (ptrace K (.syscall childPid 0)) :=
      Helper.aside (helper_ptrace K ⟨rfl, nofun⟩)
    refine Triple.bind (triple_good (aside_insertProcess K childPid)) fun _ => ?_
    refine Triple.bind (triple_good hask) fun answer => ?_
    cases answer with
    | ok _ => exact triple_handleEvent K scan n
    | error _ => exact Triple.pure fun s hs => hs.verdict
  have hend := hrun _ (good_start os)
  cases h : traceChild K scan n childPid (Tracer.start os) with
  | ok a s => rw [h] at hend; exact hend
  | error e s => rw [h] at hend; exact hend

/-- The first task enters a call and is killed when the loop has seen that stop. -/
def killedAtStop : Linux.Env
  | 1, _ => ⟨[.enter 100 { (default : UserRegsStruct) with origRax := NR_getrandom }], 100⟩
  | 2, _ => ⟨[.die 100 9], 100⟩
  | _, _ => ⟨[], 100⟩

/-- The task is gone when its registers are read, and `handle_syscall` is called with the freed
entry. -/
theorem not_liveEntries_killedAtStop :
    ¬LiveEntries (finalState (Linux.Boot.sample.run killedAtStop 1 1)).trace := by
  intro h
  have hcall : (∃ c, blockAt [] 0 = some c ∧ _) ∧ _ := h
  obtain ⟨⟨c, hc, -⟩, -⟩ := hcall
  cases hc

end Reproduce
