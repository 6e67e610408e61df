import Reproduce.Linux.Equiv.Quiet
import Reproduce.Linux.Equiv.Runs
import Reproduce.Tracer.Equiv.Phases

/-!
# Settled states

At every head of the loop the tasks that are not in the process table are quiet (`Settled`), and
every task has a property that the run keeps.  The parts of a turn keep this one by one; what
remains to be shown is that `handle_syscall` leaves the process so that it can be resumed
(`Handled`, `settled_turn`).
-/

namespace Reproduce.Linux

open Bytes Effect

variable {N S : Task → Prop} {tracked : PidT → Prop} {w w' : World} {pid q : PidT} {t t' : Task}

/-! ### Parts of a turn -/

/-- The process has an entry. -/
def HasEntry (table : List ChildProcess) (pid : PidT) : Prop := ∃ c ∈ table, c.pid = pid

/-- Every task has the property `N`. -/
def Every (N : Task → Prop) (w : World) : Prop := ∀ q t, w.task q = some t → N t

theorem Orderly.every (h : Orderly N tracked w) : Every N w := fun q t ht => (h q t ht).1

/-- The table is well-formed, and the processes that are not in it are quiet. -/
def Settled (N : Task → Prop) (s : Tracer World) : Prop :=
  TableOk s ∧ Orderly N (HasEntry s.processTable) s.os

theorem hasEntry_of_hashFind {table : List ChildProcess} {c : ChildProcess}
    (h : hashFind table pid = some c) : HasEntry table pid := ⟨c, hashFind_eq_some h⟩

theorem not_hasEntry {table : List ChildProcess} (h : hashFind table pid = none) :
    ¬HasEntry table pid := by
  rintro ⟨c, hc, hpid⟩
  exact hashFind_eq_none.mp h c hc hpid

/-- What a program that leaves the table alone makes of the tasks, whatever the table is. -/
theorem triple_overTable {α : Type} {m : TracerM World α} {J : List ChildProcess → World → Prop}
    {R : List ChildProcess → α → World → Prop} {E : Halt → Tracer World → Prop}
    (h : ∀ table, Triple (fun s => J table s.os) m (fun a s => R table a s.os) E)
    (hm : Within TableKept m) :
    Triple (fun s => TableOk s ∧ J s.processTable s.os) m
      (fun a s => TableOk s ∧ R s.processTable a s.os) E := by
  refine Triple.intro ?_ ?_
  · rintro s a s' ⟨hok, hJ⟩ hrun
    have hkept := hm.ok hrun
    refine ⟨hok.tableKept hkept, ?_⟩
    rw [hkept.processTable]
    exact (h s.processTable).ok hJ hrun
  · rintro s e s' ⟨hok, hJ⟩ hrun
    exact (h s.processTable).error hJ hrun

theorem Helper.tableKept {α : Type} {m : TracerM World α} {p : PidT}
    (h : Within (Helper p) m) : Within TableKept m := h.mono fun _ _ hh => hh.1

/-- A quiet task is at no entry stop. -/
theorem Task.Quiet.ne_entry (h : t.Quiet) {stop : Stop} (hstop : t.stop? = some stop) :
    stop ≠ .syscallEntry := by
  rcases h with hkernel | hparked
  · simp [Task.stop?, hkernel] at hstop
  · exact hparked.of_stop? hstop

variable {J R : World → Prop} {E : Halt → Tracer World → Prop} {env : Env} {scan : Nat}

theorem perform_syscall_ok {stop : Stop} (hstop : t.stop? = some stop) (p : PidT) (data : Word) :
    ∃ reply, (w.perform t (.syscall p data)).1 = .ok reply := by
  unfold World.perform
  dsimp only
  rw [hstop]
  exact ⟨(), rfl⟩

variable (env)

/-- The resumption of a process. -/
theorem Abides.triple_resume (h : Abides J)
    (hresume : ∀ w t stop, J w → w.task pid = some t → t.stop? = some stop →
      R (w.setTask pid (some (t.resume stop 0))))
    (hgone : ∀ w, J w → Only pid (fun t => t.isStopped = false) w → R w) :
    Triple (fun s => J s.os) (ptraceReturn (kernel env) (.syscall pid 0))
      (fun _ s => R s.os) E := by
  have hperform : ∀ w t, J w → w.task pid = some t → t.isStopped = true →
      (∃ reply, (w.perform t (.syscall pid 0)).1 = .ok reply) ∧
        R (w.perform t (.syscall pid 0)).2 := by
    intro w t hw ht hstop
    obtain ⟨stop, hstop⟩ := stop?_of_isStopped hstop
    refine ⟨perform_syscall_ok hstop pid 0, ?_⟩
    rw [perform_syscall_snd pid 0 hstop]
    exact hresume w t stop hw ht hstop
  have hrun := h.triple_ptraceReturn env (r := .syscall pid 0) (R := R) (L := R) hperform hgone E
  refine hrun.conseq (fun _ hs => hs) (fun more s hs => ?_) (fun _ _ he => he)
  cases more <;> exact hs

/-- `proc_init` looks at the process, changes its memory and resumes it at the end. -/
theorem Abides.triple_procInit (h : Abides J)
    (hresume : ∀ w t stop, J w → w.task pid = some t → t.stop? = some stop →
      R (w.setTask pid (some (t.resume stop 0))))
    (hgone : ∀ w, J w → Only pid (fun t => t.isStopped = false) w → R w)
    (hE : ∀ e s, J s.os → E e s) (scan : Nat) :
    Triple (fun s => J s.os) (procInit (kernel env) scan pid) (fun _ s => R s.os) E := by
  have hremove : Within (Preserves fun s : Tracer World => J s.os)
      (removeVdso (kernel env) scan pid) :=
    fun s hs => (h.pokes env pid).removeVdso_from scan s hs
  refine Triple.bind (hremove.triple hE) fun _ => ?_
  exact Triple.bind (h.triple_resume env hresume hgone) fun _ => Triple.pure fun _ hs => hs

variable {env}

/-- The resumption of a quiet process that is tracked. -/
theorem orderly_resume (hN : Norm N) (h : Orderly N tracked w) (hpid : tracked pid)
    (ht : w.task pid = some t) (hquiet : t.Quiet) {stop : Stop} (hstop : t.stop? = some stop) :
    Orderly N tracked (w.setTask pid (some (t.resume stop 0))) :=
  h.setTask (hN.resume (h pid t ht).1 hstop (hquiet.ne_entry hstop)) fun hnot => absurd hpid hnot

/-- A report is no change. -/
theorem orderly_reported (hN : Norm N) (h : Orderly N tracked w) {status : Status}
    (hreported : Reported w pid status w') : Orderly N tracked w' := by
  cases hreported with
  | stopped ht hstate =>
    obtain ⟨hnorm, hquiet⟩ := h _ _ ht
    exact h.setTask (hN.report hnorm hstate) fun hq => local_quiet.report (hquiet hq) hstate
  | reaped ht hstate hlast => exact h.unsetTask

theorem only_reported (hS : Local S) (h : Only pid S w) {status : Status}
    (hreported : Reported w pid status w') : Only pid S w' := by
  cases hreported with
  | stopped ht hstate => exact only_setTask (hS.report (h _ ht) hstate)
  | reaped ht hstate hlast =>
    intro u hu
    rw [World.task_setTask_self] at hu
    cases hu

theorem abides_quiet (pid : PidT) : Abides (Only pid Task.Quiet) :=
  abides_only local_quiet quiet_newborn pid

variable {s s' : Tracer World}

/-- A process that is not tracked gets an entry. -/
theorem Settled.inserted (h : TableOk s)
    (hw : Orderly N (fun q => HasEntry s.processTable q ∨ q = pid) s.os)
    {added : Bool} (hfree : hashFind s.processTable pid = none)
    (hrun : insertProcess (kernel env) pid s = .ok added s') :
    added = true ∧ Settled N s' ∧ HasEntry s'.processTable pid ∧ s'.os = s.os := by
  rw [insertProcess_eq, if_neg (by rw [hfree]; exact Bool.false_ne_true)] at hrun
  split at hrun
  · cases hrun
    have hallocated : TableOk (s.allocated (kernel env) pid) := h.tableKept ⟨rfl, rfl, rfl⟩
    refine ⟨rfl, ⟨hallocated.inserted hfree, hw.mono ?_⟩, ⟨_, .head _, rfl⟩, rfl⟩
    rintro q (⟨c, hc, hq⟩ | rfl)
    · exact ⟨c, .tail _ hc, hq⟩
    · exact ⟨_, .head _, rfl⟩
  · cases hrun

/-- An insertion that ends the tracer leaves the tasks alone. -/
theorem insertProcess_error {e : Halt} (hrun : insertProcess (kernel env) pid s = .error e s') :
    s'.os = s.os := by
  rw [insertProcess_eq] at hrun
  split at hrun
  · cases hrun
  · split at hrun
    · cases hrun
    · cases hrun
      rfl

/-! ### Registration -/

/-- The table and the tasks when a new process is waited for. -/
def Entering (N : Task → Prop) (child : PidT) (table : List ChildProcess) (w : World) : Prop :=
  (Orderly N (HasEntry table) w ∧ Only child Task.Quiet w) ∧ HasEntry table child

theorem abides_entering (hN : Norm N) (child : PidT) (table : List ChildProcess) :
    Abides (Entering N child table) :=
  ((abides_orderly hN _).and (abides_quiet child)).and (abides_const _)

theorem Entering.resume (hN : Norm N) {table : List ChildProcess} (h : Entering N pid table w)
    (ht : w.task pid = some t) {stop : Stop} (hstop : t.stop? = some stop) :
    Orderly N (HasEntry table) (w.setTask pid (some (t.resume stop 0))) :=
  orderly_resume hN h.1.1 h.2 ht (h.1.2 t ht) hstop

variable (env)

/-- An insertion, and the new process if there is one. -/
theorem settled_insertProcess (child : PidT) :
    Triple (Settled N) (insertProcess (kernel env) child)
      (fun added s => Settled N s ∧
        (added = true → TableOk s ∧ Entering N child s.processTable s.os))
      (fun _ s => Every N s.os) := by
  refine Triple.intro (fun s added s' hs hrun => ?_) (fun s e s' hs hrun => ?_)
  · -- a process without an entry is quiet; one with an entry is not inserted again
    by_cases hfree : hashFind s.processTable child = none
    · obtain ⟨-, hsettled, htracked, hos⟩ :=
        Settled.inserted hs.1 (hs.2.mono fun q hq => .inl hq) hfree hrun
      refine ⟨hsettled, fun _ => ⟨hsettled.1, ⟨hsettled.2, ?_⟩, htracked⟩⟩
      rw [hos]
      exact fun t ht => (hs.2 child t ht).2 (not_hasEntry hfree)
    · rw [insertProcess_eq, if_pos (Option.isSome_iff_ne_none.mpr hfree)] at hrun
      cases hrun
      exact ⟨hs, nofun⟩
  · rw [insertProcess_error hrun]
    exact hs.2.every

theorem settled_registerNewChild (hN : Norm N) (pid : PidT) :
    Triple (Settled N) (registerNewChild (kernel env) pid) (fun _ => Settled N)
      (fun _ s => Every N s.os) := by
  have hmessage : Triple (Settled N) (ptrace (kernel env) (.geteventmsg pid)) (fun _ => Settled N)
      (fun _ s => Every N s.os) := by
    refine triple_overTable (J := fun table => Orderly N (HasEntry table))
      (R := fun table _ => Orderly N (HasEntry table)) (fun table => ?_)
      fun _ => ⟨rfl, rfl, rfl⟩
    refine ((abides_orderly hN _).within_ptrace env fun w t hw _ _ => ?_).triple
      fun _ _ hs => hs.every
    rw [perform_geteventmsg_snd]
    exact hw
  refine Triple.bind hmessage fun answer => ?_
  cases answer with
  | error e =>
    exact Triple.ite (fun _ => Triple.pure fun _ hs => hs) fun _ =>
      Triple.throw fun _ hs => hs.2.every
  | ok message =>
    refine Triple.bind (settled_insertProcess env _) fun added => ?_
    refine Triple.ite (fun hadded => ?_) (fun _ => Triple.pure fun _ hs => hs.1)
    -- the new process stays quiet until its first stop is reported, and then it is resumed
    have hwait : Triple (fun s => TableOk s ∧ Entering N (childOf message) s.processTable s.os)
        (waitpidOrExit (kernel env) (childOf message))
        (fun _ s => TableOk s ∧ Entering N (childOf message) s.processTable s.os)
        (fun _ s => Every N s.os) := by
      refine triple_overTable (J := Entering N (childOf message))
        (R := fun table _ => Entering N (childOf message) table) (fun table => ?_)
        (Helper.tableKept (within_waitpidOrExit (helper_requests (kernel env) _).wait))
      refine (abides_entering hN _ table).triple_waitpidOrExit env
        (fun w status w' hw hreported => ?_)
        fun _ _ hs => hs.1.1.every
      exact ⟨⟨orderly_reported hN hw.1.1 hreported,
        only_reported local_quiet hw.1.2 hreported⟩, hw.2⟩
    have hresume : Triple (fun s => TableOk s ∧ Entering N (childOf message) s.processTable s.os)
        (ptraceReturn (kernel env) (.syscall (childOf message) 0)) (fun _ => Settled N)
        (fun _ s => Every N s.os) := by
      refine triple_overTable (J := Entering N (childOf message))
        (R := fun table _ => Orderly N (HasEntry table)) (fun table => ?_)
        (Helper.tableKept (within_ptraceReturn (helper_requests (kernel env) _).resume))
      exact (abides_entering hN _ table).triple_resume env
        (fun w t stop hw ht hstop => hw.resume hN ht hstop)
        fun w hw _ => hw.1.1
    have hrest : Triple (fun s => TableOk s ∧ Entering N (childOf message) s.processTable s.os)
        (waitpidOrExit (kernel env) (childOf message) >>= fun _ =>
          ptraceReturn (kernel env) (.syscall (childOf message) 0) >>= fun _ => pure ())
        (fun _ => Settled N) (fun _ s => Every N s.os) :=
      Triple.bind hwait fun _ => Triple.bind hresume fun _ => Triple.pure fun _ hs => hs
    exact fun s hs => hrest s (hs.2 hadded)

theorem settled_registerForkEvent (hN : Norm N) (pid : PidT) (status : Status) :
    Triple (Settled N) (registerForkEvent (kernel env) pid status) (fun _ => Settled N)
      (fun _ s => Every N s.os) :=
  Triple.ite (fun _ => settled_registerNewChild env hN pid) (fun _ => Triple.pure fun _ hs => hs)

/-! ### Receiving a stop -/

/-- What the wait of the loop has reported. -/
def Received (N : Task → Prop) (pid : PidT) (status : Status) (s : Tracer World) : Prop :=
  Settled N s ∧ ((terminated status = true ∧ s.os.task pid = none) ∨
    ∃ t stop, s.os.task pid = some t ∧ t.stop? = some stop ∧ status = stop.status)

/-- What the wait of the loop has answered. -/
def Awaited (N : Task → Prop) : Except Errno (PidT × Status) → Tracer World → Prop
  | .ok p, s => Received N p.1 p.2 s
  | .error _, s => Settled N s

theorem settled_wait (hN : Norm N) :
    Triple (Settled N) (waitpid (kernel env) none) (Awaited N) (fun _ s => Every N s.os) := by
  rintro s ⟨hok, hw⟩
  have hasked := (abides_orderly hN _).asked env hw (.wait none)
  have hok' : TableOk (s.waited (kernel env) none) := hok.tableKept ⟨rfl, rfl, rfl⟩
  have hos : (s.waited (kernel env) none).os = (World.waitpid env none s.os).2 := rfl
  rw [waitpid_apply]
  -- no answer, an error, or a report
  cases hanswer : ((kernel env).waitpid none s.os).1 with
  | none =>
    show Every N (s.waited (kernel env) none).os
    rw [hos, waitpid_unreported env fun q status h => by cases hanswer.symm.trans h]
    exact hasked.every
  | some answer =>
    cases answer with
    | error e =>
      refine ⟨hok', ?_⟩
      rw [hos, waitpid_unreported env fun q status h => by cases hanswer.symm.trans h]
      exact hasked
    | ok p =>
      obtain ⟨pid, status⟩ := p
      obtain ⟨hreported, -⟩ := waitpid_reported env hanswer
      refine ⟨⟨hok', orderly_reported hN hasked hreported⟩, ?_⟩
      rw [hos]
      generalize (World.waitpid env none s.os).2 = w' at hreported
      cases hreported with
      | stopped ht hstate => exact .inr ⟨_, _, World.task_setTask_self .., rfl, rfl⟩
      | reaped ht hstate hlast =>
        exact .inl ⟨hN.died (hasked _ _ ht).1 hstate, World.task_setTask_self ..⟩

/-- The entry of a quiet process is deleted. -/
theorem Settled.deleted (h : Settled N s) (hquiet : Only pid Task.Quiet s.os) :
    Settled N (s.deleted pid) := by
  refine ⟨h.1.deleted pid, fun q t ht => ?_⟩
  rw [os_deleted] at ht
  obtain ⟨hnorm, huntracked⟩ := h.2 q t ht
  refine ⟨hnorm, fun hnot => ?_⟩
  -- the process that loses its entry is quiet; the others keep theirs
  by_cases hq : q = pid
  · subst hq
    exact hquiet t ht
  · refine huntracked fun ⟨c, hc, hpid⟩ => hnot ⟨c, ?_, hpid⟩
    rw [h.1.processTable_deleted]
    exact List.mem_filter.mpr ⟨hc, by simpa [hpid] using hq⟩

/-- The status of an exec stop is that of an event stop. -/
theorem event_of_isExecStop {stop : Stop} (h : isExecStop stop.status = true) :
    ∃ e message, stop = .event e message := by
  cases stop with
  | event e message => exact ⟨e, message, rfl⟩
  | initial => cases h
  | syscallEntry => cases h
  | syscallExit => cases h
  | signal sig =>
    have hevent : eventOf (stopStatus 0 sig) = PTRACE_EVENT_EXEC := by
      simpa [isExecStop, Stop.status] using h
    rw [eventOf_stopStatus] at hevent
    cases hevent

/-- A stop that is handed to `handle_syscall`: the process is tracked and stopped, and the registers
are its own. -/
structure Ready (N : Task → Prop) (pid : PidT) (child : Ptr) (regs : UserRegsStruct)
    (s : Tracer World) : Prop where
  settled : Settled N s
  entry : ∃ c, hashFind s.processTable pid = some c ∧ c.addr = child
  task : ∃ t, s.os.task pid = some t ∧ t.isStopped = true ∧ t.regs = regs

/-- How an iteration goes on. -/
def Dispatched (N : Task → Prop) : Dispatch → Tracer World → Prop
  | .next, s | .stop, s => Settled N s
  | .hook pid child regs, s =>
    Ready N pid child regs s ∨ (blockAt s.processTable child = none ∧ Every N s.os)

/-- The tasks before the resumption of a process that is about to get an entry. -/
def Joining (N : Task → Prop) (pid : PidT) (table : List ChildProcess) (w : World) : Prop :=
  (Orderly N (fun q => HasEntry table q ∨ q = pid) w ∧ Only pid Task.Quiet w) ∧
    hashFind table pid = none

theorem settled_unexpected (hN : Norm N) (pid : PidT) (scan : Nat) :
    Triple (fun s => Settled N s ∧ hashFind s.processTable pid = none)
      (procInit (kernel env) scan pid >>= fun _ => insertProcess (kernel env) pid)
      (fun _ => Settled N) (fun _ s => Every N s.os) := by
  -- the process is resumed before it gets its entry
  have hinit : Triple (fun s => TableOk s ∧ Joining N pid s.processTable s.os)
      (procInit (kernel env) scan pid)
      (fun _ s => TableOk s ∧ (Orderly N (fun q => HasEntry s.processTable q ∨ q = pid) s.os ∧
        hashFind s.processTable pid = none)) (fun _ s => Every N s.os) := by
    refine triple_overTable (J := Joining N pid)
      (R := fun table _ w =>
        Orderly N (fun q => HasEntry table q ∨ q = pid) w ∧ hashFind table pid = none)
      (fun table => ?_) (Helper.tableKept (helper_procInit (kernel env) scan pid))
    have habides : Abides (Joining N pid table) :=
      ((abides_orderly hN _).and (abides_quiet pid)).and (abides_const _)
    refine habides.triple_procInit env
      (R := fun w =>
        Orderly N (fun q => HasEntry table q ∨ q = pid) w ∧ hashFind table pid = none)
      (fun w t stop hw ht hstop => ⟨?_, hw.2⟩) (fun w hw _ => ⟨hw.1.1, hw.2⟩)
      (fun _ _ hs => hs.1.1.every) scan
    exact orderly_resume hN hw.1.1 (.inr rfl) ht (hw.1.2 t ht) hstop
  have hinsert : Triple
      (fun s => TableOk s ∧ (Orderly N (fun q => HasEntry s.processTable q ∨ q = pid) s.os ∧
        hashFind s.processTable pid = none))
      (insertProcess (kernel env) pid) (fun _ => Settled N) (fun _ s => Every N s.os) := by
    refine Triple.intro (fun s added s' hs hrun => ?_) (fun s e s' hs hrun => ?_)
    · exact (Settled.inserted hs.1 hs.2.1 hs.2.2 hrun).2.1
    · rw [insertProcess_error hrun]
      exact hs.2.1.every
  refine (Triple.bind hinit fun _ => hinsert).conseq (fun s hs => ?_)
    (fun _ _ hs => hs) fun _ _ he => he
  refine ⟨hs.1.1, ⟨hs.1.2.mono fun q hq => .inl hq, fun t ht => ?_⟩, hs.2⟩
  exact (hs.1.2 pid t ht).2 (not_hasEntry hs.2)

/-- The registers of a tracked process are read. -/
theorem settled_registers (hN : Norm N) (pid : PidT) (c : ChildProcess) :
    Triple (fun s => Settled N s ∧ hashFind s.processTable pid = some c)
      (ptrace (kernel env) (.getregs pid))
      (fun answer s => (∃ regs, answer = .ok regs ∧ Ready N pid c.addr regs s) ∨
        answer = .error .ESRCH ∧ Settled N s ∧ hashFind s.processTable pid = some c)
      (fun _ s => Every N s.os) := by
  let J : List ChildProcess → World → Prop := fun table w =>
    Orderly N (HasEntry table) w ∧ hashFind table pid = some c
  have hregs := triple_overTable (m := ptrace (kernel env) (.getregs pid)) (J := J)
    (E := fun _ s => Every N s.os)
    (R := fun table answer w =>
      (∃ regs, answer = .ok regs ∧ J table w ∧
        ∃ t, w.task pid = some t ∧ t.isStopped = true ∧ t.regs = regs) ∨
      (answer = .error .ESRCH ∧ J table w))
    (fun table =>
      ((abides_orderly hN (HasEntry table)).and (abides_const _)).triple_ptrace env
        (r := .getregs pid)
        (R := fun regs w => J table w ∧ ∃ t, w.task pid = some t ∧ t.isStopped = true ∧
          t.regs = regs)
        (L := J table) (fun w t hw ht hstop => ⟨t.regs, rfl, hw, t, ht, hstop, rfl⟩)
        (fun w hw _ => hw) _)
    fun _ => ⟨rfl, rfl, rfl⟩
  refine hregs.conseq (fun s hs => ⟨hs.1.1, hs.1.2, hs.2⟩) ?_ fun _ _ he => he
  rintro answer s ⟨hok, ⟨regs, rfl, ⟨hw, hfind⟩, htask⟩ | ⟨rfl, hw, hfind⟩⟩
  · exact .inl ⟨regs, rfl, ⟨hok, hw⟩, ⟨c, hfind, rfl⟩, htask⟩
  · exact .inr ⟨rfl, ⟨hok, hw⟩, hfind⟩

theorem settled_lookUpStop (hN : Norm N) (scan : Nat) (pid : PidT) :
    Triple (Settled N) (lookUpStop (kernel env) scan pid) (Dispatched N)
      (fun _ s => Every N s.os) := by
  intro s hs
  rw [lookUpStop, bind_apply_ok (findProcess_apply pid s)]
  cases hfind : hashFind s.processTable pid with
  | none =>
    have hunexpected := Triple.bind (settled_unexpected env hN pid scan) (R := Dispatched N)
      fun _ => Triple.pure (a := Dispatch.next) fun _ hs => hs
    have hsame := hunexpected s ⟨hs, hfind⟩
    rwa [bind_assoc] at hsame
  | some c =>
    refine Triple.bind
      (Q := fun reply s => (∃ regs, reply = some regs ∧ Ready N pid c.addr regs s) ∨
        reply = none ∧ blockAt s.processTable c.addr = none ∧ Every N s.os)
      (Triple.bind (settled_registers env hN pid c) fun answer => ?_)
      (fun reply => ?_) s ⟨hs, hfind⟩
    · cases answer with
      | ok regs =>
        refine Triple.pure fun s hs => ?_
        rcases hs with ⟨regs', hok, hready⟩ | ⟨herror, -⟩
        · cases hok
          exact .inl ⟨regs, rfl, hready⟩
        · cases herror
      | error e =>
        refine Triple.ite (fun _ => ?_) (fun he => Triple.throw fun s hs => ?_)
        · intro s hs
          rcases hs with ⟨regs', hok, -⟩ | ⟨-, hsettled, hfind⟩
          · cases hok
          · -- the process has vanished: its entry is deleted, but the pointer to it goes on
            rw [bind_apply_ok (deleteProcess_apply pid s)]
            refine .inr ⟨rfl, blockAt_deleted hfind, ?_⟩
            rw [os_deleted]
            exact hsettled.2.every
        · rcases hs with ⟨regs', hok, -⟩ | ⟨herror, -⟩
          · cases hok
          · cases herror
            exact absurd rfl he
    · cases reply with
      | some regs =>
        refine Triple.pure fun s hs => ?_
        rcases hs with ⟨regs', hsome, hready⟩ | ⟨hnone, -⟩
        · cases hsome
          exact .inl hready
        · cases hnone
      | none =>
        intro s hs
        rcases hs with ⟨regs', hsome, -⟩ | ⟨-, hstale⟩
        · cases hsome
        · exact .inr hstale

/-- An exec stop: the process goes on in its call. -/
theorem settled_execStop (hN : Norm N) (pid : PidT) (scan : Nat) :
    Triple (fun s => Settled N s ∧ Is pid Task.AtEvent s.os) (procInit (kernel env) scan pid)
      (fun _ => Settled N) (fun _ s => Every N s.os) := by
  have hinit : Triple (fun s => TableOk s ∧ (Orderly N (HasEntry s.processTable) s.os ∧
      Is pid Task.AtEvent s.os)) (procInit (kernel env) scan pid)
      (fun _ s => TableOk s ∧ Orderly N (HasEntry s.processTable) s.os)
      (fun _ s => Every N s.os) := by
    refine triple_overTable
      (J := fun table w => Orderly N (HasEntry table) w ∧ Is pid Task.AtEvent w)
      (R := fun table _ => Orderly N (HasEntry table)) (fun table => ?_)
      (Helper.tableKept (helper_procInit (kernel env) scan pid))
    -- a task at an event stop executes no program
    have hstay : ∀ t, Task.AtEvent t → t.state = .kernel true →
        isExecve t.regs.origRax = false := by
      rintro t (hdead | ⟨stop, hstop, -⟩) hstate
      · simp [Task.isDead, hstate] at hdead
      · simp [Task.stop?, hstate] at hstop
    have habides := (abides_orderly hN (HasEntry table)).and (abides_is local_atEvent hstay pid)
    refine habides.triple_procInit env (R := Orderly N (HasEntry table))
      (fun w t stop hw ht hstop => ?_) (fun w hw _ => hw.1) (fun _ _ hs => hs.1.every) scan
    obtain ⟨hnorm, -⟩ := hw.1 pid t ht
    obtain ⟨u, hu, hevent⟩ := hw.2
    cases ht.symm.trans hu
    obtain ⟨e, message, rfl⟩ := hevent.of_stop? hstop
    exact hw.1.setTask (hN.resume hnorm hstop (by rintro ⟨⟩)) fun _ => .inl rfl
  exact hinit.conseq (fun s hs => ⟨hs.1.1, hs.1.2, hs.2⟩) (fun _ _ hs => hs) fun _ _ he => he

theorem settled_dispatchStop (hN : Norm N) (scan : Nat) (pid : PidT) (status : Status) :
    Triple (Received N pid status) (dispatchStop (kernel env) scan pid status) (Dispatched N)
      (fun _ s => Every N s.os) := by
  refine Triple.ite (fun hdead => ?_) (fun hlive => Triple.ite (fun hexec => ?_) (fun _ => ?_))
  · -- the process is dead
    rintro s ⟨hsettled, hreport⟩
    rw [bind_apply_ok (deleteProcess_apply pid s)]
    refine hsettled.deleted fun t ht => ?_
    rcases hreport with ⟨-, hgone⟩ | ⟨u, stop, -, -, rfl⟩
    · exact absurd (ht.symm.trans hgone) nofun
    · rw [Stop.status.eq_def] at hdead
      cases stop <;> simp at hdead
  · -- an exec stop
    refine Triple.bind
      ((settled_execStop env hN pid scan).conseq ?_ (fun _ _ hs => hs) fun _ _ he => he)
      fun _ => Triple.pure fun _ hs => hs
    rintro s ⟨hsettled, ⟨hdead, -⟩ | ⟨t, stop, ht, hstop, rfl⟩⟩
    · exact absurd hdead hlive
    · obtain ⟨e, message, rfl⟩ := event_of_isExecStop hexec
      exact ⟨hsettled, t, ht, .inr ⟨_, hstop, e, message, rfl⟩⟩
  · -- any other stop, after the new process if it is a fork event
    refine Triple.bind ((settled_registerForkEvent env hN pid status).conseq (fun s hs => hs.1)
      (fun _ _ hs => hs) fun _ _ he => he) fun _ => settled_lookUpStop env hN scan pid

theorem settled_receiveStop (hN : Norm N) (scan : Nat) :
    Triple (Settled N) (receiveStop (kernel env) scan) (Dispatched N)
      (fun _ s => Every N s.os) := by
  refine Triple.bind (settled_wait env hN) fun answer => ?_
  cases answer with
  | error e =>
    exact Triple.ite (fun _ => Triple.pure fun _ hs => hs) fun _ =>
      Triple.throw fun _ hs => hs.2.every
  | ok p => exact settled_dispatchStop env hN scan p.1 p.2

/-! ### Turns -/

/-- Dead, or at a stop from which it can be resumed. -/
def Task.Resumable (N : Task → Prop) : Task → Prop :=
  Task.AtStop fun stop t => stop = .syscallEntry → N (t.resume .syscallEntry 0)

theorem local_resumable (hN : Norm N) : Local (Task.Resumable N) :=
  local_atStop (fun _ _ n h hstop => hN.poke n (h hstop)) (fun _ _ _ h hstop => h hstop)
    fun _ _ => nofun

/-- A process that can be resumed is resumed. -/
theorem Task.Resumable.resume (hN : Norm N) (h : t.Resumable N) (ht : N t) {stop : Stop}
    (hstop : t.stop? = some stop) : N (t.resume stop 0) := by
  by_cases hentry : stop = .syscallEntry
  · subst hentry
    exact h.of_stop? hstop rfl
  · exact hN.resume ht hstop hentry

/-- What `handle_syscall` leaves behind: the process can be resumed. -/
def Handled (N : Task → Prop) (pid : PidT) (s : Tracer World) : Prop :=
  Settled N s ∧ HasEntry s.processTable pid ∧ Only pid (Task.Resumable N) s.os

theorem hasEntry_iff {table : List ChildProcess} :
    HasEntry table pid ↔ pid ∈ table.map ChildProcess.pid := List.mem_map.symm

/-- A handler that returns keeps the pids of the table. -/
theorem Ready.handled {child : Ptr} {regs : UserRegsStruct} (h : Ready N pid child regs s)
    (hrun : handleSyscall (kernel env) child regs s = .ok () s')
    (hw : Orderly N (HasEntry s.processTable) s'.os)
    (hresumable : Only pid (Task.Resumable N) s'.os) : Handled N pid s' := by
  obtain ⟨c, hfind, rfl⟩ := h.entry
  have hblock := h.settled.1.blockAt_of_hashFind hfind
  have hhandler := within_handleSyscall (kernel env) regs hblock
  rw [hrun] at hhandler
  have hclock : ClockOnly c.addr s s' :=
    ⟨hhandler.1.processTable, hhandler.1.entryCount, hhandler.1.nextAddr⟩
  -- a handler changes clocks only
  have hsame : ∀ q, HasEntry s'.processTable q ↔ HasEntry s.processTable q := by
    intro q
    obtain ⟨f, hf⟩ := hclock.processTable
    rw [hasEntry_iff, hasEntry_iff, hf, map_retime _ fun _ _ => rfl]
  refine ⟨⟨h.settled.1.clockOnly hclock, hw.mono fun q hq => (hsame q).mpr hq⟩, ?_, hresumable⟩
  exact (hsame pid).mpr (hasEntry_of_hashFind hfind)

/-- The resumption at the end of an iteration. -/
theorem settled_resumed (hN : Norm N) (pid : PidT) :
    Triple (Handled N pid) (ptraceDelete (kernel env) (.syscall pid 0) pid) (fun _ => Settled N)
      (fun _ s => Every N s.os) := by
  let J : List ChildProcess → World → Prop := fun table w =>
    (Orderly N (HasEntry table) w ∧ Only pid (Task.Resumable N) w) ∧ HasEntry table pid
  -- a process that is born under this pid meanwhile can be resumed
  have hborn : ∀ t tgid mm rsp birth, Task.Resumable N (Task.newborn t tgid mm rsp birth) :=
    fun _ _ _ _ _ => .inr ⟨.initial, rfl, nofun⟩
  have hresume := triple_overTable (m := ptrace (kernel env) (.syscall pid 0)) (J := J)
    (E := fun _ s => Every N s.os) (R := fun table answer w =>
      (∃ reply, answer = .ok reply ∧ Orderly N (HasEntry table) w) ∨
      (answer = .error .ESRCH ∧ Orderly N (HasEntry table) w ∧ Only pid Task.Quiet w)) (fun table =>
      (((abides_orderly hN (HasEntry table)).and (abides_only (local_resumable hN) hborn pid)).and
        (abides_const _)).triple_ptrace env (r := .syscall pid 0)
        (R := fun _ => Orderly N (HasEntry table))
        (L := fun w => Orderly N (HasEntry table) w ∧ Only pid Task.Quiet w)
        (fun w t hw ht hstop => by
          obtain ⟨stop, hstop⟩ := stop?_of_isStopped hstop
          obtain ⟨reply, hreply⟩ := @perform_syscall_ok w t stop hstop pid 0
          refine ⟨reply, hreply, ?_⟩
          rw [perform_syscall_snd pid 0 hstop]
          have hnorm := (hw.1.2 t ht).resume hN (hw.1.1 pid t ht).1 hstop
          exact hw.1.1.setTask hnorm fun hnot => absurd hw.2 hnot)
        (fun w hw hstill => ⟨hw.1.1, fun t ht =>
          .inr (.inl (isDead_of_atStop (hw.1.2 t ht) (hstill t ht)))⟩) _) fun _ => ⟨rfl, rfl, rfl⟩
  refine Triple.bind
    (hresume.conseq (fun s hs => ⟨hs.1.1, ⟨hs.1.2, hs.2.2⟩, hs.2.1⟩) (fun _ _ hs => hs)
    fun _ _ he => he) fun answer => ?_
  cases answer with
  | ok reply =>
    refine Triple.pure fun s hs => ?_
    rcases hs with ⟨hok, ⟨_, -, hw⟩ | ⟨herror, -⟩⟩
    · exact ⟨hok, hw⟩
    · cases herror
  | error e =>
    refine Triple.ite (fun _ => ?_) (fun he => Triple.throw fun s hs => ?_)
    · rintro s ⟨hok, ⟨_, hreply, -⟩ | ⟨-, hw, hquiet⟩⟩
      · cases hreply
      · rw [bind_apply_ok (deleteProcess_apply pid s)]
        exact Settled.deleted ⟨hok, hw⟩ hquiet
    · rcases hs with ⟨hok, ⟨_, hreply, -⟩ | ⟨herror, -⟩⟩
      · cases hreply
      · cases herror
        exact absurd rfl he

/-- A turn settles when its call of `handle_syscall` does. -/
theorem settled_turn (hN : Norm N) (hs : Settled N s)
    (hhandle : ∀ pid child regs s₁, s.entryCount ≠ 0 →
      receiveStop (kernel env) scan s = .ok (.hook pid child regs) s₁ →
      Ready N pid child regs s₁ → Triple (fun s => s = s₁) (handleSyscall (kernel env) child regs)
        (fun _ => Handled N pid) (fun _ s => Every N s.os)) :
    Triple (fun s' => s' = s) (handleEventTurn (kernel env) scan ()) (fun _ => Settled N)
      (fun _ s => Every N s.os) := by
  intro s₀ hs₀
  rw [hs₀]
  have hempty : (isHashTableEmpty : TracerM World Bool) s = .ok (decide (s.entryCount = 0)) s := rfl
  rw [handleEventTurn, bind_apply_ok hempty]
  by_cases hcount : s.entryCount = 0
  · rw [if_pos (by simpa using hcount)]
    exact hs
  rw [if_neg (by simpa using hcount)]
  have hreceive := settled_receiveStop env hN scan
  cases hrun : receiveStop (kernel env) scan s with
  | error e s₁ =>
    rw [bind_apply_error hrun]
    exact hreceive.error hs hrun
  | ok dispatch s₁ =>
    rw [bind_apply_ok hrun]
    have hdispatched := hreceive.ok hs hrun
    cases dispatch with
    | next => exact hdispatched
    | stop => exact hdispatched
    | hook pid child regs =>
      -- the entry is there and the stop can be handled, or it is stale and the tracer ends
      rcases hdispatched with hready | ⟨hstale, hevery⟩
      · have hrest := Triple.bind (hhandle pid child regs s₁ hcount hrun hready) fun _ =>
          Triple.bind (settled_resumed env hN pid) (R := fun _ => Settled N) fun _ =>
            Triple.pure (a := (Sum.inl () : Unit ⊕ Unit)) fun _ hs => hs
        exact hrest s₁ rfl
      · dsimp only
        rw [bind_apply_error (handleSyscall_stale (kernel env) hstale)]
        exact hevery

end Reproduce.Linux
