import Reproduce.Tracer.Equiv.Turn

/-!
# The parts of a turn

`Parts` lists what a turn of the loop is made of, with `proc_init` and `handle_syscall` taken whole.
What each of these keeps, every run keeps (`Parts.triple_traceChild`).  The process table stays in
order (`tableOk_parts`), and the message of an event is asked for only when a fork event has just
been reported (`asks_traceChild`).

For the relations `Extends φ`, the primitives are gone through once for all `φ`.
-/

namespace Reproduce

open Effect

variable {W : Type} (K : Kernel W)

/-! ### Events -/

section events

variable {φ : Event W → Prop}

theorem Extends.suffix {s s' : Tracer W} (h : Extends φ s s') : s.trace <:+ s'.trace := by
  obtain ⟨new, htrace, -⟩ := h
  exact ⟨new, htrace.symm⟩

/-- What events with `φ` keep. -/
theorem Extends.keeps {s s' : Tracer W} (h : Extends φ s s') {P : List (Event W) → Prop}
    (hcons : ∀ e trace, φ e → P trace → P (e :: trace)) (hs : P s.trace) : P s'.trace := by
  obtain ⟨new, htrace, hnew⟩ := h
  rw [htrace]
  clear htrace
  induction new with
  | nil => exact hs
  | cons e new ih =>
    exact hcons e _ (hnew e List.mem_cons_self)
      (ih fun e' he' => hnew e' (List.mem_cons_of_mem _ he'))

theorem extends_one {s s' : Tracer W} {e : Event W} (htrace : s'.trace = e :: s.trace) (he : φ e) :
    Extends φ s s' :=
  ⟨[e], htrace, fun _ he' => List.mem_singleton.mp he' ▸ he⟩

theorem extends_ptrace {r : Request} (hr : ∀ answer, φ (.ptrace r answer)) :
    Within (Extends φ) (ptrace K r) :=
  fun _ => extends_one rfl (hr _)

theorem extends_waitpid {target : WaitTarget} (htarget : ∀ answer, φ (.wait target answer)) :
    Within (Extends φ) (waitpid K target) := by
  intro s
  rw [waitpid_apply]
  split <;> exact extends_one rfl (htarget _)

theorem extends_note {c : Call} (hc : ∀ table os, φ (.call c table os)) :
    Within (Extends φ) (note c : TracerM W Unit) :=
  fun _ => extends_one rfl (hc _ _)

theorem extends_deleteProcess {pid : PidT}
    (hpid : ∀ table os, φ (.call (.deleteProcess pid) table os)) :
    Within (Extends φ) (deleteProcess pid : TracerM W Unit) := by
  intro s
  rw [deleteProcess_apply]
  exact extends_one (trace_deleted pid s) (hpid _ _)

theorem extends_setClock (child : Ptr) (t : Timespec) :
    Within (Extends φ) (setClock child t : TracerM W Unit) :=
  Within.bind (Requests.within_deref child) fun _ _ => ⟨[], rfl, List.forall_mem_nil _⟩

variable (hmalloc : ∀ size granted, φ (.malloc size granted))

include hmalloc

theorem extends_malloc (size : Nat) : Within (Extends φ) (malloc K size) := by
  intro s
  unfold malloc
  split <;> exact extends_one rfl (hmalloc _ _)

theorem extends_insertProcess {pid : PidT}
    (hpid : ∀ table os, φ (.call (.insertProcess pid) table os)) :
    Within (Extends φ) (insertProcess K pid) := by
  have hasked : ∀ s : Tracer W, Extends φ s (s.allocated K pid) := fun s =>
    ⟨[_, _], rfl, fun e he => by
      rcases List.mem_pair.mp he with rfl | rfl
      · exact hmalloc _ _
      · exact hpid _ _⟩
  intro s
  rw [insertProcess_eq]
  split
  · exact Std.Refl.refl s
  · split
    · exact hasked s
    · exact hasked s

end events

/-! ### Turns and runs -/

/-- The last event is the report of a fork event in the process. -/
def ForkReported (pid : PidT) (trace : List (Event W)) : Prop :=
  ∃ status, isForkEvent (eventOf status) = true ∧
    trace.head? = some (.wait none (some (.ok (pid, status))))

/-- `I` is kept by everything that a turn of the loop is made of, and `E` holds where one of these
stops the tracer. -/
structure Parts (I : Tracer W → Prop) (E : Halt → Tracer W → Prop) : Prop where
  message : ∀ pid, Triple (fun s => I s ∧ ForkReported pid s.trace) (ptrace K (.geteventmsg pid))
    (fun _ => I) E
  getregs : ∀ pid, Triple I (ptrace K (.getregs pid)) (fun _ => I) E
  resume : ∀ pid, Triple I (ptrace K (.syscall pid 0)) (fun _ => I) E
  wait : ∀ target, Triple I (waitpid K target) (fun _ => I) E
  insert : ∀ pid, Triple I (insertProcess K pid) (fun _ => I) E
  delete : ∀ pid, Triple I (deleteProcess pid : TracerM W Unit) (fun _ => I) E
  init : ∀ scan pid, Triple I (procInit K scan pid) (fun _ => I) E
  handle : ∀ child regs, Triple I (handleSyscall K child regs) (fun _ => I) E
  stop : ∀ e s, I s → E e s

variable {K} {I : Tracer W → Prop} {E : Halt → Tracer W → Prop}

namespace Parts

theorem triple_exit (h : Parts K I E) {α : Type} {Q : α → Tracer W → Prop} :
    Triple I (exitFailure : TracerM W α) Q E :=
  Triple.throw (h.stop _)

theorem triple_ptraceDelete (h : Parts K I E) {r : Request}
    (hr : Triple I (ptrace K r) (fun _ => I) E) (pid : PidT) :
    Triple I (ptraceDelete K r pid) (fun _ => I) E := by
  refine Triple.bind hr fun answer => ?_
  cases answer with
  | ok reply => exact Triple.pure fun _ hs => hs
  | error e =>
    refine Triple.ite (fun _ => ?_) (fun _ => h.triple_exit)
    exact Triple.bind (h.delete pid) fun _ => Triple.pure fun _ hs => hs

theorem triple_waitpidOrExit (h : Parts K I E) (pid : PidT) :
    Triple I (waitpidOrExit K pid) (fun _ => I) E := by
  refine Triple.bind (h.wait (some pid)) fun answer => ?_
  cases answer with
  | ok report => exact Triple.pure fun _ hs => hs
  | error e => exact h.triple_exit

theorem triple_ptraceReturn (h : Parts K I E) {r : Request}
    (hr : Triple I (ptrace K r) (fun _ => I) E) : Triple I (ptraceReturn K r) (fun _ => I) E := by
  refine Triple.bind hr fun answer => ?_
  cases answer with
  | ok reply => exact Triple.pure fun _ hs => hs
  | error e => exact Triple.ite (fun _ => Triple.pure fun _ hs => hs) (fun _ => h.triple_exit)

theorem triple_registerNewChild (h : Parts K I E) (pid : PidT) :
    Triple (fun s => I s ∧ ForkReported pid s.trace) (registerNewChild K pid) (fun _ => I) E := by
  refine Triple.bind (h.message pid) fun answer => ?_
  cases answer with
  | error e => exact Triple.ite (fun _ => Triple.pure fun _ hs => hs) (fun _ => h.triple_exit)
  | ok message =>
    refine Triple.bind (h.insert _) fun added => ?_
    refine Triple.ite (fun _ => ?_) (fun _ => Triple.pure fun _ hs => hs)
    refine Triple.bind (h.triple_waitpidOrExit _) fun status => ?_
    exact Triple.bind (h.triple_ptraceReturn (h.resume _)) fun _ => Triple.pure fun _ hs => hs

theorem triple_lookUpStop (h : Parts K I E) (scan : Nat) (pid : PidT) :
    Triple I (lookUpStop K scan pid) (fun _ => I) E := by
  refine Triple.bind (Q := fun _ => I) (fun _ hs => hs) fun child => ?_
  cases child with
  | none =>
    refine Triple.bind (h.init scan pid) fun _ => ?_
    exact Triple.bind (h.insert pid) fun _ => Triple.pure fun _ hs => hs
  | some child =>
    refine Triple.bind (h.triple_ptraceDelete (h.getregs pid) pid) fun reply => ?_
    cases reply with
    | some regs => exact Triple.pure fun _ hs => hs
    | none => exact fun _ hs => hs

/-- The stop that is dispatched is the one that was reported last. -/
theorem triple_dispatchStop (h : Parts K I E) (scan : Nat) (pid : PidT) (status : Status) :
    Triple (fun s => I s ∧ s.trace.head? = some (.wait none (some (.ok (pid, status)))))
      (dispatchStop K scan pid status) (fun _ => I) E := by
  refine Triple.ite (fun _ => ?_) (fun _ => Triple.ite (fun _ => ?_) (fun _ => ?_))
  · refine Triple.bind ((h.delete pid).conseq (fun s hs => hs.1) (fun _ _ hs => hs)
      fun _ _ he => he) fun _ => ?_
    exact Triple.pure fun _ hs => hs
  · refine Triple.bind ((h.init scan pid).conseq (fun s hs => hs.1) (fun _ _ hs => hs)
      fun _ _ he => he) fun _ => ?_
    exact Triple.pure fun _ hs => hs
  · refine Triple.bind (Q := fun _ => I) ?_ fun _ => h.triple_lookUpStop scan pid
    refine Triple.ite (fun hfork => ?_) (fun _ => Triple.pure fun _ hs => hs.1)
    exact (h.triple_registerNewChild pid).conseq
      (fun s hs => ⟨hs.1, status, (Bool.and_eq_true_iff.mp hfork).2, hs.2⟩) (fun _ _ hs => hs)
      fun _ _ he => he

theorem triple_receiveStop (h : Parts K I E) (scan : Nat) :
    Triple I (receiveStop K scan) (fun _ => I) E := by
  have hwait : Triple I (waitpid K none)
      (fun answer s => I s ∧ s.trace.head? = some (.wait none (some answer))) E := by
    refine Triple.intro (fun s answer s' hs hrun => ?_) fun _ _ _ => (h.wait none).error
    obtain ⟨hanswer, rfl⟩ := waitpid_eq_ok hrun
    exact ⟨(h.wait none).ok hs hrun, by simp [Tracer.waited, hanswer]⟩
  refine Triple.bind hwait fun answer => ?_
  cases answer with
  | error e =>
    exact Triple.ite (fun _ => Triple.pure fun _ hs => hs.1)
      (fun _ => h.triple_exit.conseq (fun s hs => hs.1) (fun _ _ hs => hs) fun _ _ he => he)
  | ok report => exact h.triple_dispatchStop scan report.1 report.2

theorem triple_handleEventTurn (h : Parts K I E) (scan : Nat) :
    Triple I (handleEventTurn K scan ()) (fun _ => I) E := by
  refine Triple.bind (Q := fun _ => I) (fun _ hs => hs) fun empty => ?_
  refine Triple.ite (fun _ => Triple.pure fun _ hs => hs) (fun _ => ?_)
  refine Triple.bind (h.triple_receiveStop scan) fun dispatch => ?_
  match dispatch with
  | .next => exact Triple.pure fun _ hs => hs
  | .stop => exact Triple.pure fun _ hs => hs
  | .hook pid child regs =>
    refine Triple.bind (h.handle child regs) fun _ => ?_
    refine Triple.bind (h.triple_ptraceDelete (h.resume pid) pid) fun _ => ?_
    exact Triple.pure fun _ hs => hs

theorem triple_traceChild (h : Parts K I E) (scan n : Nat) (childPid : PidT) :
    Triple I (traceChild K scan n childPid) (fun _ => I) E := by
  refine Triple.bind (h.insert childPid) fun _ => ?_
  refine Triple.bind (h.resume childPid) fun answer => ?_
  cases answer with
  | error e => exact Triple.pure fun _ hs => hs
  | ok reply =>
    have hturn : Triple I (handleEventTurn K scan ())
        (fun r s => r.elim (fun _ => I s) fun _ => I s) E :=
      (h.triple_handleEventTurn scan).conseq (fun _ hs => hs)
        (fun r _ hs => by cases r <;> exact hs) fun _ _ he => he
    exact Triple.loop (I := fun _ => I) (fun _ => hturn) (fun _ => h.stop _) n ()

end Parts

/-! ### The table -/

theorem tableOk_ptrace (r : Request) :
    Triple TableOk (ptrace K r) (fun _ => TableOk) (fun _ => TableOk) :=
  fun _ hok => hok.tableKept ⟨rfl, rfl, rfl⟩

/-- The table stays in order. -/
theorem tableOk_parts : Parts K TableOk (fun _ => TableOk) where
  message _ _ hs := tableOk_ptrace _ _ hs.1
  getregs _ := tableOk_ptrace _
  resume _ := tableOk_ptrace _
  wait target s hok := by
    rw [waitpid_apply]
    cases (K.waitpid target s.os).1 <;> exact hok.tableKept ⟨rfl, rfl, rfl⟩
  insert pid s hok := by
    rw [insertProcess_eq]
    by_cases hfind : (hashFind s.processTable pid).isSome
    · rw [if_pos hfind]
      exact hok
    · have hok' : TableOk (s.allocated K pid) := hok.tableKept ⟨rfl, rfl, rfl⟩
      rw [if_neg hfind]
      cases (K.malloc sizeofChildProcess s.os).1 with
      | true => exact hok'.inserted (Option.not_isSome_iff_eq_none.mp hfind)
      | false => exact hok'
  delete pid s hok := by
    rw [deleteProcess_apply]
    exact hok.deleted pid
  init scan pid := by
    have hinit : Within (Preserves TableOk) (procInit K scan pid) := fun s hok =>
      hok.tableKept (helper_procInit K scan pid s).1
    exact hinit.triple fun _ _ hok => hok
  handle child regs := by
    refine Within.triple (fun s hok => ?_) fun _ _ hok => hok
    have hnoted : TableOk (s.noted (.handleSyscall child regs)) := hok.tableKept ⟨rfl, rfl, rfl⟩
    cases hblock : blockAt s.processTable child with
    | some c => exact hnoted.clockOnly (within_handleSyscall K regs hblock).1
    | none =>
      rw [handleSyscall_stale K hblock]
      exact hnoted
  stop _ _ hok := hok

/-! ### Messages -/

/-- The message of an event is asked for right after a fork event was reported, and at no other
time. -/
def Asks : List (Event W) → Prop
  | [] => True
  | .ptrace (.geteventmsg pid) _ :: older => ForkReported pid older ∧ Asks older
  | _ :: older => Asks older

/-- No message is asked for. -/
def AsksNone : Event W → Prop
  | .ptrace (.geteventmsg _) _ => False
  | _ => True

theorem AsksNone.asks_cons {e : Event W} (he : AsksNone e) (trace : List (Event W)) :
    Asks (e :: trace) ↔ Asks trace := by
  match e with
  | .ptrace (.peek ..) _ | .ptrace (.pokedata ..) _ | .ptrace (.getregs _) _
  | .ptrace (.setregs ..) _ | .ptrace (.syscall ..) _ | .wait .. | .malloc .. | .call .. =>
    exact Iff.rfl

theorem triple_asks {α : Type} {m : TracerM W α} (h : Within (Extends AsksNone) m) :
    Triple (fun s => Asks s.trace) m (fun _ s => Asks s.trace) (fun _ s => Asks s.trace) :=
  Within.triple (h.mono fun _ _ hs => hs.keeps fun _ trace he => (he.asks_cons trace).mpr)
    fun _ _ hs => hs

theorem asksNone_requests (pid : PidT) : Requests K (Extends AsksNone) pid where
  peek _ := extends_ptrace K fun _ => trivial
  poke _ _ := extends_ptrace K fun _ => trivial
  setregs _ := extends_ptrace K fun _ => trivial
  resume := extends_ptrace K fun _ => trivial
  wait := extends_waitpid K fun _ => trivial
  malloc := extends_malloc K fun _ _ => trivial
  buffer _ _ := ⟨[], rfl, List.forall_mem_nil _⟩

theorem asks_parts : Parts K (fun s => Asks s.trace) (fun _ s => Asks s.trace) where
  message _ _ hs := ⟨hs.2, hs.1⟩
  getregs _ := triple_asks (extends_ptrace K fun _ => trivial)
  resume _ := triple_asks (extends_ptrace K fun _ => trivial)
  wait _ := triple_asks (extends_waitpid K fun _ => trivial)
  insert _ := triple_asks (extends_insertProcess K (fun _ _ => trivial) fun _ _ => trivial)
  delete _ := triple_asks (extends_deleteProcess fun _ _ => trivial)
  init scan pid := triple_asks ((asksNone_requests pid).within_procInit
    (extends_ptrace K fun _ => trivial) (extends_note fun _ _ => trivial) scan)
  handle child regs := by
    refine triple_asks (Within.bind (extends_note fun _ _ => trivial) fun _ => ?_)
    refine Within.bind (Requests.within_deref child) fun c => ?_
    exact (asksNone_requests c.pid).within_runHook (extends_setClock child) regs _
  stop _ _ hs := hs

/-- In every run the message is asked for only then. -/
theorem asks_traceChild (scan n : Nat) (childPid : PidT) (os : W) :
    Asks (finalState (traceChild K scan n childPid (Tracer.start os))).trace :=
  (asks_parts.triple_traceChild scan n childPid).final (fun _ _ hs => hs) (fun _ _ hs => hs) trivial

end Reproduce
