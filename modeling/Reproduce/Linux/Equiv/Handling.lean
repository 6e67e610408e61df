import Reproduce.Linux.Equiv.Images
import Reproduce.Linux.Equiv.Regular
import Reproduce.Linux.Equiv.Settled
import Reproduce.Tracer.Equiv.Peeked

/-!
# One call of `handle_syscall`

A `HandlerCall` is a call of `handle_syscall` in a run.  At the entry stop of a hooked call the
handler brings the process to another stop before it changes it (`phases_atCall`); at any other stop
the registers name an open call or none, and the handler does nothing but look at the path, unless
this is that of a random device (`HandlerCall.Strays`, `Ready.atEntry`).  In every case but this one
the process can be resumed afterwards (`Ready.settles`).
-/

namespace Reproduce.Linux

open Bytes Effect

variable {t t' : Task}

/-- The requests that change a process. -/
def changesTask : Request → Bool
  | .peek .. | .getregs _ | .geteventmsg _ => false
  | .pokedata .. | .setregs .. | .syscall .. => true

/-- A request that changes a process. -/
def Changes : Event World → Prop
  | .ptrace r _ => changesTask r = true
  | _ => False

instance : DecidablePred Changes
  | .ptrace r _ => inferInstanceAs (Decidable (changesTask r = true))
  | .wait .. | .malloc .. | .call .. => inferInstanceAs (Decidable False)

/-- Nothing was done but look: no request changed a process, and no clock was advanced. -/
def Looked (s s' : Tracer World) : Prop :=
  s'.processTable = s.processTable ∧ Extends (fun e => ¬Changes e) s s'

instance : IsPreorder (Tracer World) Looked where
  refl s := ⟨rfl, Std.Refl.refl s⟩
  trans _ _ _ h h' := ⟨h'.1.trans h.1, IsTrans.trans _ _ _ h.2 h'.2⟩

theorem looks_looked (K : Kernel World) (pid : PidT) : Looks K Looked pid where
  peek place s := by
    refine ⟨rfl, [.ptrace _ _], rfl, fun e he hchanges => ?_⟩
    rw [List.mem_singleton.mp he] at hchanges
    cases hchanges
  buffer s f := ⟨rfl, [], rfl, fun e he => nomatch he⟩

theorem looked_noted (s : Tracer World) (c : Call) : Looked s (s.noted c) := by
  refine ⟨rfl, [.call _ _ _], rfl, fun e he hchanges => ?_⟩
  rw [List.mem_singleton.mp he] at hchanges
  exact hchanges

/-- At the entry of the call with these registers, or replaced by another program. -/
def Task.AtCall (regs : UserRegsStruct) : Task → Prop :=
  Task.AtStop fun stop t => (stop = .syscallEntry ∧ t.regs = regs ∧ t.entered = regs) ∨
    ∃ e message, stop = .event e message

/-- At the entry of a call that is cancelled, or replaced by another program. -/
def Task.Cancelled : Task → Prop :=
  Task.AtStop fun stop t => (stop = .syscallEntry ∧ t.regs.origRax = -1) ∨
    ∃ e message, stop = .event e message

/-- Inside the kernel, or out of it at a stop. -/
def Task.Passing (t : Task) : Prop := t.Parked ∨ ∃ fresh, t.state = .kernel fresh

theorem local_atCall (regs : UserRegsStruct) : Local (Task.AtCall regs) :=
  local_atStop (fun _ _ _ h => h) (fun _ _ _ h => h) fun _ pid => .inr ⟨.exec, pid, rfl⟩

theorem local_cancelled : Local Task.Cancelled :=
  local_atStop (fun _ _ _ h => h) (fun _ _ _ h => h) fun _ pid => .inr ⟨.exec, pid, rfl⟩

theorem local_passing : Local Task.Passing where
  moves := by
    rintro t t' (hparked | ⟨fresh, hkernel⟩) hmoves
    · exact .inl (local_parked.moves hparked hmoves)
    · -- out of the kernel a task comes to a stop other than an entry, or dies
      cases hmoves with
      | enter regs hstate => cases hkernel.symm.trans hstate
      | finish regs hstate => exact .inl (.inr ⟨.syscallExit, by simp [Task.stop?], by rintro ⟨⟩⟩)
      | fork e child birth hstate hnr => exact .inl (.inr ⟨.event e child, rfl, by rintro ⟨⟩⟩)
      | signal sig regs hstate => cases hkernel.symm.trans hstate
      | die hlive hstatus => exact .inl (.inl rfl)
  poke n h := h
  report := by
    rintro t stop (hparked | ⟨fresh, hkernel⟩) hstate
    · exact .inl (local_parked.report hparked hstate)
    · cases hkernel.symm.trans hstate
  exec old pid mm regs hnr := .inl (local_parked.exec old pid mm regs hnr)

theorem parked_newborn (t : Task) (tgid : PidT) (mm : Nat) (rsp : Word) (birth : Nat) :
    (t.newborn tgid mm rsp birth).Parked := .inr ⟨.initial, rfl, nofun⟩

/-- A task at a stop executes nothing. -/
theorem atStop_stays {G : Stop → Task → Prop} (t : Task) (h : t.AtStop G)
    (hstate : t.state = .kernel true) : isExecve t.regs.origRax = false := by
  rcases h with hdead | ⟨stop, hstop, -⟩
  · simp [Task.isDead, hstate] at hdead
  · simp [Task.stop?, hstate] at hstop

/-- A report that a task came out of the kernel. -/
theorem parked_reported {w w' : World} {pid : PidT} {status : Status} (h : Only pid Task.Passing w)
    (hreported : Reported w pid status w') : Only pid Task.Parked w' := by
  cases hreported with
  | stopped ht hstate =>
    refine only_setTask (local_parked.report ?_ hstate)
    rcases h _ ht with hparked | ⟨fresh, hkernel⟩
    · exact hparked
    · exact absurd (hkernel.symm.trans hstate) nofun
  | reaped ht hstate hlast =>
    intro u hu
    rw [World.task_setTask_self] at hu
    cases hu

section handler

variable {tracked : PidT → Prop} {pid : PidT} {S : Task → Prop} (env : Env)

/-- The call goes on, and the process comes to its next stop. -/
theorem orderly_resumeAndWait (hS : Local S)
    (hstay : ∀ t, S t → t.state = .kernel true → isExecve t.regs.origRax = false)
    (hresume : ∀ t stop, t.Regular → S t → t.stop? = some stop →
      (t.resume stop 0).Regular ∧ ∃ fresh, (t.resume stop 0).state = .kernel fresh)
    (hgone : ∀ t, S t → t.isStopped = false → t.isDead = true) (htracked : tracked pid) :
    Triple (fun s => Orderly Task.Regular tracked s.os ∧ Is pid S s.os)
      (resumeAndWait (kernel env) pid)
      (fun _ s => Orderly Task.Regular tracked s.os ∧ Only pid Task.Parked s.os)
      (fun _ s => Every Task.Regular s.os) := by
  have habides := (abides_orderly norm_regular tracked).and (abides_is hS hstay pid)
  -- the request finds the process at its stop or dead
  have hreturn := habides.triple_ptraceReturn env (r := .syscall pid 0)
    (R := fun w => Orderly Task.Regular tracked w ∧ Only pid Task.Passing w)
    (L := fun w => Orderly Task.Regular tracked w ∧ Only pid Task.Parked w)
    (fun w t hw ht hstop => by
      obtain ⟨u, hu, hSu⟩ := hw.2
      cases hu.symm.trans ht
      obtain ⟨stop, hstop⟩ := stop?_of_isStopped hstop
      obtain ⟨hregular, hkernel⟩ := hresume t stop (hw.1 pid t ht).1 hSu hstop
      refine ⟨perform_syscall_ok hstop pid 0, ?_⟩
      rw [perform_syscall_snd pid 0 hstop]
      exact ⟨hw.1.setTask hregular fun hnot => absurd htracked hnot, only_setTask (.inr hkernel)⟩)
    (fun w hw hstill => ⟨hw.1, fun t ht => by
      obtain ⟨u, hu, hSu⟩ := hw.2
      cases hu.symm.trans ht
      exact .inl (hgone t hSu (hstill t ht))⟩) (fun _ s => Every Task.Regular s.os)
  have hpassing := (abides_orderly norm_regular tracked).and (abides_only local_passing
    (fun t tgid mm rsp birth => .inl (parked_newborn t tgid mm rsp birth)) pid)
  -- the wait finds it out of the kernel
  have hwait := hpassing.triple_waitpidOrExit env
    (R := fun w => Orderly Task.Regular tracked w ∧ Only pid Task.Parked w)
    (E := fun _ s => Every Task.Regular s.os) (fun w status w' hw hreported =>
      ⟨orderly_reported norm_regular hw.1 hreported, parked_reported hw.2 hreported⟩)
    fun _ _ hs => hs.1.every
  refine Triple.bind hreturn fun more => ?_
  cases more with
  | true =>
    refine Triple.bind hwait fun status => ?_
    exact Triple.ite (fun _ => Triple.throw fun s hs => hs.1.every) fun _ =>
      Triple.pure fun s hs => hs
  | false => exact Triple.pure fun s hs => hs

/-- A cancelled call is set to the number -1 first. -/
theorem orderly_childCancelSyscall {regs : UserRegsStruct} {hook : Hook}
    (hhook : hookOf regs.origRax = some hook) (htracked : tracked pid) :
    Triple (fun s => Orderly Task.Regular tracked s.os ∧ Is pid (Task.AtCall regs) s.os)
      (childCancelSyscall (kernel env) pid regs)
      (fun _ s => Orderly Task.Regular tracked s.os ∧ Only pid Task.Parked s.os)
      (fun _ s => Every Task.Regular s.os) := by
  have habides := (abides_orderly norm_regular tracked).and
    (abides_is (local_atCall regs) atStop_stays pid)
  -- a call that was replaced by a program meanwhile has no entry stop to cancel
  have hset := habides.triple_ptraceReturn env (r := .setregs pid { regs with origRax := -1 })
    (R := fun w => Orderly Task.Regular tracked w ∧ Is pid Task.Cancelled w)
    (L := fun w => Orderly Task.Regular tracked w ∧ Only pid Task.Parked w)
    (fun w t hw ht hstop => by
      obtain ⟨u, hu, hcall⟩ := hw.2
      cases hu.symm.trans ht
      obtain ⟨stop, hstop⟩ := stop?_of_isStopped hstop
      have hregular := regular_setregs (hw.1 pid t ht).1 { regs with origRax := -1 }
        notEmulated_cancelled fun hentry => by
          rcases hcall.of_stop? hentry with ⟨-, -, hentered⟩ | ⟨e, message, hevent⟩
          · exact ⟨rfl, by rw [hentered, hhook]; exact nofun⟩
          · cases hevent
      refine ⟨⟨(), rfl⟩, (hw.1.setTask hregular fun hnot => absurd htracked hnot).congr rfl, ?_⟩
      refine ⟨_, World.task_setTask_self .., .inr ⟨stop, hstop, ?_⟩⟩
      exact (hcall.of_stop? hstop).imp_left fun h => ⟨h.1, rfl⟩)
    (fun w hw hstill => ⟨hw.1, fun t ht => by
      obtain ⟨u, hu, hcall⟩ := hw.2
      cases hu.symm.trans ht
      exact .inl (isDead_of_atStop hcall (hstill t ht))⟩) (fun _ s => Every Task.Regular s.os)
  refine Triple.bind hset fun more => ?_
  cases more with
  | true =>
    refine Triple.bind (orderly_resumeAndWait env local_cancelled atStop_stays
      (fun t stop hregular hcancelled hstop => ?_)
      (fun t h hstill => isDead_of_atStop h hstill) htracked)
      fun _ => Triple.pure fun s hs => hs
    rcases hcancelled.of_stop? hstop with ⟨rfl, hnr⟩ | ⟨e, message, rfl⟩
    · exact ⟨regular_resume hregular hstop fun _ => hnr ▸ notEmulated_cancelled, true, rfl⟩
    · exact ⟨norm_regular.resume hregular hstop nofun, false, rfl⟩
  | false => exact Triple.pure fun s hs => hs

/-- An open call goes on as it is. -/
theorem orderly_proceed {regs : UserRegsStruct} (hopen : NotEmulated regs.origRax)
    (htracked : tracked pid) :
    Triple (fun s => Orderly Task.Regular tracked s.os ∧ Is pid (Task.AtCall regs) s.os)
      (resumeAndWait (kernel env) pid)
      (fun _ s => Orderly Task.Regular tracked s.os ∧ Only pid Task.Parked s.os)
      (fun _ s => Every Task.Regular s.os) := by
  refine orderly_resumeAndWait env (local_atCall regs) atStop_stays
    (fun t stop hregular hcall hstop => ?_) (fun t h hstill => isDead_of_atStop h hstill) htracked
  rcases hcall.of_stop? hstop with ⟨rfl, hregs, -⟩ | ⟨e, message, rfl⟩
  · exact ⟨regular_resume hregular hstop fun _ => hregs ▸ hopen, true, rfl⟩
  · exact ⟨norm_regular.resume hregular hstop nofun, false, rfl⟩

/-- The phases of a handler that is called at the entry of the call. -/
theorem phases_atCall (child : Ptr) (regs : UserRegsStruct) (s₀ : Tracer World)
    (htracked : tracked pid) :
    Phases (kernel env) child pid regs
      (fun s => (Orderly Task.Regular tracked s.os ∧ Is pid (Task.AtCall regs) s.os) ∧ Looked s₀ s)
      (fun s => Orderly Task.Regular tracked s.os ∧ Only pid Task.Parked s.os)
      (fun _ s => Every Task.Regular s.os) := by
  have hcall := (abides_orderly norm_regular tracked).and
    (abides_is (local_atCall regs) atStop_stays pid)
  have hparked := (abides_orderly norm_regular tracked).and
    (abides_only local_parked parked_newborn pid)
  constructor
  case look =>
    refine ⟨fun place s hs => ?_, fun s f hs => ?_⟩
    · have hlooked := (looks_looked (kernel env) pid).peek place s
      exact ⟨(hcall.pokes env pid).peek place s hs.1, IsTrans.trans _ _ _ hs.2 hlooked⟩
    · exact ⟨hs.1, IsTrans.trans _ _ _ hs.2 ((looks_looked (kernel env) pid).buffer s f)⟩
  case cancel =>
    intro hook hhook _
    exact (orderly_childCancelSyscall env hhook htracked).conseq (fun _ hs => hs.1)
      (fun _ _ hs => hs)
      fun _ _ he => he
  case proceed =>
    intro hook hhook hopen
    exact (orderly_proceed env (notEmulated_of_open hhook hopen) htracked).conseq (fun _ hs => hs.1)
      (fun _ _ hs => hs) fun _ _ he => he
  case change => exact hparked.pokes env pid
  case returns =>
    intro regs' hnr
    refine hparked.within_ptrace env fun w t hw ht hstop => ?_
    obtain ⟨stop, hstop⟩ := stop?_of_isStopped hstop
    have hne := (hw.2 t ht).of_stop? hstop
    have hregular := regular_setregs (hw.1 pid t ht).1 regs' hnr fun hentry => by
      rw [hstop] at hentry
      exact absurd (Option.some.inj hentry) hne
    have hset : Only pid Task.Parked (w.setTask pid (some { t with regs := regs' })) :=
      only_setTask (.inr ⟨stop, hstop, hne⟩)
    exact ⟨(hw.1.setTask hregular fun hnot => absurd htracked hnot).congr rfl, hset.congr rfl⟩
  case malloc =>
    intro size s hs
    unfold Reproduce.malloc
    split <;> exact hs
  case clock => exact fun t => Within.bind (Requests.within_deref child) fun _ _ hs => hs
  case before => exact fun _ s hs => hs.1.1.every
  case after => exact fun _ s hs => hs.1.every

end handler

/-! ### Calls of `handle_syscall` -/

/-- A call of `handle_syscall`: the process, what is passed, and the state in which it is made. -/
structure HandlerCall where
  pid : PidT
  child : Ptr
  regs : UserRegsStruct
  before : Tracer World

namespace HandlerCall

variable (env : Env) (x : HandlerCall)

/-- The state in which the call ends. -/
def after : Tracer World := finalState (handleSyscall (kernel env) x.child x.regs x.before)

def task? : Option Task := x.before.os.task x.pid

/-- The call has an effect: it asks for a change of a process, or changes an entry of the table. -/
def Intervenes : Prop :=
  (x.after env).processTable ≠ x.before.processTable ∨
    ∃ e ∈ newer x.before.trace (x.after env).trace, Changes e

instance : Decidable (x.Intervenes env) := inferInstanceAs (Decidable (_ ∨ _))

/-- The process is at the entry stop of a hooked system call, and its registers are passed. -/
def AtEntry : Prop :=
  ∃ t, x.task? = some t ∧ t.stop? = some .syscallEntry ∧ x.regs = t.regs ∧ t.regs = t.entered ∧
    (hookOf t.entered.origRax).isSome

/-- The system call of the process: its task and the number of calls that it has made. -/
def syscall? : Option (Nat × Nat) := x.task?.map fun t => (t.birth, t.calls)

/-- An open call of a random device, as the registers and the memory have it, but no entry stop. -/
def Strays : Prop :=
  x.task?.bind Task.stop? ≠ some .syscallEntry ∧ isOpen (rSyscall x.regs) = true ∧
    NamesDevice (kernel env) x.pid x.regs x.before.os

instance : Decidable (x.Strays env) := inferInstanceAs (Decidable (_ ∧ _ ∧ _))

variable {env x}

theorem not_intervenes_of_looked (h : Looked x.before (x.after env)) : ¬x.Intervenes env := by
  rintro (htable | ⟨e, he, hchanges⟩)
  · exact htable h.1
  · obtain ⟨new, hnew, hquiet⟩ := h.2
    rw [hnew, newer_append] at he
    exact hquiet e he hchanges

end HandlerCall

theorem isOpen_of_notEmulated {nr : Word} {hook : Hook} (hhook : hookOf nr = some hook)
    (hnr : NotEmulated nr) : isOpen nr = true := by
  rw [isOpen, hhook]
  simp [hnr hook hhook]

/-- An open call of another path, for every open call. -/
theorem runHook_passes {K : Kernel World} {R : Tracer World → Tracer World → Prop}
    [IsPreorder (Tracer World) R] {child : Ptr} {pid : PidT} {regs : UserRegsStruct} {hook : Hook}
    (h : Looks K R pid) (hopen : hook.emulated = false) {s : Tracer World}
    (hpath : ¬NamesDevice K pid regs s.os) :
    R s (finalState (runHook K child pid regs (some hook) s)) := by
  cases hook with
  | openat | «open» | openat2 => exact redirectDevRandom_passes h hpath
  | getrandom | gettimeofday | time | clockGettime => cases hopen

section call

variable (env : Env) {pid : PidT} {child : Ptr} {regs : UserRegsStruct} {s : Tracer World}

theorem Ready.runHook_eq {N : Task → Prop} (h : Ready N pid child regs s) :
    handleSyscall (kernel env) child regs s =
      runHook (kernel env) child pid regs (hookOf regs.origRax)
        (s.noted (.handleSyscall child regs)) := by
  obtain ⟨c, hfind, rfl⟩ := h.entry
  obtain rfl : c.pid = pid := (hashFind_eq_some hfind).2
  exact handleSyscall_eq (kernel env) (h.settled.1.blockAt_of_hashFind hfind)

/-- A stop of a hooked call that is no entry stop is one of an open call. -/
theorem Ready.cases (h : Ready Task.Regular pid child regs s) :
    hookOf regs.origRax = none ∨
    (⟨pid, child, regs, s⟩ : HandlerCall).AtEntry ∨
    ∃ t stop hook, s.os.task pid = some t ∧ t.stop? = some stop ∧ stop ≠ .syscallEntry ∧
      hookOf regs.origRax = some hook ∧ hook.emulated = false := by
  obtain ⟨t, ht, hstop, rfl⟩ := h.task
  obtain ⟨stop, hstop⟩ := stop?_of_isStopped hstop
  have hregular := (h.settled.2 pid t ht).1
  cases hhook : hookOf t.regs.origRax with
  | none => exact .inl rfl
  | some hook =>
    -- the registers belong to the call only at its entry
    by_cases hentry : stop = .syscallEntry
    · subst hentry
      rcases hregular.entry hstop with hown | ⟨hcancelled, -⟩
      · refine .inr (.inl ⟨t, ht, hstop, rfl, hown, ?_⟩)
        rw [← hown, hhook]
        rfl
      · rw [hcancelled, hookOf_neg_one] at hhook
        cases hhook
    · have hlive : t.isDead = false := by
        obtain ⟨reported, hstate⟩ := state_of_stop? hstop
        simp [Task.isDead, hstate]
      have hne : t.stop? ≠ some .syscallEntry := fun hsome =>
        hentry (Option.some.inj (hstop.symm.trans hsome))
      exact .inr (.inr ⟨t, stop, hook, ht, hstop, hentry, rfl, hregular.plain hne hlive hook hhook⟩)

/-- A stray call is the only one that has an effect away from an entry stop. -/
theorem Ready.atEntry (h : Ready Task.Regular pid child regs s)
    (hstraight : ¬(⟨pid, child, regs, s⟩ : HandlerCall).Strays env)
    (hintervenes : (⟨pid, child, regs, s⟩ : HandlerCall).Intervenes env) :
    (⟨pid, child, regs, s⟩ : HandlerCall).AtEntry := by
  have hnote := looked_noted s (.handleSyscall child regs)
  rcases h.cases with hnone | hentry | ⟨t, stop, hook, ht, hstop, hne, hhook, hopen⟩
  · -- no hook
    refine absurd hintervenes (HandlerCall.not_intervenes_of_looked ?_)
    show Looked s (finalState (handleSyscall (kernel env) child regs s))
    rw [h.runHook_eq env, hnone]
    exact hnote
  · exact hentry
  · refine absurd hintervenes (HandlerCall.not_intervenes_of_looked ?_)
    show Looked s (finalState (handleSyscall (kernel env) child regs s))
    rw [h.runHook_eq env, hhook]
    refine IsTrans.trans _ _ _ hnote (runHook_passes (looks_looked _ pid) hopen fun hdevice => ?_)
    refine hstraight ⟨?_, isOpen_of_notEmulated hhook (notEmulated_of_open hhook hopen), hdevice⟩
    show (s.os.task pid).bind Task.stop? ≠ _
    rw [ht, Option.bind_some, hstop]
    exact fun hsome => hne (Option.some.inj hsome)

theorem resumable_of_parked {N : Task → Prop} {t : Task} (h : t.Parked) : t.Resumable N :=
  h.imp_right fun ⟨stop, hstop, hne⟩ => ⟨stop, hstop, fun hentry => absurd hentry hne⟩

theorem resumable_of_atCall {t : Task} (h : t.AtCall regs) (hregular : t.Regular)
    (hnr : NotEmulated regs.origRax) : t.Resumable Task.Regular := by
  rcases h with hdead | ⟨stop, hstop, hcase⟩
  · exact .inl hdead
  · refine .inr ⟨stop, hstop, fun hentry => ?_⟩
    subst hentry
    rcases hcase with ⟨-, hregs, -⟩ | ⟨e, message, hevent⟩
    · exact regular_resume hregular hstop fun _ => hregs ▸ hnr
    · cases hevent

/-- What an open call leaves that is at no entry stop and has another path: nothing has happened. -/
theorem Ready.passes (h : Ready Task.Regular pid child regs s) {t : Task}
    {stop : Stop} {hook : Hook}
    (ht : s.os.task pid = some t) (hstop : t.stop? = some stop) (hne : stop ≠ .syscallEntry)
    (hopen : hook.emulated = false) (hpath : ¬NamesDevice (kernel env) pid regs s.os) :
    let s' := finalState (runHook (kernel env) child pid regs (some hook)
      (s.noted (.handleSyscall child regs)))
    (Orderly Task.Regular (HasEntry s.processTable) s'.os ∧ Only pid Task.Parked s'.os) ∧
      Looked s s' := by
  intro s'
  have habides := (abides_orderly norm_regular (HasEntry s.processTable)).and
    (abides_only local_parked parked_newborn pid)
  have hlooks : Looks (kernel env) (Preserves fun s' : Tracer World =>
      Orderly Task.Regular (HasEntry s.processTable) s'.os ∧ Only pid Task.Parked s'.os) pid :=
    ⟨(habides.pokes env pid).peek, fun _ _ => id⟩
  have hparked : Only pid Task.Parked s.os := by
    intro u hu
    cases ht.symm.trans hu
    exact .inr ⟨stop, hstop, hne⟩
  refine ⟨runHook_passes (s := s.noted _) hlooks hopen hpath ⟨h.settled.2, hparked⟩, ?_⟩
  exact IsTrans.trans _ _ _ (looked_noted s _)
    (runHook_passes (s := s.noted _) (looks_looked _ pid) hopen hpath)

/-- A call that is not stray leaves the process so that it can be resumed, and away from its entry
stop unless it only looked. -/
theorem Ready.settles (h : Ready Task.Regular pid child regs s)
    (hstraight : ¬(⟨pid, child, regs, s⟩ : HandlerCall).Strays env) :
    Triple (fun s' => s' = s) (handleSyscall (kernel env) child regs)
      (fun _ s' => Handled Task.Regular pid s' ∧ (Looked s s' ∨ Only pid Task.Parked s'.os))
      (fun _ s' => Every Task.Regular s'.os) := by
  have htracked : HasEntry s.processTable pid := by
    obtain ⟨c, hfind, -⟩ := h.entry
    exact hasEntry_of_hashFind hfind
  -- it is enough to know what has become of the tasks
  have hconclude : ∀ {s₁ : Tracer World}, handleSyscall (kernel env) child regs s = .ok () s₁ →
      Orderly Task.Regular (HasEntry s.processTable) s₁.os →
      Only pid (Task.Resumable Task.Regular) s₁.os → (Looked s s₁ ∨ Only pid Task.Parked s₁.os) →
      Handled Task.Regular pid s₁ ∧ (Looked s s₁ ∨ Only pid Task.Parked s₁.os) :=
    fun hrun hw hresumable hcase => ⟨h.handled env hrun hw hresumable, hcase⟩
  have hnote := looked_noted s (.handleSyscall child regs)
  rw [Triple]
  rintro s₀ rfl
  rw [h.runHook_eq env] at hconclude ⊢
  rcases h.cases with hnone | hentry | ⟨t, stop, hook, ht, hstop, hne, hhook, hopen⟩
  · -- no hook: the process is resumed as it is
    rw [hnone] at hconclude ⊢
    refine hconclude rfl h.settled.2 (fun t ht => ?_) (.inl hnote)
    obtain ⟨u, hu, hstop, rfl⟩ := h.task
    cases ht.symm.trans hu
    obtain ⟨stop, hstop⟩ := stop?_of_isStopped hstop
    refine .inr ⟨stop, hstop, ?_⟩
    rintro rfl
    exact regular_resume (h.settled.2 pid t ht).1 hstop fun _ => notEmulated_of_none hnone
  · -- at the entry of a hooked call, which is left alone or dealt with
    obtain ⟨t, ht, hstop, hregs, hentered, -⟩ := hentry
    have hcall : Is pid (Task.AtCall regs) (s₀.noted (.handleSyscall child regs)).os :=
      ⟨t, ht, .inr ⟨_, hstop, .inl ⟨rfl, hregs.symm, hentered.symm.trans hregs.symm⟩⟩⟩
    have hphases := (phases_atCall env child regs s₀ htracked).triple_runHook
      (s₀.noted (.handleSyscall child regs)) ⟨⟨h.settled.2, hcall⟩, hnote⟩
    cases hrun : runHook (kernel env) child pid regs (hookOf regs.origRax)
        (s₀.noted (.handleSyscall child regs)) with
    | error e s₁ =>
      rw [hrun] at hphases
      exact hphases
    | ok u s₁ =>
      rw [hrun] at hphases
      rcases hphases with ⟨hnr, ⟨horderly, hcalled⟩, hlooked⟩ | ⟨horderly, hparked⟩
      · refine hconclude hrun horderly (fun u hu => ?_) (.inl hlooked)
        obtain ⟨v, hv, hcalled⟩ := hcalled
        cases hv.symm.trans hu
        exact resumable_of_atCall hcalled (horderly pid _ hu).1 hnr
      · exact hconclude hrun horderly (fun u hu => resumable_of_parked (hparked u hu))
          (.inr hparked)
  · -- away from an entry the path is another one, for the call is not stray
    rw [hhook] at hconclude ⊢
    have hpath : ¬NamesDevice (kernel env) pid regs s₀.os := by
      refine fun hdevice => hstraight ⟨?_, ?_, hdevice⟩
      · show (s₀.os.task pid).bind Task.stop? ≠ _
        rw [ht, Option.bind_some, hstop]
        exact fun hsome => hne (Option.some.inj hsome)
      · exact isOpen_of_notEmulated hhook (notEmulated_of_open hhook hopen)
    obtain ⟨⟨horderly, hparked⟩, hlooked⟩ := h.passes env ht hstop hne hopen hpath
    cases hrun : runHook (kernel env) child pid regs (some hook)
        (s₀.noted (.handleSyscall child regs)) with
    | error e s₁ =>
      rw [hrun] at horderly
      exact horderly.every
    | ok u s₁ =>
      rw [hrun] at horderly hparked hlooked
      exact hconclude hrun horderly (fun u hu => resumable_of_parked (hparked u hu)) (.inl hlooked)

end call

end Reproduce.Linux
