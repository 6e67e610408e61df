import Reproduce.Linux.Equiv.Settled

/-!
# Signals

A signal-delivery stop is resumed like any other stop: every `PTRACE_SYSCALL` of the tracer has
`data` 0, which tells the kernel to drop the signal.  So no task of any run receives a signal
(`signals_suppressed`).
-/

namespace Reproduce.Linux

open Bytes Effect

variable {N : Task → Prop} {w w' : World} {m : Move} {pid : PidT} {t t' : Task}

/-! ### Every task -/

theorem Every.orderly (h : Every N w) : Orderly N (fun _ => True) w :=
  fun q t ht => ⟨h q t ht, fun hq => absurd trivial hq⟩

theorem Every.setTask (h : Every N w) (hN : N t') : Every N (w.setTask pid (some t')) :=
  (h.orderly.setTask hN fun hq => absurd trivial hq).every

theorem Every.unsetTask (h : Every N w) : Every N (w.setTask pid none) :=
  h.orderly.unsetTask.every

/-! ### The signals of a task -/

/-- No task does anything to the list of its signals. -/
theorem signals_moves (h : t.Moves t') : t'.signals = t.signals := by
  cases h with
  | finish regs hstate =>
    unfold Task.finish
    split
    · rfl
    · split <;> rfl
  | _ => rfl

theorem signals_resume (t : Task) (stop : Stop) : (t.resume stop 0).signals = t.signals := by
  cases stop <;> rfl

/-- The task has received no signal. -/
def Task.Unsignalled (t : Task) : Prop := t.signals = []

theorem unsignalled_of_signals (hsignals : t'.signals = t.signals) (h : t.Unsignalled) :
    t'.Unsignalled :=
  hsignals.trans h

/-- A change of a task that leaves its signals alone. -/
theorem unsignalled_setTask (h : Every Task.Unsignalled w) (ht : w.task pid = some t)
    (hsignals : t'.signals = t.signals) : Every Task.Unsignalled (w.setTask pid (some t')) :=
  h.setTask (unsignalled_of_signals hsignals (h pid t ht))

theorem unsignalled_moved (h : Every Task.Unsignalled w) (hmoved : Moved w m w') :
    Every Task.Unsignalled w' := by
  intro q t ht
  have hbecomes := becomes hmoved q
  generalize w'.task q = o at ht hbecomes
  cases hbecomes with
  | same => exact h q t ht
  | own hu hmoves =>
    cases ht
    exact unsignalled_of_signals (signals_moves hmoves) (h q _ hu)
  | born hfree hu hstate hnr =>
    cases ht
    rfl
  | gone hu hstate hnr hleader => cases ht
  | replaced hold hu hstate hnr hdead =>
    -- the task that executed the program goes on under the pid of the leader
    cases ht
    have hnone := h _ _ hu
    exact unsignalled_of_signals rfl hnone

theorem lasts_unsignalled : Lasts (Every Task.Unsignalled) where
  congr h htask _ := by
    unfold Every
    rw [htask]
    exact h
  moved := unsignalled_moved
  poke h ht _ := unsignalled_setTask h ht rfl
  setregs h ht _ := unsignalled_setTask h ht rfl
  resume h ht _ := unsignalled_setTask h ht (signals_resume _ _)
  report h ht _ := unsignalled_setTask h ht rfl
  reap h := h.unsetTask

/-! ### Runs -/

/-- A request that is recorded delivers no signal. -/
def Muted : Event World → Prop
  | .ptrace r _ => r.Silent
  | _ => True

theorem steps_muted (env : Env) : Steps (kernel env) (Extends Muted) :=
  steps_extends (fun _ _ h => h) (fun _ _ => trivial) (fun _ _ => trivial) fun _ _ _ _ => trivial

theorem muted_traceChild (env : Env) (scan n : Nat) (childPid : PidT) :
    Within (Extends Muted) (traceChild (kernel env) scan n childPid) := by
  have hwait : Within (Extends Muted) (waitpid (kernel env) none) := by
    intro s
    have hone : Extends Muted s (s.waited (kernel env) none) :=
      ⟨[_], rfl, fun e he => List.mem_singleton.mp he ▸ trivial⟩
    rw [waitpid_apply]
    split <;> exact hone
  have hcall : ∀ (s : Tracer World) child regs,
      Extends Muted s (s.noted (.handleSyscall child regs)) :=
    fun s child regs => ⟨[_], rfl, fun e he => List.mem_singleton.mp he ▸ trivial⟩
  exact (steps_muted env).within_traceChild hwait hcall scan n childPid

/-- No process was resumed with a signal, and none has received one. -/
structure Suppressed (s : Tracer World) : Prop where
  resumed : ∀ pid data answer, .ptrace (.syscall pid data) answer ∈ s.trace → data = 0
  received : Every Task.Unsignalled s.os

theorem signals_suppressed (b : Boot) (env : Env) (scan n : Nat) :
    Suppressed (finalState (b.run env scan n)) := by
  constructor
  · intro pid data answer hmem
    obtain ⟨new, htrace, hmuted⟩ := muted_traceChild env scan n b.childPid (Tracer.start b.world)
    have hall : (finalState (b.run env scan n)).trace = new ++ [] := htrace
    rw [hall, List.append_nil] at hmem
    exact hmuted _ hmem
  · have hstart : Every Task.Unsignalled b.world := by
      intro q t ht
      have htask : Function.update (fun _ => none) b.childPid (some b.task) q = some t := ht
      by_cases hq : q = b.childPid
      · subst hq
        rw [Function.update_self] at htask
        cases htask
        rfl
      · rw [Function.update_of_ne hq] at htask
        cases htask
    exact lasts_unsignalled.within_traceChild env scan n b.childPid (Tracer.start b.world) hstart

/-! ### A signal for a tracked process -/

/-- The turn that receives a signal-delivery stop of a tracked process delivers the signal, unless
the process is still in the stop or gone. -/
def PassesSignal (env : Env) (s s' : Tracer World) : Prop :=
  ∀ pid sig t t', (World.waitpid env none s.os).1 = some (.ok (pid, (Stop.signal sig).status)) →
    (hashFind s.processTable pid).isSome → (World.waitpid env none s.os).2.task pid = some t →
    t.stop? = some (.signal sig) → s'.os.task pid = some t' → t'.isStopped = false →
      sig ∈ t'.signals

/-- `SIGUSR1` stops the first task. -/
def userSignal : Env := scripted [(1, ⟨[.signal 100 10 none], 100⟩)]

theorem not_passesSignal_userSignal :
    ∃ s s', Boot.sample.Head userSignal 0 (fun _ _ => True) s ∧
      handleEventTurn (kernel userSignal) 0 () s = .ok (.inl ()) s' ∧
        ¬PassesSignal userSignal s s' := by
  have hwait : (Boot.sample.head userSignal 0 (fun _ _ => True) 0).all (fun s =>
      (World.waitpid userSignal none s.os).1 = some (.ok (100, (Stop.signal 10).status)) ∧
        (hashFind s.processTable 100).isSome ∧
        ((World.waitpid userSignal none s.os).2.task 100).bind Task.stop? =
          some (.signal 10)) = true := by
    decide +kernel
  have hturn : (Boot.sample.head userSignal 0 (fun _ _ => True) 1).any (fun s' =>
      (s'.os.task 100).any fun t' => t'.isStopped = false ∧ t'.signals = []) = true := by
    decide +kernel
  obtain ⟨s', hs', hturn⟩ := (Option.any_eq_true _ _).mp hturn
  obtain ⟨t', ht', hturn⟩ := (Option.any_eq_true _ _).mp hturn
  obtain ⟨hrunning, hnone⟩ := of_decide_eq_true hturn
  obtain ⟨s, hs, hrun, -⟩ := Boot.head_succ hs'
  rw [hs] at hwait
  obtain ⟨hreport, htracked, hstop⟩ := of_decide_eq_true hwait
  obtain ⟨t, ht, hstop⟩ := Option.bind_eq_some_iff.mp hstop
  refine ⟨s, s', Boot.head_eq_some hs, hrun, fun h => ?_⟩
  have hmem := h 100 10 t t' hreport htracked ht hstop ht' hrunning
  rw [hnone] at hmem
  cases hmem

end Reproduce.Linux
