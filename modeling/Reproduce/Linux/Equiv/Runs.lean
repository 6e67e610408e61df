import Reproduce.Linux.Equiv.Amiss
import Reproduce.Linux.Run
import Reproduce.Tracer.Equiv.Turn

/-!
# The heads of the loop

`Boot.Head` are the states in which a run comes back to the head of the event loop, by turns that
all satisfy some condition; `Head.run_eq` says that the run goes on from each of them.  At the first
of them (`Begun`) there is one process, which is tracked and runs.
-/

namespace Reproduce.Linux

open Bytes Effect

variable {b : Boot} {env : Env} {scan : Nat} {C : Tracer World → Tracer World → Prop}

/-- The loop heads that a run reaches by turns with `C`. -/
inductive Boot.Head (b : Boot) (env : Env) (scan : Nat) (C : Tracer World → Tracer World → Prop) :
    Tracer World → Prop
  | first {added : Bool} {s₀ s₁ : Tracer World}
      (hinsert : insertProcess (kernel env) b.childPid (Tracer.start b.world) = .ok added s₀)
      (hresume : ptrace (kernel env) (.syscall b.childPid 0) s₀ = .ok (.ok ()) s₁) :
      Boot.Head b env scan C s₁
  | turn {s s' : Tracer World} (h : Boot.Head b env scan C s)
      (hturn : handleEventTurn (kernel env) scan () s = .ok (.inl ()) s') (hC : C s s') :
      Boot.Head b env scan C s'

theorem Boot.Head.run_eq {s : Tracer World} (h : b.Head env scan C s) :
    ∃ k, ∀ n, b.run env scan (k + n) = handleEvent (kernel env) scan n s := by
  induction h with
  | first hinsert hresume =>
    refine ⟨0, fun n => ?_⟩
    rw [Nat.zero_add, Boot.run, traceChild, bind_apply_ok hinsert, bind_apply_ok hresume]
  | turn h hturn _ ih =>
    obtain ⟨k, hk⟩ := ih
    refine ⟨k + 1, fun n => ?_⟩
    rw [Nat.add_assoc, Nat.add_comm 1 n, hk]
    exact bind_apply_ok hturn

/-- Every head is where a run with some bound ends. -/
theorem Boot.Head.final {s : Tracer World} (h : b.Head env scan C s) :
    ∃ n, finalState (b.run env scan n) = s := by
  obtain ⟨k, hk⟩ := h.run_eq
  refine ⟨k + 0, ?_⟩
  rw [hk]
  rfl

/-- The state at the head after `n` turns with `C`, if the run gets there. -/
def Boot.head (b : Boot) (env : Env) (scan : Nat) (C : Tracer World → Tracer World → Prop)
    [∀ s s', Decidable (C s s')] : Nat → Option (Tracer World)
  | 0 =>
    match (insertProcess (kernel env) b.childPid >>= fun _ =>
      ptrace (kernel env) (.syscall b.childPid 0)) (Tracer.start b.world) with
    | .ok (.ok _) s => some s
    | _ => none
  | n + 1 =>
    match b.head env scan C n with
    | some s =>
      match handleEventTurn (kernel env) scan () s with
      | .ok (.inl _) s' => if C s s' then some s' else none
      | _ => none
    | none => none

section head

variable [∀ s s', Decidable (C s s')] {n : Nat} {s s' : Tracer World}

theorem Boot.head_zero (h : b.head env scan C 0 = some s) :
    ∃ added s₀, insertProcess (kernel env) b.childPid (Tracer.start b.world) = .ok added s₀ ∧
      ptrace (kernel env) (.syscall b.childPid 0) s₀ = .ok (.ok ()) s := by
  unfold Boot.head at h
  split at h
  · next hrun =>
    cases h
    exact bind_eq_ok.mp hrun
  · cases h

theorem Boot.head_succ (h : b.head env scan C (n + 1) = some s') :
    ∃ s, b.head env scan C n = some s ∧
      handleEventTurn (kernel env) scan () s = .ok (.inl ()) s' ∧ C s s' := by
  unfold Boot.head at h
  split at h
  · next s hs =>
    split at h
    · next hturn =>
      split at h
      · next hC =>
        cases h
        exact ⟨s, hs, hturn, hC⟩
      · cases h
    · cases h
  · cases h

theorem Boot.head_eq_some (h : b.head env scan C n = some s) : b.Head env scan C s := by
  induction n generalizing s with
  | zero =>
    obtain ⟨added, s₀, hinsert, hresume⟩ := Boot.head_zero h
    exact .first hinsert hresume
  | succ n ih =>
    obtain ⟨s₀, hs₀, hturn, hC⟩ := Boot.head_succ h
    exact .turn (ih hs₀) hturn hC

/-- A head is found by evaluation. -/
theorem Boot.exists_head (b : Boot) (env : Env) (scan : Nat)
    (C : Tracer World → Tracer World → Prop) [∀ s s', Decidable (C s s')] (n : Nat)
    {P : Tracer World → Prop} [DecidablePred P]
    (h : (b.head env scan C n).any (fun s => decide (P s)) = true) :
    ∃ s, b.Head env scan C s ∧ P s := by
  obtain ⟨s, hs, hP⟩ := (Option.any_eq_true _ _).mp h
  exact ⟨s, Boot.head_eq_some hs, of_decide_eq_true hP⟩

end head

/-! ### The first head -/

/-- Before the first resumption nothing can happen but the death of the first task. -/
structure Waiting (b : Boot) (w : World) : Prop where
  others : ∀ q ≠ b.childPid, w.task q = none
  first : ∃ t, w.task b.childPid = some t ∧ (t = b.task ∨ t.isDead = true)
  pids : w.pids = [b.childPid]
  births : w.births = 1
  nextMm : w.nextMm = 1
  history : ∀ x ∈ w.history, ∀ q leader regs image, x.2 ≠ .exec q leader regs image

theorem waiting_moved {w w' : World} {m : Move} (h : Waiting b w) (hmoved : Moved w m w') :
    Waiting b { w' with history := (w.tick, m) :: w.history } := by
  obtain ⟨t, ht, hfirst⟩ := h.first
  -- the task that makes the move is the first task, which is stopped or dead
  have hown : ∀ {p : PidT} {t' : Task}, w.task p = some t' → p = b.childPid ∧ t' = t := by
    intro p t' ht'
    by_cases hp : p = b.childPid
    · subst hp
      exact ⟨rfl, Option.some.inj (ht'.symm.trans ht)⟩
    · rw [h.others p hp] at ht'
      cases ht'
  have hstill : t.state ≠ .user ∧ ∀ fresh, t.state ≠ .kernel fresh := by
    rcases hfirst with rfl | hdead
    · exact ⟨nofun, nofun⟩
    · constructor
      · intro hstate
        simp [Task.isDead, hstate] at hdead
      · intro fresh hstate
        simp [Task.isDead, hstate] at hdead
  cases hmoved with
  | enter ht' hstate => exact absurd ((hown ht').2 ▸ hstate) hstill.1
  | finish ht' hstate => exact absurd ((hown ht').2 ▸ hstate) (hstill.2 _)
  | fork ht' hstate => exact absurd ((hown ht').2 ▸ hstate) (hstill.2 _)
  | exec ht' hstate => exact absurd ((hown ht').2 ▸ hstate) (hstill.2 _)
  | signal ht' hstate => exact absurd ((hown ht').2 ▸ hstate) hstill.1
  | @die p t' status ht' hlive hstatus =>
    obtain ⟨rfl, rfl⟩ := hown ht'
    refine ⟨fun q hq => ?_, ⟨_, Function.update_self .., .inr rfl⟩, h.pids, h.births, h.nextMm, ?_⟩
    · rw [World.task_setTask_of_ne _ _ hq]
      exact h.others q hq
    · rintro x hx q leader regs image hexec
      rcases List.mem_cons.mp hx with rfl | hx
      · cases hexec
      · exact h.history x hx q leader regs image hexec
  | store =>
    refine ⟨h.others, ⟨t, ht, hfirst⟩, h.pids, h.births, h.nextMm, ?_⟩
    rintro x hx q leader regs image hexec
    rcases List.mem_cons.mp hx with rfl | hx
    · cases hexec
    · exact h.history x hx q leader regs image hexec

theorem waiting_asked (q : Query) : Waiting b (b.world.asked env q) := by
  -- at the start nothing has happened
  have hstart : Waiting b b.world := by
    refine ⟨fun q hq => ?_, ⟨b.task, ?_, .inl rfl⟩, rfl, rfl, rfl, fun x hx => ?_⟩
    · show Function.update (fun _ => none) b.childPid (some b.task) q = none
      rw [Function.update_of_ne hq]
    · show Function.update (fun _ => none) b.childPid (some b.task) b.childPid = some b.task
      rw [Function.update_self]
    · cases hx
  have hrun := @runMoves_induction (Waiting b) (env b.world.tick q).moves
    (fun _ _ _ _ h hmoved => waiting_moved h hmoved) b.world hstart
  exact ⟨hrun.others, hrun.first, hrun.pids, hrun.births, hrun.nextMm, hrun.history⟩

/-- The first head: the first task is tracked and runs, and there is no other task. -/
structure Begun (b : Boot) (s : Tracer World) : Prop where
  task : s.os.task = Function.update (fun _ => none) b.childPid
    (some { b.task with state := .user })
  pids : s.os.pids = [b.childPid]
  births : s.os.births = 1
  nextMm : s.os.nextMm = 1
  noExec : ∀ x ∈ s.os.history, ∀ q leader regs image, x.2 ≠ .exec q leader regs image
  table : s.processTable = [⟨0, b.childPid, initialClock⟩]
  ok : TableOk s
  trace : s.trace = [.ptrace (.syscall b.childPid 0) (.ok ()), .malloc sizeofChildProcess true,
    .call (.insertProcess b.childPid) [] b.world]

theorem begun_first {added : Bool} {s₀ s₁ : Tracer World}
    (hinsert : insertProcess (kernel env) b.childPid (Tracer.start b.world) = .ok added s₀)
    (hresume : ptrace (kernel env) (.syscall b.childPid 0) s₀ = .ok (.ok ()) s₁) : Begun b s₁ := by
  have hfree : hashFind (Tracer.start b.world).processTable b.childPid = none := rfl
  rw [insertProcess_eq, if_neg (by rw [hfree]; exact Bool.false_ne_true)] at hinsert
  split at hinsert
  · next hgranted =>
    cases hinsert
    have hgranted' : ((kernel env).malloc sizeofChildProcess b.world).1 = true := hgranted
    rw [ptrace_apply] at hresume
    injection hresume with hanswer hstate
    have hanswer' : (World.ptrace env (.syscall b.childPid 0) b.world).1 = .ok () := hanswer
    have hwaiting := @waiting_asked b env (.ptrace (.syscall b.childPid 0))
    obtain ⟨t, ht, hfirst⟩ := hwaiting.first
    -- the request has succeeded, so the task was not dead
    rcases ptrace_performed env b.world (.syscall b.childPid 0) with
      ⟨t', ht', hstop, hrun⟩ | ⟨-, hgone⟩
    · -- a task that is still stopped is the first task as it was
      cases ht.symm.trans ht'
      have hsame : t = b.task := by
        rcases hfirst with rfl | hdead
        · rfl
        · obtain ⟨stop, reported, hstate'⟩ := Task.state_of_isStopped hstop
          simp [Task.isDead, hstate'] at hdead
      subst hsame
      have hos : s₁.os = (b.world.asked env (.ptrace (.syscall b.childPid 0))).setTask b.childPid
          (some { b.task with state := .user }) := by
        rw [← hstate]
        exact congrArg Prod.snd hrun
      refine ⟨?_, ?_, ?_, ?_, ?_, ?_, ?_, ?_⟩
      · rw [hos, World.task_setTask]
        funext q
        by_cases hq : q = b.childPid
        · rw [hq, Function.update_self, Function.update_self]
        · rw [Function.update_of_ne hq, Function.update_of_ne hq, hwaiting.others q hq]
      · rw [hos]
        exact hwaiting.pids
      · rw [hos]
        exact hwaiting.births
      · rw [hos]
        exact hwaiting.nextMm
      · rw [hos]
        exact hwaiting.history
      · rw [← hstate]
        rfl
      · have hallocated : TableOk ((Tracer.start b.world).allocated (kernel env) b.childPid) :=
          (tableOk_start b.world).tableKept ⟨rfl, rfl, rfl⟩
        rw [← hstate]
        exact (hallocated.inserted hfree).tableKept ⟨rfl, rfl, rfl⟩
      · rw [← hstate]
        show [Event.ptrace _ (World.ptrace env _ b.world).1,
          .malloc _ ((kernel env).malloc sizeofChildProcess b.world).1, _] = _
        rw [hanswer', hgranted']
        rfl
    · rw [hgone] at hanswer'
      cases hanswer'
  · cases hinsert

/-! ### Every part of a turn -/

variable (env)

theorem later_asked (s : Tracer World) (r : Request) : Later s (s.asked (kernel env) r) :=
  later_ptrace env r s

theorem later_deleted (s : Tracer World) (pid : PidT) : Later s (s.deleted pid) := by
  refine ⟨?_, ?_⟩
  · rw [os_deleted]
  · rw [trace_deleted]
    exact List.suffix_cons _ _

theorem later_handleSyscall (child : Ptr) (regs : UserRegsStruct) :
    Within Later (handleSyscall (kernel env) child regs) :=
  (later_steps env).within_handleSyscall
    (fun _ _ _ => ⟨List.suffix_rfl, List.suffix_cons _ _⟩) child regs

theorem later_turn {s s' : Tracer World} {r : Unit ⊕ Unit}
    (h : handleEventTurn (kernel env) scan () s = .ok r s') : Later s s' :=
  ((later_steps env).within_handleEventTurn (later_waitpid env none)
    (fun _ _ _ => ⟨List.suffix_rfl, List.suffix_cons _ _⟩) scan).ok h

variable {wrong : Nat × Move → Prop} {odd : Event World → Prop} {J : World → Prop}

/-- A registration makes requests to the parent and to the child. -/
theorem within_registerForkEvent (h : ∀ child, ResumesKeep wrong odd J child) (pid : PidT)
    (status : Status) :
    Within (Keeps Later (Amiss wrong odd) fun s => J s.os ∧ True)
      (registerForkEvent (kernel env) pid status) := by
  have hinsert : ∀ child, Within (Keeps Later (Amiss wrong odd) fun s => J s.os ∧ True)
      (insertProcess (kernel env) child) := by
    intro child s
    refine ⟨(later_steps env).within_insertProcess child s, fun hs => .inl ?_⟩
    rw [insertProcess_eq]
    split
    · exact hs
    · split <;> exact hs
  have hmessage : Within (Keeps Later (Amiss wrong odd) fun s => J s.os ∧ True)
      (ptrace (kernel env) (.geteventmsg pid)) := by
    refine (h pid).within_ptrace env (fun _ => True) fun w t hw _ _ => ?_
    rw [perform_geteventmsg_snd]
    exact hw
  refine Within.ite (fun _ => ?_) (fun _ => Within.pure _)
  refine Within.bind hmessage fun answer => ?_
  cases answer with
  | error e => exact Within.ite (fun _ => Within.pure _) (fun _ => Within.throw _)
  | ok message =>
    refine Within.bind (hinsert _) fun added => Within.ite (fun _ => ?_) (fun _ => Within.pure _)
    refine Within.bind (within_waitpidOrExit ((h _).within_waitpid env fun _ => True)) fun _ => ?_
    exact Within.bind (within_ptraceReturn ((h _).within_resume env fun _ => True)) fun _ =>
      Within.pure _

end Reproduce.Linux
