import Reproduce.Tracer.Equiv.Steps
import Reproduce.Tracer.Equiv.Turn

/-!
# A program is resumed without its vDSO

The loop answers an exec stop that its own `waitpid` reports with `proc_init`.  The waits inside the
handlers do not look at the status beyond the exit check, so an exec stop that one of them receives
is taken for the stop that the handler waits for.

`hidden_turn`, for every kernel: as long as no wait for a single process receives an exec stop,
every exec stop that is received is followed by `remove_vdso` before anything else happens.
-/

namespace Reproduce

open Bytes Effect

variable {W : Type} {K : Kernel W}

/-- A wait received an exec stop. -/
def ExecReport : Event W → Prop
  | .wait _ (some (.ok (_, status))) => isExecStop status = true
  | _ => False

/-- A wait for a single process received an exec stop. -/
def ExecInside : Event W → Prop
  | .wait (some _) (some (.ok (_, status))) => isExecStop status = true
  | _ => False

instance : DecidablePred (ExecInside : Event W → Prop)
  | .wait (some _) (some (.ok (_, status))) => inferInstanceAs
    (Decidable (isExecStop status = true))
  | .wait (some _) (some (.error _)) | .wait (some _) none | .wait none _ | .ptrace _ _
  | .malloc _ _ | .call _ _ _ => inferInstanceAs (Decidable False)

/-- The processes of which an exec stop was received, and for which `remove_vdso` was not called
since. -/
def awaiting : List (Event W) → List PidT
  | [] => []
  | .wait _ (some (.ok (pid, status))) :: older =>
    if isExecStop status then pid :: awaiting older else awaiting older
  | .call (.removeVdso pid) _ _ :: older => (awaiting older).filter fun p => p ≠ pid
  | _ :: older => awaiting older

/-- No process was resumed between an exec stop that was received and the call of `remove_vdso`. -/
def VdsoHidden : List (Event W) → Prop
  | [] => True
  | .ptrace (.syscall pid _) (.ok _) :: older => pid ∉ awaiting older ∧ VdsoHidden older
  | _ :: older => VdsoHidden older

instance decidableVdsoHidden : (trace : List (Event W)) → Decidable (VdsoHidden trace)
  | [] => inferInstanceAs (Decidable True)
  | .ptrace (.syscall pid _) (.ok _) :: older =>
    have := decidableVdsoHidden older
    inferInstanceAs (Decidable (pid ∉ awaiting older ∧ VdsoHidden older))
  | .ptrace (.syscall _ _) (.error _) :: older | .ptrace (.peek _ _) _ :: older
  | .ptrace (.pokedata _ _ _) _ :: older | .ptrace (.getregs _) _ :: older
  | .ptrace (.setregs _ _) _ :: older | .ptrace (.geteventmsg _) _ :: older | .wait _ _ :: older
  | .malloc _ _ :: older | .call _ _ _ :: older => decidableVdsoHidden older

/-! ### Events that are no exec stops -/

/-- Every exec stop that was received was answered. -/
structure Hidden (trace : List (Event W)) : Prop where
  answered : awaiting trace = []
  hidden : VdsoHidden trace

theorem hidden_nil : Hidden ([] : List (Event W)) := ⟨rfl, trivial⟩

theorem Hidden.cons {trace : List (Event W)} {e : Event W} (h : Hidden trace)
    (he : ¬ExecReport e) : Hidden (e :: trace) := by
  cases e with
  | ptrace r answer =>
    refine ⟨h.answered, ?_⟩
    cases r with
    | syscall pid data =>
      cases answer with
      | error e => exact h.hidden
      | ok _ =>
        refine ⟨?_, h.hidden⟩
        rw [h.answered]
        exact List.not_mem_nil
    | _ => exact h.hidden
  | wait target answer =>
    refine ⟨?_, h.hidden⟩
    -- only a report of an exec stop would leave a process awaiting
    rcases answer with _ | _ | ⟨pid, status⟩
    · exact h.answered
    · exact h.answered
    · have hstop : ¬isExecStop status = true := he
      rw [awaiting, if_neg hstop]
      exact h.answered
  | malloc size granted => exact ⟨h.answered, h.hidden⟩
  | call c table os =>
    refine ⟨?_, h.hidden⟩
    cases c with
    | removeVdso pid =>
      rw [awaiting, h.answered]
      rfl
    | _ => exact h.answered

theorem Hidden.append {trace new : List (Event W)} (h : Hidden trace)
    (hnew : ∀ e ∈ new, ¬ExecReport e) : Hidden (new ++ trace) := by
  induction new with
  | nil => exact h
  | cons e new ih => exact (ih fun e' he' => hnew e' (.tail _ he')).cons (hnew e (.head _))

/-- An exec stop that is answered. -/
theorem Hidden.exec {trace : List (Event W)} (h : Hidden trace) (target : WaitTarget) (pid : PidT)
    (status : Status) (table : List ChildProcess) (os : W) :
    Hidden (.call (.removeVdso pid) table os :: .wait target
      (some (.ok (pid, status))) :: trace) := by
  refine ⟨?_, h.hidden⟩
  rw [awaiting, awaiting, h.answered]
  split
  · simp
  · rfl

/-! ### One turn -/

/-- An event that is no wait of the loop. -/
def Beyond : Event W → Prop
  | .wait none _ => False
  | _ => True

theorem steps_beyond : Steps K (Extends Beyond) :=
  steps_extends (fun _ _ _ => trivial) (fun _ _ => trivial) (fun _ _ => trivial) fun _ _
    _ _ => trivial

theorem Beyond.not_execReport {e : Event W} (h : Beyond e) (hinside : ¬ExecInside e) :
    ¬ExecReport e := by
  cases e with
  | wait target answer =>
    rcases target with _ | p
    · exact h.elim
    · rcases answer with _ | _ | ⟨q, status⟩
      · exact id
      · exact id
      · exact hinside
  | _ => exact id

variable {scan : Nat} {s : Tracer W}

theorem Hidden.extends {s s' : Tracer W} (h : Hidden s.trace) (hs : Extends Beyond s s')
    (hinside : ∀ e ∈ s'.trace, ¬ExecInside e) : Hidden s'.trace := by
  obtain ⟨new, htrace, hnew⟩ := hs
  rw [htrace]
  refine h.append fun e he => (hnew e he).not_execReport (hinside e ?_)
  rw [htrace]
  exact List.mem_append_left _ he

/-- A wait of the loop that received no exec stop. -/
theorem Hidden.waited (h : Hidden s.trace)
    (hreport : ¬ExecReport (.wait none (K.waitpid none s.os).1 : Event W)) :
    Hidden (s.waited K none).trace :=
  h.cons hreport

/-- `proc_init` after an exec stop of the process. -/
theorem Hidden.execd (h : Hidden s.trace) {pid : PidT} {status : Status}
    (hwait : (K.waitpid none s.os).1 = some (.ok (pid, status)))
    (hinside : ∀ e ∈ (finalState (procInit K scan pid (s.waited K none))).trace, ¬ExecInside e) :
    Hidden (finalState (procInit K scan pid (s.waited K none))).trace := by
  have hcalled : Hidden ((s.waited K none).noted (.removeVdso pid)).trace := by
    have hexec := h.exec none pid status (s.waited K none).processTable (s.waited K none).os
    rw [← hwait] at hexec
    exact hexec
  have hbeyond := (@steps_beyond W K).requests pid
  exact hcalled.extends (hbeyond.toPokes.procInit_from hbeyond.resume scan _) hinside

theorem finalState_dispatchStop_exec {pid : PidT} {status : Status} (h : isExecStop status = true) :
    finalState (dispatchStop K scan pid status s) = finalState (procInit K scan pid s) := by
  rw [dispatchStop, if_neg (by rw [terminated_of_isExecStop h]; exact Bool.false_ne_true)]
  unfold isExecStop at h
  rw [if_pos h, finalState_bind_pure]

theorem hidden_receiveStop (h : Hidden s.trace)
    (hinside : ∀ e ∈ (finalState (receiveStop K scan s)).trace, ¬ExecInside e) :
    Hidden (finalState (receiveStop K scan s)).trace := by
  by_cases hreported : ∃ pid status, (K.waitpid none s.os).1 = some (.ok (pid, status))
  · obtain ⟨pid, status, hwait⟩ := hreported
    rw [receiveStop_eq hwait] at hinside ⊢
    -- an exec stop is answered by `proc_init` at once; after any other stop nothing is awaited
    by_cases hexec : isExecStop status = true
    · rw [finalState_dispatchStop_exec hexec] at hinside ⊢
      exact h.execd hwait hinside
    · have hwaited : Hidden (s.waited K none).trace := by
        refine h.waited fun hreport => hexec ?_
        rw [hwait] at hreport
        exact hreport
      exact hwaited.extends (steps_beyond.within_dispatchStop scan pid status _) hinside
  · have hwaited : Hidden (s.waited K none).trace := by
      refine h.waited fun hreport => hreported ?_
      cases hanswer : (K.waitpid none s.os).1 with
      | none =>
        rw [hanswer] at hreport
        exact hreport.elim
      | some answer =>
        cases answer with
        | error e =>
          rw [hanswer] at hreport
          exact hreport.elim
        | ok q => exact ⟨q.1, q.2, rfl⟩
    have hfinal : Extends Beyond (s.waited K none) (finalState (receiveStop K scan s)) := by
      refine Within.bind_from ?_ fun answer => ?_
      · rw [waitpid_apply]
        split <;> exact Std.Refl.refl _
      · cases answer with
        | error e => exact Within.ite (fun _ => Within.pure _) (fun _ => Within.throw _)
        | ok q => exact steps_beyond.within_dispatchStop scan q.1 q.2
    exact hwaited.extends hfinal hinside

/-- However a turn ends. -/
theorem hidden_turn (h : Hidden s.trace)
    (hinside : ∀ e ∈ (finalState (handleEventTurn K scan () s)).trace, ¬ExecInside e) :
    Hidden (finalState (handleEventTurn K scan () s)).trace := by
  have hcall : ∀ (s : Tracer W) child regs, Extends Beyond s
      (s.noted (.handleSyscall child regs)) :=
    fun s child regs => ⟨[_], rfl, fun e he => List.mem_singleton.mp he ▸ trivial⟩
  -- the table is empty and nothing happens, or a stop is received first
  rcases (@steps_beyond W K).turn_from hcall scan s with hsame | hfinal
  · rw [hsame]
    exact h
  · have hreceived : Hidden (finalState (receiveStop K scan s)).trace := by
      refine hidden_receiveStop h fun e he => hinside e ?_
      obtain ⟨new, htrace, -⟩ := hfinal
      rw [htrace]
      exact List.mem_append_right _ he
    exact hreceived.extends hfinal hinside

end Reproduce
