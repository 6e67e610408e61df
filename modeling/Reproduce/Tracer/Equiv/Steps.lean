import Reproduce.Tracer.Equiv.Table
import Reproduce.Tracer.Main

/-!
# Relations that hold across every step

`Steps` lists what the tracer does between two waits of its loop.  A relation that looks at the
trace and the world only, and that holds across each of these steps, holds across every function of
the tracer that a turn calls, and with the wait of the loop across every run (`within_traceChild`).
-/

namespace Reproduce

open Bytes Effect

variable {W : Type} (K : Kernel W)

/-- A request that delivers no signal. -/
def Request.Silent : Request → Prop
  | .syscall _ data => data = 0
  | _ => True

/-- `R` holds across every step, except for the wait of the loop and the recording of a call of
`handle_syscall`. -/
structure Steps (R : Tracer W → Tracer W → Prop) : Prop where
  ptrace : ∀ r : Request, r.Silent → Within R (ptrace K r)
  wait : ∀ pid, Within R (waitpid K (some pid))
  malloc : ∀ size, Within R (malloc K size)
  note : ∀ s c, (∀ child regs, c ≠ .handleSyscall child regs) → R s (s.noted c)
  /-- A change to the tracer's own data. -/
  own : ∀ (s : Tracer W) table count addr buffer, R s
    { s with processTable := table, entryCount := count, nextAddr := addr, buffer := buffer }

variable {K} {R : Tracer W → Tracer W → Prop}

/-- A turn ends where it began, or where it received a stop, or it handles a stop. -/
theorem turn_final (scan : Nat) (s : Tracer W) :
    finalState (handleEventTurn K scan () s) = s ∨
      finalState (handleEventTurn K scan () s) = finalState (receiveStop K scan s) ∨
      ∃ pid child regs s₁, receiveStop K scan s = .ok (.hook pid child regs) s₁ ∧
        finalState (handleEventTurn K scan () s) =
          finalState ((handleSyscall K child regs >>= fun _ =>
            ptraceDelete K (.syscall pid 0) pid) s₁) := by
  have hempty : (isHashTableEmpty : TracerM W Bool) s = .ok (decide (s.entryCount = 0)) s := rfl
  rw [handleEventTurn, bind_apply_ok hempty]
  split
  · exact .inl rfl
  · right
    cases hreceive : receiveStop K scan s with
    | error e s₁ =>
      rw [bind_apply_error hreceive]
      exact .inl rfl
    | ok dispatch s₁ =>
      rw [bind_apply_ok hreceive]
      cases dispatch with
      | next => exact .inl rfl
      | stop => exact .inl rfl
      | hook pid child regs =>
        -- what is left of the turn behind the resumption changes nothing
        refine .inr ⟨pid, child, regs, s₁, rfl, ?_⟩
        show finalState ((handleSyscall K child regs >>= fun _ =>
          ptraceDelete K (.syscall pid 0) pid >>= fun _ => pure (Sum.inl ())) s₁) = _
        rw [← bind_assoc, finalState_bind_pure]

namespace Steps

theorem requests (h : Steps K R) (pid : PidT) : Requests K R pid where
  peek _ := h.ptrace _ trivial
  poke _ _ := h.ptrace _ trivial
  setregs _ := h.ptrace _ trivial
  resume := h.ptrace _ rfl
  wait := h.wait pid
  malloc := h.malloc
  buffer s f := h.own s s.processTable s.entryCount s.nextAddr f

variable [IsPreorder (Tracer W) R]

theorem within_insertProcess (h : Steps K R) (pid : PidT) : Within R (insertProcess K pid) := by
  have hfind : Within R (findProcess pid : TracerM W (Option Ptr)) := fun s => Std.Refl.refl s
  refine Within.bind hfind fun found => Within.ite (fun _ => Within.pure _) (fun _ => ?_)
  refine Within.bind (fun s => h.note s _ nofun) fun _ => ?_
  refine Within.bind (h.malloc _) fun granted => Within.ite (fun _ => ?_) (fun _ => Within.throw _)
  exact Within.bind (fun s => h.own s _ _ _ s.buffer) fun _ => Within.pure _

theorem within_deleteProcess (h : Steps K R) (pid : PidT) :
    Within R (deleteProcess pid : TracerM W Unit) := by
  have hfind : Within R (findProcess pid : TracerM W (Option Ptr)) := fun s => Std.Refl.refl s
  refine Within.bind (fun s => h.note s _ nofun) fun _ => ?_
  refine Within.bind hfind fun found => ?_
  cases found with
  | none => exact Within.pure _
  | some proc => exact fun s => h.own s _ _ s.nextAddr s.buffer

theorem within_setClock (h : Steps K R) (child : Ptr) (t : Timespec) :
    Within R (setClock child t : TracerM W Unit) :=
  Within.bind (Requests.within_deref child) fun _ s => h.own s _ s.entryCount s.nextAddr s.buffer

theorem within_procInit (h : Steps K R) (scan : Nat) (pid : PidT) :
    Within R (procInit K scan pid) :=
  (h.requests pid).within_procInit (h.ptrace _ rfl) (fun s => h.note s _ nofun) scan

theorem within_ptraceDelete (h : Steps K R) {r : Request} (hr : r.Silent) (pid : PidT) :
    Within R (ptraceDelete K r pid) := by
  refine Within.bind (h.ptrace r hr) fun answer => ?_
  cases answer with
  | ok reply => exact Within.pure _
  | error e =>
    refine Within.ite (fun _ => ?_) (fun _ => Within.throw _)
    exact Within.bind (h.within_deleteProcess pid) fun _ => Within.pure _

theorem within_registerNewChild (h : Steps K R) (pid : PidT) :
    Within R (registerNewChild K pid) := by
  refine Within.bind (h.ptrace _ trivial) fun answer => ?_
  cases answer with
  | error e => exact Within.ite (fun _ => Within.pure _) (fun _ => Within.throw _)
  | ok newChild =>
    refine Within.bind (h.within_insertProcess _) fun added => ?_
    refine Within.ite (fun _ => ?_) (fun _ => Within.pure _)
    refine Within.bind (within_waitpidOrExit (h.wait _)) fun status => ?_
    exact Within.bind (within_ptraceReturn (h.ptrace _ rfl)) fun _ => Within.pure _

theorem within_registerForkEvent (h : Steps K R) (pid : PidT) (status : Status) :
    Within R (registerForkEvent K pid status) :=
  Within.ite (fun _ => h.within_registerNewChild pid) (fun _ => Within.pure _)

theorem within_lookUpStop (h : Steps K R) (scan : Nat) (pid : PidT) :
    Within R (lookUpStop K scan pid) := by
  have hfind : Within R (findProcess pid : TracerM W (Option Ptr)) := fun s => Std.Refl.refl s
  refine Within.bind hfind fun child => ?_
  cases child with
  | none =>
    refine Within.bind (h.within_procInit scan pid) fun _ => ?_
    exact Within.bind (h.within_insertProcess pid) fun _ => Within.pure _
  | some child =>
    refine Within.bind (h.within_ptraceDelete (r := .getregs pid) trivial pid) fun reply => ?_
    cases reply with
    | some regs => exact Within.pure _
    | none => exact fun s => Std.Refl.refl s

theorem within_dispatchStop (h : Steps K R) (scan : Nat) (pid : PidT) (status : Status) :
    Within R (dispatchStop K scan pid status) := by
  refine Within.ite (fun _ => ?_) (fun _ => Within.ite (fun _ => ?_) (fun _ => ?_))
  · exact Within.bind (h.within_deleteProcess pid) fun _ => Within.pure _
  · exact Within.bind (h.within_procInit scan pid) fun _ => Within.pure _
  · exact Within.bind (h.within_registerForkEvent pid status) fun _ => h.within_lookUpStop scan pid

theorem within_receiveStop (h : Steps K R) (hwait : Within R (waitpid K none)) (scan : Nat) :
    Within R (receiveStop K scan) := by
  refine Within.bind hwait fun answer => ?_
  cases answer with
  | error e => exact Within.ite (fun _ => Within.pure _) (fun _ => Within.throw _)
  | ok q => exact h.within_dispatchStop scan q.1 q.2

/-- `handle_syscall` records its call first. -/
theorem handleSyscall_from (h : Steps K R) (child : Ptr) (regs : UserRegsStruct) (s : Tracer W) :
    R (s.noted (.handleSyscall child regs)) (finalState (handleSyscall K child regs s)) := by
  rw [handleSyscall, bind_apply_ok (note_apply _ s)]
  refine Within.bind (Requests.within_deref child) (fun c => ?_) _
  exact (h.requests c.pid).within_runHook (h.within_setClock child) regs _

theorem within_handleSyscall (h : Steps K R)
    (hcall : ∀ s child regs, R s (s.noted (.handleSyscall child regs))) (child : Ptr)
    (regs : UserRegsStruct) : Within R (handleSyscall K child regs) :=
  fun s => IsTrans.trans _ _ _ (hcall s child regs) (h.handleSyscall_from child regs s)

/-- A turn goes on from where the stop was received. -/
theorem turn_from (h : Steps K R)
    (hcall : ∀ s child regs, R s (s.noted (.handleSyscall child regs))) (scan : Nat)
    (s : Tracer W) :
    finalState (handleEventTurn K scan () s) = s ∨
      R (finalState (receiveStop K scan s)) (finalState (handleEventTurn K scan () s)) := by
  rcases turn_final scan s with hsame | hsame | ⟨pid, child, regs, s₁, hreceive, hfinal⟩
  · exact .inl hsame
  · rw [hsame]
    exact .inr (Std.Refl.refl _)
  · rw [hreceive, hfinal]
    refine .inr (Within.bind_from (h.within_handleSyscall hcall child regs s₁) fun _ => ?_)
    exact h.within_ptraceDelete (r := .syscall pid 0) rfl pid

/-! ### Runs -/

section runs

variable (h : Steps K R) (hwait : Within R (waitpid K none))
  (hcall : ∀ s child regs, R s (s.noted (.handleSyscall child regs))) (scan : Nat)

include h hwait hcall

theorem within_handleEventTurn : Within R (handleEventTurn K scan ()) := by
  intro s
  rcases h.turn_from hcall scan s with hsame | hfrom
  · rw [hsame]
    exact Std.Refl.refl s
  · exact IsTrans.trans _ _ _ (h.within_receiveStop hwait scan s) hfrom

/-- A run takes steps only. -/
theorem within_traceChild (n : Nat) (childPid : PidT) :
    Within R (traceChild K scan n childPid) := by
  refine Within.bind (h.within_insertProcess childPid) fun _ => ?_
  refine Within.bind (h.ptrace (.syscall childPid 0) rfl) fun answer => ?_
  cases answer with
  | ok _ => exact Within.loop (fun _ => h.within_handleEventTurn hwait hcall scan) n ()
  | error e => exact Within.pure _

end runs

end Steps

/-- Every step adds events to the trace; none of them is a wait of the loop, and only
`handle_syscall` records its call. -/
theorem steps_extends {φ : Event W → Prop} (hptrace : ∀ r answer, r.Silent → φ (.ptrace r answer))
    (hwait : ∀ pid answer, φ (.wait (some pid) answer))
    (hmalloc : ∀ size granted, φ (.malloc size granted))
    (hcall : ∀ c table os, (∀ child regs, c ≠ .handleSyscall child regs) → φ (.call c table os)) :
    Steps K (Extends φ) := by
  have hone : ∀ {s s' : Tracer W} {e : Event W}, s'.trace = e :: s.trace → φ e → Extends φ s s' :=
    fun htrace he => ⟨[_], htrace, fun _ he' => List.mem_singleton.mp he' ▸ he⟩
  constructor
  · exact fun r hr s => hone rfl (hptrace r _ hr)
  · intro pid s
    rw [waitpid_apply]
    split <;> exact hone rfl (hwait pid _)
  · intro size s
    unfold Reproduce.malloc
    split <;> exact hone rfl (hmalloc _ _)
  · exact fun s c hc => hone rfl (hcall c _ _ hc)
  · exact fun s table count addr buffer => ⟨[], rfl, fun _ he => by cases he⟩

end Reproduce
