import Reproduce.Linux.Equiv.Runs

/-!
# Program images

When a thread executes a program, the new image takes over the pid of its group leader, even if the
leader is the process whose system call the tracer is handling.  The handler goes on with the
registers of the old image.

`writesStay_turn`: if no image is replaced while its process is being handled (`ImageStays`), what a
handler writes goes to the image that made the call (`WritesStay`).
-/

namespace Reproduce.Linux

open Bytes Effect

/-- The pid gets the image of another program. -/
def Move.Replaces (pid : PidT) : Move → Prop
  | .fork _ child .. => child = pid
  | .exec p leader .. => p = pid ∨ leader = pid
  | _ => False

instance (pid : PidT) : DecidablePred (Move.Replaces pid)
  | .fork _ child .. => inferInstanceAs (Decidable (child = pid))
  | .exec p leader .. => inferInstanceAs (Decidable (p = pid ∨ leader = pid))
  | .enter .. | .finish .. | .signal .. | .die .. | .store .. => inferInstanceAs (Decidable False)

/-- What was put in front of a list. -/
def newer {α : Type} (old l : List α) : List α := l.take (l.length - old.length)

/-- The entry that `handle_syscall` was called with, and the world at the call. -/
def handed : Event World → Option (ChildProcess × World)
  | .call (.handleSyscall child _) table os => (blockAt table child).map fun c => (c, os)
  | _ => none

/-- The calls of `handle_syscall` in a turn. -/
def handedIn (s s' : Tracer World) : List (ChildProcess × World) :=
  (newer s.trace s'.trace).filterMap handed

/-- From the call of `handle_syscall` on the image of its process stays. -/
def ImageStays (s s' : Tracer World) : Prop :=
  ∀ h ∈ handedIn s s', ∀ x ∈ newer h.2.history s'.os.history, ¬x.2.Replaces h.1.pid

instance (s s' : Tracer World) : Decidable (ImageStays s s') :=
  inferInstanceAs (Decidable (∀ h ∈ handedIn s s', ∀ x ∈ newer h.2.history s'.os.history,
    ¬x.2.Replaces h.1.pid))

/-- What a turn writes from the call of `handle_syscall` on goes to the process of the entry, and to
the address space that the process had at the call. -/
def WritesStay (s s' : Tracer World) : Prop :=
  ∀ h ∈ handedIn s s', ∀ x ∈ newer h.2.writes s'.os.writes,
    x.1 = h.1.pid ∧ (h.2.task h.1.pid).map Task.mm = some x.2

instance (s s' : Tracer World) : Decidable (WritesStay s s') :=
  inferInstanceAs (Decidable (∀ h ∈ handedIn s s', ∀ x ∈ newer h.2.writes s'.os.writes,
    x.1 = h.1.pid ∧ (h.2.task h.1.pid).map Task.mm = some x.2))

theorem newer_append {α : Type} (new old : List α) : newer old (new ++ old) = new := by
  unfold newer
  rw [List.length_append, Nat.add_sub_cancel, List.take_left]

/-! ### One image -/

/-- The process has the address space `mm`, if it is there, and everything that was written since
went there. -/
structure StaysIn (pid : PidT) (mm : Option Nat) (writes : List (PidT × Nat))
    (w : World) : Prop where
  image : ∀ t, w.task pid = some t → mm = some t.mm
  written : ∃ added, w.writes = added ++ writes ∧ ∀ x ∈ added, x.1 = pid ∧ mm = some x.2

variable {pid p : PidT} {mm : Option Nat} {writes : List (PidT × Nat)} {w w' : World} {t t' : Task}

theorem StaysIn.setTask (h : StaysIn pid mm writes w) (ht : w.task p = some t)
    (hmm : t'.mm = t.mm) :
    StaysIn pid mm writes (w.setTask p (some t')) := by
  refine ⟨fun u hu => ?_, h.written⟩
  by_cases hp : pid = p
  · subst hp
    rw [World.task_setTask_self] at hu
    cases hu
    rw [hmm]
    exact h.image t ht
  · rw [World.task_setTask_of_ne _ _ hp] at hu
    exact h.image u hu

/-- Other processes may change. -/
theorem StaysIn.other (h : StaysIn pid mm writes w) (htask : w'.task pid = w.task pid)
    (hwrites : w'.writes = w.writes) : StaysIn pid mm writes w' :=
  ⟨htask ▸ h.image, hwrites ▸ h.written⟩

theorem mm_resume (t : Task) (stop : Stop) (data : Word) : (t.resume stop data).mm = t.mm := by
  cases stop <;> rfl

theorem staysIn_moved {m : Move} (h : StaysIn pid mm writes w) (hmoved : Moved w m w') :
    StaysIn pid mm writes w' ∨ m.Replaces pid := by
  cases hmoved with
  | enter ht hstate => exact .inl (h.setTask ht rfl)
  | finish ht hstate => exact .inl (h.setTask ht (mm_finish _ _))
  | @fork p child t e thread share rsp ht hstate hnr he hchild hfree hshare =>
    -- a child may be born under the pid of a process that was reaped
    by_cases hreplaced : child = pid
    · exact .inr hreplaced
    · have hforking : StaysIn pid mm writes (w.setTask p (some (t.forking e child w.births))) :=
        h.setTask ht rfl
      refine .inl (hforking.other ?_ rfl)
      exact Function.update_of_ne (Ne.symm hreplaced) _ _
  | @exec p leader t old regs image ht hstate hnr hold htgid hleader hdead halone =>
    -- the thread that executes the program and its leader both lose their image
    by_cases hreplaced : p = pid ∨ leader = pid
    · exact .inr hreplaced
    · obtain ⟨hp, hl⟩ := not_or.mp hreplaced
      refine .inl (h.other ?_ rfl)
      exact (Function.update_of_ne (Ne.symm hl) _ _).trans (Function.update_of_ne (Ne.symm hp) _ _)
  | signal ht hstate => exact .inl (h.setTask ht rfl)
  | die ht hlive hstatus => exact .inl (h.setTask ht rfl)
  | store => exact .inl (h.other rfl rfl)

/-- A write to the process. -/
theorem StaysIn.recordWrite (h : StaysIn pid mm writes w) {n : Nat} (hmm : mm = some n) :
    StaysIn pid mm writes (w.recordWrite pid n) := by
  obtain ⟨added, hadded, hall⟩ := h.written
  refine ⟨h.image, (pid, n) :: added, congrArg _ hadded, fun x hx => ?_⟩
  rcases List.mem_cons.mp hx with rfl | hx
  · exact ⟨rfl, hmm⟩
  · exact hall x hx

theorem staysIn_resume (h : StaysIn pid mm writes w) (ht : w.task p = some t) (stop : Stop)
    (data : Word) : StaysIn pid mm writes (w.setTask p (some (t.resume stop data))) :=
  h.setTask ht (mm_resume t stop data)

theorem requestsKeep_staysIn (pid : PidT) (mm : Option Nat) (writes : List (PidT × Nat)) :
    RequestsKeep (fun x => x.2.Replaces pid) (fun _ => False) (StaysIn pid mm writes) pid where
  moved _ _ _ hw hmoved := (staysIn_moved hw hmoved).imp_left fun h => h.other rfl rfl
  ticked _ _ hw := hw.other rfl rfl
  poke w t m hw ht hstop := by
    have hmem : StaysIn pid mm writes (w.setMem t.mm m) := hw.other rfl rfl
    have hcount : StaysIn pid mm writes ((w.setMem t.mm m).countPoke pid t) := by
      unfold World.countPoke
      split
      · exact hmem.setTask ht rfl
      · exact hmem
    exact hcount.recordWrite (hw.image t ht)
  setregs w t regs hw ht hstop := by
    have hset : StaysIn pid mm writes (w.setTask pid (some { t with regs := regs })) :=
      hw.setTask ht rfl
    exact hset.recordWrite (hw.image t ht)
  resume w t stop hw ht hstop := staysIn_resume hw ht stop 0
  report w status w' hw hreported := by
    left
    cases hreported with
    | stopped ht hstate => exact hw.setTask ht rfl
    | reaped ht hstate hlast =>
      refine ⟨fun u hu => ?_, hw.written⟩
      rw [World.task_setTask_self] at hu
      cases hu

/-! ### One turn -/

/-- No call of `handle_syscall`. -/
def Uncalled (e : Event World) : Prop :=
  ∀ child regs table os, e ≠ .call (.handleSyscall child regs) table os

variable {env : Env} {scan : Nat} {s s' : Tracer World}

theorem steps_uncalled : Steps (kernel env) (Extends Uncalled) :=
  steps_extends (fun _ _ _ => nofun) (fun _ _ => nofun) (fun _ _ => nofun)
    fun c table os hc child regs _ _ h => by
    cases h
    exact hc child regs rfl

theorem handed_of_uncalled {e : Event World} (h : Uncalled e) : handed e = none := by
  cases e with
  | call c table os =>
    cases c with
    | handleSyscall child regs => exact absurd rfl (h child regs table os)
    | _ => rfl
  | _ => rfl

/-- A turn without a call of `handle_syscall`. -/
theorem handedIn_of_uncalled (h : Extends Uncalled s s') : handedIn s s' = [] := by
  obtain ⟨new, htrace, hnew⟩ := h
  rw [handedIn, htrace, newer_append, List.filterMap_eq_nil_iff]
  exact fun e he => handed_of_uncalled (hnew e he)

theorem within_staysIn_resume (pid p : PidT) (mm : Option Nat) (writes : List (PidT × Nat)) :
    Within (Keeps Later (Amiss (fun x => x.2.Replaces pid) fun _ => False)
      fun s => StaysIn pid mm writes s.os ∧ True) (ptraceDelete (kernel env) (.syscall p 0) p) := by
  have hresume : Within (Keeps Later (Amiss (fun x => x.2.Replaces pid) fun _ => False)
      fun s => StaysIn pid mm writes s.os ∧ True) (ptrace (kernel env) (.syscall p 0)) := by
    refine (requestsKeep_staysIn pid mm writes).toMovesKeep.within_ptrace env (fun _ => True) ?_
    intro w t hw ht hstop
    obtain ⟨stop, hstop⟩ := stop?_of_isStopped hstop
    rw [perform_syscall_snd p 0 hstop]
    exact staysIn_resume hw ht stop 0
  refine Within.bind hresume fun answer => ?_
  cases answer with
  | ok reply => exact Within.pure _
  | error e =>
    refine Within.ite (fun _ => ?_) (fun _ => Within.throw _)
    refine Within.bind (fun s => ?_) fun _ => Within.pure _
    rw [deleteProcess_apply]
    refine ⟨later_deleted s p, fun hs => .inl ⟨?_, trivial⟩⟩
    show StaysIn pid mm writes (s.deleted p).os
    rw [os_deleted]
    exact hs.1

/-- From the call of `handle_syscall` to the end of the turn. -/
theorem staysIn_handled {c : ChildProcess} {child : Ptr}
    (hc : blockAt s.processTable child = some c) (regs : UserRegsStruct) (p : PidT) :
    Keeps Later (Amiss (fun x => x.2.Replaces c.pid) fun _ => False)
      (fun s' => StaysIn c.pid ((s.os.task c.pid).map Task.mm) s.os.writes s'.os ∧ True)
      (s.noted (.handleSyscall child regs))
      (finalState ((handleSyscall (kernel env) child regs >>= fun _ =>
        ptraceDelete (kernel env) (.syscall p 0) p) s)) := by
  refine Within.bind_from ?_ fun _ => within_staysIn_resume c.pid p _ _
  rw [handleSyscall_eq (kernel env) hc]
  have hrequests :=
    (requestsKeep_staysIn c.pid ((s.os.task c.pid).map Task.mm) s.os.writes).requests env
    fun _ => True
  refine hrequests.within_runHook (fun t => ?_) regs _ _
  exact Within.bind (Requests.within_deref child) fun _ _ =>
    ⟨⟨List.suffix_rfl, List.suffix_rfl⟩, .inl⟩

/-- However a turn ends. -/
theorem writesStay_turn (h : ImageStays s (finalState (handleEventTurn (kernel env) scan () s))) :
    WritesStay s (finalState (handleEventTurn (kernel env) scan () s)) := by
  have hwait : Within (Extends Uncalled) (waitpid (kernel env) none) := by
    intro s
    rw [waitpid_apply]
    split <;> exact ⟨[_], rfl, fun e he => List.mem_singleton.mp he ▸ nofun⟩
  have hreceive := steps_uncalled.within_receiveStop hwait scan s
  -- no stop was received, or none with a hook, or `handle_syscall` was called
  rcases @turn_final _ (kernel env) scan s with
    hsame | hsame | ⟨pid, child, regs, s₁, hreceived, hfinal⟩
  · rw [hsame, WritesStay, handedIn_of_uncalled (Std.Refl.refl s)]
    exact List.forall_mem_nil _
  · rw [hsame, WritesStay, handedIn_of_uncalled hreceive]
    exact List.forall_mem_nil _
  · rw [hreceived] at hreceive
    obtain ⟨before, hbefore, huncalled⟩ := hreceive
    have hbefore' : s₁.trace = before ++ s.trace := hbefore
    obtain ⟨after, hafter, huncalled'⟩ : Extends Uncalled (s₁.noted (.handleSyscall child regs))
        (finalState ((handleSyscall (kernel env) child regs >>= fun _ =>
          ptraceDelete (kernel env) (.syscall pid 0) pid) s₁)) :=
      Within.bind_from (steps_uncalled.handleSyscall_from child regs s₁) fun _ =>
        steps_uncalled.within_ptraceDelete (r := .syscall pid 0) rfl pid
    rw [hfinal] at h ⊢
    -- the one call of the turn
    have hhanded : handedIn s (finalState ((handleSyscall (kernel env) child regs >>= fun _ =>
        ptraceDelete (kernel env) (.syscall pid 0) pid) s₁)) =
        ((blockAt s₁.processTable child).map fun c => (c, s₁.os)).toList := by
      have hsplit : after ++ (s₁.noted (.handleSyscall child regs)).trace =
          (after ++ .call (.handleSyscall child regs) s₁.processTable s₁.os :: before) ++
            s.trace := by
        simp [Tracer.noted, hbefore']
      have hnone : ∀ l : List (Event World), (∀ e ∈ l, Uncalled e) → l.filterMap handed = [] :=
        fun l hl => List.filterMap_eq_nil_iff.mpr fun e he => handed_of_uncalled (hl e he)
      rw [handedIn, hafter, hsplit, newer_append, List.filterMap_append, hnone _ huncalled',
        List.nil_append, List.filterMap_cons]
      cases hc : blockAt s₁.processTable child with
      | none => simp [handed, hc, hnone _ huncalled]
      | some c => simp [handed, hc, hnone _ huncalled]
    cases hc : blockAt s₁.processTable child with
    | none =>
      rw [WritesStay, hhanded, hc]
      exact List.forall_mem_nil _
    | some c =>
      have hhanded' := hhanded
      rw [hc] at hhanded'
      have hkeeps := @staysIn_handled env s₁ c child hc regs pid
      -- at the call nothing was written yet
      have hstart : StaysIn c.pid ((s₁.os.task c.pid).map Task.mm) s₁.os.writes s₁.os := by
        refine ⟨fun t ht => ?_, [], rfl, fun x hx => ?_⟩
        · rw [ht]
          rfl
        · cases hx
      rcases hkeeps.2 ⟨hstart, trivial⟩ with ⟨hstays, -⟩ | ⟨new, hnew, x, hx, hreplaced⟩ |
        ⟨_, -, _, -, hfalse⟩
      · -- the image stayed, so what was written went into it
        obtain ⟨added, hadded, hall⟩ := hstays.written
        rw [WritesStay, hhanded']
        intro g hg x hx
        rw [List.mem_singleton.mp hg] at hx ⊢
        rw [hadded, newer_append] at hx
        exact hall x hx
      · -- the image was replaced during the call, which the hypothesis rules out
        have himage := h (c, s₁.os) (by rw [hhanded']; exact .head _) x
        rw [hnew] at himage
        refine absurd hreplaced (himage ?_)
        show x ∈ newer s₁.os.history (new ++ s₁.os.history)
        rw [newer_append]
        exact hx
      · exact hfalse.elim

end Reproduce.Linux
