import Reproduce.Linux.Equiv.Hooks
import Reproduce.Tracer.Equiv.LiveEntry

/-!
# The descriptors of a redirected call

`getrandom` is cancelled, but an open call that is redirected is carried out by the kernel, and only
its result is overwritten.  A descriptor that the kernel opens for it stays in the table of the
process, which is told 0 and cannot close what it does not know of: the descriptors are as before
exactly when the kernel's open fails (`redirected_calls_keep_descriptors_iff`).

The proof follows one process through the requests of `redirect_dev_random` (`Known`): to the entry
of the call, into the kernel, to the exit, and to the result.
-/

namespace Reproduce.Linux

open Bytes Effect

/-! ### What is known of one process -/

/-- A system call of the process ends with success. -/
def Succeeds (pid : PidT) (x : Nat × Move) : Prop :=
  ∃ regs, x.2 = .finish pid regs ∧ regs.rax.msb = false

/-- A system call of the process has succeeded since the history was `h₀`. -/
def Succeeded (pid : PidT) (h₀ : List (Nat × Move)) (w : World) : Prop :=
  Added (Succeeds pid) h₀ w.history

/-- There is a task with the pid, and `G` holds of it, given whether a call of it has succeeded. -/
structure Known (pid : PidT) (h₀ : List (Nat × Move)) (G : Prop → Task → Prop)
    (w : World) : Prop where
  suffix : h₀ <:+ w.history
  task : ∃ t, w.task pid = some t ∧ G (Succeeded pid h₀ w) t

/-- `G` is kept by a task that does not run, or runs inside a call that creates no process and
executes no program. -/
structure Enclosed (G : Prop → Task → Prop) : Prop where
  user : ∀ {o t}, G o t → t.state ≠ .user
  plain : ∀ {o t fresh}, G o t → t.state = .kernel fresh →
    isCreation t.regs.origRax = false ∧ isExecve t.regs.origRax = false
  finish : ∀ {o t fresh}, G o t → t.state = .kernel fresh → ∀ regs : UserRegsStruct,
    G (o ∨ regs.rax.msb = false) (t.finish regs)
  die : ∀ {o t status}, G o t → terminated status = true → G o { t with state := .zombie status }

/-- Another thread replaces the program of the process. -/
abbrev ReplacesProgram (pid : PidT) (x : Nat × Move) : Prop :=
  ∃ q regs image, x.2 = .exec q pid regs image

variable {pid : PidT} {h₀ : List (Nat × Move)} {G G' : Prop → Task → Prop}
  {w w' : World} {t t' : Task}

theorem Known.set (h : Known pid h₀ G w) (hhistory : w'.history = w.history)
    (htask : w'.task pid = some t') (hG : G' (Succeeded pid h₀ w) t') : Known pid h₀ G' w' := by
  refine ⟨hhistory ▸ h.suffix, t', htask, ?_⟩
  unfold Succeeded
  rw [hhistory]
  exact hG

theorem known_moved {m : Move} (hG : Enclosed G) (h : Known pid h₀ G w) (hmoved : Moved w m w')
    (hsame : ¬ReplacesProgram pid (w.tick, m)) :
    Known pid h₀ G { w' with history := (w.tick, m) :: w.history } := by
  obtain ⟨hsuffix, t, ht, hknown⟩ := h
  have hsucceeded : Succeeded pid h₀ { w' with history := (w.tick, m) :: w.history } =
      (Succeeded pid h₀ w ∨ Succeeds pid (w.tick, m)) := propext (added_cons hsuffix)
  have hnext : ∀ {t'}, w'.task pid = some t' →
      G (Succeeded pid h₀ w ∨ Succeeds pid (w.tick, m)) t' →
      Known pid h₀ G { w' with history := (w.tick, m) :: w.history } :=
    fun ht' hG' => ⟨hsuffix.trans (List.suffix_cons _ _), _, ht', hsucceeded ▸ hG'⟩
  -- a move that is not the end of the call
  have hother : (∀ regs, m ≠ .finish pid regs) → ∀ {t'}, w'.task pid = some t' →
      G (Succeeded pid h₀ w) t' →
        Known pid h₀ G { w' with history := (w.tick, m) :: w.history } := by
    intro hm t' ht' hG'
    have hfails : ¬Succeeds pid (w.tick, m) := fun ⟨regs, hfinish, _⟩ => hm regs hfinish
    exact hnext ht' (by rwa [eq_false hfails, or_false])
  -- other tasks change nothing here, and of the moves of this one only the end of the
  -- call is possible
  cases hmoved with
  | @enter p u regs hu hstate =>
    by_cases hp : pid = p
    · subst hp
      cases ht.symm.trans hu
      exact absurd hstate (hG.user hknown)
    · exact hother nofun ((World.task_setTask_of_ne _ _ hp).trans ht) hknown
  | @finish p u fresh regs hu hstate =>
    by_cases hp : pid = p
    · subst hp
      cases ht.symm.trans hu
      have hsucceeds : Succeeds pid (w.tick, .finish pid regs) = (regs.rax.msb = false) := by
        refine propext ⟨?_, fun hmsb => ⟨regs, rfl, hmsb⟩⟩
        rintro ⟨regs', ⟨⟩, hmsb⟩
        exact hmsb
      exact hnext (World.task_setTask_self ..) (hsucceeds ▸ hG.finish hknown hstate regs)
    · refine hother ?_ ((World.task_setTask_of_ne _ _ hp).trans ht) hknown
      rintro regs' ⟨⟩
      exact hp rfl
  | @fork p child u e thread share rsp hu hstate hnr he hchild hfree hshare =>
    have hne : pid ≠ child := by
      rintro rfl
      cases ht.symm.trans hfree
    by_cases hp : pid = p
    · subst hp
      cases ht.symm.trans hu
      rw [(hG.plain hknown hstate).1] at hnr
      cases hnr
    · refine hother nofun ?_ hknown
      exact (World.task_setTask_of_ne _ _ hne).trans ((World.task_setTask_of_ne _ _ hp).trans ht)
  | @exec p leader u old regs image hu hstate hnr hold htgid hleader hdead halone =>
    by_cases hl : pid = leader
    · subst hl
      exact absurd ⟨p, regs, image, rfl⟩ hsame
    by_cases hp : pid = p
    · subst hp
      cases ht.symm.trans hu
      rw [(hG.plain hknown hstate).2] at hnr
      cases hnr
    · refine hother nofun ?_ hknown
      exact (World.task_setTask_of_ne _ _ hl).trans ((World.task_setTask_of_ne _ _ hp).trans ht)
  | @signal p u sig regs hu hstate =>
    by_cases hp : pid = p
    · subst hp
      cases ht.symm.trans hu
      exact absurd hstate (hG.user hknown)
    · exact hother nofun ((World.task_setTask_of_ne _ _ hp).trans ht) hknown
  | @die p u status hu hlive hstatus =>
    by_cases hp : pid = p
    · subst hp
      cases ht.symm.trans hu
      exact hother nofun (World.task_setTask_self ..) (hG.die hknown hstatus)
    · exact hother nofun ((World.task_setTask_of_ne _ _ hp).trans ht) hknown
  | store => exact hother nofun ht hknown

theorem movesKeep_known (hG : Enclosed G) : MovesKeep (ReplacesProgram pid) (Known pid h₀ G) where
  moved w m w' h hmoved := by
    by_cases hsame : ReplacesProgram pid (w.tick, m)
    · exact .inr hsame
    · exact .inl (known_moved hG h hmoved hsame)
  ticked _ _ h := ⟨h.suffix, h.task⟩

/-! ### The phases of a redirected call -/

/-- What is known of a task that is stopped or dead can only be changed by its death. -/
theorem enclosed_of_still (hstill : ∀ {o t}, G o t → t.isDead = true ∨ ∃ stop, t.stop? = some stop)
    (hdie : ∀ {o t status}, G o t → terminated status = true →
      G o { t with state := .zombie status }) :
    Enclosed G where
  user h := (still_state (hstill h)).1
  plain h hstate := absurd hstate ((still_state (hstill h)).2 _)
  finish h hstate := absurd hstate ((still_state (hstill h)).2 _)
  die := hdie

section phases

variable (fds : List Nat)

/-- The descriptors after an open call that has or has not succeeded. -/
def Task.HasFds (t : Task) (succeeded : Prop) : Prop :=
  (¬succeeded ∧ t.fds = fds) ∨ (succeeded ∧ t.fds = lowestFree fds :: fds)

/-- Dead, or at the entry of an open call. -/
def Opening (succeeded : Prop) (t : Task) : Prop :=
  (¬succeeded ∧ t.fds = fds) ∧
    (t.Died ∨ (t.stop? = some .syscallEntry ∧ isOpen t.regs.origRax = true))

/-- Dead, or at the exit of a call with `R`. -/
def Leaving (R : Task → Prop) (succeeded : Prop) (t : Task) : Prop :=
  t.HasFds fds succeeded ∧ (t.Died ∨ (t.stop? = some .syscallExit ∧ R t))

/-- Inside an open call, or behind it. -/
def Carrying (succeeded : Prop) (t : Task) : Prop :=
  ((¬succeeded ∧ t.fds = fds) ∧ isOpen t.regs.origRax = true ∧ ∃ fresh, t.state = .kernel fresh) ∨
    Leaving fds (fun _ => True) succeeded t

variable {fds}

theorem still_of_died_or {stop : Stop} {c : Prop} (h : t.Died ∨ (t.stop? = some stop ∧ c)) :
    t.isDead = true ∨ ∃ stop, t.stop? = some stop := by
  rcases h with ⟨status, hzombie, -⟩ | ⟨hstop, -⟩
  · exact .inl (by simp [Task.isDead, hzombie])
  · exact .inr ⟨stop, hstop⟩

theorem died_of_still {stop : Stop} {c : Prop} (h : t.Died ∨ (t.stop? = some stop ∧ c))
    (hstill : t.isStopped = false) : t.Died := by
  rcases h with hdied | ⟨hstop, -⟩
  · exact hdied
  · obtain ⟨reported, hstate⟩ := state_of_stop? hstop
    simp [Task.isStopped, hstate] at hstill

theorem died_zombie {status : Status} (h : terminated status = true) :
    Task.Died { t with state := .zombie status } := ⟨status, rfl, h⟩

theorem enclosed_opening : Enclosed (Opening fds) :=
  enclosed_of_still (fun h => still_of_died_or h.2) fun h hstatus =>
    ⟨h.1, .inl (died_zombie hstatus)⟩

theorem enclosed_leaving (R : Task → Prop) : Enclosed (Leaving fds R) :=
  enclosed_of_still (fun h => still_of_died_or h.2) fun h hstatus =>
    ⟨h.1, .inl (died_zombie hstatus)⟩

theorem plain_of_isOpen {nr : Word} (h : isOpen nr = true) :
    nr ≠ -1 ∧ isCreation nr = false ∧ isExecve nr = false := by
  unfold isOpen at h
  split at h
  · next hook hhook =>
    refine ⟨?_, ordinary_of_hookOf hhook⟩
    rintro rfl
    rw [hookOf_neg_one] at hhook
    cases hhook
  · cases h

/-- An open call adds a descriptor exactly when it succeeds. -/
theorem hasFds_finish (hopen : isOpen t.regs.origRax = true) (regs : UserRegsStruct) {o : Prop}
    (hfds : ¬o ∧ t.fds = fds) : (t.finish regs).HasFds fds (o ∨ regs.rax.msb = false) := by
  obtain ⟨ho, rfl⟩ := hfds
  unfold Task.finish
  rw [if_neg (plain_of_isOpen hopen).1]
  -- a negative result is an error, for which no descriptor was added
  cases hmsb : regs.rax.msb with
  | false =>
    rw [if_pos (by simp [hopen])]
    exact .inr ⟨.inr rfl, rfl⟩
  | true =>
    rw [if_neg (by simp)]
    exact .inl ⟨by simp [ho], rfl⟩

theorem enclosed_carrying : Enclosed (Carrying fds) where
  user h := by
    rintro hstate
    rcases h with ⟨-, -, fresh, hkernel⟩ | hleaving
    · cases hkernel.symm.trans hstate
    · exact (enclosed_leaving _).user hleaving hstate
  plain h hstate := by
    rcases h with ⟨-, hopen, -⟩ | hleaving
    · exact (plain_of_isOpen hopen).2
    · exact (enclosed_leaving _).plain hleaving hstate
  finish h hstate regs := by
    right
    rcases h with ⟨hfds, hopen, -⟩ | hleaving
    · exact ⟨hasFds_finish hopen regs hfds, .inr ⟨by simp [Task.stop?], trivial⟩⟩
    · exact (enclosed_leaving _).finish hleaving hstate regs
  die h hstatus := by
    right
    rcases h with ⟨hfds, -⟩ | hleaving
    · exact ⟨.inl hfds, .inl (died_zombie hstatus)⟩
    · exact (enclosed_leaving _).die hleaving hstatus

/-! ### The requests -/

variable (env : Env) {odd : Event World → Prop}

/-- The call is carried out, and the process comes to its exit. -/
theorem unless_resumeAndWait :
    Unless Later (Amiss (ReplacesProgram pid) odd) (fun s => Known pid h₀ (Opening fds) s.os)
      (resumeAndWait (kernel env) pid)
      (fun _ s => Known pid h₀ (Leaving fds fun _ => True) s.os) := by
  -- the request lets the call go on, or finds the process dead
  have hresume : Unless Later (Amiss (ReplacesProgram pid) odd)
      (fun s => Known pid h₀ (Opening fds) s.os) (ptraceReturn (kernel env) (.syscall pid 0))
      (fun more s => if more then Known pid h₀ (Carrying fds) s.os
        else Known pid h₀ (Leaving fds fun _ => True) s.os) := by
    refine (movesKeep_known enclosed_opening).unless_ptraceReturn env (fun w t hw ht hstop => ?_)
      fun w hw hstill => ?_
    · obtain ⟨u, hu, hfds, hentry⟩ := hw.task
      cases hu.symm.trans ht
      rcases hentry with hdied | ⟨hentry, hopen⟩
      · rw [hdied.not_isStopped] at hstop
        cases hstop
      · refine ⟨perform_syscall_ok hentry pid 0, ?_⟩
        rw [perform_syscall_snd pid 0 hentry]
        exact hw.set rfl (World.task_setTask_self ..) (.inl ⟨hfds, hopen, true, rfl⟩)
    · obtain ⟨t, ht, hfds, hentry⟩ := hw.task
      have hdied := died_of_still hentry (hstill t ht)
      exact hw.set rfl ht ⟨.inl hfds, .inl hdied⟩
  -- the wait reports the exit stop, or the death
  have hwait : Unless Later (Amiss (ReplacesProgram pid) odd)
      (fun s => Known pid h₀ (Carrying fds) s.os) (waitpidOrExit (kernel env) pid)
      (fun status s => terminated status = true ∨
        Known pid h₀ (Leaving fds fun _ => True) s.os) := by
    refine (movesKeep_known enclosed_carrying).unless_waitpidOrExit env
      (R := fun status w => terminated status = true ∨ Known pid h₀ (Leaving fds fun _ => True) w)
      fun w status w' hw hreported => ?_
    obtain ⟨t, ht, hcarrying⟩ := hw.task
    cases hreported with
    | stopped hu hstate =>
      cases hu.symm.trans ht
      right
      rcases hcarrying with ⟨-, -, fresh, hkernel⟩ | ⟨hfds, hdied | ⟨hexit, -⟩⟩
      · cases hkernel.symm.trans hstate
      · obtain ⟨status, hzombie, -⟩ := hdied
        cases hzombie.symm.trans hstate
      · rw [stop?_stopped hstate] at hexit
        cases hexit
        exact hw.set rfl (World.task_setTask_self ..) ⟨hfds, .inr ⟨rfl, trivial⟩⟩
    | reaped hu hstate hlast =>
      cases hu.symm.trans ht
      left
      rcases hcarrying with ⟨-, -, fresh, hkernel⟩ |
        ⟨-, ⟨status', hzombie, hterminated⟩ | ⟨hexit, -⟩⟩
      · cases hkernel.symm.trans hstate
      · cases hzombie.symm.trans hstate
        exact hterminated
      · simp [Task.stop?, hstate] at hexit
  refine Unless.bind hresume fun more => ?_
  cases more with
  | true =>
    refine Unless.bind hwait fun status => Unless.ite (fun _ => Unless.throw) fun hlive => ?_
    exact Unless.pure fun s hs => hs.resolve_left hlive
  | false => exact Unless.pure fun s hs => hs

theorem unless_childContinueSyscall (regs : UserRegsStruct) :
    Unless Later (Amiss (ReplacesProgram pid) odd) (fun s => Known pid h₀ (Opening fds) s.os)
      (childContinueSyscall (kernel env) pid regs)
      (fun _ s => Known pid h₀ (Leaving fds fun _ => True) s.os) :=
  Unless.bind (unless_resumeAndWait env) fun _ => Unless.pure fun _ hs => hs

/-- The result is overwritten. -/
theorem unless_stdin (regs : UserRegsStruct) :
    Unless Later (Amiss (ReplacesProgram pid) odd)
      (fun s => Known pid h₀ (Leaving fds fun _ => True) s.os)
      (childReturns (kernel env) pid regs stdinFileno)
      (fun _ s => Known pid h₀ (Leaving fds fun t => t.regs.rax = stdinFileno) s.os) := by
  have hset : Unless Later (Amiss (ReplacesProgram pid) odd)
      (fun s => Known pid h₀ (Leaving fds fun _ => True) s.os)
      (ptraceReturn (kernel env) (.setregs pid (wReturn regs stdinFileno)))
      (fun more s => if more then Known pid h₀ (Leaving fds fun t => t.regs.rax = stdinFileno) s.os
        else Known pid h₀ (Leaving fds fun t => t.regs.rax = stdinFileno) s.os) := by
    refine (movesKeep_known (enclosed_leaving _)).unless_ptraceReturn env
      (fun w t hw ht hstop => ?_)
      fun w hw hstill => ?_
    · obtain ⟨u, hu, hfds, hexit⟩ := hw.task
      cases hu.symm.trans ht
      rcases hexit with hdied | ⟨hexit, -⟩
      · rw [hdied.not_isStopped] at hstop
        cases hstop
      · exact ⟨⟨(), rfl⟩, hw.set rfl (World.task_setTask_self ..) ⟨hfds, .inr ⟨hexit, rfl⟩⟩⟩
    · obtain ⟨t, ht, hfds, hexit⟩ := hw.task
      exact hw.set rfl ht ⟨hfds, .inl (died_of_still hexit (hstill t ht))⟩
  refine Unless.bind hset fun more => Unless.pure fun s hs => ?_
  rwa [ite_self] at hs

/-- Reading the path changes nothing. -/
theorem unless_readChildCString (addr : Word) :
    Unless Later (Amiss (ReplacesProgram pid) odd) (fun s => Known pid h₀ (Opening fds) s.os)
      (readChildCString (kernel env) addr pid) (fun _ s => Known pid h₀ (Opening fds) s.os) := by
  have hmoves : MovesKeep (ReplacesProgram pid) (Known pid h₀ (Opening fds)) :=
    movesKeep_known enclosed_opening
  have hlooks : Looks (kernel env) (Keeps Later (Amiss (ReplacesProgram pid) odd)
      fun s => Known pid h₀ (Opening fds) s.os ∧ True) pid := by
    refine ⟨fun place => ?_, fun s f => ⟨⟨List.suffix_rfl, List.suffix_rfl⟩, .inl⟩⟩
    refine hmoves.within_ptrace env (fun _ => True) fun w t hw _ _ => ?_
    rw [perform_peek_snd]
    exact hw
  exact (Unless.of_keeps (hlooks.within_readChildCString addr)).conseq (fun s hs => ⟨hs, trivial⟩)
    fun _ s hs => hs.1

end phases

/-! ### Redirected calls -/

namespace HandlerCall

variable (env : Env) (x : HandlerCall)

/-- An open call of a random device, at its entry stop. -/
def Redirected : Prop :=
  x.task?.bind Task.stop? = some .syscallEntry ∧ isOpen (rSyscall x.regs) = true ∧
    NamesDevice (kernel env) x.pid x.regs x.before.os

instance : Decidable (x.Redirected env) := inferInstanceAs (Decidable (_ ∧ _ ∧ _))

/-- The call is handled to its end, and no other thread replaces the program meanwhile. -/
def Ends (s' : Tracer World) : Prop :=
  handleSyscall (kernel env) x.child x.regs x.before = .ok () s' ∧
    ¬Replaced x.pid x.before.os.history s'.os

/-- The open that the kernel carries out succeeds. -/
def Opens : Prop := ∃ s', x.Ends env s' ∧ Succeeded x.pid x.before.os.history s'.os

/-- The process has the descriptors that it had, and is about to return 0 unless it is dead. -/
def KeepsDescriptors : Prop :=
  ∀ s' t, x.Ends env s' → x.task? = some t → ∃ t', s'.os.task x.pid = some t' ∧ t'.fds = t.fds ∧
    (t'.Died ∨ (t'.stop? = some .syscallExit ∧ t'.regs.rax = stdinFileno))

end HandlerCall

variable {b : Boot} {env : Env} {scan n : Nat} {C : Tracer World → Tracer World → Prop}
  {s s' : Tracer World} {x : HandlerCall}

theorem good_head (h : b.Head env scan C s) : Good s := by
  induction h with
  | first hinsert hresume =>
    have hask : Within Aside (ptrace (kernel env) (.syscall b.childPid 0)) :=
      Helper.aside (helper_ptrace (kernel env) ⟨rfl, nofun⟩)
    have hinserted :=
      (triple_good (aside_insertProcess (kernel env) b.childPid)).ok (good_start b.world) hinsert
    exact (triple_good hask).ok hinserted hresume
  | turn h hturn _ ih => exact (triple_handleEventTurn (kernel env) scan).ok ih hturn

/-- The entry and the registers with which `handle_syscall` is called, unless the entry is stale. -/
theorem handed_live (h : Good s) (hx : handedOver env scan s = some x) :
    blockAt x.before.processTable x.child = none ∨
      (∃ c, blockAt x.before.processTable x.child = some c ∧ c.pid = x.pid) ∧
        ∀ t, x.task? = some t → t.regs = x.regs := by
  obtain ⟨-, hreceive⟩ := handedOver_eq_some hx
  rcases (triple_receiveStop (kernel env) scan).ok h hreceive with ⟨hgood, -⟩ | ⟨-, hstale⟩
  swap
  · exact .inl hstale
  obtain ⟨s₁, c, hfind, hchild, ⟨hregs, hbefore⟩ | hbefore⟩ := receiveStop_hook hreceive
  · right
    have hfound : hashFind x.before.processTable x.pid = some c := by
      rw [hbefore]
      exact hfind
    refine ⟨⟨c, ?_, (hashFind_eq_some hfound).2⟩, fun t ht => ?_⟩
    · rw [hchild]
      exact hgood.tableOk.blockAt_of_hashFind hfound
    · have hos : x.before.os = (World.ptrace env (.getregs x.pid) s₁.os).2 := by
        rw [hbefore]
        rfl
      have hanswer : (World.ptrace env (.getregs x.pid) s₁.os).1 = .ok x.regs := hregs
      rcases ptrace_performed env s₁.os (.getregs x.pid) with ⟨u, hu, -, hrun⟩ | ⟨-, hgone⟩
      · rw [HandlerCall.task?, hos, hrun] at ht
        rw [hrun] at hanswer
        cases hu.symm.trans ht
        exact Except.ok.inj hanswer
      · rw [hgone] at hanswer
        cases hanswer
  · -- the entry was deleted with the process, so the pointer is stale
    left
    rw [hbefore, hchild]
    exact blockAt_deleted hfind

/-- What a redirected call leaves behind. -/
theorem redirected_leaving (h : Good s) (hx : handedOver env scan s = some x)
    (hredirected : x.Redirected env) (hends : x.Ends env s') {t : Task} (ht : x.task? = some t) :
    Known x.pid x.before.os.history (Leaving t.fds fun t' => t'.regs.rax = stdinFileno) s'.os := by
  obtain ⟨hentry, hopen, hpath⟩ := hredirected
  obtain ⟨hrun, hsame⟩ := hends
  rcases handed_live h hx with hstale | ⟨⟨c, hblock, hpid⟩, hregs⟩
  · rw [handleSyscall_stale (kernel env) hstale] at hrun
    cases hrun
  rw [handleSyscall_eq (kernel env) hblock, hpid] at hrun
  -- the three open calls have one handler
  have hredirect : redirectDevRandom (kernel env) x.pid x.regs
      (x.before.noted (.handleSyscall x.child x.regs)) = .ok () s' := by
    have hnr : isOpen x.regs.origRax = true := hopen
    unfold isOpen at hnr
    split at hnr
    · next hook hhook =>
      rw [hhook] at hrun
      cases hook with
      | openat | «open» | openat2 => exact hrun
      | getrandom | gettimeofday | time | clockGettime => cases hnr
    · cases hnr
  obtain ⟨regs', hphases⟩ := redirectDevRandom_eq_ok (s := x.before.noted _) hpath hredirect
  rw [ht, Option.bind_some] at hentry
  -- at the entry no call has succeeded yet
  have hknown : Known x.pid x.before.os.history (Opening t.fds) x.before.os := by
    refine ⟨List.suffix_rfl, t, ht, ⟨?_, rfl⟩, .inr ⟨hentry, hregs t ht ▸ hopen⟩⟩
    rintro ⟨new, hnew, a, ha, -⟩
    rw [List.self_eq_append_left] at hnew
    subst hnew
    cases ha
  -- the path is read, the call carried out and its result overwritten
  have hunless : Unless Later (Amiss (ReplacesProgram x.pid) fun _ => False)
      (fun s => Known x.pid x.before.os.history (Opening t.fds) s.os)
      (readChildCString (kernel env) (rArg2 x.regs) x.pid >>= fun _ =>
        childContinueSyscall (kernel env) x.pid x.regs >>= fun regs =>
          childReturns (kernel env) x.pid regs stdinFileno)
      (fun _ s => Known x.pid x.before.os.history
        (Leaving t.fds fun t' => t'.regs.rax = stdinFileno) s.os) := by
    refine Unless.bind (unless_readChildCString env _) fun _ => ?_
    exact Unless.bind (unless_childContinueSyscall env x.regs) fun regs => unless_stdin env regs
  rcases hunless.post (x.before.noted _) _ _ hknown hphases with hleaving | hreplaced |
    ⟨new, -, e, -, hodd⟩
  · exact hleaving
  · exact absurd hreplaced hsame
  · exact hodd.elim

/-- One redirected call. -/
theorem keepsDescriptors_iff (h : Good s) (hx : handedOver env scan s = some x)
    (hredirected : x.Redirected env) : x.KeepsDescriptors env ↔ ¬x.Opens env := by
  constructor
  · rintro hkeeps ⟨s', hends, hsucceeded⟩
    obtain ⟨t, ht, -⟩ := Option.bind_eq_some_iff.mp hredirected.1
    obtain ⟨t', ht', hsame, -⟩ := hkeeps s' t hends ht
    obtain ⟨u, hu, hfds, -⟩ := (redirected_leaving h hx hredirected hends ht).task
    cases hu.symm.trans ht'
    rcases hfds with ⟨hfails, -⟩ | ⟨-, hleak⟩
    · exact hfails hsucceeded
    · exact List.cons_ne_self _ _ (hleak.symm.trans hsame)
  · intro hfails s' t hends ht
    obtain ⟨t', ht', hfds, hexit⟩ := (redirected_leaving h hx hredirected hends ht).task
    rcases hfds with ⟨-, hsame⟩ | ⟨hsucceeded, -⟩
    · exact ⟨t', ht', hsame, hexit⟩
    · exact absurd ⟨s', hends, hsucceeded⟩ hfails

/-- In every run, the redirected calls return 0 and leave the descriptors alone exactly when none of
the opens that the kernel carries out for them succeeds. -/
theorem redirected_calls_keep_descriptors_iff (b : Boot) (env : Env) (scan n : Nat) :
    (∀ x ∈ b.calls env scan (fun _ _ => True) n, x.Redirected env → x.KeepsDescriptors env) ↔
      ∀ x ∈ b.calls env scan (fun _ _ => True) n, x.Redirected env → ¬x.Opens env := by
  refine forall₂_congr fun x hx => imp_congr_right fun hredirected => ?_
  obtain ⟨s, hs, hx⟩ := mem_calls hx
  exact keepsDescriptors_iff (good_head hs) hx hredirected

/-- An `openat` of `"/dev/random"` that succeeds. -/
def opening : Env :=
  scripted [(1, ⟨[.enter 100 (openRegs 4096 0 .openat)], 100⟩), (6, ⟨[.finish 100 default], 100⟩)]

/-- The process is told 0, but descriptor 3 stays open. -/
theorem not_keepsDescriptors_opening :
    ∃ x ∈ Boot.random.calls opening 0 (fun _ _ => True) 1, x.Redirected opening ∧
      (∃ t, x.task? = some t ∧ 0 ∈ t.fds) ∧ ¬x.KeepsDescriptors opening := by
  -- the first turn hands over the call, and at its end a descriptor has been added
  have hcall : (Boot.random.head opening 0 (fun _ _ => True) 0).any (fun s =>
      (handedOver opening 0 s).any fun x => x.Redirected opening ∧
        (∀ y ∈ newer x.before.os.history (x.after opening).os.history, ¬y.2.Replaces x.pid) ∧
        x.task?.any (fun t => 0 ∈ t.fds ∧
          ((x.after opening).os.task x.pid).any fun t' => t'.fds ≠ t.fds)) = true := by
    decide +kernel
  have hnext : (Boot.random.head opening 0 (fun _ _ => True) 1).isSome = true := by decide +kernel
  obtain ⟨s, hs, hcall⟩ := (Option.any_eq_true _ _).mp hcall
  obtain ⟨x, hx, hcall⟩ := (Option.any_eq_true _ _).mp hcall
  obtain ⟨hredirected, hstays, htask⟩ := of_decide_eq_true hcall
  obtain ⟨t, ht, htask⟩ := (Option.any_eq_true _ _).mp htask
  obtain ⟨hstdin, hleak⟩ := of_decide_eq_true htask
  obtain ⟨t', ht', hleak⟩ := (Option.any_eq_true _ _).mp hleak
  obtain ⟨s', hs'⟩ := Option.isSome_iff_exists.mp hnext
  obtain ⟨s₀, hs₀, hturn, -⟩ := Boot.head_succ hs'
  cases hs.symm.trans hs₀
  obtain ⟨s₂, -, hhandle, -⟩ := turn_of_handedOver hx hturn
  have hafter : x.after opening = s₂ := by
    rw [HandlerCall.after, hhandle]
    rfl
  rw [hafter] at ht' hstays
  refine ⟨x, List.mem_append_left _ ?_, hredirected, ⟨t, ht, hstdin⟩, fun hkeeps => ?_⟩
  · rw [hs, Option.bind_some, Option.mem_toList]
    exact hx
  · have hends : x.Ends opening s₂ := by
      refine ⟨hhandle, ?_⟩
      rintro ⟨new, hnew, y, hy, q, regs, image, hexec⟩
      refine hstays y ?_ ?_
      · rw [hnew, newer_append]
        exact hy
      · rw [hexec]
        exact .inr rfl
    obtain ⟨u, hu, hsame, -⟩ := hkeeps s₂ t hends ht
    cases hu.symm.trans ht'
    exact of_decide_eq_true hleak hsame

end Reproduce.Linux
