import Reproduce.Linux.Equiv.Settled
import Reproduce.Linux.Equiv.Stale
import Reproduce.Tracer.Equiv.Discipline

/-!
# What a trace tells about the tasks

On Linux the trace of the tracer and the tasks agree, whatever the tracer does: a task whose stop
was reported stays in it until the tracer resumes it or the task dies, so that the trace has its
stop as unanswered; and a fork event names another process, which is still so when the tracer asks
for the name (`Told`).  One step of the kernel keeps this (`Recounts`), hence every run does; the
induction over a run is done for any relation between the trace and the world (`Chronicles.run`).

It follows that the discipline of the tracer holds on Linux without a condition
(`run_disciplined`), and that no task is left in a reported stop while the tracer waits for it
(`waited_not_reported`).
-/

namespace Reproduce.Linux

open Bytes Effect

/-! ### Steps of the kernel -/

/-- The world when the moves before a query are over. -/
def World.ticked (w : World) : World := { w with tick := w.tick + 1 }

/-- A relation `J` between the trace and the world that is kept by everything the tracer does; `L`
holds while moves happen, before the next query is answered. -/
structure Chronicles (J L : List (Event World) → World → Prop) : Prop where
  begins : ∀ {trace w}, J trace w → L trace w
  moved : ∀ {trace w m w'}, L trace w → Moved w m w' →
    L trace { w' with history := (w.tick, m) :: w.history }
  malloc : ∀ {trace w} size granted, J trace w → J (.malloc size granted :: trace) w
  call : ∀ {trace w} c table os, J trace w → J (.call c table os :: trace) w
  performed : ∀ {trace w r t}, L trace w → w.task r.pid = some t → t.isStopped = true →
    J (.ptrace r (w.ticked.perform t r).1 :: trace) (w.ticked.perform t r).2
  refused : ∀ {trace w r}, L trace w → Only r.pid (fun t => t.isStopped = false) w →
    J (.ptrace r (.error .ESRCH) :: trace) w.ticked
  reported : ∀ {trace w w' target pid status}, L trace w → Reported w.ticked pid status w' →
    target.getD pid = pid → J (.wait target (some (.ok (pid, status))) :: trace) w'
  unreported : ∀ {trace w target answer}, L trace w →
    (∀ report, answer ≠ some (.ok report)) → J (.wait target answer :: trace) w.ticked

theorem tick_moved {w w' : World} {m : Move} (h : Moved w m w') : w'.tick = w.tick := by
  cases h <;> rfl

theorem tick_runMoves (w : World) (moves : List Move) : (w.runMoves moves).tick = w.tick :=
  runMoves_induction (P := fun w' => w'.tick = w.tick)
    (fun _ _ _ _ hw hmoved => (tick_moved hmoved).trans hw) w rfl

theorem asked_eq_ticked (env : Env) (w : World) (q : Query) :
    w.asked env q = (w.runMoves (env w.tick q).moves).ticked := by
  rw [World.ticked, tick_runMoves]
  rfl

namespace Chronicles

variable {J L : List (Event World) → World → Prop} (h : Chronicles J L) (env : Env)

include h

theorem runMoves {trace : List (Event World)} {w : World} (hw : J trace w) (moves : List Move) :
    L trace (w.runMoves moves) :=
  runMoves_induction (P := L trace) (fun _ _ _ _ hw hmoved => h.moved hw hmoved) w (h.begins hw)

theorem within_ptrace (r : Request) :
    Within (Preserves fun s : Tracer World => J s.trace s.os) (ptrace (kernel env) r) := by
  intro s hs
  have hmoved := h.runMoves hs (env s.os.tick (.ptrace r)).moves
  show J (.ptrace r (World.ptrace env r s.os).1 :: s.trace) (World.ptrace env r s.os).2
  rcases ptrace_performed env s.os r with ⟨t, ht, hstop, hrun⟩ | ⟨hstill, hrun⟩
  · rw [asked_eq_ticked] at ht hrun
    rw [hrun]
    exact h.performed hmoved ht hstop
  · rw [asked_eq_ticked] at hstill hrun
    rw [hrun]
    exact h.refused hmoved hstill

theorem within_waitpid (target : WaitTarget) :
    Within (Preserves fun s : Tracer World => J s.trace s.os) (waitpid (kernel env) target) := by
  intro s hs
  have hmoved := h.runMoves hs (env s.os.tick (.wait target)).moves
  have hfinal : finalState (waitpid (kernel env) target s) = s.waited (kernel env) target := by
    rw [waitpid_apply]
    split <;> rfl
  rw [hfinal]
  show J (.wait target (World.waitpid env target s.os).1 :: s.trace)
    (World.waitpid env target s.os).2
  by_cases hanswer : ∃ pid status, (World.waitpid env target s.os).1 = some (.ok (pid, status))
  · obtain ⟨pid, status, hanswer⟩ := hanswer
    obtain ⟨hreported, hpid⟩ := waitpid_reported env hanswer
    rw [asked_eq_ticked] at hreported
    rw [hanswer]
    refine h.reported hmoved hreported ?_
    cases target with
    | none => rfl
    | some p => exact hpid.symm
  · rw [waitpid_unreported env fun pid status hok => hanswer ⟨pid, status, hok⟩, asked_eq_ticked]
    exact h.unreported hmoved fun report hok => hanswer ⟨report.1, report.2, hok⟩

theorem asked {s : Tracer World} (hs : J s.trace s.os) (r : Request) :
    J (s.asked (kernel env) r).trace (s.asked (kernel env) r).os :=
  h.within_ptrace env r s hs

theorem waited {s : Tracer World} (hs : J s.trace s.os) (target : WaitTarget) :
    J (s.waited (kernel env) target).trace (s.waited (kernel env) target).os := by
  have hwaited := h.within_waitpid env target s hs
  rw [waitpid_apply] at hwaited
  split at hwaited <;> exact hwaited

theorem steps : Steps (kernel env) (Preserves fun s : Tracer World => J s.trace s.os) where
  ptrace r _ := h.within_ptrace env r
  wait pid := h.within_waitpid env (some pid)
  malloc size s hs := by
    unfold Reproduce.malloc
    split <;> exact h.malloc _ _ hs
  note _ _ _ hs := h.call _ _ _ hs
  own _ _ _ _ _ := id

/-- What holds at the start of a run holds at its end. -/
theorem run {b : Boot} (hstart : J [] b.world) (scan n : Nat) :
    J (finalState (b.run env scan n)).trace (finalState (b.run env scan n)).os :=
  (h.steps env).within_traceChild (h.within_waitpid env none) (fun _ _ _ hs => h.call _ _ _ hs) scan
    n b.childPid (Tracer.start b.world) hstart

end Chronicles

/-- A relation between the trace and the tasks: the history does not matter. -/
structure Recounts (J : List (Event World) → World → Prop) : Prop where
  congr : ∀ {trace w w'}, J trace w → w'.task = w.task → w'.pids = w.pids → J trace w'
  moved : ∀ {trace w m w'}, J trace w → Moved w m w' → J trace w'
  malloc : ∀ {trace w} size granted, J trace w → J (.malloc size granted :: trace) w
  call : ∀ {trace w} c table os, J trace w → J (.call c table os :: trace) w
  performed : ∀ {trace w r t}, J trace w → w.task r.pid = some t → t.isStopped = true →
    J (.ptrace r (w.perform t r).1 :: trace) (w.perform t r).2
  refused : ∀ {trace w r}, J trace w → Only r.pid (fun t => t.isStopped = false) w →
    J (.ptrace r (.error .ESRCH) :: trace) w
  reported : ∀ {trace w w' target pid status}, J trace w → Reported w pid status w' →
    target.getD pid = pid → J (.wait target (some (.ok (pid, status))) :: trace) w'
  unreported : ∀ {trace w target answer}, J trace w →
    (∀ report, answer ≠ some (.ok report)) → J (.wait target answer :: trace) w

theorem Recounts.chronicles {J : List (Event World) → World → Prop} (h : Recounts J) :
    Chronicles J J where
  begins hw := hw
  moved hw hmoved := h.congr (h.moved hw hmoved) rfl rfl
  malloc := h.malloc
  call := h.call
  performed hw ht hstop := h.performed (h.congr hw rfl rfl) ht hstop
  refused hw hstill := h.congr (h.refused hw hstill) rfl rfl
  reported {trace w w' target pid status} hw hreported htarget := by
    have hticked : J trace w.ticked := h.congr hw rfl rfl
    exact h.reported hticked hreported htarget
  unreported hw hanswer := h.congr (h.unreported hw hanswer) rfl rfl

/-! ### Fork events -/

variable {w w' : World} {m : Move} {pid p q : PidT} {t t' u : Task} {r : Request}

/-- No fork event names the process it happened in. -/
def Parents (w : World) : Prop :=
  ∀ p t e, w.task p = some t → t.stop? = some (.event e p) → e = .exec

theorem Parents.setTask (h : Parents w)
    (ht : ∀ e, t.stop? = some (.event e pid) → e = .exec) : Parents (w.setTask pid (some t)) := by
  intro p u e hu hstop
  by_cases hp : p = pid
  · subst hp
    rw [World.task_setTask_self] at hu
    cases hu
    exact ht e hstop
  · rw [World.task_setTask_of_ne _ _ hp] at hu
    exact h p u e hu hstop

theorem Parents.unset (h : Parents w) : Parents (w.setTask pid none) := by
  intro p u e hu hstop
  by_cases hp : p = pid
  · subst hp
    rw [World.task_setTask_self] at hu
    cases hu
  · rw [World.task_setTask_of_ne _ _ hp] at hu
    exact h p u e hu hstop

theorem Parents.congr (h : Parents w) (htask : w'.task = w.task) : Parents w' := by
  unfold Parents
  rw [htask]
  exact h

theorem Parents.moved (h : Parents w) (hmoved : Moved w m w') : Parents w' := by
  cases hmoved with
  | enter ht hstate => exact h.setTask (by simp [Task.enter, Task.stop?])
  | finish ht hstate => exact h.setTask (by simp [Task.stop?])
  | @fork pid child t e thread share rsp ht hstate hnr he hchild hfree hshare =>
    have hne : child ≠ pid := by
      rintro rfl
      cases hfree.symm.trans ht
    have hparent : Parents (w.setTask pid (some (t.forking e child w.births))) := by
      refine h.setTask fun e' hstop => ?_
      cases hstop
      exact absurd rfl hne
    have hborn : Parents ((w.setTask pid (some (t.forking e child w.births))).setTask child
        (some (t.newborn (if thread then t.tgid else child) (if share then t.mm else w.nextMm) rsp
          w.births))) :=
      hparent.setTask (by simp [Task.newborn, Task.stop?])
    exact hborn.congr rfl
  | exec ht hstate hnr hold htgid hleader hdead halone =>
    refine Parents.congr (h.unset.setTask fun e hstop => ?_) rfl
    cases hstop
    rfl
  | signal ht hstate => exact h.setTask (by simp [Task.signal, Task.stop?])
  | die ht hlive hstatus => exact h.setTask (by simp [Task.stop?])
  | store => exact h

/-- The process is dead, or at a stop that does not name it. -/
def Task.NamesOther (pid : PidT) (t : Task) : Prop :=
  t.isDead = true ∨ ∃ stop, t.stop? = some stop ∧ ∀ e, stop ≠ .event e pid

/-- It stays so, even if another thread replaces the program. -/
theorem namesOther_moved (h : Only pid (Task.NamesOther pid) w) (hmoved : Moved w m w') :
    Only pid (Task.NamesOther pid) w' := by
  have hstill : ∀ t, w.task pid = some t → t.isDead = true ∨ ∃ stop, t.stop? = some stop :=
    fun t ht => (h t ht).imp_right fun ⟨stop, hstop, _⟩ => ⟨stop, hstop⟩
  intro t ht
  have hbecomes := becomes hmoved pid
  generalize w'.task pid = o at ht hbecomes
  cases hbecomes with
  | same => exact h t ht
  | own hu hmoves =>
    cases ht
    exact .inl (isDead_of_moves hmoves (hstill _ hu))
  | born hfree hu hstate hnr =>
    cases ht
    exact .inr ⟨.initial, rfl, fun _ => nofun⟩
  | gone hu hstate hnr hleader => cases ht
  | @replaced q u old regs image hold hu hstate hnr hdead =>
    cases ht
    refine .inr ⟨.event .exec q, rfl, ?_⟩
    -- the program was executed by a thread that runs
    rintro e ⟨⟩
    exact (still_state (hstill u hu)).2 true hstate

/-! ### States of tasks -/

/-- A stop is not reported by a move. -/
theorem reported_of_moved (hmoved : Moved w m w') {stop : Stop} (ht : w'.task p = some t)
    (hstate : t.state = .stopped stop true) : w.task p = some t := by
  have hbecomes := becomes hmoved p
  generalize w'.task p = o at ht hbecomes
  cases hbecomes with
  | same => exact ht
  | own hu hmoves =>
    cases ht
    cases hmoves with
    | enter regs => cases hstate
    | finish regs =>
      rw [state_finish] at hstate
      cases hstate
    | fork e child birth => cases hstate
    | signal sig regs => cases hstate
    | die hlive hstatus => cases hstate
  | born hfree hu hborn hnr =>
    cases ht
    cases hstate
  | gone hu hgone hnr hleader => cases ht
  | replaced hold hu hexec hnr hdead =>
    cases ht
    cases hstate

theorem listed_setTask {o : Option Task} (h : ∀ q t, w.task q = some t → q ∈ w.pids)
    (hpid : pid ∈ w.pids) (hu : (w.setTask pid o).task q = some u) : q ∈ w.pids := by
  by_cases hq : q = pid
  · exact hq ▸ hpid
  · rw [World.task_setTask_of_ne _ _ hq] at hu
    exact h q u hu

/-- A task has been on the list before, or is new and on it now. -/
theorem listed_moved (h : ∀ q t, w.task q = some t → q ∈ w.pids) (hmoved : Moved w m w') :
    ∀ q t, w'.task q = some t → q ∈ w'.pids := by
  have hold : w.pids ⊆ w'.pids := by
    cases hmoved with
    | fork => exact List.subset_cons_self _ _
    | _ => exact List.Subset.refl _
  intro q t ht
  have hbecomes := becomes hmoved q
  rw [ht] at hbecomes
  generalize ho : some t = o at hbecomes
  cases hbecomes with
  | same => exact hold (h q t ho.symm)
  | own hu => exact hold (h q _ hu)
  | born hfree hu hborn hnr =>
    cases hmoved
    exact .head _
  | gone hu => exact hold (h q _ hu)
  | replaced hu => exact hold (h q _ hu)

theorem state_resume (t : Task) (stop : Stop) (data : Word) :
    (t.resume stop data).state = .user ∨ ∃ fresh, (t.resume stop data).state = .kernel fresh := by
  cases stop with
  | initial | syscallExit | signal => exact .inl rfl
  | syscallEntry | event => exact .inr ⟨_, rfl⟩

theorem state_setTask (hu : (w.setTask pid (some t')).task q = some u) (ht : w.task pid = some t)
    (hstate : t'.state = t.state) :
    ∃ u₀, w.task q = some u₀ ∧ u.state = u₀.state := by
  by_cases hq : q = pid
  · subst hq
    rw [World.task_setTask_self] at hu
    cases hu
    exact ⟨t, ht, hstate⟩
  · rw [World.task_setTask_of_ne _ _ hq] at hu
    exact ⟨u, hu, rfl⟩

/-- A request changes the state of a task only if it resumes it. -/
theorem state_perform (ht : w.task r.pid = some t) (hstop : t.isStopped = true)
    (hu : (w.perform t r).2.task q = some u) :
    ∃ u₀, w.task q = some u₀ ∧ (u.state = u₀.state ∧ (∀ data, r ≠ .syscall q data) ∨
      (∃ data, r = .syscall q data) ∧ (u.state = .user ∨ ∃ fresh, u.state = .kernel fresh)) := by
  have hsame : ∀ {u₀}, w.task q = some u₀ → u.state = u₀.state →
      (∀ data, r ≠ .syscall q data) → ∃ u₀, w.task q = some u₀ ∧
        (u.state = u₀.state ∧ (∀ data, r ≠ .syscall q data) ∨
          (∃ data, r = .syscall q data) ∧ (u.state = .user ∨ ∃ fresh, u.state = .kernel fresh)) :=
    fun h₀ hstate hr => ⟨_, h₀, .inl ⟨hstate, hr⟩⟩
  cases r with
  | peek pid place =>
    rw [perform_peek_snd] at hu
    exact hsame hu rfl nofun
  | pokedata pid addr data =>
    rcases perform_poke_snd w t pid addr data with hkept | ⟨m, hpoke⟩
    · rw [hkept] at hu
      exact hsame hu rfl nofun
    · rw [hpoke] at hu
      have hu' : ((w.setMem t.mm m).countPoke pid t).task q = some u := hu
      rcases task_countPoke (w.setMem t.mm m) pid t with hkept | hcount
      · rw [hkept] at hu'
        exact hsame hu' rfl nofun
      · rw [hcount] at hu'
        obtain ⟨u₀, hu₀, hstate⟩ := state_setTask (w := w.setMem t.mm m) hu' ht rfl
        exact hsame hu₀ hstate nofun
  | getregs pid => exact hsame hu rfl nofun
  | setregs pid regs =>
    have hu' : (w.setTask pid (some { t with regs := regs })).task q = some u := hu
    obtain ⟨u₀, hu₀, hstate⟩ := state_setTask hu' ht rfl
    exact hsame hu₀ hstate nofun
  | syscall pid data =>
    obtain ⟨stop, hstop⟩ := stop?_of_isStopped hstop
    rw [perform_syscall_snd pid data hstop] at hu
    by_cases hq : q = pid
    · subst hq
      rw [World.task_setTask_self] at hu
      cases hu
      exact ⟨t, ht, .inr ⟨⟨data, rfl⟩, state_resume t stop data⟩⟩
    · rw [World.task_setTask_of_ne _ _ hq] at hu
      refine hsame hu rfl ?_
      rintro data' ⟨⟩
      exact hq rfl
  | geteventmsg pid =>
    rw [perform_geteventmsg_snd] at hu
    exact hsame hu rfl nofun

/-! ### What is told -/

structure Told (first : PidT) (trace : List (Event World)) (w : World) : Prop where
  /-- The pids of the tasks are on the list. -/
  listed : ∀ p t, w.task p = some t → p ∈ w.pids
  /-- A stop that was reported is not answered yet. -/
  unanswered : ∀ p t stop, w.task p = some t → t.state = .stopped stop true →
    Unanswered first p trace
  parents : Parents w
  /-- The message that can be asked for names another process. -/
  forked : ∀ p, ForkReported p trace → Only p (Task.NamesOther p) w
  honest : Asks trace → Honest trace

variable {first : PidT} {trace : List (Event World)}

/-- The status of a fork event is that of an event stop, but not of an exec stop. -/
theorem event_of_isForkEvent {stop : Stop} (h : isForkEvent (eventOf stop.status) = true) :
    ∀ e message, stop = .event e message → e ≠ .exec := by
  rintro e message rfl rfl
  rw [Stop.status, eventOf_stopStatus] at h
  cases h

/-- A request that does not resume the process leaves its stop unanswered. -/
theorem unanswered_ptrace {answer : Except Errno r.Reply} (hr : ∀ data, r ≠ .syscall p data)
    (h : Unanswered first p trace) : Unanswered first p (.ptrace r answer :: trace) := by
  cases r with
  | syscall q data =>
    refine ⟨?_, h⟩
    rintro rfl
    exact hr data rfl
  | peek | pokedata | getregs | setregs | geteventmsg => exact h

/-- The message of a process that names another. -/
theorem namesOther_message {answer : Except Errno Word} (ht : t.NamesOther pid)
    (hstop : t.isStopped = true) (hanswer : (w.perform t (.geteventmsg pid)).1 = answer) :
    NamesOther (.ptrace (.geteventmsg pid) answer : Event World) := by
  subst hanswer
  unfold World.perform
  dsimp only
  split
  · next e message hmessage =>
    have hsame : childOf (message.setWidth 64) = message :=
      BitVec.setWidth_setWidth_of_le message (by decide)
    rcases ht with hdead | ⟨stop, hstop', hne⟩
    · obtain ⟨stop, hstop'⟩ := stop?_of_isStopped hstop
      obtain ⟨reported, hstate⟩ := state_of_stop? hstop'
      simp [Task.isDead, hstate] at hdead
    · cases hmessage.symm.trans hstop'
      show childOf (message.setWidth 64) ≠ pid
      rw [hsame]
      rintro rfl
      exact hne e rfl
  · trivial

theorem honest_cons {e : Event World} (he : NamesOther e) (h : Honest trace) :
    Honest (e :: trace) :=
  List.forall_mem_cons.mpr ⟨he, h⟩

/-- A message is asked for in time, and any other request names nobody. -/
theorem Told.honest_ptrace (h : Told first trace w) {answer : Except Errno r.Reply}
    (hanswer : ∀ t, w.task r.pid = some t → t.NamesOther r.pid →
      NamesOther (.ptrace r answer : Event World))
    (hgone : w.task r.pid = none → NamesOther (.ptrace r answer : Event World))
    (hasks : Asks (.ptrace r answer :: trace)) : Honest (.ptrace r answer :: trace) := by
  cases r with
  | geteventmsg pid =>
    refine honest_cons ?_ (h.honest hasks.2)
    cases ht : w.task pid with
    | none => exact hgone ht
    | some t => exact hanswer t ht (h.forked pid hasks.1 t ht)
  | peek | pokedata | getregs | setregs | syscall => exact honest_cons trivial (h.honest hasks)

theorem not_forkReported {e : Event World} (he : ∀ answer, e ≠ .wait none answer) :
    ¬ForkReported p (e :: trace) := by
  rintro ⟨status, -, hhead⟩
  exact he _ (Option.some.inj hhead)

theorem Told.congr (h : Told first trace w) (htask : w'.task = w.task) (hpids : w'.pids = w.pids) :
    Told first trace w' where
  listed p t ht := hpids ▸ h.listed p t (htask ▸ ht)
  unanswered p t stop ht := h.unanswered p t stop (htask ▸ ht)
  parents := h.parents.congr htask
  forked p hfork := (h.forked p hfork).congr htask
  honest := h.honest

theorem Told.performed (h : Told first trace w) (ht : w.task r.pid = some t)
    (hstop : t.isStopped = true) :
    Told first (.ptrace r (w.perform t r).1 :: trace) (w.perform t r).2 where
  listed p u hu := by
    obtain ⟨u₀, hu₀, -⟩ := state_perform ht hstop hu
    exact (record_perform w t r).pids ▸ h.listed p u₀ hu₀
  unanswered p u stop hu hstate := by
    obtain ⟨u₀, hu₀, ⟨hsame, hr⟩ | ⟨-, hruns⟩⟩ := state_perform ht hstop hu
    · exact unanswered_ptrace hr (h.unanswered p u₀ stop hu₀ (hsame ▸ hstate))
    · simp [hstate] at hruns
  parents p u e hu hstop' := by
    obtain ⟨u₀, hu₀, ⟨hsame, -⟩ | ⟨-, hruns⟩⟩ := state_perform ht hstop hu
    · refine h.parents p u₀ e hu₀ ?_
      rwa [Task.stop?, ← hsame]
    · obtain ⟨reported, hstate⟩ := state_of_stop? hstop'
      simp [hstate] at hruns
  forked p hfork := absurd hfork (not_forkReported fun _ => nofun)
  honest := by
    refine h.honest_ptrace (fun u hu hnames => ?_) fun hnone => by simp [ht] at hnone
    cases ht.symm.trans hu
    cases r with
    | geteventmsg pid => exact namesOther_message hnames hstop rfl
    | peek | pokedata | getregs | setregs | syscall => trivial

theorem Told.refused (h : Told first trace w)
    (hstill : Only r.pid (fun t => t.isStopped = false) w) :
    Told first (.ptrace r (.error .ESRCH) :: trace) w where
  listed := h.listed
  unanswered p t stop ht hstate := by
    refine unanswered_ptrace ?_ (h.unanswered p t stop ht hstate)
    -- a task that was not resumed is not stopped
    rintro data rfl
    have hmoving := hstill t ht
    simp [Task.isStopped, hstate] at hmoving
  parents := h.parents
  forked p hfork := absurd hfork (not_forkReported fun _ => nofun)
  honest := by
    have hnames : NamesOther (.ptrace r (.error .ESRCH) : Event World) := by
      cases r <;> trivial
    exact h.honest_ptrace (fun _ _ _ => hnames) fun _ => hnames

theorem Told.reported (h : Told first trace w) {target : WaitTarget} {status : Status}
    (hreported : Reported w pid status w') (htarget : target.getD pid = pid) :
    Told first (.wait target (some (.ok (pid, status))) :: trace) w' where
  listed p u hu := by
    cases hreported with
    | stopped ht hstop =>
      have hlisted : p ∈ w.pids := listed_setTask h.listed (h.listed pid _ ht) hu
      exact hlisted
    | reaped ht hdead hlast =>
      have hlisted : p ∈ w.pids := listed_setTask h.listed (h.listed pid _ ht) hu
      exact hlisted
  unanswered p u stop hu hstate := by
    rw [Unanswered, htarget]
    cases hreported with
    | stopped ht hstop =>
      by_cases hp : pid = p
      · rw [if_pos hp]
        exact terminated_stop _
      · rw [if_neg hp]
        rw [World.task_setTask_of_ne _ _ (Ne.symm hp)] at hu
        exact h.unanswered p u stop hu hstate
    | reaped ht hdead hlast =>
      by_cases hp : pid = p
      · subst hp
        rw [World.task_setTask_self] at hu
        cases hu
      · rw [if_neg hp]
        rw [World.task_setTask_of_ne _ _ (Ne.symm hp)] at hu
        exact h.unanswered p u stop hu hstate
  parents := by
    cases hreported with
    | stopped ht hstop =>
      exact h.parents.setTask fun e he => h.parents pid _ e ht ((stop?_stopped hstop).trans he)
    | reaped ht hdead hlast => exact h.parents.unset
  forked p hfork := by
    obtain ⟨status', hevent, hhead⟩ := hfork
    cases hhead
    cases hreported with
    | @stopped t stop ht hstop =>
      refine only_setTask (.inr ⟨stop, rfl, ?_⟩)
      rintro e rfl
      exact event_of_isForkEvent hevent e _ rfl (h.parents _ t e ht (stop?_stopped hstop))
    | reaped ht hdead hlast =>
      intro u hu
      rw [World.task_setTask_self] at hu
      cases hu
  honest hasks := honest_cons trivial (h.honest hasks)

theorem told_recounts (first : PidT) : Recounts (Told first) where
  congr := Told.congr
  moved h hmoved :=
    { listed := listed_moved h.listed hmoved
      unanswered := fun p t stop ht hstate =>
        h.unanswered p t stop (reported_of_moved hmoved ht hstate) hstate
      parents := h.parents.moved hmoved
      forked := fun p hfork => namesOther_moved (h.forked p hfork) hmoved
      honest := h.honest }
  malloc size granted h :=
    { listed := h.listed
      unanswered := h.unanswered
      parents := h.parents
      forked := fun p hfork => absurd hfork (not_forkReported fun _ => nofun)
      honest := fun hasks => honest_cons trivial (h.honest hasks) }
  call c table os h :=
    { listed := h.listed
      unanswered := h.unanswered
      parents := h.parents
      forked := fun p hfork => absurd hfork (not_forkReported fun _ => nofun)
      honest := fun hasks => honest_cons trivial (h.honest hasks) }
  performed := Told.performed
  refused := Told.refused
  reported h hreported htarget := h.reported hreported htarget
  unreported := by
    intro trace w target answer h hanswer
    refine ⟨h.listed, fun p t stop ht hstate => ?_, h.parents, ?_, fun hasks =>
      honest_cons trivial (h.honest hasks)⟩
    · cases answer with
      | none => exact h.unanswered p t stop ht hstate
      | some answer =>
        cases answer with
        | error e => exact h.unanswered p t stop ht hstate
        | ok report => exact absurd rfl (hanswer report)
    · rintro p ⟨status, -, hhead⟩
      cases hhead
      exact absurd rfl (hanswer _)

/-- The first task is the only one, at a stop that is no event. -/
theorem boot_cases (b : Boot) (ht : b.world.task p = some t) : p = b.childPid ∧ t = b.task := by
  change Function.update (fun _ => none) b.childPid (some b.task) p = some t at ht
  by_cases hp : p = b.childPid
  · subst hp
    rw [Function.update_self] at ht
    exact ⟨rfl, (Option.some.inj ht).symm⟩
  · rw [Function.update_of_ne hp] at ht
    cases ht

theorem told_boot (b : Boot) : Told b.childPid [] b.world where
  listed p t ht := by
    rw [(boot_cases b ht).1]
    exact .head _
  unanswered p t stop ht _ := (boot_cases b ht).1
  parents p t e ht hstop := by
    obtain ⟨-, rfl⟩ := boot_cases b ht
    cases hstop
  forked p hfork := by
    obtain ⟨status, -, hhead⟩ := hfork
    cases hhead
  honest _ := List.forall_mem_nil _

/-! ### Every run -/

variable (b : Boot) (env : Env) (scan n : Nat)

/-- On Linux the trace and the tasks agree in every run. -/
theorem told_run : Told b.childPid (finalState (b.run env scan n)).trace
    (finalState (b.run env scan n)).os :=
  (told_recounts b.childPid).chronicles.run env (told_boot b) scan n

theorem honest_run : Honest (finalState (b.run env scan n)).trace :=
  (told_run b env scan n).honest (asks_traceChild scan n b.childPid b.world)

theorem honest_head {b : Boot} {env : Env} {scan : Nat} {C : Tracer World → Tracer World → Prop}
    {s : Tracer World} (h : b.Head env scan C s) : Honest s.trace := by
  obtain ⟨n, rfl⟩ := h.final
  exact honest_run b env scan n

/-- On Linux every run is disciplined. -/
theorem run_disciplined : Disciplined b.childPid (finalState (b.run env scan n)).trace ∧
    Attended b.childPid (finalState (b.run env scan n)).trace :=
  (triple_traceChild_inHand (kernel env) scan n).final
    (fun _ _ hs => hs.stopped .blocked) (fun _ _ hs => hs)
    ⟨inHand_start b.childPid b.world, tableOk_start b.world⟩ (honest_run b env scan n)

variable {b env scan n} {target : WaitTarget}

/-- The last thing the tracer did was a wait, and it is not answered yet. -/
def Waits (target : WaitTarget) : List (Event World) → Prop
  | .wait target' none :: _ => target' = target
  | _ => False

instance : DecidablePred (Waits target)
  | .wait target' none :: _ => inferInstanceAs (Decidable (target' = target))
  | [] | .ptrace .. :: _ | .wait _ (some _) :: _ | .malloc .. :: _ | .call .. :: _ =>
    inferInstanceAs (Decidable False)

theorem exists_of_waits (h : Waits target trace) : ∃ older, trace = .wait target none :: older := by
  match trace, h with
  | .wait _ none :: older, rfl => exact ⟨older, rfl⟩

/-- While the tracer waits, nothing that it waits for is left in a stop that was reported. -/
theorem waited_not_reported (hwait : Waits target (finalState (b.run env scan n)).trace)
    (htarget : target = none ∨ target = some p)
    (ht : (finalState (b.run env scan n)).os.task p = some t) (stop : Stop) :
    t.state ≠ .stopped stop true := by
  intro hstate
  have htold := (told_run b env scan n).unanswered p t stop ht hstate
  obtain ⟨hdisciplined, -⟩ := run_disciplined b env scan n
  obtain ⟨older, htrace⟩ := exists_of_waits hwait
  rw [htrace] at htold hdisciplined
  exact hdisciplined.1 p htarget htold

end Reproduce.Linux
