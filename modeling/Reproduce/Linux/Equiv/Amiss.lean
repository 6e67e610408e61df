import Reproduce.Effect.Unless
import Reproduce.Linux.Equiv.Fate
import Reproduce.Tracer.Equiv.Steps

/-!
# Facts that hold unless something is amiss

A move or an answer that a theorem excludes is *amiss*; since the history of the world and the trace
of the tracer only grow (`Later`), it stays on record.  A fact about worlds that the ordinary moves
keep (`MovesKeep`), and also the requests to one process (`RequestsKeep`), is kept by every helper
and every handler for that process, unless something is amiss (`RequestsKeep.requests`).
-/

namespace Reproduce.Linux

open Bytes Effect

variable (env : Env)

/-! ### The record -/

/-- History and trace only grow. -/
structure Later (s s' : Tracer World) : Prop where
  history : s.os.history <:+ s'.os.history
  trace : s.trace <:+ s'.trace

instance : IsPreorder (Tracer World) Later where
  refl _ := ⟨List.suffix_rfl, List.suffix_rfl⟩
  trans _ _ _ h h' := ⟨h.history.trans h'.history, h.trace.trans h'.trace⟩

theorem Later.trans {s₁ s₂ s₃ : Tracer World} (h : Later s₁ s₂) (h' : Later s₂ s₃) : Later s₁ s₃ :=
  IsPreorder.toIsTrans.trans _ _ _ h h'

/-- A move with `wrong` happened or an event with `odd` was recorded. -/
def Amiss (wrong : Nat × Move → Prop) (odd : Event World → Prop) (s s' : Tracer World) : Prop :=
  Added wrong s.os.history s'.os.history ∨ Added odd s.trace s'.trace

variable {wrong : Nat × Move → Prop} {odd : Event World → Prop}

instance : Absorbs Later (Amiss wrong odd) where
  before h := Or.imp (added_of_suffix h.history) (added_of_suffix h.trace)
  after h h' := h.imp (fun h => h.suffix h'.history) (fun h => h.suffix h'.trace)

theorem later_ptrace (r : Request) : Within Later (ptrace (kernel env) r) := by
  intro s
  refine ⟨?_, List.suffix_cons _ _⟩
  show s.os.history <:+ (World.ptrace env r s.os).2.history
  rw [history_ptrace]
  exact history_advance _ _

theorem later_waited (s : Tracer World) (target : WaitTarget) :
    Later s (s.waited (kernel env) target) := by
  refine ⟨?_, List.suffix_cons _ _⟩
  show s.os.history <:+ (World.waitpid env target s.os).2.history
  rw [history_waitpid]
  exact history_advance _ _

theorem later_waitpid (target : WaitTarget) : Within Later (waitpid (kernel env) target) := by
  intro s
  rw [waitpid_apply]
  split <;> exact later_waited env s _

theorem later_steps : Steps (kernel env) Later where
  ptrace r _ := later_ptrace env r
  wait pid := later_waitpid env (some pid)
  malloc size := by
    intro s
    unfold Reproduce.malloc
    split <;> exact ⟨List.suffix_rfl, List.suffix_cons _ _⟩
  note _ _ _ := ⟨List.suffix_rfl, List.suffix_cons _ _⟩
  own _ _ _ _ _ := ⟨List.suffix_rfl, List.suffix_rfl⟩

/-! ### Answers -/

/-- What a wait that reports `status` of a process has done. -/
inductive Reported (w : World) (pid : PidT) : Status → World → Prop
  | stopped {t : Task} {stop : Stop} (ht : w.task pid = some t)
      (hstate : t.state = .stopped stop false) :
      Reported w pid stop.status
        (w.setTask pid (some { t with state := .stopped stop true }))
  | reaped {t : Task} {status : Status} (ht : w.task pid = some t)
      (hstate : t.state = .zombie status) (hlast : t.tgid = pid → w.lastInGroup pid pid = true) :
      Reported w pid status (w.setTask pid none)

theorem report_eq_some {w w' : World} {p q : PidT} {status : Status}
    (h : w.report p = (some (.ok (q, status)), w')) : q = p ∧ Reported w p status w' := by
  unfold World.report at h
  split at h
  · cases h
  · next t ht =>
    split at h
    · next stop hstate =>
      cases h
      exact ⟨rfl, .stopped ht hstate⟩
    · next status' hstate =>
      split at h
      · cases h
      · next hgroup =>
        cases h
        refine ⟨rfl, .reaped ht hstate fun htgid => ?_⟩
        simpa [htgid] using hgroup
    · cases h

/-- A wait that reports nothing changes nothing. -/
theorem report_eq_none {w w' : World} {p : PidT} (h : w.report p = (none, w')) : w' = w := by
  unfold World.report at h
  split at h
  · cases h
    rfl
  · split at h
    · cases h
    · split at h
      · cases h
        rfl
      · cases h
    · cases h
      rfl

theorem report_ne_error {w : World} {p : PidT} {e : Errno} :
    (w.report p).1 ≠ some (.error e) := by
  unfold World.report
  split
  · exact nofun
  · split
    · exact nofun
    · split <;> exact nofun
    · exact nofun

theorem waitpid_eq_report (w : World) (target : WaitTarget) :
    World.waitpid env target w = (some (.error .ECHILD), w.asked env (.wait target)) ∨
      World.waitpid env target w = (w.asked env (.wait target)).report
        (target.getD (env w.tick (.wait target)).report) := by
  unfold World.waitpid
  dsimp only
  rw [← World.asked]
  cases target with
  | none =>
    dsimp only
    split
    · exact .inl rfl
    · exact .inr rfl
  | some p =>
    dsimp only
    split
    · exact .inl rfl
    · exact .inr rfl

theorem waitpid_reported {w : World} {target : WaitTarget} {pid : PidT} {status : Status}
    (h : (World.waitpid env target w).1 = some (.ok (pid, status))) :
    Reported (w.asked env (.wait target)) pid status (World.waitpid env target w).2 ∧
      pid = target.getD (env w.tick (.wait target)).report := by
  rcases waitpid_eq_report env w target with hnone | hreport
  · rw [hnone] at h
    cases h
  · rw [hreport] at h ⊢
    obtain ⟨rfl, hreported⟩ := report_eq_some (Prod.ext h rfl)
    exact ⟨hreported, rfl⟩

/-- A wait that fails or blocks changes nothing. -/
theorem waitpid_unreported {w : World} {target : WaitTarget}
    (h : ∀ pid status, (World.waitpid env target w).1 ≠ some (.ok (pid, status))) :
    (World.waitpid env target w).2 = w.asked env (.wait target) := by
  rcases waitpid_eq_report env w target with hnone | hreport
  · rw [hnone]
  · rw [hreport] at h ⊢
    cases hanswer : ((w.asked env (.wait target)).report
      (target.getD (env w.tick (.wait target)).report)).1 with
    | none => exact report_eq_none (Prod.ext hanswer rfl)
    | some answer =>
      cases answer with
      | error e => exact absurd hanswer report_ne_error
      | ok p => exact absurd hanswer (h p.1 p.2)

/-- A request is carried out on a stopped task, or answered `ESRCH`. -/
theorem ptrace_performed (w : World) (r : Request) :
    (∃ t, (w.asked env (.ptrace r)).task r.pid = some t ∧ t.isStopped = true ∧
      World.ptrace env r w = (w.asked env (.ptrace r)).perform t r) ∨
    (∀ t, (w.asked env (.ptrace r)).task r.pid = some t → t.isStopped = false) ∧
      World.ptrace env r w = (.error .ESRCH, w.asked env (.ptrace r)) := by
  unfold World.ptrace
  dsimp only
  rw [← World.asked]
  split
  · next t ht =>
    obtain ⟨ht, hstop⟩ := Option.filter_eq_some_iff.mp ht
    exact .inl ⟨t, ht, hstop, rfl⟩
  · next hnone =>
    refine .inr ⟨fun t ht => ?_, rfl⟩
    simpa [World.stopped, ht] using hnone

/-! ### What moves and requests keep -/

/-- The moves keep `J`, unless they are wrong. -/
structure MovesKeep (wrong : Nat × Move → Prop) (J : World → Prop) : Prop where
  moved : ∀ w m w', J w → Moved w m w' →
    J { w' with history := (w.tick, m) :: w.history } ∨ wrong (w.tick, m)
  ticked : ∀ w n, J w → J { w with tick := n }

variable {J : World → Prop} {pid : PidT}

theorem MovesKeep.runMoves (h : MovesKeep wrong J) {w : World} (hw : J w) (moves : List Move) :
    J (w.runMoves moves) ∨ Added wrong w.history (w.runMoves moves).history := by
  have hrun := @runMoves_induction
    (fun w' => w.history <:+ w'.history ∧ (J w' ∨ Added wrong w.history w'.history)) moves
    (fun w₁ m w₂ _ h₁ hmoved => ?_) w ⟨List.suffix_rfl, .inl hw⟩
  · exact hrun.2
  · refine ⟨h₁.1.trans (List.suffix_cons _ _), ?_⟩
    rcases h₁.2 with hJ | hadded
    · refine (h.moved w₁ m w₂ hJ hmoved).imp_right fun hwrong => ?_
      exact added_of_suffix h₁.1 ⟨[_], rfl, _, List.mem_singleton.mpr rfl, hwrong⟩
    · exact .inr (hadded.suffix (List.suffix_cons _ _))

theorem MovesKeep.asked (h : MovesKeep wrong J) {w : World} (hw : J w) (q : Query) :
    J (w.asked env q) ∨ Added wrong w.history (w.asked env q).history :=
  (h.runMoves hw (env w.tick q).moves).imp_left (h.ticked _ _)

/-- Looking at a process and writing to its memory keep `J`. -/
structure PokesKeep (wrong : Nat × Move → Prop) (J : World → Prop) (pid : PidT) : Prop
    extends MovesKeep wrong J where
  poke : ∀ w t m, J w → w.task pid = some t → t.isStopped = true →
    J (((w.setMem t.mm m).countPoke pid t).recordWrite pid t.mm)

/-- Waiting for a process and resuming it keep `J`, too. -/
structure ResumesKeep (wrong : Nat × Move → Prop) (odd : Event World → Prop) (J : World → Prop)
    (pid : PidT) : Prop extends PokesKeep wrong J pid where
  report : ∀ w status w', J w → Reported w pid status w' →
    J w' ∨ odd (.wait (some pid) (some (.ok (pid, status))))
  resume : ∀ w t stop, J w → w.task pid = some t → t.stop? = some stop →
    J (w.setTask pid (some (t.resume stop 0)))

/-- Setting the registers of a process keeps `J`, too. -/
structure RequestsKeep (wrong : Nat × Move → Prop) (odd : Event World → Prop) (J : World → Prop)
    (pid : PidT) : Prop extends ResumesKeep wrong odd J pid where
  setregs : ∀ w t regs, J w → w.task pid = some t → t.isStopped = true →
    J ((w.setTask pid (some { t with regs := regs })).recordWrite pid t.mm)

theorem MovesKeep.within_ptrace (h : MovesKeep wrong J) (T : List ChildProcess → Prop) {r : Request}
    (hperform : ∀ w t, J w → w.task r.pid = some t → t.isStopped = true → J (w.perform t r).2) :
    Within (Keeps Later (Amiss wrong odd) fun s => J s.os ∧ T s.processTable)
      (ptrace (kernel env) r) := by
  intro s
  refine ⟨later_ptrace env r s, fun hs => ?_⟩
  rcases h.asked env hs.1 (.ptrace r) with hasked | hadded
  · refine .inl ⟨?_, hs.2⟩
    show J (World.ptrace env r s.os).2
    rcases ptrace_performed env s.os r with ⟨t, ht, hstop, hrun⟩ | ⟨-, hgone⟩
    · rw [hrun]
      exact hperform _ t hasked ht hstop
    · rw [hgone]
      exact hasked
  · refine .inr (.inl ?_)
    show Added _ _ (World.ptrace env r s.os).2.history
    rw [history_ptrace]
    exact hadded

theorem perform_peek_snd (w : World) (t : Task) (p : PidT) (place : Peek) :
    (w.perform t (.peek p place)).2 = w := by
  unfold World.perform
  cases place with
  | user offset =>
    dsimp only
    split <;> rfl
  | data addr =>
    dsimp only
    split <;> rfl

theorem perform_poke_snd (w : World) (t : Task) (p : PidT) (addr data : Word) :
    (w.perform t (.pokedata p addr data)).2 = w ∨ ∃ m, (w.perform t (.pokedata p addr data)).2 =
      ((w.setMem t.mm m).countPoke p t).recordWrite p t.mm := by
  unfold World.perform
  dsimp only
  split
  · exact .inr ⟨_, rfl⟩
  · exact .inl rfl

theorem task_countPoke (w : World) (pid : PidT) (t : Task) :
    (w.countPoke pid t).task = w.task ∨
      (w.countPoke pid t) = w.setTask pid (some { t with earlyPokes := t.earlyPokes + 1 }) := by
  unfold World.countPoke
  split
  · exact .inr rfl
  · exact .inl rfl

theorem perform_syscall_snd {w : World} {t : Task} {stop : Stop} (p : PidT) (data : Word)
    (hstop : t.stop? = some stop) :
    (w.perform t (.syscall p data)).2 = w.setTask p (some (t.resume stop data)) := by
  unfold World.perform
  dsimp only
  rw [hstop]

theorem perform_geteventmsg_snd (w : World) (t : Task) (p : PidT) :
    (w.perform t (.geteventmsg p)).2 = w := by
  unfold World.perform
  dsimp only
  split <;> rfl

theorem stop?_of_isStopped {t : Task} (h : t.isStopped = true) : ∃ stop, t.stop? = some stop := by
  obtain ⟨stop, reported, hstate⟩ := Task.state_of_isStopped h
  exact ⟨stop, by simp [Task.stop?, hstate]⟩

/-- A wait keeps `J` when the reports do. -/
theorem MovesKeep.within_waitpid (h : MovesKeep wrong J) (T : List ChildProcess → Prop)
    (hreport : ∀ w status w', J w → Reported w pid status w' →
      J w' ∨ odd (.wait (some pid) (some (.ok (pid, status))))) :
    Within (Keeps Later (Amiss wrong odd) fun s => J s.os ∧ T s.processTable)
      (waitpid (kernel env) (some pid)) := by
  intro s
  have hkept : Keeps Later (Amiss wrong odd) (fun s => J s.os ∧ T s.processTable) s
      (s.waited (kernel env) (some pid)) := by
    refine ⟨later_waited env s _, fun hs => ?_⟩
    have hos : (s.waited (kernel env) (some pid)).os = (World.waitpid env (some pid) s.os).2 := rfl
    rcases h.asked env hs.1 (.wait (some pid)) with hasked | hadded
    · -- the moves before the wait keep `J`, and then it may report a change of the process
      by_cases hreport : ∃ q status, (World.waitpid env (some pid) s.os).1 = some (.ok (q, status))
      · obtain ⟨q, status, hanswer⟩ := hreport
        obtain ⟨hreported, hq⟩ := waitpid_reported env hanswer
        have hsame : q = pid := hq
        subst hsame
        rcases hreport _ _ _ hasked hreported with hJ | hodd
        · exact .inl ⟨hJ, hs.2⟩
        · refine .inr (.inr ⟨[.wait (some q) _], rfl, _, List.mem_singleton.mpr rfl, ?_⟩)
          show odd (.wait (some q) (World.waitpid env (some q) s.os).1)
          rw [hanswer]
          exact hodd
      · refine .inl ⟨?_, hs.2⟩
        rw [hos, waitpid_unreported env fun q status hanswer => hreport ⟨q, status, hanswer⟩]
        exact hasked
    · -- one of the moves was wrong
      refine .inr (.inl ?_)
      rw [hos, history_waitpid]
      exact hadded
  rw [waitpid_apply]
  split <;> exact hkept

/-- A request that a stopped task cannot refuse. -/
theorem MovesKeep.unless_ptraceReturn {R L : World → Prop} (h : MovesKeep wrong J) {r : Request}
    (hperform : ∀ w t, J w → w.task r.pid = some t → t.isStopped = true →
      (∃ reply, (w.perform t r).1 = .ok reply) ∧ R (w.perform t r).2)
    (hgone : ∀ w, J w → (∀ t, w.task r.pid = some t → t.isStopped = false) → L w) :
    Unless Later (Amiss wrong odd) (fun s => J s.os) (ptraceReturn (kernel env) r)
      (fun more s => if more then R s.os else L s.os) where
  within := within_ptraceReturn (later_ptrace env r)
  post := by
    intro s more s' hs hm
    obtain ⟨rfl, hanswer⟩ := ptraceReturn_eq_ok _ hm
    rcases h.asked env hs (.ptrace r) with hasked | hadded
    · left
      show if more then R (World.ptrace env r s.os).2 else L (World.ptrace env r s.os).2
      rcases ptrace_performed env s.os r with ⟨t, ht, hstop, hrun⟩ | ⟨hstill, hrun⟩
      · -- the tracee is stopped, so the answer is a success
        obtain ⟨⟨reply, hreply⟩, hR⟩ := hperform _ t hasked ht hstop
        rcases hanswer with ⟨rfl, -⟩ | ⟨-, herror⟩
        · rw [if_pos rfl, hrun]
          exact hR
        · have hok : (World.ptrace env r s.os).1 = .ok reply := by rw [hrun, hreply]
          cases hok.symm.trans herror
      · -- the tracee is not stopped, so the answer is `ESRCH`
        rcases hanswer with ⟨-, reply, hok⟩ | ⟨rfl, -⟩
        · have herror : (World.ptrace env r s.os).1 = .error .ESRCH := by rw [hrun]
          cases herror.symm.trans hok
        · rw [if_neg Bool.false_ne_true, hrun]
          exact hgone _ hasked hstill
    · refine .inr (.inl ?_)
      show Added _ _ (World.ptrace env r s.os).2.history
      rw [history_ptrace]
      exact hadded

/-- A wait for one process that returns has reported it. -/
theorem MovesKeep.unless_waitpidOrExit {R : Status → World → Prop} (h : MovesKeep wrong J)
    (hreport : ∀ w status w', J w → Reported w pid status w' → R status w') :
    Unless Later (Amiss wrong odd) (fun s => J s.os) (waitpidOrExit (kernel env) pid)
      (fun status s => R status s.os) where
  within := within_waitpidOrExit ((later_steps env).wait pid)
  post := by
    intro s status s' hs hm
    obtain ⟨rfl, q, hanswer⟩ := waitpidOrExit_eq_ok _ hm
    rcases h.asked env hs (.wait (some pid)) with hasked | hadded
    · left
      obtain ⟨hreported, hq⟩ := waitpid_reported env hanswer
      have hsame : q = pid := hq
      subst hsame
      exact hreport _ _ _ hasked hreported
    · refine .inr (.inl ?_)
      show Added _ _ (World.waitpid env (some pid) s.os).2.history
      rw [history_waitpid]
      exact hadded

theorem PokesKeep.pokes (h : PokesKeep wrong J pid) (T : List ChildProcess → Prop) :
    Pokes (kernel env) (Keeps Later (Amiss wrong odd) fun s => J s.os ∧ T s.processTable) pid where
  peek place := h.within_ptrace env T fun w t hw _ _ => by
    rw [perform_peek_snd]
    exact hw
  poke addr data := h.within_ptrace env T fun w t hw ht hstop => by
    rcases perform_poke_snd w t pid addr data with hsame | ⟨m, hpoke⟩
    · rw [hsame]
      exact hw
    · rw [hpoke]
      exact h.poke w t m hw ht hstop

section resumes

variable (h : ResumesKeep wrong odd J pid) (T : List ChildProcess → Prop)

include h

theorem ResumesKeep.within_waitpid :
    Within (Keeps Later (Amiss wrong odd) fun s => J s.os ∧ T s.processTable)
      (waitpid (kernel env) (some pid)) :=
  h.toMovesKeep.within_waitpid env T h.report

theorem ResumesKeep.within_resume :
    Within (Keeps Later (Amiss wrong odd) fun s => J s.os ∧ T s.processTable)
      (ptrace (kernel env) (.syscall pid 0)) :=
  h.within_ptrace env T fun w t hw ht hstop => by
    obtain ⟨stop, hstop⟩ := stop?_of_isStopped hstop
    rw [perform_syscall_snd pid 0 hstop]
    exact h.resume w t stop hw ht hstop

theorem ResumesKeep.within_procInit (scan : Nat) :
    Within (Keeps Later (Amiss wrong odd) fun s => J s.os ∧ T s.processTable)
      (procInit (kernel env) scan pid) :=
  (h.pokes env T).within_procInit (h.within_resume env T)
    (fun _ => ⟨⟨List.suffix_rfl, List.suffix_cons _ _⟩, .inl⟩) scan

end resumes

/-- What the requests to a process keep, every helper and every handler for it keeps. -/
theorem RequestsKeep.requests (h : RequestsKeep wrong odd J pid) (T : List ChildProcess → Prop) :
    Requests (kernel env) (Keeps Later (Amiss wrong odd) fun s => J s.os ∧ T s.processTable)
      pid where
  toPokes := h.pokes env T
  setregs regs := h.within_ptrace env T fun w t hw ht hstop => h.setregs w t regs hw ht hstop
  resume := h.within_resume env T
  wait := h.within_waitpid env T
  malloc size := by
    intro s
    refine ⟨(later_steps env).malloc size s, fun hs => .inl ?_⟩
    unfold Reproduce.malloc
    split <;> exact hs
  buffer s f := ⟨((later_steps env).requests pid).buffer s f, .inl⟩

/-! ### Runs without anything amiss -/

/-- Nothing is amiss so far. -/
structure Sound (wrong : Nat × Move → Prop) (odd : Event World → Prop)
    (s : Tracer World) : Prop where
  moves : ∀ x ∈ s.os.history, ¬wrong x
  events : ∀ e ∈ s.trace, ¬odd e

theorem Sound.earlier {s s' : Tracer World} (h : Sound wrong odd s') (hs : Later s s') :
    Sound wrong odd s :=
  ⟨fun x hx => h.moves x (hs.history.subset hx), fun e he => h.events e (hs.trace.subset he)⟩

theorem Sound.not_amiss {s s' : Tracer World} (h : Sound wrong odd s') : ¬Amiss wrong odd s s' := by
  rintro (⟨new, hnew, x, hx, hwrong⟩ | ⟨new, hnew, e, he, hodd⟩)
  · exact h.moves x (hnew ▸ List.mem_append_left _ hx) hwrong
  · exact h.events e (hnew ▸ List.mem_append_left _ he) hodd

/-- In a sound run nothing but the rule applies. -/
theorem Sound.kept {s s' : Tracer World} {P : Tracer World → Prop} (h : Sound wrong odd s')
    (hkeeps : Keeps Later (Amiss wrong odd) P s s') (hs : P s) : P s' :=
  (hkeeps.2 hs).resolve_right h.not_amiss

theorem Sound.asked {s s' : Tracer World} {q : Query} (h : Sound wrong odd s')
    (hhistory : s'.os.history = (s.os.asked env q).history) (hJ : MovesKeep wrong J) (hs : J s.os) :
    J (s.os.asked env q) := by
  rcases hJ.asked env hs q with hkept | ⟨new, hnew, x, hx, hwrong⟩
  · exact hkept
  · refine absurd hwrong (h.moves x ?_)
    rw [hhistory, hnew]
    exact List.mem_append_left _ hx

/-- The wait of the loop reports a process of a world in which `J` holds. -/
theorem Sound.waited {s : Tracer World} {target : WaitTarget} {pid : PidT} {status : Status}
    (h : Sound wrong odd (s.waited (kernel env) target)) (hJ : MovesKeep wrong J) (hs : J s.os)
    (hwait : ((kernel env).waitpid target s.os).1 = some (.ok (pid, status))) :
    J (s.os.asked env (.wait target)) ∧
      Reported (s.os.asked env (.wait target)) pid status (s.waited (kernel env) target).os :=
  ⟨h.asked env (history_waitpid env s.os target) hJ hs, (waitpid_reported env hwait).1⟩

end Reproduce.Linux
