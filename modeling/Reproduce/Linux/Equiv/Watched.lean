import Reproduce.Linux.Equiv.Settled
import Reproduce.Linux.Equiv.Stale

/-!
# Processes out of sight

A live process that is not tracked is new, and its first stop has not been reported (`Watched`).
Moves keep this unless a thread that executes a program takes the place of a dead leader, and with
it a pid that has lost its entry.
-/

namespace Reproduce.Linux

open Bytes Effect

variable {tracked tracked' : PidT → Prop} {w w' : World} {pid q : PidT} {t t' : Task} {c : Prop}

/-! ### Tasks -/

/-- What is known of a task that is tracked if `c`: a live task that is not is new, and its first
stop has not been reported. -/
structure Task.Fit (c : Prop) (t : Task) : Prop where
  died : ∀ status, t.state = .zombie status → terminated status = true
  unseen : t.isDead = false → ¬c → t.state = .stopped .initial false
  message : ∀ e message, t.stop? = some (.event e message) → message ≠ 0

/-- A tracked task in a state that is neither death nor an event. -/
theorem fit_of_tracked (hc : c) (hdead : ∀ status, t.state ≠ .zombie status)
    (hevent : ∀ e message, t.stop? ≠ some (.event e message)) : t.Fit c where
  died status hstate := absurd hstate (hdead status)
  unseen _ hnot := absurd hc hnot
  message e message hstop := absurd hstop (hevent e message)

theorem Task.Fit.mono {d : Prop} (h : t.Fit c) (hcd : c → d) : t.Fit d where
  died := h.died
  unseen hlive hnot := h.unseen hlive fun hc => hnot (hcd hc)
  message := h.message

/-- What the fitness of a task depends on. -/
theorem Task.Fit.congr (h : t.Fit c) (hstate : t'.state = t.state) : t'.Fit c := by
  have hdead : t'.isDead = t.isDead := by simp [Task.isDead, hstate]
  have hstop : t'.stop? = t.stop? := by simp [Task.stop?, hstate]
  refine ⟨fun status hs => h.died status (hstate ▸ hs), fun hlive hnot => ?_, ?_⟩
  · rw [hstate]
    exact h.unseen (hdead ▸ hlive) hnot
  · rw [hstop]
    exact h.message

theorem fit_dead {status : Status} (hstatus : terminated status = true) :
    Task.Fit c { t with state := .zombie status } where
  died status' hstate := by
    cases hstate
    exact hstatus
  unseen hlive := by cases hlive
  message _ _ := nofun

theorem fit_newborn (t : Task) (tgid : PidT) (mm : Nat) (rsp : Word) (birth : Nat) :
    (t.newborn tgid mm rsp birth).Fit c where
  died _ := nofun
  unseen _ _ := rfl
  message _ _ := nofun

theorem fit_resume (hc : c) (t : Task) (stop : Stop) (data : Word) :
    (t.resume stop data).Fit c := by
  refine fit_of_tracked hc (fun status => ?_) fun e message => ?_
  · cases stop <;> exact nofun
  · cases stop <;> exact nofun

/-- A stop of a tracked task is reported. -/
theorem Task.Fit.report {stop : Stop} (h : t.Fit c) (hstate : t.state = .stopped stop false)
    (hc : c) : Task.Fit c { t with state := .stopped stop true } where
  died _ := nofun
  unseen _ hnot := absurd hc hnot
  message e message hstop := h.message e message ((stop?_stopped hstate).trans hstop)

/-! ### Worlds -/

/-- Every task fits, and has a pid that was in use. -/
def Watched (tracked : PidT → Prop) (w : World) : Prop :=
  ∀ q t, w.task q = some t → t.Fit (tracked q) ∧ q ≠ 0 ∧ q ∈ w.pids

theorem Watched.congr (h : Watched tracked w) (htask : w'.task = w.task)
    (hpids : w'.pids = w.pids) : Watched tracked w' := by
  unfold Watched
  rw [htask, hpids]
  exact h

theorem Watched.mono (h : Watched tracked w) (hsub : ∀ q, tracked q → tracked' q) :
    Watched tracked' w :=
  fun q t ht => (h q t ht).imp_left fun hfit => hfit.mono (hsub q)

theorem Watched.setTask (h : Watched tracked w) (ht : w.task pid = some t)
    (hfit : t'.Fit (tracked pid)) : Watched tracked (w.setTask pid (some t')) := by
  intro q u hu
  by_cases hq : q = pid
  · subst hq
    rw [World.task_setTask_self] at hu
    cases hu
    exact ⟨hfit, (h q t ht).2⟩
  · rw [World.task_setTask_of_ne _ _ hq] at hu
    exact h q u hu

theorem Watched.setTask_same (h : Watched tracked w) (ht : w.task pid = some t)
    (hstate : t'.state = t.state) : Watched tracked (w.setTask pid (some t')) :=
  h.setTask ht ((h pid t ht).1.congr hstate)

/-- What is left when a task is gone need not be tracked under its pid. -/
theorem Watched.unset (h : Watched tracked w) :
    Watched (fun q => tracked q ∧ q ≠ pid) (w.setTask pid none) := by
  intro q u hu
  by_cases hq : q = pid
  · subst hq
    rw [World.task_setTask_self] at hu
    cases hu
  · rw [World.task_setTask_of_ne _ _ hq] at hu
    exact (h q u hu).imp_left fun hfit => hfit.mono fun htracked => ⟨htracked, hq⟩

/-- A task that is neither dead nor new is tracked. -/
theorem Watched.of_seen (h : Watched tracked w) (ht : w.task pid = some t)
    (hlive : t.isDead = false) (hseen : t.state ≠ .stopped .initial false) : tracked pid := by
  by_contra hnot
  exact hseen ((h pid t ht).1.unseen hlive hnot)

theorem Watched.of_user (h : Watched tracked w) (ht : w.task pid = some t)
    (hstate : t.state = .user) : tracked pid :=
  h.of_seen ht (by simp [Task.isDead, hstate]) (by simp [hstate])

theorem Watched.of_kernel (h : Watched tracked w) (ht : w.task pid = some t) {fresh : Bool}
    (hstate : t.state = .kernel fresh) : tracked pid :=
  h.of_seen ht (by simp [Task.isDead, hstate]) (by simp [hstate])

/-! ### Moves -/

theorem watched_fork (h : Watched tracked w) {child : PidT} {e : PtraceEvent} {thread share : Bool}
    {rsp : Word} (ht : w.task pid = some t) (htracked : tracked pid) (hchild : child ≠ 0) :
    Watched tracked (w.fork pid child t e thread share rsp) := by
  have hparent : Watched tracked (w.setTask pid (some (t.forking e child w.births))) := by
    refine h.setTask ht ⟨fun _ => nofun, fun _ hnot => absurd htracked hnot, ?_⟩
    rintro e' message ⟨⟩
    exact hchild
  intro q u hu
  by_cases hq : q = child
  · subst hq
    have hnew : (w.fork pid q t e thread share rsp).task q = some (t.newborn _ _ rsp w.births) :=
      Function.update_self ..
    cases hnew.symm.trans hu
    exact ⟨fit_newborn .., hchild, .head _⟩
  · have hold : (w.setTask pid (some (t.forking e child w.births))).task q = some u :=
      (Function.update_of_ne hq _ _).symm.trans hu
    obtain ⟨hfit, hne, hmem⟩ := hparent q u hold
    exact ⟨hfit, hne, .tail _ hmem⟩

theorem watched_exec (h : Watched tracked w) {leader : PidT} {old : Task} {regs : UserRegsStruct}
    {image : Memory} (ht : w.task pid = some t) (htracked : tracked pid)
    (hold : w.task leader = some old) (hleader : pid ≠ leader → tracked leader) :
    Watched tracked (w.exec pid leader t old regs image) := by
  have hfit : tracked leader → Task.Fit (tracked leader) (t.exec old pid w.nextMm regs) := by
    refine fun hleader => ⟨?_, fun _ hnot => absurd hleader hnot, ?_⟩
    · simp [Task.exec]
    · rintro e message ⟨⟩
      exact (h pid t ht).2.1
  by_cases hp : pid = leader
  · subst hp
    exact (h.setTask ht (hfit htracked)).congr (Function.update_idem ..) rfl
  · -- the leader is tracked under its pid, and the thread is gone
    have hgone : Watched tracked (w.setTask pid none) := h.unset.mono fun q hq => hq.1
    have hold' : (w.setTask pid none).task leader = some old :=
      (World.task_setTask_of_ne _ _ (Ne.symm hp)).trans hold
    exact (hgone.setTask hold' (hfit (hleader hp))).congr rfl rfl

/-- Moves keep sight of every process, as long as no thread takes the place of a leader that is not
tracked. -/
theorem watched_moved {m : Move} (h : Watched tracked w) (hmoved : Moved w m w')
    (hleader : ∀ p leader regs image, m = .exec p leader regs image → p ≠ leader →
      tracked leader) : Watched tracked w' := by
  cases hmoved with
  | enter ht hstate =>
    refine h.setTask ht (fit_of_tracked (h.of_user ht hstate) ?_ ?_)
    · simp [Task.enter]
    · simp [Task.enter, Task.stop?]
  | finish ht hstate =>
    refine h.setTask ht (fit_of_tracked (h.of_kernel ht hstate) ?_ ?_)
    · simp
    · simp [Task.stop?]
  | fork ht hstate hnr he hchild hfree hshare =>
    exact watched_fork h ht (h.of_kernel ht hstate) hchild
  | exec ht hstate hnr hold htgid hgroup hdead halone =>
    exact watched_exec h ht (h.of_kernel ht hstate) hold (hleader _ _ _ _ rfl)
  | signal ht hstate =>
    refine h.setTask ht (fit_of_tracked (h.of_user ht hstate) ?_ ?_)
    · simp [Task.signal]
    · simp [Task.signal, Task.stop?]
  | die ht hlive hstatus => exact h.setTask ht (fit_dead hstatus)
  | store => exact h

/-! ### Requests -/

theorem watched_poke (h : Watched tracked w) (ht : w.task pid = some t) (mm : Nat) (m : Memory) :
    Watched tracked (((w.setMem mm m).countPoke pid t).recordWrite pid t.mm) := by
  have hmem : Watched tracked (w.setMem mm m) := h
  unfold World.countPoke
  split
  · have hcount : Watched tracked
        ((w.setMem mm m).setTask pid (some { t with earlyPokes := t.earlyPokes + 1 })) :=
      hmem.setTask_same ht rfl
    exact hcount.congr rfl rfl
  · exact hmem

/-- A report about a tracked process. -/
theorem watched_report (h : Watched tracked w) (hpid : tracked pid) {status : Status}
    (hreported : Reported w pid status w') : Watched tracked w' := by
  cases hreported with
  | stopped ht hstate => exact h.setTask ht ((h pid _ ht).1.report hstate hpid)
  | reaped ht hstate hlast => exact h.unset.mono fun q hq => hq.1

/-! ### Stopped processes -/

/-- Dead, or at a stop. -/
def Task.Halted : Task → Prop := Task.AtStop fun _ _ => True

theorem local_halted : Local Task.Halted :=
  local_atStop (fun _ _ _ h => h) (fun _ _ _ h => h) fun _ _ => trivial

theorem halted_newborn (t : Task) (tgid : PidT) (mm : Nat) (rsp : Word) (birth : Nat) :
    (t.newborn tgid mm rsp birth).Halted := .inr ⟨.initial, rfl, trivial⟩

theorem abides_halted (pid : PidT) : Abides (Only pid Task.Halted) :=
  abides_only local_halted halted_newborn pid

end Reproduce.Linux
