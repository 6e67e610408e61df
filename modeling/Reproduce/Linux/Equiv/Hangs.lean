import Reproduce.Linux.Equiv.Told

/-!
# When the tracer hangs

A wait hangs when it is never answered, whatever happens from now on (`World.Hangs`).  In no run
does the wait of the loop hang.  The waits for one process, those of the handlers and of
`register_new_child`, hang in one case only: the process is the dead leader of a thread group that
has other tasks left, whose deaths nobody takes while the tracer waits for the leader, and none of
them is about to replace the leader by an `execve` (`DeadLeader`, `run_hangs_iff`).

One direction is an invariant of moves (`DeadLeader.moved`).  For the other, a process that is not
in this state has a status to report, or gets one by moves of its own, or is replaced when all
other tasks die (`runMoves_replace`).
-/

namespace Reproduce.Linux

open Bytes Effect

variable {w w' : World} {m : Move} {p q : PidT} {t t' u old : Task} {target : WaitTarget}

/-- Whatever happens, the wait is not answered. -/
def World.Hangs (w : World) (target : WaitTarget) : Prop :=
  ∀ env, (World.waitpid env target w).1 = none

/-- A dead leader of a thread group that other tasks belong to, none of which has just entered an
`execve`. -/
structure DeadLeader (p : PidT) (w : World) : Prop where
  dead : ∃ t, w.task p = some t ∧ t.tgid = p ∧ t.isDead = true
  others : ∃ q ∈ w.pids, q ≠ p ∧ ∃ t, w.task q = some t ∧ t.tgid = p
  stays : ∀ q t, w.task q = some t → t.tgid = p → t.state = .kernel true →
    isExecve t.regs.origRax = false

/-! ### A dead leader stays -/

theorem tgid_moves (h : t.Moves t') : t'.tgid = t.tgid := by
  cases h with
  | finish regs =>
    unfold Task.finish
    split
    · rfl
    · split <;> rfl
  | _ => rfl

/-- A call is entered by a resumption only. -/
theorem not_fresh_moves (h : t.Moves t') : t'.state ≠ .kernel true := by
  cases h with
  | finish regs =>
    rw [state_finish]
    exact nofun
  | _ => exact nofun

theorem not_moves_of_dead (hdead : t.isDead = true) : ¬t.Moves t' := by
  intro h
  have hstill := still_state (.inl hdead)
  cases h with
  | enter regs hstate => exact hstill.1 hstate
  | finish regs hstate => exact hstill.2 _ hstate
  | fork e child birth hstate hnr => exact hstill.2 _ hstate
  | signal sig regs hstate => exact hstill.1 hstate
  | die hlive hstatus =>
    rw [hdead] at hlive
    cases hlive

/-- The thread that executes a program and the leader that it replaces are of one group. -/
theorem tgid_of_exec {regs : UserRegsStruct} {image : Memory}
    (hmoved : Moved w (.exec q p regs image) w') (ht : w.task q = some t) :
    t.tgid = p ∧ ∀ old, w.task p = some old → old.tgid = p := by
  cases hmoved with
  | exec ht' hstate hnr hold htgid hleader hdead halone =>
    cases ht.symm.trans ht'
    exact ⟨htgid, fun old hold' => Option.some.inj (hold.symm.trans hold') ▸ hleader⟩

theorem DeadLeader.moved (h : DeadLeader p w) (hmoved : Moved w m w') : DeadLeader p w' where
  dead := by
    obtain ⟨t, ht, htgid, hdead⟩ := h.dead
    have hbecomes := becomes hmoved p
    generalize ho : w'.task p = o at hbecomes
    cases hbecomes with
    | same => exact ⟨t, ho ▸ ht, htgid, hdead⟩
    | own hu hmoves =>
      cases ht.symm.trans hu
      exact absurd hmoves (not_moves_of_dead hdead)
    | born hfree hu hstate hnr => cases ht.symm.trans hfree
    | gone hu hstate hnr hleader =>
      cases ht.symm.trans hu
      exact absurd hstate ((still_state (.inl hdead)).2 true)
    | replaced hold hu hstate hnr hdead =>
      -- a thread of the group has executed a program
      have hstays := h.stays _ _ hu (tgid_of_exec hmoved hu).1 hstate
      rw [hnr] at hstays
      cases hstays
  others := by
    obtain ⟨q, hq, hne, t, ht, htgid⟩ := h.others
    have hlisted : q ∈ w'.pids := by
      cases hmoved with
      | fork => exact List.mem_cons_of_mem _ hq
      | _ => exact hq
    refine ⟨q, hlisted, hne, ?_⟩
    have hbecomes := becomes hmoved q
    generalize ho : w'.task q = o at hbecomes
    cases hbecomes with
    | same => exact ⟨t, ho ▸ ht, htgid⟩
    | own hu hmoves =>
      cases ht.symm.trans hu
      exact ⟨_, rfl, (tgid_moves hmoves).trans htgid⟩
    | born hfree hu hstate hnr => cases ht.symm.trans hfree
    | gone hu hstate hnr hleader =>
      have hstays := h.stays q _ hu ?_ hstate
      · rw [hnr] at hstays
        cases hstays
      · cases ht.symm.trans hu
        exact htgid
    | replaced hold hu hstate hnr hdead =>
      -- only the leader of a group is replaced
      exact absurd (((tgid_of_exec hmoved hu).2 t ht).symm.trans htgid) hne
  stays := by
    intro q t ht htgid hstate
    have hbecomes := becomes hmoved q
    rw [ht] at hbecomes
    generalize ho : some t = o at hbecomes
    cases hbecomes with
    | same => exact h.stays q t ho.symm htgid hstate
    | own hu hmoves =>
      cases ho
      exact absurd hstate (not_fresh_moves hmoves)
    | born hfree hu hborn hnr =>
      cases ho
      cases hstate
    | gone hu hgone hnr hleader => cases ho
    | replaced hold hu hexec hnr hdead =>
      cases ho
      cases hstate

theorem DeadLeader.congr (h : DeadLeader p w) (htask : w'.task = w.task)
    (hpids : w'.pids = w.pids) : DeadLeader p w' := by
  refine ⟨?_, ?_, ?_⟩
  · rw [htask]
    exact h.dead
  · rw [htask, hpids]
    exact h.others
  · rw [htask]
    exact h.stays

/-- A wait for a dead leader hangs. -/
theorem DeadLeader.hangs (h : DeadLeader p w) : w.Hangs (some p) := by
  intro env
  have hasked : DeadLeader p (w.asked env (.wait (some p))) :=
    (runMoves_induction (P := DeadLeader p)
      (fun _ _ _ _ hw hmoved => (hw.moved hmoved).congr rfl rfl) w h).congr rfl rfl
  obtain ⟨t, ht, htgid, hdead⟩ := hasked.dead
  obtain ⟨q, hq, hne, u, hu, hgroup⟩ := hasked.others
  have hlast : (w.asked env (.wait (some p))).lastInGroup p p = false := by
    rw [Bool.eq_false_iff]
    intro hall
    have hother := List.all_eq_true.mp hall q hq
    simp [hne, hu, hgroup] at hother
  unfold World.waitpid
  dsimp only
  rw [← World.asked, if_neg (by simp [ht])]
  unfold World.report
  rw [ht]
  dsimp only
  split
  · next stop hstate => simp [Task.isDead, hstate] at hdead
  · rw [if_pos (by simp [htgid, hlast])]
  · rfl

/-! ### Every other wait can be answered -/

/-- The process has a status to report. -/
def Reportable (w : World) (q : PidT) : Prop :=
  ∃ t, w.task q = some t ∧ ((∃ stop, t.state = .stopped stop false) ∨
    t.isDead = true ∧ (t.tgid = q → w.lastInGroup q q = true))

theorem Reportable.report (h : Reportable w q) : (w.report q).1 ≠ none := by
  obtain ⟨t, ht, ⟨stop, hstate⟩ | ⟨hdead, hlast⟩⟩ := h
  · rw [report_of_stopped ht hstate]
    exact nofun
  · unfold World.report
    rw [ht]
    dsimp only
    split
    · exact nofun
    · rw [if_neg]
      · exact nofun
      · rintro ⟨htgid, hnot⟩
        simp [hlast htgid] at hnot
    · next hstopped hzombie =>
      unfold Task.isDead at hdead
      split at hdead
      · next status hstate => exact absurd hstate (hzombie status)
      · cases hdead

/-- A wait does not hang if some moves make a process reportable that it waits for. -/
theorem not_hangs {moves : List Move} (htarget : target = none ∨ target = some q)
    (h : Reportable (w.runMoves moves) q) : ¬w.Hangs target := by
  intro hhangs
  have hreport : ((w.advance ⟨moves, q⟩).report q).1 ≠ none := Reportable.report h
  have hwait := hhangs fun _ _ => ⟨moves, q⟩
  unfold World.waitpid at hwait
  rcases htarget with rfl | rfl
  · dsimp only at hwait
    split at hwait
    · cases hwait
    · exact hreport hwait
  · dsimp only at hwait
    split at hwait
    · cases hwait
    · exact hreport hwait

theorem runMoves_of_apply (h : m.apply w = some w') :
    w.runMoves [m] = { w' with history := (w.tick, m) :: w.history } := by
  show w.move m = _
  rw [World.move, h]

/-- A process that runs can enter a call, or end the one it is in. -/
theorem reportable_of_runs (ht : w.task q = some t)
    (hruns : t.state = .user ∨ ∃ fresh, t.state = .kernel fresh) :
    ∃ moves, Reportable (w.runMoves moves) q := by
  rcases hruns with hstate | ⟨fresh, hstate⟩
  · refine ⟨[.enter q default], ?_⟩
    rw [runMoves_of_apply (apply_enter default ht hstate)]
    exact ⟨t.enter default, Function.update_self .., .inl ⟨_, rfl⟩⟩
  · refine ⟨[.finish q default], ?_⟩
    rw [runMoves_of_apply (apply_finish default ht hstate)]
    exact ⟨t.finish default, Function.update_self .., .inl ⟨_, state_finish t default⟩⟩

/-- A live process is reportable after some moves, unless its stop was reported. -/
theorem reportable_of_live (ht : w.task q = some t) (hlive : t.isDead = false)
    (hparked : ∀ stop, t.state ≠ .stopped stop true) :
    ∃ moves, Reportable (w.runMoves moves) q := by
  cases hstate : t.state with
  | user => exact reportable_of_runs ht (.inl hstate)
  | kernel fresh => exact reportable_of_runs ht (.inr ⟨fresh, hstate⟩)
  | stopped stop reported =>
    cases reported with
    | true => exact absurd hstate (hparked stop)
    | false => exact ⟨[], t, ht, .inl ⟨stop, hstate⟩⟩
  | zombie status => simp [Task.isDead, hstate] at hlive

/-- When the leader of a group is not the last, another task belongs to it. -/
theorem exists_other (h : w.lastInGroup p p = false) :
    ∃ q ∈ w.pids, q ≠ p ∧ ∃ t, w.task q = some t ∧ t.tgid = p := by
  obtain ⟨q, hq, hother⟩ := List.all_eq_false.mp h
  refine ⟨q, hq, fun hsame => hother (by simp [hsame]), ?_⟩
  cases ht : w.task q with
  | none => simp [ht] at hother
  | some t =>
    have hgroup : ¬q = p ∧ t.tgid = p := by simpa [ht] using hother
    exact ⟨t, rfl, hgroup.2⟩

/-! ### Deaths -/

/-- Everybody on the list is killed. -/
def deaths (pids : List PidT) : List Move := pids.map fun p => .die p 9

theorem moved_death {pids : List PidT} (hm : m ∈ deaths pids) (hmoved : Moved w m w') :
    ∃ p ∈ pids, ∃ t, w.task p = some t ∧ t.isDead = false ∧
      w' = w.setTask p (some { t with state := .zombie 9 }) := by
  obtain ⟨p, hp, rfl⟩ := List.mem_map.mp hm
  cases hmoved with
  | die ht hlive hstatus => exact ⟨p, hp, _, ht, hlive, rfl⟩

/-- Deaths change nothing about others, nor about the dead. -/
theorem runMoves_deaths (w : World) (pids : List PidT) :
    (w.runMoves (deaths pids)).pids = w.pids ∧
      ∀ q, q ∉ pids ∨ (∀ t, w.task q = some t → t.isDead = true) →
        (w.runMoves (deaths pids)).task q = w.task q := by
  refine runMoves_induction (P := fun w' => w'.pids = w.pids ∧
    ∀ q, q ∉ pids ∨ (∀ t, w.task q = some t → t.isDead = true) → w'.task q = w.task q) ?_ w
    ⟨rfl, fun _ _ => rfl⟩
  rintro w₁ m w₂ hm ⟨hpids, hsame⟩ hmoved
  obtain ⟨p, hp, t, ht, hlive, rfl⟩ := moved_death hm hmoved
  refine ⟨hpids, fun q hq => ?_⟩
  have hne : q ≠ p := by
    rintro rfl
    rcases hq with hnot | hdead
    · exact hnot hp
    · rw [hdead t ((hsame q (.inr hdead)).symm.trans ht)] at hlive
      cases hlive
  exact (World.task_setTask_of_ne _ _ hne).trans (hsame q hq)

theorem dead_deaths {pids : List PidT} (h : ∀ t, w.task q = some t → t.isDead = true) :
    ∀ t, (w.runMoves (deaths pids)).task q = some t → t.isDead = true := by
  intro t ht
  rw [(runMoves_deaths w pids).2 q (.inr h)] at ht
  exact h t ht

theorem dead_of_death (w : World) (p : PidT) :
    ∀ t, (w.move (.die p 9)).task p = some t → t.isDead = true := by
  intro t ht
  unfold World.move at ht
  cases hp : w.task p with
  | none =>
    have happly : (Move.die p 9).apply w = none := by
      show Option.bind (w.task p) _ = none
      rw [hp]
      rfl
    rw [happly] at ht
    cases hp.symm.trans ht
  | some u =>
    cases hdead : u.isDead with
    | true =>
      have happly : (Move.die p 9).apply w = none := by
        show Option.bind (w.task p) _ = none
        rw [hp]
        exact if_neg (by simp [hdead])
      rw [happly] at ht
      cases hp.symm.trans ht
      exact hdead
    | false =>
      have happly : (Move.die p 9).apply w =
          some (w.setTask p (some { u with state := .zombie 9 })) := by
        show Option.bind (w.task p) _ = _
        rw [hp]
        exact if_pos ⟨by simp [hdead], rfl⟩
      rw [happly] at ht
      cases (World.task_setTask_self w p _).symm.trans ht
      rfl

/-- Who is on the list is dead. -/
theorem dead_of_deaths {pids : List PidT} (hq : q ∈ pids) :
    ∀ t, (w.runMoves (deaths pids)).task q = some t → t.isDead = true := by
  induction pids generalizing w with
  | nil => cases hq
  | cons p pids ih =>
    rcases List.mem_cons.mp hq with rfl | hq
    · exact dead_deaths (w := w.move (.die q 9)) (dead_of_death w q)
    · exact ih hq

theorem apply_exec {regs : UserRegsStruct} {image : Memory} (ht : w.task q = some t)
    (hstate : t.state = .kernel true) (hold : w.task p = some old)
    (hnr : isExecve t.regs.origRax = true) (htgid : t.tgid = p) (hleader : old.tgid = p)
    (hdead : old.isDead = true) (halone : w.aloneInGroup q p = true) :
    (Move.exec q p regs image).apply w = some (w.exec q p t old regs image) := by
  have hfound : w.inState q (.kernel true) = some t := inState_eq_some.mpr ⟨ht, hstate⟩
  show Option.bind (w.inState q (.kernel true)) _ = _
  rw [hfound]
  show Option.bind (w.task p) _ = _
  rw [hold]
  exact if_pos ⟨hnr, htgid, hleader, .inr hdead, halone⟩

/-- A thread inside an `execve` can replace a dead leader, when all others are killed. -/
theorem runMoves_replace (ht : w.task q = some t) (hstate : t.state = .kernel true)
    (hnr : isExecve t.regs.origRax = true) (htgid : t.tgid = p) (hold : w.task p = some old)
    (hleader : old.tgid = p) (hdead : old.isDead = true) :
    ∃ moves, Reportable (w.runMoves moves) p := by
  set others := w.pids.filter (· ≠ q) with hothers
  obtain ⟨hpids, hsame⟩ := runMoves_deaths w others
  have hq : (w.runMoves (deaths others)).task q = some t :=
    (hsame q (.inl (by simp [hothers]))).trans ht
  have hp : (w.runMoves (deaths others)).task p = some old := by
    refine (hsame p (.inr fun u hu => ?_)).trans hold
    cases hold.symm.trans hu
    exact hdead
  have halone : (w.runMoves (deaths others)).aloneInGroup q p = true := by
    refine List.all_eq_true.mpr fun q' hq' => ?_
    by_cases hne : q' = q
    · simp [hne]
    · cases hu : (w.runMoves (deaths others)).task q' with
      | none => simp
      | some u =>
        have hmem : q' ∈ others := List.mem_filter.mpr ⟨hpids ▸ hq', by simpa using hne⟩
        simp [dead_of_deaths hmem u hu]
  refine ⟨deaths others ++ [.exec q p default (w.mem 0)], ?_⟩
  rw [runMoves_append, runMoves_of_apply (apply_exec hq hstate hp hnr htgid hleader hdead halone)]
  exact ⟨_, Function.update_self .., .inl ⟨_, rfl⟩⟩

/-! ### Every run -/

/-- A wait that hangs waits for a task. -/
theorem Hangs.exists_task (h : w.Hangs target) :
    ∃ q t, (target = none ∨ target = some q) ∧ w.task q = some t := by
  have hwait := h fun _ _ => ⟨[], 0⟩
  unfold World.waitpid at hwait
  by_contra hnone
  have hgone : ∀ q, target = none ∨ target = some q → (w.task q).isNone = true := by
    intro q htarget
    rw [Option.isNone_iff_eq_none, Option.eq_none_iff_forall_ne_some]
    exact fun t ht => hnone ⟨q, t, htarget, ht⟩
  cases target with
  | none =>
    have hall : ((w.advance ⟨[], 0⟩).pids.all fun q =>
        ((w.advance ⟨[], 0⟩).task q).isNone) = true :=
      List.all_eq_true.mpr fun q _ => hgone q (.inl rfl)
    dsimp only at hwait
    rw [if_pos hall] at hwait
    cases hwait
  | some p =>
    have hp : ((w.advance ⟨[], 0⟩).task p).isNone = true := hgone p (.inr rfl)
    dsimp only at hwait
    rw [if_pos hp] at hwait
    cases hwait

/-- As long as nobody waits for a stop that it was told of, a dead leader is all that hangs. -/
theorem hangs_iff (hparked : ∀ p t, target = none ∨ target = some p → w.task p = some t →
    ∀ stop, t.state ≠ .stopped stop true) :
    w.Hangs target ↔ ∃ p, target = some p ∧ DeadLeader p w := by
  constructor
  · intro hhangs
    have hnever : ∀ q moves, target = none ∨ target = some q →
        ¬Reportable (w.runMoves moves) q := fun q moves htarget h => not_hangs htarget h hhangs
    have hdead : ∀ q t, target = none ∨ target = some q → w.task q = some t →
        t.isDead = true := by
      intro q t htarget ht
      by_contra hlive
      obtain ⟨moves, h⟩ := reportable_of_live ht (by simpa using hlive) (hparked q t htarget ht)
      exact hnever q moves htarget h
    have hlast : ∀ q t, target = none ∨ target = some q → w.task q = some t →
        t.tgid = q ∧ w.lastInGroup q q = false := by
      intro q t htarget ht
      have hnot := hnever q [] htarget
      by_cases htgid : t.tgid = q
      · refine ⟨htgid, Bool.eq_false_iff.mpr fun h => hnot ⟨t, ht, .inr ⟨?_, fun _ => h⟩⟩⟩
        exact hdead q t htarget ht
      · refine absurd ⟨t, ht, .inr ⟨hdead q t htarget ht, fun h => absurd h htgid⟩⟩ hnot
    obtain ⟨p, t, htarget, ht⟩ := Hangs.exists_task hhangs
    obtain ⟨htgid, hothers⟩ := hlast p t htarget ht
    cases target with
    | none =>
      -- the other task of the group is dead as well, and no leader
      obtain ⟨q, -, hne, u, hu, hgroup⟩ := exists_other hothers
      exact absurd ((hlast q u (.inl rfl) hu).1.symm.trans hgroup) hne
    | some p' =>
      obtain rfl : p' = p := by simpa using htarget
      have hold := hdead p' t htarget ht
      refine ⟨p', rfl, ⟨t, ht, htgid, hold⟩, exists_other hothers, fun q u hu hgroup hstate => ?_⟩
      rw [Bool.eq_false_iff]
      intro hnr
      obtain ⟨moves, h⟩ := runMoves_replace hu hstate hnr hgroup ht htgid hold
      exact hnever p' moves htarget h
  · rintro ⟨p, rfl, h⟩
    exact h.hangs

variable {b : Boot} {env : Env} {scan n : Nat}

/-- In every run, a wait that is not answered hangs if and only if it is for a dead leader. -/
theorem run_hangs_iff (hwait : Waits target (finalState (b.run env scan n)).trace) :
    (finalState (b.run env scan n)).os.Hangs target ↔
      ∃ p, target = some p ∧ DeadLeader p (finalState (b.run env scan n)).os :=
  hangs_iff fun _ _ htarget ht stop => waited_not_reported hwait htarget ht stop

/-- A leader and its thread are killed while the tracer waits for the end of a cancelled call of the
leader. -/
def groupKilled : Env :=
  scripted [(1, ⟨[.enter 100 cloneCall], 100⟩), (4, ⟨[.fork 100 101 .clone true true 0], 100⟩),
    (10, ⟨[.finish 100 default], 100⟩), (13, ⟨[.enter 100 clockGettimeCall], 100⟩),
    (17, ⟨[.die 100 9, .die 101 9], 100⟩)]

/-- The tracer waits for the leader for ever. -/
theorem groupKilled_hangs :
    Waits (some 100) (finalState (Boot.sample.run groupKilled 0 6)).trace ∧
      (finalState (Boot.sample.run groupKilled 0 6)).os.Hangs (some 100) := by
  have hrun : Waits (some 100) (finalState (Boot.sample.run groupKilled 0 6)).trace ∧
      (finalState (Boot.sample.run groupKilled 0 6)).os.pids = [101, 100] ∧
      ((finalState (Boot.sample.run groupKilled 0 6)).os.task 100).any (fun t =>
        t.tgid = 100 ∧ t.state = .zombie 9) = true ∧
      ((finalState (Boot.sample.run groupKilled 0 6)).os.task 101).any (fun t =>
        t.tgid = 100 ∧ t.state = .zombie 9) = true := by
    decide +kernel
  have htold := told_run Boot.sample groupKilled 0 6
  have hiff := @run_hangs_iff (some 100) Boot.sample groupKilled 0 6
  generalize finalState (Boot.sample.run groupKilled 0 6) = s at hrun htold hiff ⊢
  obtain ⟨hwait, hpids, hleader, hthread⟩ := hrun
  obtain ⟨t, ht, hleader⟩ := (Option.any_eq_true _ _).mp hleader
  obtain ⟨u, hu, hthread⟩ := (Option.any_eq_true _ _).mp hthread
  obtain ⟨htgid, hdead⟩ := of_decide_eq_true hleader
  obtain ⟨hgroup, hkilled⟩ := of_decide_eq_true hthread
  refine ⟨hwait, (hiff hwait).mpr ⟨100, rfl, ⟨t, ht, htgid, ?_⟩,
    ⟨101, ?_, by decide, u, hu, hgroup⟩, fun q v hv _ hstate => ?_⟩⟩
  · rw [Task.isDead, hdead]
  · rw [hpids]
    exact .head _
  · -- both tasks are dead
    have hlisted := htold.listed q v hv
    rw [hpids] at hlisted
    rcases List.mem_pair.mp hlisted with rfl | rfl
    · cases hu.symm.trans hv
      cases hkilled.symm.trans hstate
    · cases ht.symm.trans hv
      cases hdead.symm.trans hstate

end Reproduce.Linux
