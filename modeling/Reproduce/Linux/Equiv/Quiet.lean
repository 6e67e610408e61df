import Reproduce.Linux.Equiv.Amiss

/-!
# Quiet tasks

What the tracer has not resumed cannot run: a task that is stopped or dead can only be killed, or be
replaced by another program (`Local`).  A task is `Quiet` when it is at a stop that is no entry of a
system call, or dead, or back in a call after an event stop; it reaches no entry stop by itself.

A world is `Orderly` when every task has some property (`Norm`) and every task that is not tracked
is quiet.  Predicates that moves and pokes keep (`Abides`) are carried through the requests of the
tracer; those that everything keeps (`Lasts`) hold on in every run.
-/

namespace Reproduce.Linux

open Bytes Effect

/-! ### Predicates on tasks -/

/-- Dead, or at a stop with `G`. -/
def Task.AtStop (G : Stop → Task → Prop) (t : Task) : Prop :=
  t.isDead = true ∨ ∃ stop, t.stop? = some stop ∧ G stop t

/-- Dead, or at a stop that is not the entry of a system call. -/
def Task.Parked : Task → Prop := Task.AtStop fun stop _ => stop ≠ .syscallEntry

/-- Dead, or at an event stop. -/
def Task.AtEvent : Task → Prop := Task.AtStop fun stop _ => ∃ e message, stop = .event e message

/-- Parked, or resumed from an event stop. -/
def Task.Quiet (t : Task) : Prop := t.state = .kernel false ∨ t.Parked

/-- What happens to a task without a change of its registers by the tracer keeps `S`. -/
structure Lasting (S : Task → Prop) : Prop where
  moves : ∀ {t t'}, S t → t.Moves t' → S t'
  poke : ∀ {t} n, S t → S { t with earlyPokes := n }
  report : ∀ {t stop}, S t → t.state = .stopped stop false →
    S { t with state := .stopped stop true }

/-- A property of every task of a run, as long as no task is resumed from an entry stop. -/
structure Norm (N : Task → Prop) : Prop extends Lasting N where
  newborn : ∀ {t} tgid mm rsp birth, N t → isCreation t.regs.origRax = true →
    N (t.newborn tgid mm rsp birth)
  exec : ∀ {t} old pid mm regs, N t → t.state = .kernel true → isExecve t.regs.origRax = true →
    N (t.exec old pid mm regs)
  resume : ∀ {t stop}, N t → t.stop? = some stop → stop ≠ .syscallEntry → N (t.resume stop 0)
  died : ∀ {t status}, N t → t.state = .zombie status → terminated status = true

/-- A property of the task with one pid, whichever program it runs. -/
structure Local (S : Task → Prop) : Prop extends Lasting S where
  exec : ∀ {t : Task} old pid mm regs, isExecve t.regs.origRax = true → S (t.exec old pid mm regs)

theorem stop?_stopped {t : Task} {stop : Stop} {reported : Bool}
    (h : t.state = .stopped stop reported) : t.stop? = some stop := by simp [Task.stop?, h]

theorem state_of_stop? {t : Task} {stop : Stop} (h : t.stop? = some stop) :
    ∃ reported, t.state = .stopped stop reported := by
  unfold Task.stop? at h
  split at h
  · next stop' reported hstate =>
    cases h
    exact ⟨reported, hstate⟩
  · cases h

theorem isDead_of_atStop {t : Task} {G : Stop → Task → Prop} (h : t.AtStop G)
    (hstop : t.isStopped = false) : t.isDead = true := by
  rcases h with hdead | ⟨stop, hstop', -⟩
  · exact hdead
  · obtain ⟨reported, hstate⟩ := state_of_stop? hstop'
    simp [Task.isStopped, hstate] at hstop

/-- A task at a stop with `G` that is stopped. -/
theorem Task.AtStop.of_stop? {t : Task} {G : Stop → Task → Prop} (h : t.AtStop G) {stop : Stop}
    (hstop : t.stop? = some stop) : G stop t := by
  obtain ⟨reported, hstate⟩ := state_of_stop? hstop
  rcases h with hdead | ⟨stop', hstop', hG⟩
  · simp [Task.isDead, hstate] at hdead
  · cases hstop.symm.trans hstop'
    exact hG

/-- A task that is stopped or dead does not run. -/
theorem still_state {t : Task} (h : t.isDead = true ∨ ∃ stop, t.stop? = some stop) :
    t.state ≠ .user ∧ ∀ fresh, t.state ≠ .kernel fresh := by
  rcases h with hdead | ⟨stop, hstop⟩
  · refine ⟨fun hstate => ?_, fun fresh hstate => ?_⟩ <;> simp [Task.isDead, hstate] at hdead
  · refine ⟨fun hstate => ?_, fun fresh hstate => ?_⟩ <;> simp [Task.stop?, hstate] at hstop

/-- It can only be killed. -/
theorem isDead_of_moves {t t' : Task} (hmoves : t.Moves t')
    (h : t.isDead = true ∨ ∃ stop, t.stop? = some stop) : t'.isDead = true := by
  cases hmoves with
  | enter regs hstate => exact absurd hstate (still_state h).1
  | finish regs hstate => exact absurd hstate ((still_state h).2 _)
  | fork e child birth hstate hnr => exact absurd hstate ((still_state h).2 _)
  | signal sig regs hstate => exact absurd hstate (still_state h).1
  | die hlive hstatus => rfl

theorem local_atStop {G : Stop → Task → Prop}
    (hpoke : ∀ stop t n, G stop t → G stop { t with earlyPokes := n })
    (hreport : ∀ stop t state, G stop t → G stop { t with state := state })
    (hevent : ∀ t pid, G (.event .exec pid) t) : Local (Task.AtStop G) where
  moves h hmoves :=
    .inl (isDead_of_moves hmoves (h.imp_right fun ⟨stop, hstop, _⟩ => ⟨stop, hstop⟩))
  poke n h := h.imp_right fun ⟨stop, hstop, hG⟩ => ⟨stop, hstop, hpoke stop _ n hG⟩
  report := by
    rintro t stop (hdead | ⟨stop', hstop, hG⟩) hstate
    · simp [Task.isDead, hstate] at hdead
    · rw [stop?_stopped hstate] at hstop
      cases hstop
      exact .inr ⟨stop, rfl, hreport stop t _ hG⟩
  exec _ pid _ _ _ := .inr ⟨_, rfl, hevent _ pid⟩

theorem local_parked : Local Task.Parked :=
  local_atStop (fun _ _ _ h => h) (fun _ _ _ h => h) fun _ _ => nofun

theorem local_atEvent : Local Task.AtEvent :=
  local_atStop (fun _ _ _ h => h) (fun _ _ _ h => h) fun _ pid => ⟨.exec, pid, rfl⟩

theorem local_quiet : Local Task.Quiet where
  moves := by
    rintro t t' (hkernel | hparked) hmoves
    · cases hmoves with
      | enter regs hstate => cases hkernel.symm.trans hstate
      | finish regs hstate => exact .inr (.inr ⟨.syscallExit, by simp [Task.stop?], by rintro ⟨⟩⟩)
      | fork e child birth hstate hnr => cases hkernel.symm.trans hstate
      | signal sig regs hstate => cases hkernel.symm.trans hstate
      | die hlive hstatus => exact .inr (.inl rfl)
    · exact .inr (local_parked.moves hparked hmoves)
  poke n h := h
  report := by
    rintro t stop (hkernel | hparked) hstate
    · cases hkernel.symm.trans hstate
    · exact .inr (local_parked.report hparked hstate)
  exec old pid mm regs hnr := .inr (local_parked.exec old pid mm regs hnr)

theorem quiet_newborn (t : Task) (tgid : PidT) (mm : Nat) (rsp : Word) (birth : Nat) :
    (t.newborn tgid mm rsp birth).Quiet := .inr (.inr ⟨.initial, rfl, nofun⟩)

/-! ### Predicates on worlds -/

/-- Every task has the property `N`, and a task that is not tracked is quiet. -/
def Orderly (N : Task → Prop) (tracked : PidT → Prop) (w : World) : Prop :=
  ∀ q t, w.task q = some t → N t ∧ (¬tracked q → t.Quiet)

/-- The task with a pid satisfies `S`, if there is one. -/
def Only (pid : PidT) (S : Task → Prop) (w : World) : Prop := ∀ t, w.task pid = some t → S t

/-- There is a task with the pid, and it satisfies `S`. -/
def Is (pid : PidT) (S : Task → Prop) (w : World) : Prop := ∃ t, w.task pid = some t ∧ S t

variable {N S : Task → Prop} {tracked : PidT → Prop} {w w' : World} {m : Move} {pid q : PidT}
  {t t' : Task}

theorem Orderly.congr (h : Orderly N tracked w) (htask : w'.task = w.task) :
    Orderly N tracked w' := by
  unfold Orderly
  rw [htask]
  exact h

theorem Only.congr (h : Only pid S w) (htask : w'.task = w.task) : Only pid S w' := by
  unfold Only
  rw [htask]
  exact h

theorem Is.congr (h : Is pid S w) (htask : w'.task = w.task) : Is pid S w' := by
  unfold Is
  rw [htask]
  exact h

theorem Orderly.setTask (h : Orderly N tracked w) (hN : N t') (hquiet : ¬tracked pid → t'.Quiet) :
    Orderly N tracked (w.setTask pid (some t')) := by
  intro q u hu
  by_cases hq : q = pid
  · subst hq
    rw [World.task_setTask_self] at hu
    cases hu
    exact ⟨hN, hquiet⟩
  · rw [World.task_setTask_of_ne _ _ hq] at hu
    exact h q u hu

theorem Orderly.unsetTask (h : Orderly N tracked w) : Orderly N tracked (w.setTask pid none) := by
  intro q u hu
  by_cases hq : q = pid
  · subst hq
    rw [World.task_setTask_self] at hu
    cases hu
  · rw [World.task_setTask_of_ne _ _ hq] at hu
    exact h q u hu

theorem only_setTask (hS : S t') : Only pid S (w.setTask pid (some t')) := by
  intro u hu
  rw [World.task_setTask_self] at hu
  cases hu
  exact hS

theorem Orderly.mono {tracked' : PidT → Prop} (h : Orderly N tracked w)
    (hsub : ∀ q, tracked q → tracked' q) : Orderly N tracked' w :=
  fun q t ht => ⟨(h q t ht).1, fun hq => (h q t ht).2 fun hq' => hq (hsub q hq')⟩

theorem orderly_moved (hN : Norm N) (h : Orderly N tracked w) (hmoved : Moved w m w') :
    Orderly N tracked w' := by
  intro q t ht
  have hbecomes := becomes hmoved q
  generalize w'.task q = o at ht hbecomes
  cases hbecomes with
  | same => exact h q t ht
  | own hu hmoves =>
    cases ht
    obtain ⟨hnorm, hquiet⟩ := h q _ hu
    exact ⟨hN.moves hnorm hmoves, fun hq => local_quiet.moves (hquiet hq) hmoves⟩
  | born hfree hu hstate hnr =>
    cases ht
    exact ⟨hN.newborn _ _ _ _ (h _ _ hu).1 hnr, fun _ => quiet_newborn _ _ _ _ _⟩
  | gone hu hstate hnr hleader => cases ht
  | replaced hold hu hstate hnr hdead =>
    cases ht
    exact ⟨hN.exec _ _ _ _ (h _ _ hu).1 hstate hnr, fun _ => local_quiet.exec _ _ _ _ hnr⟩

theorem only_moved (hS : Local S)
    (hborn : ∀ t tgid mm rsp birth, S (Task.newborn t tgid mm rsp birth))
    (h : Only pid S w) (hmoved : Moved w m w') : Only pid S w' := by
  intro t ht
  have hbecomes := becomes hmoved pid
  generalize w'.task pid = o at ht hbecomes
  cases hbecomes with
  | same => exact h t ht
  | own hu hmoves =>
    cases ht
    exact hS.moves (h _ hu) hmoves
  | born hfree hu hstate hnr =>
    cases ht
    exact hborn _ _ _ _ _
  | gone hu hstate hnr hleader => cases ht
  | replaced hold hu hstate hnr hdead =>
    cases ht
    exact hS.exec _ _ _ _ hnr

theorem is_moved (hS : Local S)
    (hstay : ∀ t, S t → t.state = .kernel true → isExecve t.regs.origRax = false)
    (h : Is pid S w) (hmoved : Moved w m w') : Is pid S w' := by
  obtain ⟨u, hu, hSu⟩ := h
  have hbecomes := becomes hmoved pid
  generalize ho : w'.task pid = o at hbecomes
  cases hbecomes with
  | same => exact ⟨u, ho.trans hu, hSu⟩
  | own hu' hmoves =>
    cases hu.symm.trans hu'
    exact ⟨_, ho, hS.moves hSu hmoves⟩
  | born hfree => exact absurd (hu.symm.trans hfree) nofun
  | gone hu' hstate hnr hleader =>
    cases hu.symm.trans hu'
    rw [hstay u hSu hstate] at hnr
    cases hnr
  | replaced hold hu' hstate hnr hdead => exact ⟨_, ho, hS.exec _ _ _ _ hnr⟩

/-! ### Predicates that always hold on -/

/-- A predicate on the tasks and the number of births that moves and pokes keep. -/
structure Abides (J : World → Prop) : Prop where
  congr : ∀ {w w' : World}, J w → w'.task = w.task → w'.births = w.births → J w'
  moved : ∀ {w m w'}, J w → Moved w m w' → J w'
  poke : ∀ {w pid t}, J w → w.task pid = some t → t.isStopped = true →
    J (w.setTask pid (some { t with earlyPokes := t.earlyPokes + 1 }))

theorem abides_const (c : Prop) : Abides fun _ => c where
  congr h _ _ := h
  moved h _ := h
  poke h _ _ := h

theorem Abides.and {J L : World → Prop} (hJ : Abides J) (hL : Abides L) :
    Abides fun w => J w ∧ L w where
  congr h htask hbirths := ⟨hJ.congr h.1 htask hbirths, hL.congr h.2 htask hbirths⟩
  moved h hmoved := ⟨hJ.moved h.1 hmoved, hL.moved h.2 hmoved⟩
  poke h ht hstop := ⟨hJ.poke h.1 ht hstop, hL.poke h.2 ht hstop⟩

theorem abides_orderly (hN : Norm N) (tracked : PidT → Prop) : Abides (Orderly N tracked) where
  congr h htask _ := h.congr htask
  moved := orderly_moved hN
  poke h ht hstop := by
    obtain ⟨hnorm, hquiet⟩ := h _ _ ht
    exact h.setTask (hN.poke _ hnorm) fun hq => local_quiet.poke _ (hquiet hq)

theorem abides_only (hS : Local S)
    (hborn : ∀ t tgid mm rsp birth, S (Task.newborn t tgid mm rsp birth)) (pid : PidT) :
    Abides (Only pid S) where
  congr h htask _ := h.congr htask
  moved := only_moved hS hborn
  poke := by
    intro w p t h ht hstop u hu
    by_cases hp : pid = p
    · subst hp
      rw [World.task_setTask_self] at hu
      cases hu
      exact hS.poke _ (h t ht)
    · rw [World.task_setTask_of_ne _ _ hp] at hu
      exact h u hu

theorem abides_is (hS : Local S)
    (hstay : ∀ t, S t → t.state = .kernel true → isExecve t.regs.origRax = false) (pid : PidT) :
    Abides (Is pid S) where
  congr h htask _ := h.congr htask
  moved := is_moved hS hstay
  poke := by
    rintro w p t ⟨u, hu, hSu⟩ ht hstop
    by_cases hp : pid = p
    · subst hp
      cases hu.symm.trans ht
      exact ⟨_, World.task_setTask_self .., hS.poke _ hSu⟩
    · exact ⟨u, by rw [World.task_setTask_of_ne _ _ hp, hu], hSu⟩

namespace Abides

variable {J : World → Prop} (h : Abides J) (env : Env)

include h

theorem asked (hw : J w) (q : Query) : J (w.asked env q) :=
  h.congr (runMoves_induction (P := J)
    (fun _ _ _ _ hw hmoved => h.congr (h.moved hw hmoved) rfl rfl) w hw) rfl rfl

theorem poked (hw : J w) (ht : w.task pid = some t) (hstop : t.isStopped = true) (m : Memory) :
    J (((w.setMem t.mm m).countPoke pid t).recordWrite pid t.mm) := by
  have hmem : J (w.setMem t.mm m) := h.congr hw rfl rfl
  unfold World.countPoke
  split
  · exact h.congr (h.poke hmem ht hstop) rfl rfl
  · exact h.congr hmem rfl rfl

/-- A request that keeps `J` when it is carried out. -/
theorem within_ptrace {r : Request}
    (hperform : ∀ w t, J w → w.task r.pid = some t → t.isStopped = true → J (w.perform t r).2) :
    Within (Preserves fun s : Tracer World => J s.os) (ptrace (kernel env) r) := by
  intro s hs
  have hasked := h.asked env hs (.ptrace r)
  show J (World.ptrace env r s.os).2
  rcases ptrace_performed env s.os r with ⟨t, ht, hstop, hrun⟩ | ⟨-, hgone⟩
  · rw [hrun]
    exact hperform _ t hasked ht hstop
  · rw [hgone]
    exact hasked

theorem pokes (pid : PidT) :
    Pokes (kernel env) (Preserves fun s : Tracer World => J s.os) pid where
  peek place := h.within_ptrace env fun w t hw _ _ => by
    rw [perform_peek_snd]
    exact hw
  poke addr data := h.within_ptrace env fun w t hw ht hstop => by
    rcases perform_poke_snd w t pid addr data with hsame | ⟨m, hpoke⟩
    · rw [hsame]
      exact hw
    · rw [hpoke]
      exact h.poked hw ht hstop m

/-- A request that a stopped task cannot refuse. -/
theorem triple_ptrace {r : Request} {R : r.Reply → World → Prop} {L : World → Prop}
    (hperform : ∀ w t, J w → w.task r.pid = some t → t.isStopped = true →
      ∃ reply, (w.perform t r).1 = .ok reply ∧ R reply (w.perform t r).2)
    (hgone : ∀ w, J w → Only r.pid (fun t => t.isStopped = false) w → L w)
    (E : Halt → Tracer World → Prop) :
    Triple (fun s => J s.os) (ptrace (kernel env) r)
      (fun answer s => (∃ reply, answer = .ok reply ∧ R reply s.os) ∨
        (answer = .error .ESRCH ∧ L s.os)) E := by
  intro s hs
  have hasked := h.asked env hs (.ptrace r)
  show (∃ reply, (World.ptrace env r s.os).1 = .ok reply ∧ R reply (World.ptrace env r s.os).2) ∨
    ((World.ptrace env r s.os).1 = .error .ESRCH ∧ L (World.ptrace env r s.os).2)
  rcases ptrace_performed env s.os r with ⟨t, ht, hstop, hrun⟩ | ⟨hstill, hrun⟩
  · rw [hrun]
    exact .inl (hperform _ t hasked ht hstop)
  · rw [hrun]
    exact .inr ⟨rfl, hgone _ hasked hstill⟩

theorem triple_ptraceReturn {r : Request} {R L : World → Prop}
    (hperform : ∀ w t, J w → w.task r.pid = some t → t.isStopped = true →
      (∃ reply, (w.perform t r).1 = .ok reply) ∧ R (w.perform t r).2)
    (hgone : ∀ w, J w → Only r.pid (fun t => t.isStopped = false) w → L w)
    (E : Halt → Tracer World → Prop) :
    Triple (fun s => J s.os) (ptraceReturn (kernel env) r)
      (fun more s => if more then R s.os else L s.os) E := by
  have hptrace := h.triple_ptrace env (R := fun _ => R) (fun w t hw ht hstop => by
    obtain ⟨⟨reply, hreply⟩, hR⟩ := hperform w t hw ht hstop
    exact ⟨reply, hreply, hR⟩) hgone E
  refine Triple.bind hptrace fun answer => ?_
  cases answer with
  | ok reply =>
    refine Triple.pure fun s hs => ?_
    rcases hs with ⟨_, -, hR⟩ | ⟨herror, -⟩
    · exact hR
    · cases herror
  | error e =>
    -- the only error is `ESRCH`, which `ptrace_return` passes over
    refine Triple.ite (fun he => Triple.pure fun s hs => ?_) (fun he => Triple.throw fun s hs => ?_)
    · rcases hs with ⟨_, hok, -⟩ | ⟨-, hL⟩
      · cases hok
      · exact hL
    · rcases hs with ⟨_, hok, -⟩ | ⟨herror, -⟩
      · cases hok
      · cases herror
        exact absurd rfl he

/-- A wait for one process. -/
theorem triple_waitpid {R : World → Prop} {E : Halt → Tracer World → Prop}
    (hreport : ∀ w status w', J w → Reported w pid status w' → R w')
    (hE : ∀ e s, J s.os → E e s) :
    Triple (fun s => J s.os) (waitpid (kernel env) (some pid))
      (fun answer s => (∃ status, answer = .ok (pid, status) ∧ R s.os) ∨
        (∃ e, answer = .error e) ∧ J s.os) E := by
  intro s hs
  have hasked := h.asked env hs (.wait (some pid))
  have hos : (s.waited (kernel env) (some pid)).os = (World.waitpid env (some pid) s.os).2 := rfl
  rw [waitpid_apply]
  cases hanswer : ((kernel env).waitpid (some pid) s.os).1 with
  | none =>
    refine hE _ _ ?_
    rw [hos, waitpid_unreported env fun q status h => by cases hanswer.symm.trans h]
    exact hasked
  | some answer =>
    cases answer with
    | ok p =>
      obtain ⟨q, status⟩ := p
      obtain ⟨hreported, hq⟩ := waitpid_reported env hanswer
      have hsame : q = pid := hq
      subst hsame
      exact .inl ⟨status, rfl, hreport _ _ _ hasked hreported⟩
    | error e =>
      refine .inr ⟨⟨e, rfl⟩, ?_⟩
      rw [hos, waitpid_unreported env fun q status h => by cases hanswer.symm.trans h]
      exact hasked

theorem triple_waitpidOrExit {R : World → Prop} {E : Halt → Tracer World → Prop}
    (hreport : ∀ w status w', J w → Reported w pid status w' → R w')
    (hE : ∀ e s, J s.os → E e s) :
    Triple (fun s => J s.os) (waitpidOrExit (kernel env) pid) (fun _ s => R s.os) E := by
  refine Triple.bind (h.triple_waitpid env hreport hE) fun answer => ?_
  cases answer with
  | ok p =>
    refine Triple.pure fun s hs => ?_
    rcases hs with ⟨status, -, hR⟩ | ⟨⟨e, herror⟩, -⟩
    · exact hR
    · cases herror
  | error e =>
    refine Triple.throw fun s hs => ?_
    rcases hs with ⟨status, hok, -⟩ | ⟨-, hJ⟩
    · cases hok
    · exact hE _ s hJ

end Abides

/-! ### Predicates that hold on in every run -/

/-- A predicate that moves and silent requests and reports keep. -/
structure Lasts (J : World → Prop) : Prop extends Abides J where
  setregs : ∀ {w pid t}, J w → w.task pid = some t → ∀ regs,
    J (w.setTask pid (some { t with regs := regs }))
  resume : ∀ {w pid t stop}, J w → w.task pid = some t → t.stop? = some stop →
    J (w.setTask pid (some (t.resume stop 0)))
  report : ∀ {w pid t stop}, J w → w.task pid = some t → t.state = .stopped stop false →
    J (w.setTask pid (some { t with state := .stopped stop true }))
  reap : ∀ {w pid}, J w → J (w.setTask pid none)

namespace Lasts

variable {J : World → Prop} (h : Lasts J) (env : Env)

include h

theorem reported (hw : J w) {status : Status} (hreported : Reported w pid status w') : J w' := by
  cases hreported with
  | stopped ht hstate => exact h.report hw ht hstate
  | reaped ht hstate hlast => exact h.reap hw

theorem within_ptrace {r : Request} (hr : r.Silent) :
    Within (Preserves fun s : Tracer World => J s.os) (ptrace (kernel env) r) := by
  refine h.toAbides.within_ptrace env fun w t hw ht hstop => ?_
  cases r with
  | peek pid place =>
    rw [perform_peek_snd]
    exact hw
  | pokedata pid addr data =>
    rcases perform_poke_snd w t pid addr data with hsame | ⟨m, hpoke⟩
    · rw [hsame]
      exact hw
    · rw [hpoke]
      exact h.poked hw ht hstop m
  | getregs pid => exact hw
  | setregs pid regs => exact h.congr (h.setregs hw ht regs) rfl rfl
  | syscall pid data =>
    obtain ⟨stop, hstop⟩ := stop?_of_isStopped hstop
    have hsilent : data = 0 := hr
    rw [perform_syscall_snd pid data hstop, hsilent]
    exact h.resume hw ht hstop
  | geteventmsg pid =>
    rw [perform_geteventmsg_snd]
    exact hw

theorem within_waitpid (target : WaitTarget) :
    Within (Preserves fun s : Tracer World => J s.os) (waitpid (kernel env) target) := by
  intro s hs
  have hasked := h.asked env hs (.wait target)
  have hfinal : (finalState (waitpid (kernel env) target s)).os =
      (World.waitpid env target s.os).2 := by
    rw [waitpid_apply]
    split <;> rfl
  rw [hfinal]
  -- a report may change its process; without one only the moves have happened
  by_cases hanswer : ∃ pid status, (World.waitpid env target s.os).1 = some (.ok (pid, status))
  · obtain ⟨pid, status, hanswer⟩ := hanswer
    exact h.reported hasked (waitpid_reported env hanswer).1
  · rw [waitpid_unreported env fun pid status hreported => hanswer ⟨pid, status, hreported⟩]
    exact hasked

theorem steps : Steps (kernel env) (Preserves fun s : Tracer World => J s.os) where
  ptrace _ := h.within_ptrace env
  wait pid := h.within_waitpid env (some pid)
  malloc size s hs := by
    unfold Reproduce.malloc
    split <;> exact hs
  note _ _ _ := id
  own _ _ _ _ _ := id

/-- Whatever the loop does until it has received a stop. -/
theorem within_receiveStop (scan : Nat) :
    Within (Preserves fun s : Tracer World => J s.os) (receiveStop (kernel env) scan) :=
  (h.steps env).within_receiveStop (h.within_waitpid env none) scan

theorem within_handleSyscall (child : Ptr) (regs : UserRegsStruct) :
    Within (Preserves fun s : Tracer World => J s.os) (handleSyscall (kernel env) child regs) :=
  (h.steps env).within_handleSyscall (fun _ _ _ => id) child regs

theorem turn {scan : Nat} {s : Tracer World} (hs : J s.os) :
    J (finalState (handleEventTurn (kernel env) scan () s)).os :=
  (h.steps env).within_handleEventTurn (h.within_waitpid env none) (fun _ _ _ => id) scan s hs

theorem within_traceChild (scan n : Nat) (childPid : PidT) :
    Within (Preserves fun s : Tracer World => J s.os) (traceChild (kernel env) scan n childPid) :=
  (h.steps env).within_traceChild (h.within_waitpid env none) (fun _ _ _ => id) scan n childPid

end Lasts

end Reproduce.Linux
