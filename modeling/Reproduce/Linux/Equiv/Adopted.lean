import Reproduce.Linux.Equiv.Scans

/-!
# New processes in either order

A new process has its first stop, and its creator stops to announce it.  The loop may be told of
either first.  If it is the announcement, `register_new_child` inserts the new process, waits for it
and resumes it; if it is the first stop, the loop scans the new process, resumes it and inserts it.

Either way the new process is adopted: it gets an entry with the initial clock, it is resumed once,
and nothing is written into it (`head_welcomes`).  This needs that a process that is announced is
still there, unless it has its entry, and that the scan finds nothing that looks like the vDSO.
-/

namespace Reproduce.Linux

open Bytes Effect

variable {b : Boot} {env : Env} {scan : Nat} {s s' : Tracer World} {pid child p q : PidT}
  {t t' : Task} {status : Status}

/-! ### What becomes of a new process -/

/-- The live processes that were created wait in their first stop and were not seen, or have their
entry and were resumed once; and nothing was poked into a process in its first stop. -/
structure Fostered (s : Tracer World) : Prop where
  nodup : (s.processTable.map ChildProcess.pid).Nodup
  live : ∀ q t, s.os.task q = some t → t.birth ≠ 0 → t.isDead = false →
    (¬HasEntry s.processTable q ∧ t.state = .stopped .initial false ∧ t.starts = 0) ∨
      (HasEntry s.processTable q ∧ t.starts = 1)
  unpoked : ∀ q t, s.os.task q = some t → t.earlyPokes = 0

/-- A process that had no entry gets one with the initial clock, it is resumed once from its first
stop if it lives, and nothing is written into any process. -/
structure Adopted (child : PidT) (s s' : Tracer World) : Prop where
  free : ¬HasEntry s.processTable child
  table : s'.processTable = ⟨s.nextAddr, child, initialClock⟩ :: s.processTable
  started : ∀ t, s'.os.task child = some t → t.birth ≠ 0 → t.isDead = false → t.starts = 1
  writes : s'.os.writes = s.os.writes

/-- A process with an entry is left alone. -/
structure LeftAlone (child : PidT) (s s' : Tracer World) : Prop where
  entry : HasEntry s.processTable child
  table : s'.processTable = s.processTable
  writes : s'.os.writes = s.os.writes

/-- The loop is told of a fork event of `pid` that names `child`. -/
structure Announces (env : Env) (s : Tracer World) (pid : PidT) (status : Status) (child : PidT) :
    Prop where
  wait : ((kernel env).waitpid none s.os).1 = some (.ok (pid, status))
  fork : (wifstopped status && isForkEvent (eventOf status)) = true
  message : ∃ message, ((kernel env).ptrace (.geteventmsg pid)
    (s.waited (kernel env) none).os).1 = .ok message ∧ childOf message = child

/-- The loop is told of the first stop of `pid`. -/
structure Shows (env : Env) (s : Tracer World) (pid : PidT) (status : Status) : Prop where
  wait : ((kernel env).waitpid none s.os).1 = some (.ok (pid, status))
  initial : ∃ t, (s.waited (kernel env) none).os.task pid = some t ∧ t.stop? = some .initial

/-- Whomever the loop is told of next, a new process is adopted and the tracer keeps running. -/
structure Welcomes (env : Env) (scan : Nat) (s : Tracer World) : Prop where
  announced : ∀ pid status child, Announces env s pid status child →
    ∃ s', registerForkEvent (kernel env) pid status (s.waited (kernel env) none) = .ok () s' ∧
      (LeftAlone child s s' ∨ Adopted child s s')
  shown : ∀ pid status, Shows env s pid status →
    ∃ s', receiveStop (kernel env) scan s = .ok .next s' ∧ Adopted pid s s'

/-- Until the next stop is dealt with the run stays untroubled; a process that a fork event names
has its entry, or is still there and was not resumed; and the scan of a new process ends. -/
structure Heeded (env : Env) (scan : Nat) (s : Tracer World) : Prop where
  untroubled : Untroubled (finalState (receiveStop (kernel env) scan s))
  present : ∀ pid status child, Announces env s pid status child →
    ¬HasEntry s.processTable child →
      ∃ t, ((s.waited (kernel env) none).asked (kernel env) (.geteventmsg pid)).os.task child =
        some t ∧ t.birth ≠ 0 ∧ t.starts = 0
  ends : ∀ pid status, Shows env s pid status →
    ∀ s', receiveStop (kernel env) scan s ≠ .error .outOfFuel s'

theorem Shows.status_eq (h : Shows env s pid status) : status = Stop.initial.status := by
  obtain ⟨t, ht, hinitial⟩ := h.initial
  have hreported := (waitpid_reported env h.wait).1
  have hos : (s.waited (kernel env) none).os = (World.waitpid env none s.os).2 := rfl
  rw [hos] at ht
  generalize (World.waitpid env none s.os).2 = w' at hreported ht
  cases hreported with
  | stopped hu hstate =>
    rw [World.task_setTask_self] at ht
    cases ht
    cases hinitial
    rfl
  | reaped hu hstate hlast =>
    rw [World.task_setTask_self] at ht
    cases ht

theorem fostered (hcovered : Covered (fun _ => False) s) (hnursed : Nursed (fun _ => False) s)
    (hgrown : Grown s.os) (hsafe : Untroubled s) : Fostered s where
  nodup := hcovered.ok.pids
  live q t ht hbirth hlive := by
    have hcounted := hgrown.counted q t ht hbirth hlive
    by_cases hentry : HasEntry s.processTable q
    · have hinitial : t.stop? ≠ some .initial := fun hinitial =>
        (hnursed.clean hsafe).resumed q (hnursed.entered q hentry) t ht hinitial
      rw [if_neg hinitial] at hcounted
      exact .inr ⟨hentry, hcounted⟩
    · have hstate := (hcovered.watched hsafe.usurped q t ht).1.unseen hlive
        fun hq => hq.elim hentry id
      rw [if_pos (stop?_stopped hstate)] at hcounted
      exact .inl ⟨hentry, hstate, hcounted⟩
  unpoked := (hnursed.clean hsafe).unpoked

theorem adopted_of_resumed (hgrown : Grown s'.os) (hfree : ¬HasEntry s.processTable child)
    (htable : s'.processTable = ⟨s.nextAddr, child, initialClock⟩ :: s.processTable)
    (hresumed : Only child (fun t => t.stop? ≠ some .initial) s'.os)
    (hwrites : s'.os.writes = s.os.writes) : Adopted child s s' where
  free := hfree
  table := htable
  started t ht hbirth hlive := by
    have hcounted := hgrown.counted child t ht hbirth hlive
    rwa [if_neg (hresumed t ht)] at hcounted
  writes := hwrites

/-! ### The heap -/

theorem heap_chronicles (n : Nat) : Chronicles (fun _ w => w.heap = n) fun _ w => w.heap = n where
  begins := id
  moved hw hmoved := (heap_moved hmoved).trans hw
  malloc _ _ := id
  call _ _ _ := id
  performed {trace w r t} hw ht hstop := by
    refine Eq.trans ?_ hw
    cases r with
    | peek pid place => rw [perform_peek_snd]; rfl
    | pokedata pid addr data =>
      rcases perform_poke_snd w.ticked t pid addr data with hsame | ⟨m, hpoke⟩
      · rw [hsame]; rfl
      · rw [hpoke]
        exact heap_countPoke _ pid t
    | getregs pid => rfl
    | setregs pid regs => rfl
    | syscall pid data =>
      obtain ⟨stop, hstop⟩ := stop?_of_isStopped hstop
      rw [perform_syscall_snd pid data hstop]
      rfl
    | geteventmsg pid => rw [perform_geteventmsg_snd]; rfl
  refused hw _ := hw
  reported hw hreported _ := by cases hreported <;> exact hw
  unreported hw _ := hw

theorem heap_head {C : Tracer World → Tracer World → Prop} (h : b.Head env scan C s) :
    s.os.heap = b.heap := by
  obtain ⟨n, rfl⟩ := h.final
  exact (heap_chronicles b.heap).run env rfl scan n

theorem isSome_hashFind {table : List ChildProcess} :
    (hashFind table q).isSome = true ↔ HasEntry table q := by
  simp [hashFind, HasEntry]

variable (env) in
theorem inserts_of_free (hfree : ¬HasEntry s.processTable child)
    (hheap : sizeofChildProcess ≤ s.os.heap) :
    insertProcess (kernel env) child s =
      .ok true ((s.allocated (kernel env) child).inserted child) := by
  have hgranted : ((kernel env).malloc sizeofChildProcess s.os).1 = true := decide_eq_true hheap
  rw [insertProcess_eq, if_neg (by rwa [isSome_hashFind]), if_pos hgranted]

/-! ### The creator is reported first -/

/-- What `register_new_child` does once it knows the child. -/
def registerChild {W : Type} (K : Kernel W) (child : PidT) : TracerM W Unit := do
  if ← insertProcess K child then
    let _ ← waitpidOrExit K child
    let _ ← ptraceReturn K (.syscall child 0)
    pure ()
  else
    pure ()

theorem registerNewChild_of_message {message : Word}
    (hmessage : ((kernel env).ptrace (.geteventmsg pid) s.os).1 = .ok message) :
    registerNewChild (kernel env) pid s =
      registerChild (kernel env) (childOf message) (s.asked (kernel env) (.geteventmsg pid)) := by
  rw [registerNewChild, bind_apply_ok (ptrace_apply (kernel env) _ s), hmessage]
  rfl

section registerChild

variable (env)

theorem onward_registerChild (child : PidT) :
    Within Onward (registerChild (kernel env) child) := by
  refine Within.bind ((onward_steps env).within_insertProcess child) fun added => ?_
  refine Within.ite (fun _ => ?_) (fun _ => Within.pure _)
  refine Within.bind (within_waitpidOrExit ((onward_steps env).wait child)) fun _ => ?_
  exact Within.bind (within_ptraceReturn ((onward_steps env).ptrace _ rfl)) fun _ => Within.pure _

/-- A process with an entry is left to the loop. -/
theorem registerChild_known (hentry : HasEntry s.processTable child) :
    registerChild (kernel env) child s = .ok () s := by
  have hinsert : insertProcess (kernel env) child s = .ok false s := by
    rw [insertProcess_eq, if_pos (isSome_hashFind.mpr hentry)]
  exact bind_apply_ok hinsert

/-- A process that was not resumed is inserted, waited for and resumed. -/
theorem registerChild_fresh (hgrown : Grown s.os) (hfree : ¬HasEntry s.processTable child)
    (hfresh : ∃ t, s.os.task child = some t ∧ t.Fresh) (hheap : sizeofChildProcess ≤ s.os.heap) :
    registerChild (kernel env) child s =
      .ok () ((((s.allocated (kernel env) child).inserted child).waited (kernel env)
        (some child)).asked (kernel env) (.syscall child 0)) := by
  obtain ⟨status, hwait⟩ := fresh_waited env hgrown hfresh
  have hwaited : waitpidOrExit (kernel env) child
      ((s.allocated (kernel env) child).inserted child) =
        .ok status (((s.allocated (kernel env) child).inserted child).waited
          (kernel env) (some child)) := by
    have hwait' : ((kernel env).waitpid (some child)
        ((s.allocated (kernel env) child).inserted child).os).1 =
          some (.ok (child, status)) := hwait
    rw [waitpidOrExit, bind_apply_ok (waitpid_of_some _ hwait')]
    rfl
  obtain ⟨more, hresume⟩ := resume_returns env
    (((s.allocated (kernel env) child).inserted child).waited (kernel env) (some child)) child
  rw [registerChild, bind_apply_ok (inserts_of_free env hfree hheap), if_pos rfl,
    bind_apply_ok hwaited, bind_apply_ok hresume]
  rfl

theorem registerChild_adopts (hgrown : Grown s.os) (hfree : ¬HasEntry s.processTable child)
    (hfresh : ∃ t, s.os.task child = some t ∧ t.Fresh) (hheap : sizeofChildProcess ≤ s.os.heap) :
    ∃ s', registerChild (kernel env) child s = .ok () s' ∧ Adopted child s s' := by
  refine ⟨_, registerChild_fresh env hgrown hfree hfresh hheap,
    adopted_of_resumed ?_ hfree rfl (only_resumed env _ _) ?_⟩
  · have hinserted : Grown ((s.allocated (kernel env) child).inserted child).os := hgrown
    exact grown_recounts.chronicles.asked env
      (grown_recounts.chronicles.waited env hinserted (some child)) (.syscall child 0)
  · exact (writes_ptrace env (r := .syscall child 0) trivial).trans (writes_waitpid env _ _)

end registerChild

/-- A new process without an entry that is still there has not been reported. -/
theorem Covered.fresh {pending : PidT → Prop} (h : Covered pending s) (hsafe : Unusurped s)
    (hentry : ¬Expected pending s.processTable q) (ht : s.os.task q = some t) (hbirth : t.birth ≠ 0)
    (hstarts : t.starts = 0) : t.Fresh where
  birth := hbirth
  starts := hstarts
  state := by
    by_cases hdead : t.isDead = true
    · exact .inr hdead
    · exact .inl ((h.watched hsafe q t ht).1.unseen (by simpa using hdead) hentry)

/-- The process that a fork event names is another one. -/
theorem child_ne {message : Word} (hgrown : Grown (s.asked (kernel env) (.geteventmsg pid)).os)
    (hmessage : ((kernel env).ptrace (.geteventmsg pid) s.os).1 = .ok message)
    (ht : (s.asked (kernel env) (.geteventmsg pid)).os.task (childOf message) = some t)
    (hbirth : t.birth ≠ 0) (hstarts : t.starts = 0) : childOf message ≠ pid := by
  intro hsame
  obtain ⟨u, e, hu, hstop⟩ := stop_of_message hmessage
  rw [hsame] at ht
  cases hu.symm.trans ht
  -- a process at an event stop was resumed from its first stop
  obtain ⟨reported, hstate⟩ := state_of_stop? hstop
  have hcounted := hgrown.counted pid _ hu hbirth (by simp [Task.isDead, hstate])
  rw [hstop, if_neg (by simp)] at hcounted
  cases hstarts.symm.trans hcounted

/-- The rest of the turn follows the registration. -/
theorem onward_forkEvent (env : Env) (scan : Nat) (pid : PidT) (s : Tracer World)
    (hfork : (wifstopped status && isForkEvent (eventOf status)) = true) :
    Onward (finalState (registerForkEvent (kernel env) pid status s))
      (finalState (dispatchStop (kernel env) scan pid status s)) := by
  have hlive := terminated_of_wifstopped (Bool.and_eq_true_iff.mp hfork).1
  have hexec : ¬(wifstopped status && eventOf status = PTRACE_EVENT_EXEC) = true := fun hexec =>
    Bool.false_ne_true ((not_fork_of_isExecStop hexec).symm.trans hfork)
  rw [dispatchStop, if_neg (by simp [hlive]), if_neg hexec]
  exact Within.bind_rest (fun _ => (onward_steps env).within_lookUpStop scan pid) _ s

theorem receiveStop_of_wait
    (hwait : ((kernel env).waitpid none s.os).1 = some (.ok (pid, status))) :
    receiveStop (kernel env) scan s =
      dispatchStop (kernel env) scan pid status (s.waited (kernel env) none) :=
  bind_apply_ok (waitpid_of_some _ hwait)

/-- A fork event is dealt with, if the new process has an entry or was not resumed. -/
theorem announced_adopts (hcovered : Covered (fun _ => False) s) (hgrown : Grown s.os)
    (hheap : sizeofChildProcess ≤ s.os.heap) (hannounces : Announces env s pid status child)
    (hheeded : Heeded env scan s) :
    ∃ s', registerForkEvent (kernel env) pid status (s.waited (kernel env) none) = .ok () s' ∧
      (LeftAlone child s s' ∨ Adopted child s s') := by
  have hsafe := hheeded.untroubled
  have hpresent := hheeded.present pid status child hannounces
  obtain ⟨message, hmessage, rfl⟩ := hannounces.message
  have hcovered₁ : Covered (fun q => q = pid)
      ((s.waited (kernel env) none).asked (kernel env) (.geteventmsg pid)) :=
    (hcovered.waited hannounces.wait).message
  have hgrown₁ : Grown ((s.waited (kernel env) none).asked (kernel env) (.geteventmsg pid)).os :=
    grown_recounts.chronicles.asked env (grown_recounts.chronicles.waited env hgrown none) _
  have hheap₁ :
      ((s.waited (kernel env) none).asked (kernel env) (.geteventmsg pid)).os.heap = s.os.heap :=
    (heap_chronicles s.os.heap).asked env ((heap_chronicles s.os.heap).waited env rfl none) _
  have hwrites₁ := (writes_ptrace env (s := s.waited (kernel env) none) (r := .geteventmsg pid)
    trivial).trans (writes_waitpid env s none)
  have hregister : registerForkEvent (kernel env) pid status (s.waited (kernel env) none) =
      registerChild (kernel env) (childOf message)
        ((s.waited (kernel env) none).asked (kernel env) (.geteventmsg pid)) := by
    rw [registerForkEvent, if_pos hannounces.fork, registerNewChild_of_message hmessage]
  rw [hregister]
  by_cases hentry : HasEntry s.processTable (childOf message)
  · exact ⟨_, registerChild_known env hentry, .inl ⟨hentry, rfl, hwrites₁⟩⟩
  · obtain ⟨t, ht, hbirth, hstarts⟩ := hpresent hentry
    have honward := (onward_registerChild env (childOf message) _).trans
      (hregister ▸ onward_forkEvent env scan pid _ hannounces.fork)
    rw [receiveStop_of_wait hannounces.wait] at hsafe
    have hsafe₁ := hsafe.earlier honward hcovered₁.tallied.numbered
    have hfresh := hcovered₁.fresh hsafe₁.usurped
      (fun hq => hq.elim hentry (child_ne hgrown₁ hmessage ht hbirth hstarts)) ht hbirth hstarts
    obtain ⟨s', hrun, hadopted⟩ := registerChild_adopts env hgrown₁ hentry ⟨t, ht, hfresh⟩
      (hheap₁ ▸ hheap)
    exact ⟨s', hrun, .inr ⟨hentry, hadopted.table, hadopted.started,
      hadopted.writes.trans hwrites₁⟩⟩

/-! ### The new process is reported first -/

/-- The loop is told of a new process before its creator's fork event, if that comes at all. -/
theorem shown_adopts (hnursed : Nursed (fun _ => False) s) (hgrown : Grown s.os)
    (hheap : sizeofChildProcess ≤ s.os.heap) (hshows : Shows env s pid status)
    (hheeded : Heeded env scan s) :
    ∃ s', receiveStop (kernel env) scan s = .ok .next s' ∧ Adopted pid s s' := by
  have hsafe := hheeded.untroubled
  have hends := hheeded.ends pid status hshows
  obtain rfl := hshows.status_eq
  have hwaited := hnursed.waited env none
  obtain ⟨t, ht, hinitial⟩ := hshows.initial
  rw [receiveStop_of_wait hshows.wait] at hsafe hends ⊢
  have hsafe₀ := hsafe.earlier ((onward_steps env).within_dispatchStop scan pid _ _)
    hwaited.numbered
  have hfree : ¬HasEntry s.processTable pid := fun hentry =>
    (hwaited.clean hsafe₀).resumed pid (hwaited.entered pid hentry) t ht hinitial
  have hfind : hashFind (s.waited (kernel env) none).processTable pid = none := by
    rw [← Option.not_isSome_iff_eq_none, isSome_hashFind]
    exact hfree
  have hscan := triple_procInit env scan pid (s.waited (kernel env) none)
    (hwaited.scanning ht hinitial)
  have hdispatch : dispatchStop (kernel env) scan pid Stop.initial.status
      (s.waited (kernel env) none) = (procInit (kernel env) scan pid >>= fun _ =>
        insertProcess (kernel env) pid >>= fun _ => pure .next) (s.waited (kernel env) none) := by
    rw [dispatchStop, if_neg (by decide), if_neg (by decide),
      bind_apply_ok (registerForkEvent_initial env _ _), lookUpStop,
      bind_apply_ok (findProcess_apply _ _), hfind]
    rfl
  rw [hdispatch] at hsafe hends ⊢
  cases hinit : procInit (kernel env) scan pid (s.waited (kernel env) none) with
  | error e s₂ =>
    rw [hinit] at hscan
    rw [bind_apply_error hinit] at hsafe hends
    have he : e = .outOfFuel := hscan hsafe.scans
    exact absurd (he ▸ rfl) (hends s₂)
  | ok u s₂ =>
    rw [hinit] at hscan
    obtain ⟨hscanned, hresumed⟩ := hscan
    obtain ⟨hkept, -⟩ := (helper_procInit (kernel env) scan pid).ok hinit
    have hgrown₂ : Grown s₂.os := (grown_recounts.chronicles.steps env).within_procInit scan pid
      |>.ok hinit (grown_recounts.chronicles.waited env hgrown none)
    have hheap₂ : s₂.os.heap = s.os.heap := ((heap_chronicles s.os.heap).steps env).within_procInit
      scan pid |>.ok hinit ((heap_chronicles s.os.heap).waited env rfl none)
    have hfree₂ : ¬HasEntry s₂.processTable pid := by
      rw [hkept.processTable]
      exact hfree
    have hinsert := inserts_of_free env hfree₂ (hheap₂ ▸ hheap)
    rw [bind_apply_ok hinit, bind_apply_ok hinsert] at hsafe ⊢
    have hscans : ScansHarmless s₂.trace := hsafe.scans
    refine ⟨_, rfl, adopted_of_resumed hgrown₂ hfree ?_ hresumed
      ((hscanned.writes hscans).trans (writes_waitpid env s none))⟩
    show ⟨s₂.nextAddr, pid, initialClock⟩ :: s₂.processTable = _
    rw [hkept.processTable, hkept.nextAddr]
    rfl

/-! ### Runs -/

/-- The condition when the loop is told of a new process. -/
theorem heeded_of_shows (h : Shows env s pid status)
    (hsafe : Untroubled (finalState (receiveStop (kernel env) scan s)))
    (hends : ∀ s', receiveStop (kernel env) scan s ≠ .error .outOfFuel s') : Heeded env scan s where
  untroubled := hsafe
  present p status' child hannounces := by
    -- its first stop is no fork event
    cases h.wait.symm.trans hannounces.wait
    have hfork := hannounces.fork
    rw [h.status_eq] at hfork
    cases hfork
  ends _ _ _ := hends

/-- The condition when the loop is told of a fork event. -/
theorem heeded_of_announces (h : Announces env s pid status child)
    (hsafe : Untroubled (finalState (receiveStop (kernel env) scan s)))
    (hpresent : (hashFind s.processTable child).isSome = true ∨
      (((s.waited (kernel env) none).asked (kernel env) (.geteventmsg pid)).os.task child).any
        (fun t => t.birth ≠ 0 ∧ t.starts = 0) = true) : Heeded env scan s where
  untroubled := hsafe
  present p status' child' hannounces hfree := by
    cases h.wait.symm.trans hannounces.wait
    obtain ⟨message, hmessage, rfl⟩ := h.message
    obtain ⟨message', hmessage', rfl⟩ := hannounces.message
    cases hmessage.symm.trans hmessage'
    have hfresh := hpresent.resolve_left fun hentry => hfree (isSome_hashFind.mp hentry)
    obtain ⟨t, ht, hfresh⟩ := (Option.any_eq_true _ _).mp hfresh
    exact ⟨t, ht, of_decide_eq_true hfresh⟩
  ends p status' hshows := by
    cases h.wait.symm.trans hshows.wait
    have hfork := h.fork
    rw [hshows.status_eq] at hfork
    cases hfork

/-- At every head of an untroubled run the new processes fare alike, and the next one that the loop
is told of is adopted, whether it shows itself or is announced. -/
theorem head_welcomes (h : b.Head env scan (fun _ _ => True) s)
    (hheap : sizeofChildProcess ≤ b.heap) (hsafe : Untroubled s) :
    Fostered s ∧ (Heeded env scan s → Welcomes env scan s) := by
  have hcovered := covered_head h hsafe.usurped
  have hnursed := nursed_head h hsafe
  have hgrown := grown_head h
  have hheap' : sizeofChildProcess ≤ s.os.heap := heap_head h ▸ hheap
  refine ⟨fostered hcovered hnursed hgrown hsafe, fun hheeded => ⟨?_, ?_⟩⟩
  · intro pid status child hannounces
    exact announced_adopts hcovered hgrown hheap' hannounces hheeded
  · intro pid status hshows
    exact shown_adopts hnursed hgrown hheap' hshows hheeded

/-- The loop is told of the new process 101 before its creator's fork event. -/
def childFirst : Env :=
  scripted [(1, ⟨[.enter 100 forkCall], 100⟩), (4, ⟨[.fork 100 101 .fork false false 0], 101⟩)]

/-- A head of a run of the sample task at which the fork event for process 101 is reported. -/
theorem exists_announces (env : Env) (n : Nat)
    (h : (Boot.sample.head env 3 (fun _ _ => True) n).any (fun s =>
      Untroubled s ∧ Untroubled (finalState (receiveStop (kernel env) 3 s)) ∧
        ((kernel env).waitpid none s.os).1 = some (.ok (100, (Stop.event .fork 101).status)) ∧
        ((kernel env).ptrace (.geteventmsg 100) (s.waited (kernel env) none).os).1 = .ok 101 ∧
        ((hashFind s.processTable 101).isSome = true ∨
          (((s.waited (kernel env) none).asked (kernel env) (.geteventmsg 100)).os.task 101).any
            (fun t => t.birth ≠ 0 ∧ t.starts = 0) = true)) = true) :
    ∃ s, Boot.sample.Head env 3 (fun _ _ => True) s ∧ Untroubled s ∧
      Announces env s 100 (Stop.event .fork 101).status 101 ∧ Heeded env 3 s := by
  obtain ⟨s, hhead, hsafe, hnext, hwait, hmessage, hpresent⟩ :=
    Boot.sample.exists_head env 3 (fun _ _ => True) n h
  have hannounces : Announces env s 100 (Stop.event .fork 101).status 101 :=
    ⟨hwait, by decide, 101, hmessage, rfl⟩
  exact ⟨s, hhead, hsafe, hannounces, heeded_of_announces hannounces hnext hpresent⟩

/-- The new process shows itself before it is announced; and it is announced first. -/
theorem forkCall_welcomes :
    (∃ s, Boot.sample.Head childFirst 3 (fun _ _ => True) s ∧
      Shows childFirst s 101 Stop.initial.status ∧ Fostered s ∧ Welcomes childFirst 3 s) ∧
    (∃ s, Boot.sample.Head childFirst 3 (fun _ _ => True) s ∧
      Announces childFirst s 100 (Stop.event .fork 101).status 101 ∧ Fostered s ∧
        Welcomes childFirst 3 s) ∧
    ∃ s, Boot.sample.Head childStarts 3 (fun _ _ => True) s ∧
      Announces childStarts s 100 (Stop.event .fork 101).status 101 ∧ Fostered s ∧
        Welcomes childStarts 3 s := by
  refine ⟨?_, ?_, ?_⟩
  · obtain ⟨s, hhead, hwait, hinitial, hsafe, hnext, hreturns⟩ :=
      Boot.sample.exists_head childFirst 3 (fun _ _ => True) 1
        (P := fun s => ((kernel childFirst).waitpid none s.os).1 =
            some (.ok (101, Stop.initial.status)) ∧
          ((s.waited (kernel childFirst) none).os.task 101).any
            (fun t => t.stop? = some .initial) = true ∧
          Untroubled s ∧ Untroubled (finalState (receiveStop (kernel childFirst) 3 s)) ∧
          (match receiveStop (kernel childFirst) 3 s with
            | .ok .. => true
            | .error .. => false) = true) (by decide +kernel)
    obtain ⟨t, ht, hstop⟩ := (Option.any_eq_true _ _).mp hinitial
    have hshows : Shows childFirst s 101 Stop.initial.status :=
      ⟨hwait, t, ht, of_decide_eq_true hstop⟩
    obtain ⟨hfostered, hwelcomes⟩ := head_welcomes hhead (by decide) hsafe
    refine ⟨s, hhead, hshows, hfostered, hwelcomes (heeded_of_shows hshows hnext fun s' hrun => ?_)⟩
    rw [hrun] at hreturns
    cases hreturns
  · obtain ⟨s, hhead, hsafe, hannounces, hheeded⟩ :=
      exists_announces childFirst 2 (by decide +kernel)
    obtain ⟨hfostered, hwelcomes⟩ := head_welcomes hhead (by decide) hsafe
    exact ⟨s, hhead, hannounces, hfostered, hwelcomes hheeded⟩
  · obtain ⟨s, hhead, hsafe, hannounces, hheeded⟩ :=
      exists_announces childStarts 1 (by decide +kernel)
    obtain ⟨hfostered, hwelcomes⟩ := head_welcomes hhead (by decide) hsafe
    exact ⟨s, hhead, hannounces, hfostered, hwelcomes hheeded⟩

/-! ### What goes wrong otherwise -/

/-- The new process is reported first, and exits before its creator's fork event is reported. -/
def childExits : Env :=
  scripted [(1, ⟨[.enter 100 forkCall], 100⟩), (4, ⟨[.fork 100 101 .fork false false 0], 101⟩),
    (10, ⟨[.die 101 0], 101⟩)]

/-- It gets an entry again, and the wait for it fails. -/
theorem not_welcomes_exits :
    ∃ s, Boot.sample.Head childExits 3 (fun _ _ => True) s ∧
      Untroubled (finalState (receiveStop (kernel childExits) 3 s)) ∧
      ¬Welcomes childExits 3 s := by
  obtain ⟨s, hhead, hsafe, hwait, hmessage, hexit⟩ :=
    Boot.sample.exists_head childExits 3 (fun _ _ => True) 3
      (P := fun s => Untroubled (finalState (receiveStop (kernel childExits) 3 s)) ∧
        ((kernel childExits).waitpid none s.os).1 =
          some (.ok (100, (Stop.event .fork 101).status)) ∧
        ((kernel childExits).ptrace (.geteventmsg 100)
          (s.waited (kernel childExits) none).os).1 = .ok 101 ∧
        (match registerForkEvent (kernel childExits) 100 (Stop.event .fork 101).status
            (s.waited (kernel childExits) none) with
          | .ok .. => false
          | .error e _ => decide (e = .exit EXIT_FAILURE)) = true) (by decide +kernel)
  refine ⟨s, hhead, hsafe, fun h => ?_⟩
  obtain ⟨s', hrun, -⟩ := h.announced _ _ _ ⟨hwait, by decide, 101, hmessage, rfl⟩
  rw [hrun] at hexit
  cases hexit

/-- All memory is zero but one word, which is like the type of the vDSO entry. -/
def lookalike : Memory := ⟨fun a => if a = 24 then 33 else 0, fun _ => true, fun _ => true⟩

/-- The new process is reported first, and has such a word behind its stack pointer. -/
def childPoked : Env :=
  scripted [(1, ⟨[.store 0 lookalike, .enter 100 forkCall], 100⟩),
    (4, ⟨[.fork 100 101 .fork false false 0], 101⟩)]

/-- The word is overwritten. -/
theorem not_fostered_poked :
    ∃ s, Boot.sample.Head childPoked 3 (fun _ _ => True) s ∧
      NoneUsurped s.os.history s.trace ∧ NoneReused s.os.history s.trace ∧ ¬Fostered s := by
  obtain ⟨s, hhead, husurped, hreused, hpoked⟩ :=
    Boot.sample.exists_head childPoked 3 (fun _ _ => True) 2
      (P := fun s => NoneUsurped s.os.history s.trace ∧ NoneReused s.os.history s.trace ∧
        (s.os.task 101).any (fun t => t.earlyPokes ≠ 0) = true) (by decide +kernel)
  obtain ⟨t, ht, hpokes⟩ := (Option.any_eq_true _ _).mp hpoked
  exact ⟨s, hhead, husurped, hreused, fun h => of_decide_eq_true hpokes (h.unpoked _ _ ht)⟩

/-- The new process is killed before its first stop, and a second one is given its pid. -/
def pidReused : Env :=
  scripted [(1, ⟨[.enter 100 forkCall], 100⟩), (4, ⟨[.fork 100 101 .fork false false 0], 100⟩),
    (6, ⟨[.die 101 9], 101⟩), (10, ⟨[.finish 100 default], 100⟩),
    (13, ⟨[.enter 100 forkCall], 100⟩), (16, ⟨[.fork 100 101 .fork false false 0], 100⟩)]

/-- The entry of the first one is taken for that of the second one. -/
theorem not_fostered_reused :
    ∃ s, Boot.sample.Head pidReused 3 (fun _ _ => True) s ∧
      NoneUsurped s.os.history s.trace ∧ ScansHarmless s.trace ∧ ¬Fostered s := by
  obtain ⟨s, hhead, husurped, hscans, hentry, hnew⟩ :=
    Boot.sample.exists_head pidReused 3 (fun _ _ => True) 5
      (P := fun s => NoneUsurped s.os.history s.trace ∧ ScansHarmless s.trace ∧
        (hashFind s.processTable 101).isSome = true ∧
        (s.os.task 101).any (fun t => t.birth ≠ 0 ∧ t.isDead = false ∧ t.starts = 0) = true)
      (by decide +kernel)
  obtain ⟨t, ht, hnew⟩ := (Option.any_eq_true _ _).mp hnew
  obtain ⟨hbirth, hlive, hstarts⟩ := of_decide_eq_true hnew
  refine ⟨s, hhead, husurped, hscans, fun h => ?_⟩
  rcases h.live 101 t ht hbirth hlive with ⟨hfree, -⟩ | ⟨-, hstarted⟩
  · exact hfree (isSome_hashFind.mp hentry)
  · cases hstarts.symm.trans hstarted

/-- Thread 102 takes the place of its leader 101, whose entry was deleted when it did not go on. -/
def leaderTaken : Env :=
  scripted [(1, ⟨[.enter 100 forkCall], 100⟩), (4, ⟨[.fork 100 101 .fork false false 0], 100⟩),
    (10, ⟨[.enter 101 cloneCall], 101⟩), (13, ⟨[.fork 101 102 .clone true true 0], 101⟩),
    (19, ⟨[.enter 102 execveCall], 102⟩), (22, ⟨[.finish 101 default], 101⟩),
    (24, ⟨[.die 101 0], 101⟩),
    (25, ⟨[.exec 102 101 default Boot.sample.memory, .finish 100 default], 100⟩)]

/-- A process that was created and runs has no entry. -/
theorem not_fostered_taken :
    ∃ s, Boot.sample.Head leaderTaken 3 (fun _ _ => True) s ∧
      NoneReused s.os.history s.trace ∧ ScansHarmless s.trace ∧ ¬Fostered s := by
  obtain ⟨s, hhead, hreused, hscans, hfree, hleader⟩ :=
    Boot.sample.exists_head leaderTaken 3 (fun _ _ => True) 7
      (P := fun s => NoneReused s.os.history s.trace ∧ ScansHarmless s.trace ∧
        ¬(hashFind s.processTable 101).isSome = true ∧
        (s.os.task 101).any (fun t => t.birth ≠ 0 ∧ t.isDead = false ∧ t.starts = 1) = true)
      (by decide +kernel)
  obtain ⟨t, ht, hleader⟩ := (Option.any_eq_true _ _).mp hleader
  obtain ⟨hbirth, hlive, hstarts⟩ := of_decide_eq_true hleader
  refine ⟨s, hhead, hreused, hscans, fun h => ?_⟩
  rcases h.live 101 t ht hbirth hlive with ⟨-, -, hnone⟩ | ⟨hentry, -⟩
  · cases hnone.symm.trans hstarts
  · exact hfree (isSome_hashFind.mpr hentry)

/-- The new processes do not fare alike if one exits before it is announced, if the scan of one
finds what looks like the vDSO, if one is given the pid of an entry, or if a thread takes the place
of one that has lost its entry. -/
theorem not_welcomes_childExits :
    (∃ s, Boot.sample.Head childExits 3 (fun _ _ => True) s ∧
      Untroubled (finalState (receiveStop (kernel childExits) 3 s)) ∧ ¬Welcomes childExits 3 s) ∧
    (∃ s, Boot.sample.Head childPoked 3 (fun _ _ => True) s ∧
      NoneUsurped s.os.history s.trace ∧ NoneReused s.os.history s.trace ∧ ¬Fostered s) ∧
    (∃ s, Boot.sample.Head pidReused 3 (fun _ _ => True) s ∧
      NoneUsurped s.os.history s.trace ∧ ScansHarmless s.trace ∧ ¬Fostered s) ∧
    ∃ s, Boot.sample.Head leaderTaken 3 (fun _ _ => True) s ∧
      NoneReused s.os.history s.trace ∧ ScansHarmless s.trace ∧ ¬Fostered s :=
  ⟨not_welcomes_exits, not_fostered_poked, not_fostered_reused, not_fostered_taken⟩

end Reproduce.Linux
