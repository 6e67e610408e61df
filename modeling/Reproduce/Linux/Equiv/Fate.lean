import Reproduce.Linux.Equiv.Moves
import Reproduce.Tracer.Equiv.Frame

/-!
# What can become of one task

Between two calls of the tracer a task runs on by itself, or dies, or is replaced when another
thread of its group executes a program (`Replaced`).  `Fate pid h₀ G` says that nothing else
happened since the history was `h₀`: the task still satisfies `G`, or it is dead, or it was
replaced.  For a property `G` that the task's own moves keep (`Steady`) this holds across every
sequence of moves (`fate_advance`).  A stopped task makes no moves of its own and stays exactly as
it is (`steady_stopped`).
-/

namespace Reproduce.Linux

open Bytes

/-! ### Histories -/

theorem history_runMoves (w : World) (moves : List Move) :
    w.history <:+ (w.runMoves moves).history := by
  refine runMoves_induction (P := fun w' => w.history <:+ w'.history) ?_ w List.suffix_rfl
  intro w₁ m w₂ _ hsuffix _
  exact hsuffix.trans (List.suffix_cons _ _)

theorem history_advance (w : World) (slot : Slot) : w.history <:+ (w.advance slot).history :=
  history_runMoves w slot.moves

/-- The program of the task was replaced by an `execve` in its thread group. -/
def Replaced (pid : PidT) (h₀ : List (Nat × Move)) (w : World) : Prop :=
  Added (fun x => ∃ q regs image, x.2 = .exec q pid regs image) h₀ w.history

/-! ### Fates -/

/-- The task's own moves keep `G`, and `G` excludes that it executes a program. -/
structure Steady (G : Task → Prop) : Prop where
  enter : ∀ t regs, G t → t.state = .user → G (t.enter regs)
  finish : ∀ t fresh regs, G t → t.state = .kernel fresh → G (t.finish regs)
  fork : ∀ t e child birth, G t → t.state = .kernel true → isCreation t.regs.origRax = true →
    G (t.forking e child birth)
  exec : ∀ t, G t → t.state = .kernel true → isExecve t.regs.origRax = false
  signal : ∀ t sig regs, G t → t.state = .user → G (t.signal sig regs)

/-- The task is dead and its status says so. -/
def Task.Died (t : Task) : Prop := ∃ status, t.state = .zombie status ∧ terminated status = true

/-- The task satisfies `G`, or it is dead, or it was replaced. -/
def Fate (pid : PidT) (h₀ : List (Nat × Move)) (G : Task → Prop) (w : World) : Prop :=
  h₀ <:+ w.history ∧ ((∃ t, w.task pid = some t ∧ (G t ∨ t.Died)) ∨ Replaced pid h₀ w)

theorem Task.Died.not_isStopped {t : Task} (h : t.Died) : t.isStopped = false := by
  obtain ⟨status, hstate, -⟩ := h
  simp [Task.isStopped, hstate]

theorem Task.state_of_isStopped {t : Task} (h : t.isStopped = true) :
    ∃ stop reported, t.state = .stopped stop reported := by
  unfold Task.isStopped at h
  split at h
  · next stop reported hstate => exact ⟨stop, reported, hstate⟩
  · cases h

/-- One move keeps a fate. -/
theorem fate_moved {pid : PidT} {h₀ : List (Nat × Move)} {G : Task → Prop} (hG : Steady G)
    {w w' : World} {m : Move} (hw : Fate pid h₀ G w) (h : Moved w m w') :
    Fate pid h₀ G { w' with history := (w.tick, m) :: w.history } := by
  obtain ⟨hsuffix, hw⟩ := hw
  refine ⟨hsuffix.trans (List.suffix_cons _ _), ?_⟩
  rcases hw with ⟨t, ht, hfate⟩ | hreplaced
  swap
  · exact .inr (hreplaced.suffix (List.suffix_cons _ _))
  -- a task that makes a move of its own is not dead
  have hown : ∀ {state}, t.state = state → (∀ status, state ≠ .zombie status) → G t := by
    rintro state hstate hne
    rcases hfate with hG | hdead
    · exact hG
    · obtain ⟨status, hstatus, -⟩ := hdead
      exact absurd (hstate.symm.trans hstatus) (hne status)
  have hother : ∀ {w'' : World}, w''.task pid = some t →
      (∃ t, w''.task pid = some t ∧ (G t ∨ t.Died)) ∨
        Replaced pid h₀ { w'' with history := (w.tick, m) :: w.history } :=
    fun h => .inl ⟨t, h, hfate⟩
  cases h with
  | @enter p t' regs ht' hstate =>
    by_cases hp : pid = p
    · subst hp
      cases ht.symm.trans ht'
      exact .inl ⟨_, Function.update_self .., .inl (hG.enter t regs (hown hstate nofun) hstate)⟩
    · exact hother (by simp [Function.update_of_ne hp, ht])
  | @finish p t' fresh regs ht' hstate =>
    by_cases hp : pid = p
    · subst hp
      cases ht.symm.trans ht'
      exact .inl ⟨_, Function.update_self ..,
        .inl (hG.finish t fresh regs (hown hstate nofun) hstate)⟩
    · exact hother (by simp [Function.update_of_ne hp, ht])
  | @fork p child t' e thread share rsp ht' hstate hnr he hchild hfree hshare =>
    have hchild' : pid ≠ child := fun h => by rw [h, hfree] at ht; cases ht
    by_cases hp : pid = p
    · subst hp
      cases ht.symm.trans ht'
      refine .inl ⟨t.forking e child w.births, ?_,
        .inl (hG.fork t e child _ (hown hstate nofun) hstate hnr)⟩
      simp [World.fork, Function.update_of_ne hchild']
    · exact hother
        (by simp [World.fork, Function.update_of_ne hchild', Function.update_of_ne hp, ht])
  | @exec p leader t' old regs image ht' hstate hnr hold htgid hleader hdead halone =>
    -- another thread of the group may replace the program of its leader
    by_cases hl : pid = leader
    · subst hl
      obtain ⟨new, hnew⟩ := hsuffix
      refine .inr ⟨(w.tick, .exec p pid regs image) :: new, ?_, _, List.mem_cons_self, p, regs,
        image, rfl⟩
      rw [List.cons_append, hnew]
    · by_cases hp : pid = p
      · subst hp
        cases ht.symm.trans ht'
        have := hG.exec t (hown hstate nofun) hstate
        rw [hnr] at this
        cases this
      · exact hother (by simp [World.exec, Function.update_of_ne hl, Function.update_of_ne hp, ht])
  | @signal p t' sig regs ht' hstate =>
    by_cases hp : pid = p
    · subst hp
      cases ht.symm.trans ht'
      exact .inl ⟨_, Function.update_self ..,
        .inl (hG.signal t sig regs (hown hstate nofun) hstate)⟩
    · exact hother (by simp [Function.update_of_ne hp, ht])
  | @die p t' status ht' hlive hstatus =>
    by_cases hp : pid = p
    · subst hp
      exact .inl ⟨_, Function.update_self .., .inr ⟨status, rfl, hstatus⟩⟩
    · exact hother (by simp [Function.update_of_ne hp, ht])
  | store => exact hother ht

theorem fate_runMoves {pid : PidT} {h₀ : List (Nat × Move)} {G : Task → Prop} (hG : Steady G)
    {w : World} (hw : Fate pid h₀ G w) (moves : List Move) : Fate pid h₀ G (w.runMoves moves) :=
  runMoves_induction (fun _ _ _ _ hw hmoved => fate_moved hG hw hmoved) w hw

theorem fate_advance {pid : PidT} {h₀ : List (Nat × Move)} {G : Task → Prop} (hG : Steady G)
    {w : World} (hw : Fate pid h₀ G w) (slot : Slot) : Fate pid h₀ G (w.advance slot) :=
  fate_runMoves hG hw slot.moves

/-- A stopped task makes no moves. -/
theorem steady_stopped {t : Task} (h : t.isStopped = true) : Steady fun t' => t' = t := by
  obtain ⟨stop, reported, hstate⟩ := Task.state_of_isStopped h
  refine ⟨?_, ?_, ?_, ?_, ?_⟩
  all_goals
    intros
    subst_vars
    simp_all

/-- The end of a system call is a stop. -/
@[simp] theorem state_finish (t : Task) (regs : UserRegsStruct) :
    (t.finish regs).state = .stopped .syscallExit false := by
  unfold Task.finish
  split
  · rfl
  · split <;> rfl

@[simp] theorem mm_finish (t : Task) (regs : UserRegsStruct) : (t.finish regs).mm = t.mm := by
  unfold Task.finish
  split
  · rfl
  · split <;> rfl

@[simp] theorem executed_finish (t : Task) (regs : UserRegsStruct) :
    (t.finish regs).executed = t.executed := by
  unfold Task.finish
  split
  · rfl
  · split <;> rfl

/-- A task inside an ordinary system call only reaches its end. -/
theorem steady_kernel {t : Task} {fresh : Bool} (hstate : t.state = .kernel fresh)
    (hcreation : isCreation t.regs.origRax = false) (hexecve : isExecve t.regs.origRax = false) :
    Steady fun t' => t' = t ∨ ∃ regs, t' = t.finish regs := by
  refine ⟨?_, ?_, ?_, ?_, ?_⟩
  · rintro t' regs (rfl | ⟨regs', rfl⟩) h
    · simp [hstate] at h
    · simp at h
  · rintro t' fresh' regs (rfl | ⟨regs', rfl⟩) h
    · exact .inr ⟨regs, rfl⟩
    · simp at h
  · rintro t' e child birth (rfl | ⟨regs', rfl⟩) h hnr
    · simp [hcreation] at hnr
    · simp at h
  · rintro t' (rfl | ⟨regs', rfl⟩) h
    · exact hexecve
    · simp at h
  · rintro t' sig regs (rfl | ⟨regs', rfl⟩) h
    · simp [hstate] at h
    · simp at h

/-! ### Requests to a stopped task -/

/-- What no answer changes: the history, the pids that have been in use, and what `malloc`
grants. -/
structure SameRecord (w w' : World) : Prop where
  history : w'.history = w.history
  pids : w'.pids = w.pids
  heap : w'.heap = w.heap

theorem record_perform (w : World) (t : Task) (r : Request) : SameRecord w (w.perform t r).2 := by
  cases r with
  | peek pid place =>
    cases place <;> unfold World.perform <;> dsimp only <;> split <;> exact ⟨rfl, rfl, rfl⟩
  | pokedata pid addr data =>
    unfold World.perform
    dsimp only
    split
    · unfold World.countPoke
      split <;> exact ⟨rfl, rfl, rfl⟩
    · exact ⟨rfl, rfl, rfl⟩
  | getregs pid => exact ⟨rfl, rfl, rfl⟩
  | setregs pid regs => exact ⟨rfl, rfl, rfl⟩
  | syscall pid data => unfold World.perform; dsimp only; split <;> exact ⟨rfl, rfl, rfl⟩
  | geteventmsg pid => unfold World.perform; dsimp only; split <;> exact ⟨rfl, rfl, rfl⟩

variable (env : Env)

/-- The world in which a query is answered. -/
def World.asked (w : World) (q : Query) : World := w.advance (env w.tick q)

theorem fate_asked {pid : PidT} {G : Task → Prop} (hG : Steady G) {w : World} {t : Task}
    (ht : w.task pid = some t) (h : G t) (q : Query) :
    (∃ t', (w.asked env q).task pid = some t' ∧ (G t' ∨ t'.Died)) ∨
      Replaced pid w.history (w.asked env q) :=
  (fate_advance hG ⟨List.suffix_rfl, .inl ⟨t, ht, .inl h⟩⟩ (env w.tick q)).2

theorem ptrace_of_stopped {w : World} {r : Request} {t : Task}
    (ht : (w.asked env (.ptrace r)).task r.pid = some t) (hstop : t.isStopped = true) :
    World.ptrace env r w = (w.asked env (.ptrace r)).perform t r := by
  have hstopped : (w.asked env (.ptrace r)).stopped r.pid = some t := by
    simp [World.stopped, ht, hstop]
  unfold World.ptrace
  dsimp only
  rw [← World.asked, hstopped]

theorem ptrace_of_not_stopped {w : World} {r : Request} {t : Task}
    (ht : (w.asked env (.ptrace r)).task r.pid = some t) (hstop : t.isStopped = false) :
    World.ptrace env r w = (.error .ESRCH, w.asked env (.ptrace r)) := by
  have hstopped : (w.asked env (.ptrace r)).stopped r.pid = none := by
    simp [World.stopped, ht, hstop]
  unfold World.ptrace
  dsimp only
  rw [← World.asked, hstopped]

/-- No answer adds to the record. -/
theorem record_ptrace (w : World) (r : Request) :
    SameRecord (w.asked env (.ptrace r)) (World.ptrace env r w).2 := by
  unfold World.ptrace
  dsimp only
  rw [← World.asked]
  split
  · exact record_perform _ _ _
  · exact ⟨rfl, rfl, rfl⟩

theorem history_ptrace (w : World) (r : Request) :
    (World.ptrace env r w).2.history = (w.asked env (.ptrace r)).history :=
  (record_ptrace env w r).history

/-- A request to a stopped task is carried out on this task, or the task died and the answer is
`ESRCH`, or the task was replaced. -/
theorem ptrace_cases {w : World} {r : Request} {t : Task} (ht : w.task r.pid = some t)
    (hstop : t.isStopped = true) :
    ((w.asked env (.ptrace r)).task r.pid = some t ∧
      World.ptrace env r w = (w.asked env (.ptrace r)).perform t r) ∨
    (World.ptrace env r w).1 = .error .ESRCH ∨
    Replaced r.pid w.history (w.asked env (.ptrace r)) := by
  rcases fate_asked env (steady_stopped hstop) ht rfl (.ptrace r) with
    ⟨t', ht', rfl | hdied⟩ | hreplaced
  · exact .inl ⟨ht', ptrace_of_stopped env ht' hstop⟩
  · exact .inr (.inl (by rw [ptrace_of_not_stopped env ht' hdied.not_isStopped]))
  · exact .inr (.inr hreplaced)

/-! ### Waiting for a task in a system call -/

theorem report_of_stopped {w : World} {pid : PidT} {t : Task} {stop : Stop}
    (ht : w.task pid = some t) (hstate : t.state = .stopped stop false) :
    w.report pid = (some (.ok (pid, stop.status)),
      w.setTask pid (some { t with state := .stopped stop true })) := by
  unfold World.report
  rw [ht]
  dsimp only
  rw [hstate]

theorem record_report (w : World) (pid : PidT) : SameRecord w (w.report pid).2 := by
  unfold World.report
  split
  · exact ⟨rfl, rfl, rfl⟩
  · split
    · exact ⟨rfl, rfl, rfl⟩
    · split <;> exact ⟨rfl, rfl, rfl⟩
    · exact ⟨rfl, rfl, rfl⟩

theorem record_waitpid (w : World) (target : WaitTarget) :
    SameRecord (w.asked env (.wait target)) (World.waitpid env target w).2 := by
  unfold World.waitpid
  dsimp only
  rw [← World.asked]
  split <;> split
  · exact ⟨rfl, rfl, rfl⟩
  · exact record_report _ _
  · exact ⟨rfl, rfl, rfl⟩
  · exact record_report _ _

theorem history_waitpid (w : World) (target : WaitTarget) :
    (World.waitpid env target w).2.history = (w.asked env (.wait target)).history :=
  (record_waitpid env w target).history

/-- A wait for a task inside an ordinary system call reports the end of the call, or gives another
answer, unless the task was replaced. -/
theorem waitpid_cases {w : World} {pid : PidT} {t : Task} {fresh : Bool}
    (ht : w.task pid = some t) (hstate : t.state = .kernel fresh)
    (hcreation : isCreation t.regs.origRax = false) (hexecve : isExecve t.regs.origRax = false) :
    (∃ regs, (w.asked env (.wait (some pid))).task pid = some (t.finish regs) ∧
      World.waitpid env (some pid) w = (some (.ok (pid, Stop.syscallExit.status)),
        (w.asked env (.wait (some pid))).setTask pid
          (some { t.finish regs with state := .stopped .syscallExit true }))) ∨
    (World.waitpid env (some pid) w).1 ≠ some (.ok (pid, Stop.syscallExit.status)) ∨
    Replaced pid w.history (w.asked env (.wait (some pid))) := by
  have hreport : ∀ {t'}, (w.asked env (.wait (some pid))).task pid = some t' →
      World.waitpid env (some pid) w = (w.asked env (.wait (some pid))).report pid := by
    intro t' ht'
    have hsome : ((w.asked env (.wait (some pid))).task pid).isNone = false := by rw [ht']; rfl
    unfold World.waitpid
    dsimp only
    rw [← World.asked, if_neg (by simp [hsome])]
  rcases fate_asked env (steady_kernel hstate hcreation hexecve) ht (.inl rfl)
      (.wait (some pid)) with ⟨t', ht', (rfl | ⟨regs, rfl⟩) | hdied⟩ | hreplaced
  · -- still inside the call: nothing is reported
    refine .inr (.inl ?_)
    rw [hreport ht', World.report, ht']
    dsimp only
    rw [hstate]
    exact nofun
  · -- at the end of the call, which is reported
    refine .inl ⟨regs, ht', ?_⟩
    rw [hreport ht', report_of_stopped ht' (state_finish t regs)]
  · refine .inr (.inl ?_)
    obtain ⟨status, hzombie, hterminated⟩ := hdied
    rw [hreport ht', World.report, ht']
    dsimp only
    rw [hzombie]
    dsimp only
    split
    · exact nofun
    · intro h
      have hstatus : status = Stop.syscallExit.status := by simpa using h
      rw [hstatus, Stop.status, terminated_stopStatus] at hterminated
      cases hterminated
  · exact .inr (.inr hreplaced)

end Reproduce.Linux
