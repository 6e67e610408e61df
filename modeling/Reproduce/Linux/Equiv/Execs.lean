import Reproduce.Linux.Equiv.Images
import Reproduce.Linux.Equiv.Story
import Reproduce.Tracer.Equiv.Hidden

/-!
# Every new program loses its vDSO before it runs

The history of the world and the trace of the tracer are one story: the moves with number `n` came
right before the `n`-th query.  Along it one can tell which processes have a new program that
`remove_vdso` was not called for (`unhidden`), and whether one of them was ever resumed
(`ImagesHidden`).

`execs_hidden`: nothing of the kind happens, as long as no wait for a single process receives an
exec stop and no process gets a new program between the report of a stop of it and the answer to
that stop.  What carries the run is that a process on the list is dead or in an exec stop that is
not reported yet (`Renewals`), and that the tracer resumes only what was reported to it
(`Attended`).
-/

namespace Reproduce.Linux

open Bytes Effect

/-! ### The story -/

/-- The process that gets a new program. -/
def Move.execs : Move → Option PidT
  | .exec _ leader .. => some leader
  | .enter .. | .finish .. | .fork .. | .signal .. | .die .. | .store .. => none

/-- A process that gets a new program comes onto the list.  A new process is not the one that had
its pid before. -/
def Move.enlists : Move → List PidT → List PidT
  | .exec _ leader .., pids => leader :: pids
  | .fork _ child .., pids => pids.filter fun p => p ≠ child
  | .enter .., pids | .finish .., pids | .signal .., pids | .die .., pids | .store .., pids => pids

/-- The processes with a new program for which `remove_vdso` was not called yet. -/
def unhidden (history : List (Nat × Move)) : List (Event World) → List PidT
  | [] => []
  | .ptrace .. :: older | .wait .. :: older =>
    (movesBefore history (queries older)).foldr Move.enlists (unhidden history older)
  | .call (.removeVdso pid) _ _ :: older => (unhidden history older).filter fun p => p ≠ pid
  | .malloc .. :: older | .call .. :: older => unhidden history older

/-- No process was resumed with a new program before `remove_vdso` was called for it. -/
def ImagesHidden (history : List (Nat × Move)) : List (Event World) → Prop
  | [] => True
  | .ptrace (.syscall pid data) (.ok reply) :: older =>
    pid ∉ unhidden history (.ptrace (.syscall pid data) (.ok reply) :: older) ∧
      ImagesHidden history older
  | _ :: older => ImagesHidden history older

/-- No process got a new program between the report of a stop of it and the answer to this stop.
What happens before the loop waits again is no part of a turn. -/
def ImagesKept (first : PidT) (history : List (Nat × Move)) : List (Event World) → Prop
  | [] => True
  | .ptrace .. :: older | .wait (some _) _ :: older =>
    (∀ m ∈ movesBefore history (queries older), ∀ p ∈ m.execs, ¬Taken first p older) ∧
      ImagesKept first history older
  | .wait none _ :: older | .malloc .. :: older | .call .. :: older =>
    ImagesKept first history older

/-- The condition on a turn of the loop: no exec stop is received by a wait for a single process,
and no process gets a new program between the report of a stop of it and the answer, or while
`handle_syscall` deals with it. -/
structure Undisturbed (first : PidT) (s s' : Tracer World) : Prop where
  inside : ∀ e ∈ s'.trace, ¬ExecInside e
  kept : ImagesKept first s'.os.history s'.trace
  image : ImageStays s s'

section decidable

variable (first p : PidT) (history : List (Nat × Move))

instance decidableTaken : (trace : List (Event World)) → Decidable (Taken first p trace)
  | [] => inferInstanceAs (Decidable (p = first))
  | .wait none (some (.ok (q, _))) :: _ => inferInstanceAs (Decidable (q = p))
  | .wait none (some (.error _)) :: _ | .wait none none :: _ => inferInstanceAs (Decidable False)
  | .wait (some q) (some (.ok _)) :: older =>
    have := decidableTaken older
    inferInstanceAs (Decidable (q = p ∨ Taken first p older))
  | .ptrace (.syscall q _) (.ok _) :: older =>
    have := decidableTaken older
    inferInstanceAs (Decidable (q ≠ p ∧ Taken first p older))
  | .wait (some _) (some (.error _)) :: older | .wait (some _) none :: older
  | .ptrace (.syscall _ _) (.error _) :: older | .ptrace (.peek _ _) _ :: older
  | .ptrace (.pokedata _ _ _) _ :: older | .ptrace (.getregs _) _ :: older
  | .ptrace (.setregs _ _) _ :: older | .ptrace (.geteventmsg _) _ :: older
  | .malloc _ _ :: older | .call _ _ _ :: older => decidableTaken older

instance decidableImagesHidden :
    (trace : List (Event World)) → Decidable (ImagesHidden history trace)
  | [] => inferInstanceAs (Decidable True)
  | .ptrace (.syscall pid data) (.ok reply) :: older =>
    have := decidableImagesHidden older
    inferInstanceAs (Decidable
      (pid ∉ unhidden history (.ptrace (.syscall pid data) (.ok reply) :: older) ∧
        ImagesHidden history older))
  | .ptrace (.syscall _ _) (.error _) :: older | .ptrace (.peek _ _) _ :: older
  | .ptrace (.pokedata _ _ _) _ :: older | .ptrace (.getregs _) _ :: older
  | .ptrace (.setregs _ _) _ :: older | .ptrace (.geteventmsg _) _ :: older | .wait _ _ :: older
  | .malloc _ _ :: older | .call _ _ _ :: older => decidableImagesHidden older

instance decidableImagesKept :
    (trace : List (Event World)) → Decidable (ImagesKept first history trace)
  | [] => inferInstanceAs (Decidable True)
  | .ptrace _ _ :: older | .wait (some _) _ :: older =>
    have := decidableImagesKept older
    inferInstanceAs (Decidable
      ((∀ m ∈ movesBefore history (queries older), ∀ p ∈ m.execs, ¬Taken first p older) ∧
        ImagesKept first history older))
  | .wait none _ :: older | .malloc _ _ :: older | .call _ _ _ :: older =>
    decidableImagesKept older

instance (s s' : Tracer World) : Decidable (Undisturbed first s s') :=
  decidable_of_iff ((∀ e ∈ s'.trace, ¬ExecInside e) ∧
    ImagesKept first s'.os.history s'.trace ∧ ImageStays s s')
    ⟨fun h => ⟨h.1, h.2.1, h.2.2⟩, fun h => ⟨h.inside, h.kept, h.image⟩⟩

end decidable

/-! ### A growing history -/

variable {first p : PidT} {history : List (Nat × Move)} {x : Nat × Move}
  {trace : List (Event World)} {w w' : World} {m : Move} {t t' : Task}

/-- A move changes nothing about the part of the story that is over. -/
theorem unhidden_cons (h : queries trace ≤ x.1) :
    unhidden (x :: history) trace = unhidden history trace := by
  induction trace with
  | nil => rfl
  | cons e older ih =>
    match e with
    | .ptrace .. | .wait .. =>
      have hlt : queries older < x.1 := h
      rw [unhidden, unhidden, ih hlt.le, movesBefore_cons_of_ne hlt.ne']
    | .call (.removeVdso pid) _ _ =>
      rw [unhidden, unhidden, ih h]
    | .call (.insertProcess _) _ _ | .call (.deleteProcess _) _ _ | .call (.handleSyscall ..) _ _
    | .malloc .. => exact ih h

theorem imagesHidden_cons (h : queries trace ≤ x.1) :
    ImagesHidden (x :: history) trace ↔ ImagesHidden history trace := by
  induction trace with
  | nil => exact Iff.rfl
  | cons e older ih =>
    match e with
    | .ptrace (.syscall pid data) (.ok reply) =>
      rw [ImagesHidden, ImagesHidden, unhidden_cons h, ih (Nat.le_of_succ_le h)]
    | .ptrace (.syscall _ _) (.error _) | .ptrace (.peek _ _) _ | .ptrace (.pokedata _ _ _) _
    | .ptrace (.getregs _) _ | .ptrace (.setregs _ _) _ | .ptrace (.geteventmsg _) _ | .wait _ _ =>
      exact ih (Nat.le_of_succ_le h)
    | .malloc _ _ | .call _ _ _ => exact ih h

theorem imagesKept_of_cons (h : ImagesKept first (x :: history) trace) :
    ImagesKept first history trace := by
  have hsub : ∀ {n m}, m ∈ movesBefore history n → m ∈ movesBefore (x :: history) n := by
    intro n m hm
    obtain ⟨y, hy, rfl⟩ := List.mem_map.mp hm
    obtain ⟨hmem, hn⟩ := List.mem_filter.mp hy
    exact List.mem_map.mpr ⟨y, List.mem_filter.mpr ⟨.tail _ hmem, hn⟩, rfl⟩
  induction trace with
  | nil => trivial
  | cons e older ih =>
    match e with
    | .ptrace .. | .wait (some _) _ => exact ⟨fun m hm => h.1 m (hsub hm), ih h.2⟩
    | .wait none _ | .malloc .. | .call .. => exact ih h

/-! ### The processes with a new program -/

/-- In the stop of its `execve`, which is not reported yet. -/
def Task.AtExec (t : Task) : Prop := ∃ message, t.state = .stopped (.event .exec message) false

/-- Dead, or in the stop of its `execve`. -/
def Task.Renewed (t : Task) : Prop := t.isDead = true ∨ t.AtExec

/-- The processes with a new program, with the moves that the next query will find. -/
def pending (trace : List (Event World)) (w : World) : List PidT :=
  (movesBefore w.history (queries trace)).foldr Move.enlists (unhidden w.history trace)

/-- Where the processes are that have a new program, and those that were reported. -/
structure Renewals (first : PidT) (trace : List (Event World)) (w : World) : Prop where
  renewed : ∀ p ∈ pending trace w, p ∈ awaiting trace ∨ Only p Task.Renewed w
  taken : ∀ p, Taken first p trace →
    (∀ m ∈ movesBefore w.history (queries trace), p ∉ m.execs) → Only p (fun t => ¬t.AtExec) w
  hidden : ImagesHidden w.history trace

theorem renewed_moves (h : t.Renewed) (hmoves : t.Moves t') : t'.Renewed := by
  refine .inl (isDead_of_moves hmoves (h.imp_right ?_))
  rintro ⟨message, hstate⟩
  exact ⟨_, by rw [Task.stop?, hstate]⟩

theorem renewed_moved (h : Only p Task.Renewed w) (hmoved : Moved w m w')
    (hborn : ∀ q e thread share rsp, m ≠ .fork q p e thread share rsp) :
    Only p Task.Renewed w' := by
  intro t ht
  have hbecomes := becomes hmoved p
  rw [ht] at hbecomes
  generalize ho : some t = o at hbecomes
  cases hbecomes with
  | same => exact h t ho.symm
  | own hu hmoves =>
    cases ho
    exact renewed_moves (h _ hu) hmoves
  | born hfree hu hstate hnr => exact absurd rfl (hborn _ _ _ _ _)
  | gone hu hstate hnr hleader => cases ho
  | replaced hold hu hstate hnr hdead =>
    cases ho
    exact .inr ⟨_, rfl⟩

theorem Only.setTask {S : Task → Prop} {q : PidT} (h : Only p S w) (ht : S t) :
    Only p S (w.setTask q (some t)) := by
  by_cases hp : p = q
  · subst hp
    exact only_setTask ht
  · intro u hu
    rw [World.task_setTask_of_ne _ _ hp] at hu
    exact h u hu

/-- Only an `execve` brings a process to such a stop. -/
theorem notAtExec_moved (h : Only p (fun t => ¬t.AtExec) w) (hmoved : Moved w m w')
    (hexec : p ∉ m.execs) : Only p (fun t => ¬t.AtExec) w' := by
  cases hmoved with
  | enter ht hstate => exact h.setTask (by simp [Task.AtExec, Task.enter])
  | finish ht hstate => exact h.setTask (by simp [Task.AtExec])
  | fork ht hstate hnr he hchild hfree hshare =>
    refine Only.congr ((h.setTask ?_).setTask ?_) rfl
    · rintro ⟨message, hexec⟩
      cases hexec
      exact he rfl
    · simp [Task.AtExec, Task.newborn]
  | @exec q leader t old regs image ht hstate hnr hold htgid hleader hdead halone =>
    have hne : p ≠ leader := fun hp => hexec (hp ▸ rfl)
    intro u hu
    have hother : (w.exec q leader t old regs image).task p = (w.setTask q none).task p :=
      Function.update_of_ne hne _ _
    rw [hother] at hu
    by_cases hp : p = q
    · subst hp
      rw [World.task_setTask_self] at hu
      cases hu
    · rw [World.task_setTask_of_ne _ _ hp] at hu
      exact h u hu
  | signal ht hstate => exact h.setTask (by simp [Task.AtExec, Task.signal])
  | die ht hlive hstatus => exact h.setTask (by simp [Task.AtExec])
  | store => exact h

/-! ### One step -/

theorem mem_enlists {pids : List PidT} (h : p ∈ m.enlists pids) :
    p ∈ m.execs ∨ p ∈ pids ∧ ∀ q e thread share rsp, m ≠ .fork q p e thread share rsp := by
  cases m with
  | exec q leader regs image =>
    rcases List.mem_cons.mp h with rfl | h
    · exact .inl rfl
    · exact .inr ⟨h, by simp⟩
  | fork q child e thread share rsp =>
    obtain ⟨hmem, hne⟩ := List.mem_filter.mp h
    refine .inr ⟨hmem, ?_⟩
    rintro q' e' thread' share' rsp' heq
    cases heq
    simp at hne
  | enter | finish | signal | die | store => exact .inr ⟨h, by simp⟩

/-- What executes a program is in the stop of its `execve`. -/
theorem renewed_exec (hmoved : Moved w m w') (h : p ∈ m.execs) : Only p Task.Renewed w' := by
  cases hmoved with
  | exec ht hstate hnr hold htgid hleader hdead halone =>
    cases h
    exact Only.congr (only_setTask (.inr ⟨_, rfl⟩)) rfl
  | enter | finish | fork | signal | die | store => cases h

theorem pending_cons (h : w.tick = queries trace) :
    pending trace { w' with history := (w.tick, m) :: w.history } =
      m.enlists (pending trace w) := by
  rw [pending, pending, h, movesBefore_cons_self, unhidden_cons (Nat.le_refl _), List.foldr_cons]

theorem Renewals.moved (h : Renewals first trace w) (htick : w.tick = queries trace)
    (hmoved : Moved w m w') :
    Renewals first trace { w' with history := (w.tick, m) :: w.history } where
  renewed p hp := by
    rw [pending_cons htick] at hp
    rcases mem_enlists hp with hexec | ⟨hp, hborn⟩
    · exact .inr ((renewed_exec hmoved hexec).congr rfl)
    · exact (h.renewed p hp).imp_right fun hrenewed =>
        (renewed_moved hrenewed hmoved hborn).congr rfl
  taken p htaken hexecs := by
    rw [htick, movesBefore_cons_self] at hexecs
    have hbefore := h.taken p htaken fun m' hm' => hexecs m' (.tail _ hm')
    exact (notAtExec_moved hbefore hmoved (hexecs m (.head _))).congr rfl
  hidden := (imagesHidden_cons htick.ge).mpr h.hidden

/-- A query or an event of the tracer's own, after which no move has happened yet. -/
theorem Renewals.next {e : Event World} (h : Renewals first trace w)
    (hhistory : w'.history = w.history) (hpast : ∀ x ∈ w.history, x.1 < queries (e :: trace))
    (hrenewed : ∀ p ∈ unhidden w.history (e :: trace),
      p ∈ awaiting (e :: trace) ∨ Only p Task.Renewed w')
    (htaken : ∀ p, Taken first p (e :: trace) → Only p (fun t => ¬t.AtExec) w')
    (hhidden : ImagesHidden w.history trace → ImagesHidden w.history (e :: trace)) :
    Renewals first (e :: trace) w' where
  renewed p hp := by
    rw [pending, hhistory, movesBefore_of_lt hpast] at hp
    exact hrenewed p hp
  taken p hp _ := htaken p hp
  hidden := hhistory ▸ hhidden h.hidden

/-- A process that was taken up before a query has not executed a program since. -/
theorem Renewals.notAtExec (h : Renewals first trace w) (hp : Taken first p trace)
    (hkept : ∀ m ∈ movesBefore w.history (queries trace), ∀ q ∈ m.execs, ¬Taken first q trace) :
    Only p (fun t => ¬t.AtExec) w :=
  h.taken p hp fun m hm hexec => hkept m hm p hexec hp

theorem renewed_of_state (h : Only p Task.Renewed w)
    (hstate : ∀ u, w'.task p = some u → ∃ u₀, w.task p = some u₀ ∧ u.state = u₀.state) :
    Only p Task.Renewed w' := by
  intro u hu
  obtain ⟨u₀, hu₀, hsame⟩ := hstate u hu
  have hrenewed := h u₀ hu₀
  rwa [Task.Renewed, Task.isDead, Task.AtExec, ← hsame] at hrenewed

/-- What is resumed has no program that is not hidden. -/
theorem Renewals.not_pending (h : Renewals first trace w) (ht : w.task p = some t)
    (hstop : t.isStopped = true)
    (hawaiting : p ∉ awaiting trace) (htaken : Taken first p trace)
    (hkept : ∀ m ∈ movesBefore w.history (queries trace), ∀ q ∈ m.execs, ¬Taken first q trace) :
    p ∉ pending trace w := by
  intro hp
  rcases h.renewed p hp with hwaits | hrenewed
  · exact hawaiting hwaits
  · rcases hrenewed t ht with hdead | hexec
    · obtain ⟨stop, reported, hstate⟩ := Task.state_of_isStopped hstop
      simp [Task.isDead, hstate] at hdead
    · exact h.notAtExec htaken hkept t ht hexec

variable {r : Request}

theorem notAtExec_perform {w : World} (ht : w.task r.pid = some t) (hstop : t.isStopped = true)
    (h : Only p (fun t => ¬t.AtExec) w) : Only p (fun t => ¬t.AtExec) (w.perform t r).2 := by
  rintro u hu ⟨message, hexec⟩
  obtain ⟨u₀, hu₀, ⟨hsame, -⟩ | ⟨-, hruns⟩⟩ := state_perform ht hstop hu
  · exact h u₀ hu₀ ⟨message, hsame ▸ hexec⟩
  · simp [hexec] at hruns

/-- What was taken up at a request was so before it. -/
theorem taken_of_ptrace {answer : Except Errno r.Reply}
    (h : Taken first p (.ptrace r answer :: trace : List (Event World))) :
    Taken first p trace := by
  cases r with
  | syscall q data =>
    cases answer with
    | ok reply => exact h.2
    | error e => exact h
  | peek | pokedata | getregs | setregs | geteventmsg => exact h

theorem Renewals.performed (h : Renewals first trace w)
    (hpast : ∀ x ∈ w.history, x.1 ≤ queries trace)
    (ht : w.task r.pid = some t) (hstop : t.isStopped = true)
    (hhidden : VdsoHidden (.ptrace r (w.ticked.perform t r).1 :: trace))
    (hattended : Attended first (.ptrace r (w.ticked.perform t r).1 :: trace))
    (hkept : ∀ m ∈ movesBefore w.history (queries trace), ∀ q ∈ m.execs, ¬Taken first q trace) :
    Renewals first (.ptrace r (w.ticked.perform t r).1 :: trace) (w.ticked.perform t r).2 := by
  -- a process that is resumed is not on the list
  have hresumed : ∀ p data, r = .syscall p data → p ∉ pending trace w := by
    rintro p data rfl
    obtain ⟨stop, hstop'⟩ := stop?_of_isStopped hstop
    obtain ⟨reply, hreply⟩ := perform_syscall_ok (w := w.ticked) hstop' p data
    rw [hreply] at hhidden
    exact h.not_pending ht hstop hhidden.1 hattended.1 hkept
  refine h.next (record_perform w.ticked t r).history (fun x hx => Nat.lt_succ_of_le (hpast x hx))
    (fun p hp => ?_) (fun p hp => ?_) fun hbefore => ?_
  · refine (h.renewed p hp).imp_right fun hrenewed => renewed_of_state hrenewed fun u hu => ?_
    obtain ⟨u₀, hu₀, ⟨hsame, -⟩ | ⟨⟨data, hr⟩, -⟩⟩ :=
      state_perform (w := w.ticked) ht hstop hu
    · exact ⟨u₀, hu₀, hsame⟩
    · exact absurd hp (hresumed p data hr)
  · exact notAtExec_perform ht hstop (h.notAtExec (taken_of_ptrace hp) hkept)
  · cases r with
    | syscall pid data =>
      cases (w.ticked.perform t (.syscall pid data)).1 with
      | ok reply => exact ⟨hresumed pid data rfl, hbefore⟩
      | error e => exact hbefore
    | peek | pokedata | getregs | setregs | geteventmsg => exact hbefore

theorem Renewals.refused (h : Renewals first trace w) (hpast : ∀ x ∈ w.history, x.1 ≤ queries trace)
    (hkept : ∀ m ∈ movesBefore w.history (queries trace), ∀ q ∈ m.execs, ¬Taken first q trace) :
    Renewals first (.ptrace r (.error .ESRCH) :: trace) w.ticked := by
  refine h.next rfl (fun x hx => Nat.lt_succ_of_le (hpast x hx)) (fun p hp => ?_) (fun p hp => ?_)
    fun hbefore => ?_
  · exact h.renewed p hp
  · exact h.notAtExec (taken_of_ptrace hp) hkept
  · cases r <;> exact hbefore

/-- The report of a stop of an `execve`. -/
theorem awaiting_of_atExec {target : WaitTarget} {stop : Stop} (ht : t.Renewed)
    (hstate : t.state = .stopped stop false) :
    p ∈ awaiting (.wait target (some (.ok (p, stop.status))) :: trace : List (Event World)) := by
  rcases ht with hdead | ⟨message, hexec⟩
  · simp [Task.isDead, hstate] at hdead
  · cases hexec.symm.trans hstate
    have hstop : isExecStop (Stop.event .exec message).status = true := by
      show isExecStop (stopStatus PtraceEvent.exec.number SIGTRAP) = true
      decide
    rw [awaiting, if_pos hstop]
    exact List.mem_cons_self

theorem mem_awaiting_wait {target : WaitTarget}
    {answer : Option (Except Errno (PidT × Status))}
    (h : p ∈ awaiting trace) :
    p ∈ awaiting (.wait target answer :: trace : List (Event World)) := by
  match answer with
  | some (.ok (q, status)) =>
    rw [awaiting]
    split
    · exact .tail _ h
    · exact h
  | some (.error _) | none => exact h

/-- What is taken up after a wait was reported by it, or taken up before a wait for one process. -/
theorem taken_of_wait {target : WaitTarget} {q : PidT} {status : Status}
    (htarget : target.getD q = q)
    (h : Taken first p (.wait target (some (.ok (q, status))) :: trace : List (Event World))) :
    p = q ∨ ∃ q', target = some q' ∧ Taken first p trace := by
  cases target with
  | none => exact .inl (Eq.symm h)
  | some q' =>
    obtain rfl : q' = q := htarget
    exact h.imp Eq.symm fun h => ⟨q', rfl, h⟩

theorem Renewals.reported (h : Renewals first trace w)
    (hpast : ∀ x ∈ w.history, x.1 ≤ queries trace)
    {target : WaitTarget} {pid : PidT} {status : Status}
    (hreported : Reported w.ticked pid status w') (htarget : target.getD pid = pid)
    (hkept : ∀ q', target = some q' →
      ∀ m ∈ movesBefore w.history (queries trace), ∀ q ∈ m.execs, ¬Taken first q trace) :
    Renewals first (.wait target (some (.ok (pid, status))) :: trace) w' := by
  have hother : ∀ q, q ≠ pid → w'.task q = w.task q := by
    intro q hq
    cases hreported with
    | stopped | reaped => exact World.task_setTask_of_ne _ _ hq
  have hhistory : w'.history = w.history := by cases hreported <;> rfl
  refine h.next hhistory (fun x hx => Nat.lt_succ_of_le (hpast x hx)) (fun p hp => ?_)
    (fun p hp => ?_) fun hbefore => hbefore
  · rcases h.renewed p hp with hawaiting | hrenewed
    · exact .inl (mem_awaiting_wait hawaiting)
    · by_cases hsame : p = pid
      · subst hsame
        cases hreported with
        | stopped ht hstate => exact .inl (awaiting_of_atExec (hrenewed _ ht) hstate)
        | reaped ht hstate hlast =>
          refine .inr fun u hu => ?_
          rw [World.task_setTask_self] at hu
          cases hu
      · exact .inr fun u hu => hrenewed u (hother p hsame ▸ hu)
  · by_cases hsame : p = pid
    · subst hsame
      cases hreported with
      | stopped ht hstate => exact only_setTask (by simp [Task.AtExec])
      | reaped ht hstate hlast =>
        intro u hu
        rw [World.task_setTask_self] at hu
        cases hu
    · rcases taken_of_wait htarget hp with heq | ⟨q', hq', hbefore⟩
      · exact absurd heq hsame
      · exact fun u hu => h.notAtExec hbefore (hkept q' hq') u (hother p hsame ▸ hu)

theorem Renewals.unreported (h : Renewals first trace w)
    (hpast : ∀ x ∈ w.history, x.1 ≤ queries trace) {target : WaitTarget}
    {answer : Option (Except Errno (PidT × Status))}
    (hanswer : ∀ report, answer ≠ some (.ok report))
    (hkept : ∀ q', target = some q' →
      ∀ m ∈ movesBefore w.history (queries trace), ∀ q ∈ m.execs, ¬Taken first q trace) :
    Renewals first (.wait target answer :: trace) w.ticked := by
  refine h.next rfl (fun x hx => Nat.lt_succ_of_le (hpast x hx)) (fun p hp => ?_) (fun p hp => ?_)
    fun hbefore => hbefore
  · exact (h.renewed p hp).imp_left mem_awaiting_wait
  · match target, answer, hp with
    | _, some (.ok report), _ => exact absurd rfl (hanswer report)
    | some q', some (.error _), hp | some q', none, hp => exact h.notAtExec hp (hkept q' rfl)

/-! ### Every run -/

/-- What is known as long as the conditions on the trace are met. -/
structure Story (first : PidT) (trace : List (Event World)) (w : World) : Prop where
  tick : w.tick = queries trace
  renewals : VdsoHidden trace → Attended first trace → ImagesKept first w.history trace →
    Renewals first trace w

theorem vdsoHidden_of_cons {e : Event World} (h : VdsoHidden (e :: trace)) : VdsoHidden trace := by
  match e, h with
  | .ptrace (.syscall _ _) (.ok _), h => exact h.2
  | .ptrace (.syscall _ _) (.error _), h | .ptrace (.peek _ _) _, h
  | .ptrace (.pokedata _ _ _) _, h | .ptrace (.getregs _) _, h | .ptrace (.setregs _ _) _, h
  | .ptrace (.geteventmsg _) _, h | .wait _ _, h | .malloc _ _, h | .call _ _ _, h => exact h

theorem attended_of_cons {e : Event World} (h : Attended first (e :: trace)) :
    Attended first trace := by
  match e, h with
  | .ptrace (.syscall _ _) _, h => exact h.2
  | .ptrace (.peek _ _) _, h | .ptrace (.pokedata _ _ _) _, h | .ptrace (.getregs _) _, h
  | .ptrace (.setregs _ _) _, h | .ptrace (.geteventmsg _) _, h | .wait _ _, h | .malloc _ _, h
  | .call _ _ _, h => exact h

/-- An event of the tracer's own. -/
theorem Renewals.own (h : Renewals first trace w) (hpast : ∀ x ∈ w.history, x.1 < queries trace)
    (c : Call) (table : List ChildProcess) (os : World) :
    Renewals first (.call c table os :: trace) w := by
  have hpending : pending trace w = unhidden w.history trace := by
    rw [pending, movesBefore_of_lt hpast]
    rfl
  have hrenewed := h.renewed
  rw [hpending] at hrenewed
  have htaken : ∀ p, Taken first p trace → Only p (fun t => ¬t.AtExec) w := fun p hp =>
    h.taken p hp fun m hm => by simp [movesBefore_of_lt hpast] at hm
  refine h.next rfl hpast (fun p hp => ?_) htaken id
  cases c with
  | removeVdso pid =>
    obtain ⟨hmem, hne⟩ := List.mem_filter.mp hp
    exact (hrenewed p hmem).imp_left fun hawaiting => List.mem_filter.mpr ⟨hawaiting, hne⟩
  | insertProcess | deleteProcess | handleSyscall => exact hrenewed p hp

theorem chronicles_story (first : PidT) :
    Chronicles (fun trace w => Story first trace w ∧ ∀ x ∈ w.history, x.1 < w.tick)
      (fun trace w => Story first trace w ∧ ∀ x ∈ w.history, x.1 ≤ w.tick) where
  begins h := ⟨h.1, fun x hx => (h.2 x hx).le⟩
  moved {trace w m w'} h hmoved := by
    refine ⟨⟨(tick_moved hmoved).trans h.1.tick, fun hhidden hattended hkept => ?_⟩, fun x hx => ?_⟩
    · exact (h.1.renewals hhidden hattended (imagesKept_of_cons hkept)).moved h.1.tick hmoved
    · rw [show World.tick _ = w.tick from tick_moved hmoved]
      rcases List.mem_cons.mp hx with rfl | hx
      · exact Nat.le_refl _
      · exact h.2 x hx
  malloc size granted h := by
    refine ⟨⟨h.1.tick, fun hhidden hattended hkept => ?_⟩, h.2⟩
    have hpast := h.1.tick ▸ h.2
    have hrenewals := h.1.renewals hhidden hattended hkept
    exact ⟨hrenewals.renewed, hrenewals.taken, hrenewals.hidden⟩
  call c table os h := by
    refine ⟨⟨h.1.tick, fun hhidden hattended hkept => ?_⟩, h.2⟩
    exact (h.1.renewals hhidden hattended hkept).own (h.1.tick ▸ h.2) c table os
  performed {trace w r t} h ht hstop := by
    have htick : (w.ticked.perform t r).2.tick = w.tick + 1 := tick_perform w.ticked t r
    have hhistory := (record_perform w.ticked t r).history
    refine ⟨⟨htick.trans (congrArg (· + 1) h.1.tick), fun hhidden hattended hkept => ?_⟩, ?_⟩
    · rw [hhistory] at hkept
      exact (h.1.renewals (vdsoHidden_of_cons hhidden) (attended_of_cons hattended)
        hkept.2).performed (h.1.tick ▸ h.2) ht hstop hhidden hattended hkept.1
    · rw [hhistory, htick]
      exact fun x hx => Nat.lt_succ_of_le (h.2 x hx)
  refused h hstill := by
    refine ⟨⟨congrArg (· + 1) h.1.tick, fun hhidden hattended hkept => ?_⟩,
      fun x hx => Nat.lt_succ_of_le (h.2 x hx)⟩
    exact (h.1.renewals (vdsoHidden_of_cons hhidden) (attended_of_cons hattended)
      hkept.2).refused (h.1.tick ▸ h.2) hkept.1
  reported {trace w w' target pid status} h hreported htarget := by
    have htick : w'.tick = w.tick + 1 := by cases hreported <;> rfl
    have hhistory : w'.history = w.history := by cases hreported <;> rfl
    refine ⟨⟨htick.trans (congrArg (· + 1) h.1.tick), fun hhidden hattended hkept => ?_⟩, ?_⟩
    · rw [hhistory] at hkept
      cases target with
      | none =>
        exact (h.1.renewals hhidden hattended hkept).reported (h.1.tick ▸ h.2) hreported htarget
          (by simp)
      | some q =>
        exact (h.1.renewals hhidden hattended hkept.2).reported (h.1.tick ▸ h.2) hreported htarget
          fun _ _ => hkept.1
    · rw [hhistory, htick]
      exact fun x hx => Nat.lt_succ_of_le (h.2 x hx)
  unreported {trace w target answer} h hanswer := by
    refine ⟨⟨congrArg (· + 1) h.1.tick, fun hhidden hattended hkept => ?_⟩,
      fun x hx => Nat.lt_succ_of_le (h.2 x hx)⟩
    cases target with
    | none =>
      exact (h.1.renewals hhidden hattended hkept).unreported (h.1.tick ▸ h.2) hanswer (by simp)
    | some q =>
      exact (h.1.renewals hhidden hattended hkept.2).unreported (h.1.tick ▸ h.2) hanswer
        fun _ _ => hkept.1

theorem story_boot (b : Boot) : Story b.childPid [] b.world where
  tick := rfl
  renewals _ _ _ := by
    refine ⟨List.forall_mem_nil _, fun p hp _ t ht => ?_, trivial⟩
    -- the first process is in the stop of a signal
    rw [(boot_cases b ht).2]
    rintro ⟨message, hstate⟩
    cases hstate

variable {b : Boot} {env : Env} {scan : Nat} {C : Tracer World → Tracer World → Prop}
  {s s' : Tracer World}

/-- A turn from a head of the loop is the last one of a run. -/
theorem Boot.Head.exists_run (h : b.Head env scan C s) :
    ∃ n, finalState (b.run env scan n) = finalState (handleEventTurn (kernel env) scan () s) := by
  obtain ⟨k, hk⟩ := h.run_eq
  refine ⟨k + 1, ?_⟩
  rw [hk]
  cases hturn : handleEventTurn (kernel env) scan () s with
  | error e s' => rw [handleEvent, loop, bind_apply_error hturn]; rfl
  | ok r s' =>
    cases r with
    | inl u => rw [handleEvent, loop_next hturn]; rfl
    | inr u => rw [handleEvent, loop_done hturn]; rfl

/-- In a run of undisturbed turns every exec stop that is received is answered. -/
theorem Boot.Head.hidden {first : PidT} (h : b.Head env scan (Undisturbed first) s) :
    Hidden s.trace := by
  -- over the turns of the run
  induction h with
  | first hinsert hresume =>
    rw [(begun_first hinsert hresume).trace, ← List.append_nil [_, _, _]]
    refine hidden_nil.append fun e he => ?_
    simp only [List.mem_cons, List.not_mem_nil, or_false] at he
    rcases he with rfl | rfl | rfl <;> exact id
  | @turn s s' h hturn hundisturbed ih =>
    have hfinal : finalState (handleEventTurn (kernel env) scan () s) = s' := by
      rw [hturn]
      rfl
    have hhidden := @hidden_turn _ (kernel env) scan _ ih
    rw [hfinal] at hhidden
    exact hhidden hundisturbed.inside

/-- In an undisturbed run every process with a new program is resumed only after `remove_vdso` was
called for it, whether its exec stop was received or not, and a handler writes to the image that
made the call only. -/
theorem execs_hidden (h : b.Head env scan (Undisturbed b.childPid) s)
    (hs' : s' = finalState (handleEventTurn (kernel env) scan () s))
    (hlast : Undisturbed b.childPid s s') :
    VdsoHidden s'.trace ∧ ImagesHidden s'.os.history s'.trace ∧ WritesStay s s' := by
  subst hs'
  have hhidden := (hidden_turn h.hidden hlast.inside).hidden
  refine ⟨hhidden, ?_, writesStay_turn hlast.image⟩
  obtain ⟨n, hn⟩ := h.exists_run
  have hstory := ((chronicles_story b.childPid).run env ⟨story_boot b, List.forall_mem_nil _⟩
    scan n).1
  have hattended := (run_disciplined b env scan n).2
  rw [hn] at hstory hattended
  exact (hstory.renewals hhidden hattended hlast.kept).hidden

/-- Thread 101 executes a program while the tracer waits for the end of a cancelled call of the
leader 100. -/
def leaderReplaced : Env :=
  scripted [(1, ⟨[.enter 100 cloneCall], 100⟩), (4, ⟨[.fork 100 101 .clone true true 0], 100⟩),
    (10, ⟨[.enter 101 execveCall], 101⟩), (13, ⟨[.finish 100 default], 100⟩),
    (16, ⟨[.enter 100 clockGettimeCall], 100⟩),
    (20, ⟨[.die 100 0, .exec 101 100 default Boot.sample.memory], 100⟩)]

/-- The same, but the program is executed right after the entry stop of the leader was reported. -/
def leaderOvertaken : Env :=
  scripted [(1, ⟨[.enter 100 cloneCall], 100⟩), (4, ⟨[.fork 100 101 .clone true true 0], 100⟩),
    (10, ⟨[.enter 101 execveCall], 101⟩), (13, ⟨[.finish 100 default], 100⟩),
    (16, ⟨[.enter 100 clockGettimeCall], 100⟩),
    (17, ⟨[.die 100 0, .exec 101 100 default Boot.sample.memory], 100⟩)]

/-- The program that thread 101 executes is resumed with its vDSO, and the registers and the result
of the call of the old program are written into it.  Overtaking the tracer, it is resumed with its
vDSO though no wait has received its exec stop. -/
theorem not_execs_hidden_leaderReplaced :
    (∃ s s', Boot.sample.Head leaderReplaced 0 (fun _ _ => True) s ∧
      s' = finalState (handleEventTurn (kernel leaderReplaced) 0 () s) ∧
      ¬VdsoHidden s'.trace ∧ ¬ImagesHidden s'.os.history s'.trace ∧ ¬WritesStay s s') ∧
    ∃ s s', Boot.sample.Head leaderOvertaken 0 (fun _ _ => True) s ∧
      s' = finalState (handleEventTurn (kernel leaderOvertaken) 0 () s) ∧
      ¬ImagesHidden s'.os.history s'.trace := by
  have hreplaced : (Boot.sample.head leaderReplaced 0 (fun _ _ => True) 4).any (fun s =>
      let s' := finalState (handleEventTurn (kernel leaderReplaced) 0 () s)
      ¬VdsoHidden s'.trace ∧ ¬ImagesHidden s'.os.history s'.trace ∧ ¬WritesStay s s') = true := by
    decide +kernel
  have hovertaken : (Boot.sample.head leaderOvertaken 0 (fun _ _ => True) 4).any (fun s =>
      let s' := finalState (handleEventTurn (kernel leaderOvertaken) 0 () s)
      ¬ImagesHidden s'.os.history s'.trace) = true := by
    decide +kernel
  obtain ⟨s, hs, hreplaced⟩ := (Option.any_eq_true _ _).mp hreplaced
  obtain ⟨s₁, hs₁, hovertaken⟩ := (Option.any_eq_true _ _).mp hovertaken
  exact ⟨⟨s, _, Boot.head_eq_some hs, rfl, of_decide_eq_true hreplaced⟩,
    s₁, _, Boot.head_eq_some hs₁, rfl, of_decide_eq_true hovertaken⟩

/-- The first task executes a program. -/
def firstExecs : Env :=
  scripted [(1, ⟨[.enter 100 execveCall], 100⟩),
    (4, ⟨[.exec 100 100 default Boot.sample.memory], 100⟩)]

/-- Its new program is on the list until `remove_vdso` is called, and then it is resumed. -/
theorem execveCall_hidden :
    ∃ s s', Boot.sample.Head firstExecs 3 (Undisturbed 100) s ∧
      s' = finalState (handleEventTurn (kernel firstExecs) 3 () s) ∧
      (s'.os.task 100).map (fun t => (t.mm, t.state)) = some (1, .kernel false) ∧
      VdsoHidden s'.trace ∧ ImagesHidden s'.os.history s'.trace ∧ WritesStay s s' := by
  have hrun : (Boot.sample.head firstExecs 3 (Undisturbed 100) 1).any (fun s =>
      let s' := finalState (handleEventTurn (kernel firstExecs) 3 () s)
      Undisturbed 100 s s' ∧
        (s'.os.task 100).map (fun t => (t.mm, t.state)) = some (1, .kernel false)) = true := by
    decide +kernel
  obtain ⟨s, hs, hrun⟩ := (Option.any_eq_true _ _).mp hrun
  obtain ⟨hundisturbed, htask⟩ := of_decide_eq_true hrun
  have hhead := Boot.head_eq_some hs
  exact ⟨s, _, hhead, rfl, htask, execs_hidden (b := Boot.sample) hhead rfl hundisturbed⟩

end Reproduce.Linux
