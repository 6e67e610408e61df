import Reproduce.Linux.Equiv.Story
import Reproduce.Linux.Equiv.Watched

/-!
# New processes and their creators

A process that is created stops by itself, and its creator stops to announce it.  Along the story
one can tell which new processes have not been seen (`creations`) and which processes have an entry
(`enrolled`), and so whether a process was lost: a creator died before the tracer knew of its new
child (`NoneOrphaned`), or a thread took the place of a leader without an entry (`NoneUsurped`).

As long as no creator dies like this, every new process without an entry is named by the stop that
its creator is in (`Announced`).
-/

namespace Reproduce.Linux

open Bytes Effect

/-! ### The story -/

/-- The processes with an entry, by the calls that were recorded. -/
def enrolled : List (Event World) → List PidT
  | [] => []
  | .call (.insertProcess pid) _ _ :: older => pid :: enrolled older
  | .call (.deleteProcess pid) _ _ :: older => (enrolled older).filter fun q => q ≠ pid
  | .ptrace .. :: older | .wait .. :: older | .malloc .. :: older | .call .. :: older =>
    enrolled older

/-- A new process comes onto the list, behind its creator, and leaves it when it dies. -/
def Move.announces : Move → List (PidT × PidT) → List (PidT × PidT)
  | .fork pid child .., l => (pid, child) :: l.filter fun x => x.2 ≠ child
  | .die pid _, l => l.filter fun x => x.2 ≠ pid
  | .enter .., l | .finish .., l | .exec .., l | .signal .., l | .store .., l => l

/-- The creations whose new process no wait has reported yet. -/
def creations (history : List (Nat × Move)) : List (Event World) → List (PidT × PidT)
  | [] => []
  | .wait _ (some (.ok (pid, _))) :: older =>
    ((movesBefore history (queries older)).foldr Move.announces (creations history older)).filter
      fun x => x.2 ≠ pid
  | .ptrace .. :: older | .wait _ none :: older | .wait _ (some (.error _)) :: older =>
    (movesBefore history (queries older)).foldr Move.announces (creations history older)
  | .malloc .. :: older | .call .. :: older => creations history older

/-- A thread takes the place of a leader that has no entry. -/
def Move.Usurps (entries : List PidT) : Move → Prop
  | .exec pid leader .. => pid ≠ leader ∧ leader ∉ entries
  | .enter .. | .finish .. | .fork .. | .signal .. | .die .. | .store .. => False

/-- A process dies and leaves a new process without an entry that was not seen. -/
def Move.Orphans (l : List (PidT × PidT)) (entries : List PidT) : Move → Prop
  | .die pid _ => ∃ x ∈ l, x.1 = pid ∧ x.2 ∉ entries
  | .enter .. | .finish .. | .fork .. | .exec .. | .signal .. | .store .. => False

/-- None of the moves before a query, newest first, leaves an orphan. -/
def OrphanNone (l : List (PidT × PidT)) (entries : List PidT) : List Move → Prop
  | [] => True
  | m :: older => ¬m.Orphans (older.foldr Move.announces l) entries ∧ OrphanNone l entries older

/-- Every move had `P`, with the processes that had an entry before the query that followed it. -/
def EveryMove (P : List PidT → Move → Prop) (history : List (Nat × Move)) :
    List (Event World) → Prop
  | [] => True
  | .ptrace .. :: older | .wait .. :: older =>
    (∀ m ∈ movesBefore history (queries older), P (enrolled older) m) ∧ EveryMove P history older
  | .malloc .. :: older | .call .. :: older => EveryMove P history older

/-- No thread has taken the place of a leader without an entry. -/
abbrev NoneUsurped (history : List (Nat × Move)) (trace : List (Event World)) : Prop :=
  EveryMove (fun entries m => ¬m.Usurps entries) history trace

/-- No process has died while it had a new child without an entry that was not seen. -/
def NoneOrphaned (history : List (Nat × Move)) : List (Event World) → Prop
  | [] => True
  | .ptrace .. :: older | .wait .. :: older =>
    OrphanNone (creations history older) (enrolled older)
      (movesBefore history (queries older)) ∧ NoneOrphaned history older
  | .malloc .. :: older | .call .. :: older => NoneOrphaned history older

theorem mem_movesBefore {history : List (Nat × Move)} {n : Nat} {m : Move}
    (h : m ∈ movesBefore history n) : ∃ x ∈ history, x.2 = m := by
  obtain ⟨x, hx, rfl⟩ := List.mem_map.mp h
  exact ⟨x, (List.mem_filter.mp hx).1, rfl⟩

theorem everyMove_of_forall {P : List PidT → Move → Prop} {history : List (Nat × Move)}
    (h : ∀ x ∈ history, ∀ entries, P entries x.2) (trace : List (Event World)) :
    EveryMove P history trace := by
  induction trace with
  | nil => trivial
  | cons e older ih =>
    match e with
    | .ptrace .. | .wait .. =>
      refine ⟨fun m hm => ?_, ih⟩
      obtain ⟨x, hx, rfl⟩ := mem_movesBefore hm
      exact h x hx _
    | .malloc .. | .call .. => exact ih

section decidable

instance (entries : List PidT) : DecidablePred (Move.Usurps entries)
  | .exec pid leader .. => inferInstanceAs (Decidable (pid ≠ leader ∧ leader ∉ entries))
  | .enter .. | .finish .. | .fork .. | .signal .. | .die .. | .store .. =>
    inferInstanceAs (Decidable False)

instance (l : List (PidT × PidT)) (entries : List PidT) : DecidablePred (Move.Orphans l entries)
  | .die pid _ => inferInstanceAs (Decidable (∃ x ∈ l, x.1 = pid ∧ x.2 ∉ entries))
  | .enter .. | .finish .. | .fork .. | .exec .. | .signal .. | .store .. =>
    inferInstanceAs (Decidable False)

instance decidableOrphanNone (l : List (PidT × PidT)) (entries : List PidT) :
    DecidablePred (OrphanNone l entries)
  | [] => inferInstanceAs (Decidable True)
  | m :: older =>
    have := decidableOrphanNone l entries older
    inferInstanceAs (Decidable
      (¬m.Orphans (older.foldr Move.announces l) entries ∧ OrphanNone l entries older))

variable (history : List (Nat × Move))

instance decidableEveryMove (P : List PidT → Move → Prop) [∀ entries, DecidablePred (P entries)] :
    DecidablePred (EveryMove P history)
  | [] => inferInstanceAs (Decidable True)
  | .ptrace _ _ :: older | .wait _ _ :: older =>
    have := decidableEveryMove P older
    inferInstanceAs (Decidable
      ((∀ m ∈ movesBefore history (queries older), P (enrolled older) m) ∧
        EveryMove P history older))
  | .malloc _ _ :: older | .call _ _ _ :: older => decidableEveryMove P older

instance decidableNoneOrphaned : DecidablePred (NoneOrphaned history)
  | [] => inferInstanceAs (Decidable True)
  | .ptrace _ _ :: older | .wait _ _ :: older =>
    have := decidableNoneOrphaned older
    inferInstanceAs (Decidable
      (OrphanNone (creations history older) (enrolled older)
        (movesBefore history (queries older)) ∧ NoneOrphaned history older))
  | .malloc _ _ :: older | .call _ _ _ :: older => decidableNoneOrphaned older

end decidable

/-! ### Announcements -/

variable {tracked tracked' : PidT → Prop} {l l' : List (PidT × PidT)} {entries : List PidT}
  {w w' : World} {pid p q : PidT} {t t' : Task} {m : Move}

/-- No fork event that names a process without an entry. -/
def Cleared (tracked : PidT → Prop) (stop : Stop) : Prop :=
  ∀ e q, stop = .event e q → e = .exec ∨ tracked q

/-- Dead, or at a stop that announces nobody without an entry. -/
def Task.Clear (tracked : PidT → Prop) : Task → Prop :=
  Task.AtStop fun stop _ => Cleared tracked stop

theorem cleared_exec (tracked : PidT → Prop) (pid : PidT) :
    Cleared tracked (.event .exec pid) := by
  rintro e q ⟨⟩
  exact .inl rfl

theorem local_clear (tracked : PidT → Prop) : Local (Task.Clear tracked) :=
  local_atStop (fun _ _ _ h => h) (fun _ _ _ h => h) fun _ => cleared_exec tracked

theorem abides_clear (tracked : PidT → Prop) (pid : PidT) :
    Abides (Only pid (Task.Clear tracked)) :=
  abides_only (local_clear tracked) (fun _ _ _ _ _ => .inr ⟨.initial, rfl, fun _ _ => nofun⟩) pid

/-- Every new process without an entry whose first stop was not reported is on the list, and its
creator is in the stop that names it. -/
def Announced (tracked : PidT → Prop) (l : List (PidT × PidT)) (w : World) : Prop :=
  ∀ q t, w.task q = some t → t.state = .stopped .initial false → ¬tracked q →
    ∃ p u stop, w.task p = some u ∧ u.stop? = some stop ∧ (∃ e ≠ .exec, stop = .event e q) ∧
      (p, q) ∈ l

namespace Announced

theorem congr (h : Announced tracked l w) (htask : w'.task = w.task) :
    Announced tracked l w' := by
  unfold Announced
  rw [htask]
  exact h

theorem mono (h : Announced tracked l w) (hsub : ∀ q, tracked q → tracked' q) :
    Announced tracked' l w :=
  fun q t ht hstate hnot => h q t ht hstate fun hq => hnot (hsub q hq)

/-- Only the new processes on the list matter. -/
theorem relist (h : Announced tracked l w)
    (hl : ∀ x ∈ l, (∃ t, w.task x.2 = some t ∧ t.state = .stopped .initial false) → x ∈ l') :
    Announced tracked l' w := by
  intro q t ht hstate hnot
  obtain ⟨p, u, stop, hu, hstop, hevent, hmem⟩ := h q t ht hstate hnot
  exact ⟨p, u, stop, hu, hstop, hevent, hl _ hmem ⟨t, ht, hstate⟩⟩

/-- A task that announces nobody does something other than to begin. -/
theorem setTask (h : Announced tracked l w) (ht : w.task pid = some t)
    (hborn : t'.state = .stopped .initial false → t.state = .stopped .initial false)
    (hstays : ∀ e q, t.stop? = some (.event e q) → e ≠ .exec → ¬tracked q → (pid, q) ∈ l →
      t'.stop? = t.stop?) : Announced tracked l (w.setTask pid (some t')) := by
  intro q u hu hstate hnot
  have hold : ∃ u₀, w.task q = some u₀ ∧ u₀.state = .stopped .initial false := by
    by_cases hq : q = pid
    · subst hq
      rw [World.task_setTask_self] at hu
      cases hu
      exact ⟨t, ht, hborn hstate⟩
    · rw [World.task_setTask_of_ne _ _ hq] at hu
      exact ⟨u, hu, hstate⟩
  obtain ⟨u₀, hu₀, hstate₀⟩ := hold
  obtain ⟨p, v, stop, hv, hstop, ⟨e, he, rfl⟩, hmem⟩ := h q u₀ hu₀ hstate₀ hnot
  by_cases hp : p = pid
  · subst hp
    cases ht.symm.trans hv
    exact ⟨p, t', _, World.task_setTask_self .., (hstays e q hstop he hnot hmem).trans hstop,
      ⟨e, he, rfl⟩, hmem⟩
  · exact ⟨p, v, _, (World.task_setTask_of_ne _ _ hp).trans hv, hstop, ⟨e, he, rfl⟩, hmem⟩

/-- A task that runs announces nobody, nor does one in a stop of another kind. -/
theorem setTask_silent (h : Announced tracked l w) (ht : w.task pid = some t)
    (hborn : t'.state = .stopped .initial false → t.state = .stopped .initial false)
    (hsilent : ∀ stop, t.stop? = some stop → Cleared tracked stop) :
    Announced tracked l (w.setTask pid (some t')) :=
  h.setTask ht hborn fun e q hstop he hnot _ =>
    ((hsilent _ hstop e q rfl).elim he hnot).elim

theorem setTask_same (h : Announced tracked l w) (ht : w.task pid = some t)
    (hstate : t'.state = t.state) : Announced tracked l (w.setTask pid (some t')) :=
  h.setTask ht (fun hborn => hstate ▸ hborn) fun _ _ _ _ _ _ => by
    rw [Task.stop?, hstate, Task.stop?]

/-- A task is gone that announced nobody. -/
theorem unset (h : Announced tracked l w) (ht : w.task pid = some t) (hrun : t.stop? = none) :
    Announced tracked l (w.setTask pid none) := by
  intro q u hu hstate hnot
  by_cases hq : q = pid
  · subst hq
    rw [World.task_setTask_self] at hu
    cases hu
  rw [World.task_setTask_of_ne _ _ hq] at hu
  obtain ⟨p, v, stop, hv, hstop, hevent, hmem⟩ := h q u hu hstate hnot
  have hp : p ≠ pid := by
    rintro rfl
    cases ht.symm.trans hv
    cases hrun.symm.trans hstop
  exact ⟨p, v, stop, (World.task_setTask_of_ne _ _ hp).trans hv, hstop, hevent, hmem⟩

end Announced

theorem stop?_eq_none (h : t.state = .user ∨ (∃ fresh, t.state = .kernel fresh) ∨
    ∃ status, t.state = .zombie status) : t.stop? = none := by
  rcases h with h | ⟨fresh, h⟩ | ⟨status, h⟩ <;> simp [Task.stop?, h]

/-- The creation is announced by the stop that it ends in. -/
theorem announced_fork (h : Announced tracked l w) {child : PidT} {e : PtraceEvent}
    {thread share : Bool} {rsp : Word} (ht : w.task pid = some t) (hrun : t.stop? = none)
    (he : e ≠ .exec) (hfree : w.task child = none) :
    Announced tracked ((pid, child) :: l.filter fun x => x.2 ≠ child)
      (w.fork pid child t e thread share rsp) := by
  have hparent : Announced tracked l (w.setTask pid (some (t.forking e child w.births))) :=
    h.setTask_silent ht nofun fun stop hstop => by cases hrun.symm.trans hstop
  have hne : pid ≠ child := by
    rintro rfl
    cases hfree.symm.trans ht
  intro q u hu hstate hnot
  have hother : ∀ p ≠ child, (w.fork pid child t e thread share rsp).task p =
      (w.setTask pid (some (t.forking e child w.births))).task p :=
    fun p hp => Function.update_of_ne hp _ _
  by_cases hq : q = child
  · subst hq
    refine ⟨pid, t.forking e q w.births, .event e q, ?_, rfl, ⟨e, he, rfl⟩, .head _⟩
    exact (hother pid hne).trans (World.task_setTask_self ..)
  · rw [hother q hq] at hu
    obtain ⟨p, v, stop, hv, hstop, hevent, hmem⟩ := hparent q u hu hstate hnot
    have hp : p ≠ child := by
      rintro rfl
      rw [World.task_setTask_of_ne _ _ hne.symm] at hv
      cases hfree.symm.trans hv
    refine ⟨p, v, stop, (hother p hp).trans hv, hstop, hevent, .tail _ ?_⟩
    exact List.mem_filter.mpr ⟨hmem, by simpa using hq⟩

/-- A thread that executes a program announces nobody, nor does the leader that it replaces. -/
theorem announced_exec (h : Announced tracked l w) {leader : PidT} {old : Task}
    {regs : UserRegsStruct} {image : Memory} (ht : w.task pid = some t) (hrun : t.stop? = none)
    (hold : w.task leader = some old) (hdead : pid = leader ∨ old.isDead = true) :
    Announced tracked l (w.exec pid leader t old regs image) := by
  by_cases hp : pid = leader
  · subst hp
    have hset : Announced tracked l (w.setTask pid (some (t.exec old pid w.nextMm regs))) :=
      h.setTask_silent ht nofun fun stop hstop => by cases hrun.symm.trans hstop
    exact hset.congr (Function.update_idem ..)
  · have hgone : old.stop? = none := by
      have hdead' := hdead.resolve_left hp
      unfold Task.isDead at hdead'
      split at hdead'
      · next status hstate => exact stop?_eq_none (.inr (.inr ⟨status, hstate⟩))
      · cases hdead'
    have hleader : (w.setTask pid none).task leader = some old :=
      (World.task_setTask_of_ne _ _ (Ne.symm hp)).trans hold
    have hset : Announced tracked l
        ((w.setTask pid none).setTask leader (some (t.exec old pid w.nextMm regs))) :=
      (h.unset ht hrun).setTask_silent hleader nofun fun stop hstop => by
        cases hgone.symm.trans hstop
    exact hset.congr rfl

/-- Every move keeps the announcements, unless it leaves an orphan. -/
theorem announced_moved (h : Announced tracked l w) (hmoved : Moved w m w')
    (hentries : ∀ q ∈ entries, tracked q) (horphans : ¬m.Orphans l entries) :
    Announced tracked (m.announces l) w' := by
  cases hmoved with
  | enter ht hstate =>
    have hrun := stop?_eq_none (.inl hstate)
    exact h.setTask_silent ht nofun fun stop hstop => by cases hrun.symm.trans hstop
  | finish ht hstate =>
    have hrun := stop?_eq_none (.inr (.inl ⟨_, hstate⟩))
    refine h.setTask_silent ht ?_ fun stop hstop => by cases hrun.symm.trans hstop
    rw [state_finish]
    exact nofun
  | fork ht hstate hnr he hchild hfree hshare =>
    exact announced_fork h ht (stop?_eq_none (.inr (.inl ⟨_, hstate⟩))) he hfree
  | exec ht hstate hnr hold htgid hleader hdead halone =>
    exact announced_exec h ht (stop?_eq_none (.inr (.inl ⟨_, hstate⟩))) hold hdead
  | signal ht hstate =>
    have hrun := stop?_eq_none (.inl hstate)
    exact h.setTask_silent ht nofun fun stop hstop => by cases hrun.symm.trans hstop
  | @die p t status ht hlive hstatus =>
    -- the new processes that it announces have entries
    have hset : Announced tracked l (w.setTask p (some { t with state := .zombie status })) :=
      h.setTask ht nofun fun e q hstop he hnot hmem =>
        absurd ⟨(p, q), hmem, rfl, fun hq => hnot (hentries q hq)⟩ horphans
    refine hset.relist fun x hx ⟨u, hu, hstate⟩ => List.mem_filter.mpr ⟨hx, ?_⟩
    have hne : x.2 ≠ p := by
      intro hp
      rw [hp, World.task_setTask_self] at hu
      cases hu
      cases hstate
    simpa using hne
  | store => exact h

theorem announced_poke (h : Announced tracked l w) (ht : w.task pid = some t) (mm : Nat)
    (memory : Memory) :
    Announced tracked l (((w.setMem mm memory).countPoke pid t).recordWrite pid t.mm) := by
  have hmem : Announced tracked l (w.setMem mm memory) := h
  unfold World.countPoke
  split
  · have hcount : Announced tracked l
        ((w.setMem mm memory).setTask pid (some { t with earlyPokes := t.earlyPokes + 1 })) :=
      hmem.setTask_same ht rfl
    exact hcount.congr rfl
  · exact hmem

/-- A new process leaves the list when it is reported. -/
theorem announced_report (h : Announced tracked l w) {status : Status}
    (hreported : Reported w pid status w') :
    Announced tracked (l.filter fun x => x.2 ≠ pid) w' := by
  have hseen : Announced tracked l w' := by
    cases hreported with
    | stopped ht hstate => exact h.setTask ht nofun fun _ _ _ _ _ _ => (stop?_stopped hstate).symm
    | reaped ht hstate hlast => exact h.unset ht (stop?_eq_none (.inr (.inr ⟨_, hstate⟩)))
  refine hseen.relist fun x hx ⟨u, hu, hnew⟩ => List.mem_filter.mpr ⟨hx, ?_⟩
  have hne : x.2 ≠ pid := by
    intro hp
    rw [hp] at hu
    cases hreported with
    | stopped ht hstate =>
      rw [World.task_setTask_self] at hu
      cases hu
      cases hnew
    | reaped ht hstate hlast =>
      rw [World.task_setTask_self] at hu
      cases hu
  simpa using hne

/-! ### A growing history -/

section growing

variable {P : List PidT → Move → Prop} {history new : List (Nat × Move)}
  {trace trace' : List (Event World)}

/-- Moves change nothing about the part of the story that is over. -/
theorem creations_append (h : ∀ x ∈ new, queries trace ≤ x.1) :
    creations (new ++ history) trace = creations history trace := by
  induction trace with
  | nil => rfl
  | cons e older ih =>
    match e with
    | .ptrace .. | .wait _ none | .wait _ (some (.error _)) =>
      rw [creations, creations, movesBefore_append h, ih fun x hx => Nat.le_of_succ_le (h x hx)]
    | .wait _ (some (.ok (pid, _))) =>
      rw [creations, creations, movesBefore_append h, ih fun x hx => Nat.le_of_succ_le (h x hx)]
    | .malloc .. | .call .. => exact ih h

theorem everyMove_append (h : ∀ x ∈ new, queries trace ≤ x.1) :
    EveryMove P (new ++ history) trace ↔ EveryMove P history trace := by
  induction trace with
  | nil => exact Iff.rfl
  | cons e older ih =>
    match e with
    | .ptrace .. | .wait .. =>
      rw [EveryMove, EveryMove, movesBefore_append h, ih fun x hx => Nat.le_of_succ_le (h x hx)]
    | .malloc .. | .call .. => exact ih h

theorem noneOrphaned_append (h : ∀ x ∈ new, queries trace ≤ x.1) :
    NoneOrphaned (new ++ history) trace ↔ NoneOrphaned history trace := by
  induction trace with
  | nil => exact Iff.rfl
  | cons e older ih =>
    have hle : queries older ≤ queries (e :: older) := queries_suffix (List.suffix_cons _ _)
    match e with
    | .ptrace .. | .wait .. =>
      rw [NoneOrphaned, NoneOrphaned, movesBefore_append h,
        creations_append fun x hx => hle.trans (h x hx), ih fun x hx => hle.trans (h x hx)]
    | .malloc .. | .call .. => exact ih h

theorem EveryMove.suffix (h : EveryMove P history trace') (hle : trace <:+ trace') :
    EveryMove P history trace := by
  obtain ⟨newer, rfl⟩ := hle
  induction newer with
  | nil => exact h
  | cons e newer ih =>
    match e, h with
    | .ptrace .., h | .wait .., h => exact ih h.2
    | .malloc .., h | .call .., h => exact ih h

/-- What has not happened so far had not happened before. -/
theorem EveryMove.earlier {s s' : Tracer World} (h : EveryMove P s'.os.history s'.trace)
    (honward : Onward s s') (hn : Numbered s.trace s.os) : EveryMove P s.os.history s.trace := by
  obtain ⟨new, hnew, hle⟩ := honward.history hn
  rw [hnew] at h
  exact (everyMove_append hle).mp (h.suffix honward.trace)

end growing

end Reproduce.Linux
