import Reproduce.Linux.Equiv.Quiet
import Reproduce.Tracer.Equiv.Phases

/-!
# Regular tasks

What the tasks have in common while no hooked call is taken for one that is over: the number of an
emulated call is seen at its entry stop only, and the kernel carries out every other call as the
task made it (`Task.Regular`).  What the tasks do by themselves keeps this (`norm_regular`), and so
does a resumption from an entry stop with the number of an open call, or with -1 (`regular_resume`).
-/

namespace Reproduce.Linux

open Bytes Effect

/-- In a system call: inside the kernel, or at an event stop. -/
def Task.Calling (t : Task) : Prop :=
  (∃ fresh, t.state = .kernel fresh) ∨ ∃ e message, t.stop? = some (.event e message)

/-- Every system call that is not hooked was carried out as the task made it, also the one that the
task is in. -/
structure Task.OwnCalls (t : Task) : Prop where
  own : ∀ p ∈ t.executed, hookOf p.1.origRax = none → p.2 = p.1
  carried : t.Calling → hookOf t.entered.origRax = none → t.entered.origRax ≠ -1 →
    t.executed.head? = some (t.entered, t.entered)

/-- The registers of a task: an emulated call is seen at its entry stop only, and there the task has
its own registers, unless its call was hooked and is cancelled. -/
structure Task.Regular (t : Task) : Prop extends t.OwnCalls where
  plain : t.stop? ≠ some .syscallEntry → t.isDead = false → NotEmulated t.regs.origRax
  entry : t.stop? = some .syscallEntry →
    t.regs = t.entered ∨ (t.regs.origRax = -1 ∧ hookOf t.entered.origRax ≠ none)
  died : ∀ status, t.state = .zombie status → terminated status = true

variable {t t' : Task}

/-! ### Live tasks -/

theorem notEmulated_finish (h : NotEmulated t.regs.origRax) (regs : UserRegsStruct) :
    NotEmulated (t.finish regs).regs.origRax := by
  rcases origRax_finish t regs with hsame | hnone
  · rw [hsame]
    exact h
  · rw [hnone]
    exact notEmulated_cancelled

/-- The state of a live task that is at no entry stop. -/
theorem Task.Regular.notEmulated (h : t.Regular)
    (hstate : t.state = .user ∨ ∃ fresh, t.state = .kernel fresh) : NotEmulated t.regs.origRax := by
  refine h.plain (fun hentry => ?_) ?_
  · rcases hstate with hstate | ⟨fresh, hstate⟩ <;> simp [Task.stop?, hstate] at hentry
  · rcases hstate with hstate | ⟨fresh, hstate⟩ <;> simp [Task.isDead, hstate]

/-- A task that is in no call has carried out what it had. -/
theorem Task.OwnCalls.idle (h : t.OwnCalls) (hexecuted : t'.executed = t.executed)
    (hidle : ¬t'.Calling) : t'.OwnCalls :=
  ⟨by rw [hexecuted]; exact h.own, fun hcalling => absurd hcalling hidle⟩

/-- A task that stays in its call. -/
theorem Task.OwnCalls.goesOn (h : t.OwnCalls) (hexecuted : t'.executed = t.executed)
    (hentered : t'.entered = t.entered) (hcalling : t.Calling) : t'.OwnCalls :=
  ⟨by rw [hexecuted]; exact h.own, fun _ => by rw [hexecuted, hentered]; exact h.carried hcalling⟩

/-- A live task at no entry stop. -/
theorem Task.OwnCalls.regular (h : t.OwnCalls) (hentry : t.stop? ≠ some .syscallEntry)
    (hlive : t.isDead = false) (hnr : NotEmulated t.regs.origRax) : t.Regular :=
  ⟨h, fun _ _ => hnr, fun hstop => absurd hstop hentry, fun status hzombie => by
    simp [Task.isDead, hzombie] at hlive⟩

/-! ### What tasks do by themselves -/

theorem regular_moves (h : t.Regular) (hmoves : t.Moves t') : t'.Regular := by
  cases hmoves with
  | enter regs hstate =>
    have hidle : ¬(t.enter regs).Calling := by simp [Task.Calling, Task.stop?, Task.enter]
    refine ⟨h.toOwnCalls.idle rfl hidle, fun hstop => absurd rfl hstop, fun _ => .inl rfl, ?_⟩
    simp [Task.enter]
  | finish regs hstate =>
    have hidle : ¬(t.finish regs).Calling := by simp [Task.Calling, Task.stop?]
    -- an emulated call never gets into the kernel, so it does not come out of it
    have hnr := notEmulated_finish (h.notEmulated (.inr ⟨_, hstate⟩)) regs
    refine (h.toOwnCalls.idle (by simp) hidle).regular ?_ ?_ hnr
    · simp [Task.stop?]
    · simp [Task.isDead]
  | fork e child birth hstate hnr =>
    have hown : (t.forking e child birth).OwnCalls :=
      h.toOwnCalls.goesOn rfl rfl (.inl ⟨true, hstate⟩)
    refine hown.regular ?_ ?_ (h.notEmulated (.inr ⟨true, hstate⟩))
    · simp [Task.stop?, Task.forking]
    · simp [Task.isDead, Task.forking]
  | signal sig regs hstate =>
    have hown : (t.signal sig regs).OwnCalls :=
      h.toOwnCalls.idle rfl (by simp [Task.Calling, Task.stop?, Task.signal])
    refine hown.regular ?_ ?_ ?_
    · simp [Task.stop?, Task.signal]
    · simp [Task.isDead, Task.signal]
    · cases regs with
      | none => exact h.notEmulated (.inl hstate)
      | some r => exact notEmulated_cancelled
  | @die status hlive hstatus =>
    have hidle : ¬Task.Calling { t with state := .zombie status } := by
      simp [Task.Calling, Task.stop?]
    refine ⟨h.toOwnCalls.idle rfl hidle, fun _ hlive' => ?_, fun hstop => ?_,
      fun status' hzombie => ?_⟩
    · simp [Task.isDead] at hlive'
    · simp [Task.stop?] at hstop
    · cases hzombie
      exact hstatus

/-! ### Resumptions -/

theorem not_calling_of_user (h : t.state = .user) : ¬t.Calling := by
  simp [Task.Calling, Task.stop?, h]

/-- A resumption from an entry stop carries out the call, or skips it. -/
theorem ownCalls_resumeEntry (h : t.Regular) (hstop : t.stop? = some .syscallEntry) :
    (t.resume .syscallEntry 0).OwnCalls := by
  constructor
  · intro p hp hhook
    rw [Task.resume] at hp
    dsimp only at hp
    split at hp
    · exact h.own p hp hhook
    · next hnr =>
      -- the call that is carried out now, or an earlier one
      rcases List.mem_cons.mp hp with rfl | hp
      · rcases h.entry hstop with hown | ⟨hcancelled, -⟩
        · exact hown
        · exact absurd hcancelled hnr
      · exact h.own p hp hhook
  · intro _ hhook hnr
    have hhook' : hookOf t.entered.origRax = none := hhook
    have hnr' : t.entered.origRax ≠ -1 := hnr
    have hown : t.regs = t.entered := by
      rcases h.entry hstop with hown | ⟨-, hhooked⟩
      · exact hown
      · exact absurd hhook' hhooked
    rw [Task.resume]
    dsimp only
    rw [if_neg (by rwa [hown]), hown]
    rfl

theorem regular_resume (h : t.Regular) {stop : Stop} (hstop : t.stop? = some stop)
    (hentry : stop = .syscallEntry → NotEmulated t.regs.origRax) : (t.resume stop 0).Regular := by
  have hnr : NotEmulated t.regs.origRax := by
    by_cases hstop' : stop = .syscallEntry
    · exact hentry hstop'
    · obtain ⟨reported, hstate⟩ := state_of_stop? hstop
      refine h.plain (fun hsome => hstop' ?_) (by simp [Task.isDead, hstate])
      exact Option.some.inj (hstop.symm.trans hsome)
  have hlive : (t.resume stop 0).stop? ≠ some .syscallEntry ∧ (t.resume stop 0).isDead = false ∧
      (t.resume stop 0).regs = t.regs := by
    cases stop <;> simp [Task.resume, Task.stop?, Task.isDead]
  -- only from an event stop or an entry stop the task goes on inside a call
  have hown : (t.resume stop 0).OwnCalls := by
    cases stop with
    | initial => exact h.toOwnCalls.idle rfl (not_calling_of_user rfl)
    | syscallExit => exact h.toOwnCalls.idle rfl (not_calling_of_user rfl)
    | signal sig => exact h.toOwnCalls.idle rfl (not_calling_of_user rfl)
    | event e message => exact h.toOwnCalls.goesOn rfl rfl (.inr ⟨e, message, hstop⟩)
    | syscallEntry => exact ownCalls_resumeEntry h hstop
  exact hown.regular hlive.1 hlive.2.1 (hlive.2.2 ▸ hnr)

theorem norm_regular : Norm Task.Regular where
  moves := regular_moves
  poke n h := ⟨⟨h.own, h.carried⟩, h.plain, h.entry, h.died⟩
  report := by
    intro t stop h hstate
    have hstop := stop?_stopped hstate
    have hlive : t.isDead = false := by simp [Task.isDead, hstate]
    -- a report does not change whether a stopped task is in a call
    have hcalling : ∀ {u : Task}, u.state = .stopped stop true → u.Calling → t.Calling := by
      rintro u hu (⟨fresh, hkernel⟩ | ⟨e, message, hevent⟩)
      · cases hu.symm.trans hkernel
      · exact .inr ⟨e, message, hstop.trans ((stop?_stopped hu).symm.trans hevent)⟩
    refine ⟨⟨h.own, fun hcall => h.carried (hcalling rfl hcall)⟩, fun hne _ => h.plain ?_ hlive,
      fun hentry => h.entry ?_, fun status hzombie => ?_⟩
    · rw [hstop]
      exact hne
    · rw [hstop]
      exact hentry
    · cases hzombie
  newborn := by
    intro t tgid mm rsp birth h hnr
    have hown : (t.newborn tgid mm rsp birth).OwnCalls := by
      constructor
      · intro p hp
        cases hp
      · intro hcalling
        simp [Task.Calling, Task.stop?, Task.newborn] at hcalling
    refine hown.regular ?_ rfl (notEmulated_of_none (unhooked_of_creation hnr))
    simp [Task.stop?, Task.newborn]
  exec := by
    intro t old pid mm regs h hstate hnr
    have hown : (t.exec old pid mm regs).OwnCalls :=
      h.toOwnCalls.goesOn rfl rfl (.inl ⟨true, hstate⟩)
    refine hown.regular ?_ rfl (notEmulated_of_none (unhooked_of_execve hnr))
    simp [Task.stop?, Task.exec]
  resume h hstop hne := regular_resume h hstop fun hentry => absurd hentry hne
  died h hstate := h.died _ hstate

/-- The registers of a stopped task are set. -/
theorem regular_setregs (h : t.Regular) (regs : UserRegsStruct) (hnr : NotEmulated regs.origRax)
    (hentry : t.stop? = some .syscallEntry → regs.origRax = -1 ∧ hookOf t.entered.origRax ≠ none) :
    Task.Regular { t with regs := regs } :=
  ⟨⟨h.own, h.carried⟩, fun _ _ => hnr, fun hstop => .inr (hentry hstop), h.died⟩

end Reproduce.Linux
