import Reproduce.Linux.Kernel

/-!
# What a move does

`Moved w m w'` lists, move by move, what `Move.apply` requires and what it changes
(`apply_eq_some`). Every fact about moves is proved by cases on it, and carried over any number of
moves by `runMoves_induction`.
-/

namespace Reproduce.Linux

open Bytes

/-! ### The fields of a changed world -/

namespace World

variable (w : World) (pid : PidT) (t : Option Task) (mm : Nat) (m : Memory)

@[simp] theorem task_setTask : (w.setTask pid t).task = Function.update w.task pid t := rfl
theorem task_setTask_self : (w.setTask pid t).task pid = t := Function.update_self ..

variable {pid} in
theorem task_setTask_of_ne {q : PidT} (h : q ≠ pid) : (w.setTask pid t).task q = w.task q :=
  Function.update_of_ne h _ _

@[simp] theorem pids_setTask : (w.setTask pid t).pids = w.pids := rfl
@[simp] theorem mem_setTask : (w.setTask pid t).mem = w.mem := rfl
@[simp] theorem nextMm_setTask : (w.setTask pid t).nextMm = w.nextMm := rfl
@[simp] theorem births_setTask : (w.setTask pid t).births = w.births := rfl
@[simp] theorem tick_setTask : (w.setTask pid t).tick = w.tick := rfl
@[simp] theorem heap_setTask : (w.setTask pid t).heap = w.heap := rfl
@[simp] theorem history_setTask : (w.setTask pid t).history = w.history := rfl
@[simp] theorem writes_setTask : (w.setTask pid t).writes = w.writes := rfl

@[simp] theorem task_setMem : (w.setMem mm m).task = w.task := rfl
@[simp] theorem pids_setMem : (w.setMem mm m).pids = w.pids := rfl
@[simp] theorem mem_setMem : (w.setMem mm m).mem = Function.update w.mem mm m := rfl
@[simp] theorem nextMm_setMem : (w.setMem mm m).nextMm = w.nextMm := rfl
@[simp] theorem births_setMem : (w.setMem mm m).births = w.births := rfl
@[simp] theorem tick_setMem : (w.setMem mm m).tick = w.tick := rfl
@[simp] theorem heap_setMem : (w.setMem mm m).heap = w.heap := rfl
@[simp] theorem history_setMem : (w.setMem mm m).history = w.history := rfl
@[simp] theorem writes_setMem : (w.setMem mm m).writes = w.writes := rfl

end World

/-! ### One move -/

/-- What each move requires and changes. -/
inductive Moved (w : World) : Move → World → Prop
  | enter {pid : PidT} {t : Task} {regs : UserRegsStruct} (ht : w.task pid = some t)
      (hstate : t.state = .user) : Moved w (.enter pid regs) (w.setTask pid (some (t.enter regs)))
  | finish {pid : PidT} {t : Task} {fresh : Bool} {regs : UserRegsStruct}
      (ht : w.task pid = some t) (hstate : t.state = .kernel fresh) :
      Moved w (.finish pid regs) (w.setTask pid (some (t.finish regs)))
  | fork {pid child : PidT} {t : Task} {e : PtraceEvent} {thread share : Bool} {rsp : Word}
      (ht : w.task pid = some t) (hstate : t.state = .kernel true)
      (hnr : isCreation t.regs.origRax = true) (he : e ≠ .exec) (hchild : child ≠ 0)
      (hfree : w.task child = none) (hshare : thread = true → share = true) :
      Moved w (.fork pid child e thread share rsp) (w.fork pid child t e thread share rsp)
  | exec {pid leader : PidT} {t old : Task} {regs : UserRegsStruct} {image : Memory}
      (ht : w.task pid = some t) (hstate : t.state = .kernel true)
      (hnr : isExecve t.regs.origRax = true) (hold : w.task leader = some old)
      (htgid : t.tgid = leader) (hleader : old.tgid = leader)
      (hdead : pid = leader ∨ old.isDead = true) (halone : w.aloneInGroup pid leader = true) :
      Moved w (.exec pid leader regs image) (w.exec pid leader t old regs image)
  | signal {pid : PidT} {t : Task} {sig : BitVec 8} {regs : Option UserRegsStruct}
      (ht : w.task pid = some t) (hstate : t.state = .user) :
      Moved w (.signal pid sig regs) (w.setTask pid (some (t.signal sig regs)))
  | die {pid : PidT} {t : Task} {status : Status} (ht : w.task pid = some t)
      (hlive : t.isDead = false) (hstatus : terminated status = true) :
      Moved w (.die pid status) (w.setTask pid (some { t with state := .zombie status }))
  | store {mm : Nat} {memory : Memory} : Moved w (.store mm memory) (w.setMem mm memory)

theorem inState_eq_some {w : World} {pid : PidT} {state : TaskState} {t : Task} :
    w.inState pid state = some t ↔ w.task pid = some t ∧ t.state = state := by
  simp [World.inState, Option.filter_eq_some_iff]

theorem apply_eq_some {w w' : World} {m : Move} (h : m.apply w = some w') : Moved w m w' := by
  cases m with
  | enter pid regs =>
    obtain ⟨t, ht, h⟩ := Option.bind_eq_some_iff.mp h
    obtain ⟨ht, hstate⟩ := inState_eq_some.mp ht
    exact Option.some.inj h ▸ .enter ht hstate
  | finish pid regs =>
    obtain ⟨t, ht, h⟩ := Option.bind_eq_some_iff.mp h
    -- a call may end whether it has just been entered or was interrupted
    rcases Option.or_eq_some_iff.mp ht with ht | ⟨-, ht⟩
    · obtain ⟨ht, hstate⟩ := inState_eq_some.mp ht
      exact Option.some.inj h ▸ .finish ht hstate
    · obtain ⟨ht, hstate⟩ := inState_eq_some.mp ht
      exact Option.some.inj h ▸ .finish ht hstate
  | fork pid child e thread share rsp =>
    obtain ⟨t, ht, h⟩ := Option.bind_eq_some_iff.mp h
    obtain ⟨ht, hstate⟩ := inState_eq_some.mp ht
    split at h
    · next hc =>
      obtain ⟨hnr, he, hchild, hfree, hshare⟩ := hc
      exact Option.some.inj h ▸ .fork ht hstate hnr he hchild (Option.isNone_iff_eq_none.mp hfree)
        hshare
    · cases h
  | exec pid leader regs image =>
    obtain ⟨t, ht, h⟩ := Option.bind_eq_some_iff.mp h
    obtain ⟨ht, hstate⟩ := inState_eq_some.mp ht
    obtain ⟨old, hold, h⟩ := Option.bind_eq_some_iff.mp h
    split at h
    · next hc =>
      obtain ⟨hnr, htgid, hleader, hdead, halone⟩ := hc
      exact Option.some.inj h ▸ .exec ht hstate hnr hold htgid hleader hdead halone
    · cases h
  | signal pid sig regs =>
    obtain ⟨t, ht, h⟩ := Option.bind_eq_some_iff.mp h
    obtain ⟨ht, hstate⟩ := inState_eq_some.mp ht
    exact Option.some.inj h ▸ .signal ht hstate
  | die pid status =>
    obtain ⟨t, ht, h⟩ := Option.bind_eq_some_iff.mp h
    split at h
    · next hc =>
      exact Option.some.inj h ▸ .die ht (by simpa using hc.1) hc.2
    · cases h
  | store mm memory => exact Option.some.inj h ▸ .store

/-- A move either does not happen, or happens as `Moved` says and is recorded. -/
theorem move_cases (w : World) (m : Move) :
    w.move m = w ∨ ∃ w', Moved w m w' ∧
      w.move m = { w' with history := (w.tick, m) :: w.history } := by
  unfold World.move
  cases h : m.apply w with
  | none => exact .inl rfl
  | some w' => exact .inr ⟨w', apply_eq_some h, rfl⟩

/-- What every move that happens keeps, every sequence of moves keeps. -/
theorem runMoves_induction {P : World → Prop} {moves : List Move}
    (hstep : ∀ w m w', m ∈ moves → P w → Moved w m w' →
      P { w' with history := (w.tick, m) :: w.history })
    (w : World) (hw : P w) : P (w.runMoves moves) := by
  unfold World.runMoves
  refine List.foldlRecOn moves World.move hw fun w hw m hm => ?_
  rcases move_cases w m with h | ⟨w', hmoved, h⟩
  · rwa [h]
  · rw [h]
    exact hstep w m w' hm hw hmoved

theorem runMoves_append (w : World) (before after : List Move) :
    w.runMoves (before ++ after) = (w.runMoves before).runMoves after := by
  simp [World.runMoves]

/-- A running process can make a system call. -/
theorem apply_enter {w : World} {pid : PidT} {t : Task} (regs : UserRegsStruct)
    (ht : w.task pid = some t) (hstate : t.state = .user) :
    (Move.enter pid regs).apply w = some (w.setTask pid (some (t.enter regs))) := by
  have hfound : w.inState pid .user = some t := inState_eq_some.mpr ⟨ht, hstate⟩
  show Option.bind (w.inState pid .user) _ = _
  rw [hfound]
  rfl

/-- A process inside a system call can reach its end. -/
theorem apply_finish {w : World} {pid : PidT} {t : Task} {fresh : Bool} (regs : UserRegsStruct)
    (ht : w.task pid = some t) (hstate : t.state = .kernel fresh) :
    (Move.finish pid regs).apply w = some (w.setTask pid (some (t.finish regs))) := by
  have hfound : (w.inState pid (.kernel true)).or (w.inState pid (.kernel false)) = some t := by
    cases fresh <;> simp [World.inState, ht, Option.filter, hstate]
  show Option.bind ((w.inState pid (.kernel true)).or (w.inState pid (.kernel false))) _ = _
  rw [hfound]
  rfl

/-! ### One task in a move -/

/-- What a task does by itself, or its death. -/
inductive Task.Moves (t : Task) : Task → Prop
  | enter (regs : UserRegsStruct) (hstate : t.state = .user) : t.Moves (t.enter regs)
  | finish {fresh : Bool} (regs : UserRegsStruct) (hstate : t.state = .kernel fresh) :
      t.Moves (t.finish regs)
  | fork (e : PtraceEvent) (child : PidT) (birth : Nat) (hstate : t.state = .kernel true)
      (hnr : isCreation t.regs.origRax = true) : t.Moves (t.forking e child birth)
  | signal (sig : BitVec 8) (regs : Option UserRegsStruct) (hstate : t.state = .user) :
      t.Moves (t.signal sig regs)
  | die {status : Status} (hlive : t.isDead = false) (hstatus : terminated status = true) :
      t.Moves { t with state := .zombie status }

/-- What becomes of the task with pid `q` in a move. -/
inductive Becomes (w : World) (q : PidT) : Move → Option Task → Prop
  | same {m : Move} : Becomes w q m (w.task q)
  | own {m : Move} {t t' : Task} (ht : w.task q = some t) (h : t.Moves t') : Becomes w q m (some t')
  | born {p : PidT} {t : Task} {e : PtraceEvent} {thread share : Bool} {rsp : Word}
      (hfree : w.task q = none) (ht : w.task p = some t) (hstate : t.state = .kernel true)
      (hnr : isCreation t.regs.origRax = true) :
      Becomes w q (.fork p q e thread share rsp) (some (t.newborn (if thread then t.tgid else q)
        (if share then t.mm else w.nextMm) rsp w.births))
  | gone {t : Task} {leader : PidT} {regs : UserRegsStruct} {image : Memory}
      (ht : w.task q = some t) (hstate : t.state = .kernel true)
      (hnr : isExecve t.regs.origRax = true) (hleader : q ≠ leader) :
      Becomes w q (.exec q leader regs image) none
  | replaced {p : PidT} {t old : Task} {regs : UserRegsStruct} {image : Memory}
      (hold : w.task q = some old) (ht : w.task p = some t) (hstate : t.state = .kernel true)
      (hnr : isExecve t.regs.origRax = true) (hdead : p = q ∨ old.isDead = true) :
      Becomes w q (.exec p q regs image) (some (t.exec old p w.nextMm regs))

theorem becomes {w w' : World} {m : Move} (h : Moved w m w') (q : PidT) :
    Becomes w q m (w'.task q) := by
  -- every move but two is a change of one task
  have hset : ∀ {p : PidT} {t t' : Task}, w.task p = some t → t.Moves t' →
      Becomes w q m ((w.setTask p (some t')).task q) := by
    intro p t t' ht hmoves
    by_cases hq : q = p
    · subst hq
      rw [World.task_setTask_self]
      exact .own ht hmoves
    · rw [World.task_setTask_of_ne _ _ hq]
      exact .same
  cases h with
  | enter ht hstate => exact hset ht (.enter _ hstate)
  | finish ht hstate => exact hset ht (.finish _ hstate)
  | @fork p child t e thread share rsp ht hstate hnr he hchild hfree hshare =>
    -- the pid of the child, of the parent, or of another task
    by_cases hq : q = child
    · subst hq
      have hborn : (w.fork p q t e thread share rsp).task q =
          some (t.newborn (if thread then t.tgid else q) (if share then t.mm else w.nextMm) rsp
            w.births) := Function.update_self ..
      rw [hborn]
      exact .born hfree ht hstate hnr
    · have hother : (w.fork p child t e thread share rsp).task q =
          (w.setTask p (some (t.forking e child w.births))).task q := Function.update_of_ne hq _ _
      rw [hother]
      exact hset ht (.fork e child w.births hstate hnr)
  | @exec p leader t old regs image ht hstate hnr hold htgid hleader hdead halone =>
    -- the leader gets the program, and the thread that executed it is gone
    by_cases hq : q = leader
    · subst hq
      have hnew : (w.exec p q t old regs image).task q = some (t.exec old p w.nextMm regs) :=
        Function.update_self ..
      rw [hnew]
      exact .replaced hold ht hstate hnr hdead
    · have hother : (w.exec p leader t old regs image).task q = (w.setTask p none).task q :=
        Function.update_of_ne hq _ _
      rw [hother]
      by_cases hp : q = p
      · subst hp
        rw [World.task_setTask_self]
        exact .gone ht hstate hnr hq
      · rw [World.task_setTask_of_ne _ _ hp]
        exact .same
  | signal ht hstate => exact hset ht (.signal _ _ hstate)
  | die ht hlive hstatus => exact hset ht (.die hlive hstatus)
  | store => exact .same

/-! ### System call numbers -/

/-- The hooked calls create no process and execute no program. -/
theorem ordinary_of_hookOf {nr : Word} {hook : Hook} (h : hookOf nr = some hook) :
    isCreation nr = false ∧ isExecve nr = false := by
  by_cases hcreation : isCreation nr = true
  · have hnr : ((nr = NR_clone ∨ nr = NR_fork) ∨ nr = NR_vfork) ∨ nr = NR_clone3 := by
      simpa [isCreation] using hcreation
    rcases hnr with ((rfl | rfl) | rfl) | rfl <;> cases h
  · by_cases hexecve : isExecve nr = true
    · have hnr : nr = NR_execve ∨ nr = NR_execveat := by simpa [isExecve] using hexecve
      rcases hnr with rfl | rfl <;> cases h
    · exact ⟨by simpa using hcreation, by simpa using hexecve⟩

/-- The end of a call keeps its number or makes it -1. -/
theorem origRax_finish (t : Task) (regs : UserRegsStruct) :
    (t.finish regs).regs.origRax = t.regs.origRax ∨ (t.finish regs).regs.origRax = -1 := by
  unfold Task.finish
  split
  · exact .inl rfl
  · split
    · exact .inl rfl
    · dsimp only
      split
      · exact .inr rfl
      · exact .inl rfl

theorem unhooked_of_creation {nr : Word} (h : isCreation nr = true) : hookOf nr = none := by
  cases hhook : hookOf nr with
  | none => rfl
  | some hook =>
    rw [(ordinary_of_hookOf hhook).1] at h
    cases h

theorem unhooked_of_execve {nr : Word} (h : isExecve nr = true) : hookOf nr = none := by
  cases hhook : hookOf nr with
  | none => rfl
  | some hook =>
    rw [(ordinary_of_hookOf hhook).2] at h
    cases h

end Reproduce.Linux
