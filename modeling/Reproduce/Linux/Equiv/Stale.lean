import Reproduce.Linux.Equiv.Runs

/-!
# No stale entries

An entry is stale when the death of its process has been reported.  The loop deletes the entry of a
process whose death its own `waitpid` reports; `register_new_child` ignores the status of its wait,
and leaves an entry behind if the child was killed before its first stop.

`noStale_of_sound` says that this is the only way: as long as no wait for a single process reports a
death, no entry is stale, and the clock of a process that has made no call is the initial one.
Non-leader threads that execute a program are left out, as in the source.
-/

namespace Reproduce.Linux

open Bytes Effect

/-- A thread that is not the leader of its group executes a program. -/
def ForeignExec (x : Nat × Move) : Prop :=
  ∃ pid leader regs image, x.2 = .exec pid leader regs image ∧ pid ≠ leader

instance : DecidablePred ForeignExec
  | (_, .exec pid leader regs image) =>
    decidable_of_iff (pid ≠ leader) ⟨fun hne => ⟨pid, leader, regs, image, rfl, hne⟩,
      fun ⟨_, _, _, _, hexec, hne⟩ => by cases hexec; exact hne⟩
  | (_, .enter ..) | (_, .finish ..) | (_, .fork ..) | (_, .signal ..) | (_, .die ..)
  | (_, .store ..) => isFalse fun ⟨_, _, _, _, hexec, _⟩ => nomatch hexec

/-- A wait for a single process reported its death. -/
def ReapedInside : Event World → Prop
  | .wait (some _) (some (.ok (_, status))) => terminated status = true
  | _ => False

instance : DecidablePred ReapedInside
  | .wait (some _) (some (.ok (_, status))) =>
    inferInstanceAs (Decidable (terminated status = true))
  | .wait (some _) (some (.error _)) | .wait (some _) none | .wait none _ | .ptrace _ _
  | .malloc _ _ | .call _ _ _ => inferInstanceAs (Decidable False)

/-- The death of a process was reported. -/
def ReportsDeath (pid : PidT) : Event World → Prop
  | .wait _ (some (.ok (q, status))) => q = pid ∧ terminated status = true
  | _ => False

/-- The entry of a process was inserted, and its death was not reported since. -/
def Unreaped (pid : PidT) (trace : List (Event World)) : Prop :=
  ∃ newer table os older, trace = newer ++ .call (.insertProcess pid) table os :: older ∧
    ∀ e ∈ newer, ¬ReportsDeath pid e

structure NoStale (s : Tracer World) : Prop where
  unreaped : ∀ c ∈ s.processTable, Unreaped c.pid s.trace
  /-- A process that has made no call has the initial clock. -/
  initial : ∀ c ∈ s.processTable, ∀ t, s.os.task c.pid = some t → t.calls = 0 →
    c.gettimeData = initialClock

/-! ### The processes of the table -/

/-- What is known of the tasks and of the processes in the table. -/
structure Current (table : List ChildProcess) (w : World) : Prop where
  died : ∀ q t status, w.task q = some t → t.state = .zombie status → terminated status = true
  /-- A task that has made no call is at no system call that is hooked. -/
  unhooked : ∀ q t, w.task q = some t → t.calls = 0 → hookOf t.regs.origRax = none
  present : ∀ c ∈ table, ∃ t, w.task c.pid = some t
  initial : ∀ c ∈ table, ∀ t, w.task c.pid = some t → t.calls = 0 → c.gettimeData = initialClock

variable {table : List ChildProcess} {w w' : World} {pid : PidT} {t t' : Task}

/-- What a task may become. -/
structure Follows (t t' : Task) : Prop where
  died : ∀ status, t'.state = .zombie status → terminated status = true
  calls : t'.calls = 0 → t.calls = 0
  unhooked : t'.calls = 0 → hookOf t.regs.origRax = none → hookOf t'.regs.origRax = none

theorem Current.setTask (h : Current table w) (ht : w.task pid = some t) (hfollows : Follows t t') :
    Current table (w.setTask pid (some t')) := by
  have hother : ∀ {q}, q ≠ pid → (w.setTask pid (some t')).task q = w.task q :=
    fun hq => World.task_setTask_of_ne _ _ hq
  -- each clause of the task that changes goes over by `hfollows`; the other tasks are as before
  refine ⟨fun q u status hu hstate => ?_, fun q u hu hcalls => ?_, fun c hc => ?_,
    fun c hc u hu hcalls => ?_⟩
  · by_cases hq : q = pid
    · subst hq
      rw [World.task_setTask_self] at hu
      cases hu
      exact hfollows.died status hstate
    · rw [hother hq] at hu
      exact h.died q u status hu hstate
  · by_cases hq : q = pid
    · subst hq
      rw [World.task_setTask_self] at hu
      cases hu
      exact hfollows.unhooked hcalls (h.unhooked q t ht (hfollows.calls hcalls))
    · rw [hother hq] at hu
      exact h.unhooked q u hu hcalls
  · by_cases hq : c.pid = pid
    · exact ⟨t', by rw [hq, World.task_setTask_self]⟩
    · rw [hother hq]
      exact h.present c hc
  · by_cases hq : c.pid = pid
    · rw [hq, World.task_setTask_self] at hu
      cases hu
      exact h.initial c hc t (hq ▸ ht) (hfollows.calls hcalls)
    · rw [hother hq] at hu
      exact h.initial c hc u hu hcalls

theorem follows_enter (t : Task) (regs : UserRegsStruct) : Follows t (t.enter regs) where
  died _ h := by cases h
  calls h := absurd h (Nat.succ_ne_zero _)
  unhooked h := absurd h (Nat.succ_ne_zero _)

@[simp] theorem calls_finish (t : Task) (regs : UserRegsStruct) :
    (t.finish regs).calls = t.calls := by
  unfold Task.finish
  split
  · rfl
  · split <;> rfl

theorem follows_finish (t : Task) (regs : UserRegsStruct) : Follows t (t.finish regs) := by
  refine ⟨fun status h => ?_, fun h => calls_finish t regs ▸ h, fun _ h => ?_⟩
  · rw [state_finish] at h
    cases h
  · rcases origRax_finish t regs with hsame | hnone
    · rw [hsame]
      exact h
    · rw [hnone]
      exact hookOf_neg_one

theorem follows_signal (t : Task) (sig : BitVec 8) (regs : Option UserRegsStruct) :
    Follows t (t.signal sig regs) where
  died _ h := by cases h
  calls h := h
  unhooked _ h := by
    cases regs with
    | none => exact h
    | some r => exact hookOf_neg_one

/-- A task that is not dead afterwards, with the same number of calls and the same registers. -/
theorem follows_state {t t' : Task} (hregs : t'.regs = t.regs) (hcalls : t'.calls = t.calls)
    (hdied : ∀ status, t'.state = .zombie status → terminated status = true) : Follows t t' where
  died := hdied
  calls h := hcalls ▸ h
  unhooked _ h := hregs ▸ h

theorem Current.mono {table' : List ChildProcess} (h : Current table w)
    (hsub : ∀ c ∈ table', c ∈ table) : Current table' w :=
  ⟨h.died, h.unhooked, fun c hc => h.present c (hsub c hc), fun c hc => h.initial c (hsub c hc)⟩

theorem current_fork (h : Current table w) {child : PidT} {e : PtraceEvent} {thread share : Bool}
    {rsp : Word} (ht : w.task pid = some t) (hnr : isCreation t.regs.origRax = true)
    (hfree : w.task child = none) : Current table (w.fork pid child t e thread share rsp) := by
  have hforking : Current table (w.setTask pid (some (t.forking e child w.births))) :=
    h.setTask ht (follows_state rfl rfl fun _ hstate => by cases hstate)
  have hparent : pid ≠ child := by
    rintro rfl
    rw [hfree] at ht
    cases ht
  -- the pid of the child was free, so no entry has it
  have htracked : ∀ c ∈ table, c.pid ≠ child := by
    rintro c hc rfl
    obtain ⟨u, hu⟩ := h.present c hc
    rw [hfree] at hu
    cases hu
  let newTask :=
    t.newborn (if thread then t.tgid else child) (if share then t.mm else w.nextMm) rsp w.births
  have htask : (w.fork pid child t e thread share rsp).task =
      ((w.setTask pid (some (t.forking e child w.births))).setTask child (some newTask)).task := rfl
  refine ⟨fun q u status hu hstate => ?_, fun q u hu hcalls => ?_, fun c hc => ?_,
    fun c hc u hu hcalls => ?_⟩
  · rw [htask] at hu
    by_cases hq : q = child
    · rw [hq, World.task_setTask_self] at hu
      cases hu
      cases hstate
    · rw [World.task_setTask_of_ne _ _ hq] at hu
      exact hforking.died q u status hu hstate
  · rw [htask] at hu
    by_cases hq : q = child
    · rw [hq, World.task_setTask_self] at hu
      cases hu
      exact unhooked_of_creation hnr
    · rw [World.task_setTask_of_ne _ _ hq] at hu
      exact hforking.unhooked q u hu hcalls
  · rw [htask, World.task_setTask_of_ne _ _ (htracked c hc)]
    exact hforking.present c hc
  · rw [htask, World.task_setTask_of_ne _ _ (htracked c hc)] at hu
    exact hforking.initial c hc u hu hcalls

/-- A group leader that executes a program stays what it is. -/
theorem current_exec (h : Current table w) {regs : UserRegsStruct} {image : Memory}
    (ht : w.task pid = some t) (hnr : isExecve t.regs.origRax = true) :
    Current table (w.exec pid pid t t regs image) := by
  have hfollows : Follows t (t.exec t pid w.nextMm regs) :=
    ⟨nofun, id, fun _ _ => unhooked_of_execve hnr⟩
  have hset := h.setTask ht hfollows
  have htask : (w.exec pid pid t t regs image).task =
      (w.setTask pid (some (t.exec t pid w.nextMm regs))).task := Function.update_idem ..
  refine ⟨fun q u status hu hstate => ?_, fun q u hu hcalls => ?_, fun c hc => ?_,
    fun c hc u hu hcalls => ?_⟩
  · rw [htask] at hu
    exact hset.died q u status hu hstate
  · rw [htask] at hu
    exact hset.unhooked q u hu hcalls
  · rw [htask]
    exact hset.present c hc
  · rw [htask] at hu
    exact hset.initial c hc u hu hcalls

/-- Moves keep the table current, as long as only group leaders execute programs. -/
theorem current_moved {m : Move} (h : Current table w) (hmoved : Moved w m w') :
    Current table w' ∨ ForeignExec (w.tick, m) := by
  cases hmoved with
  | enter ht hstate => exact .inl (h.setTask ht (follows_enter _ _))
  | finish ht hstate => exact .inl (h.setTask ht (follows_finish _ _))
  | fork ht hstate hnr he hchild hfree hshare => exact .inl (current_fork h ht hnr hfree)
  | @exec p leader t old regs image ht hstate hnr hold htgid hleader hdead halone =>
    by_cases hp : p = leader
    · subst hp
      cases ht.symm.trans hold
      exact .inl (current_exec h ht hnr)
    · exact .inr ⟨p, leader, regs, image, rfl, hp⟩
  | signal ht hstate => exact .inl (h.setTask ht (follows_signal _ _ _))
  | die ht hlive hstatus =>
    refine .inl (h.setTask ht (follows_state rfl rfl fun status hstate => ?_))
    cases hstate
    exact hstatus
  | store => exact .inl ⟨h.died, h.unhooked, h.present, h.initial⟩

/-! ### Requests -/

/-- The resumption of a task is no death, no call and no change of its registers. -/
theorem follows_resume (t : Task) (stop : Stop) (data : Word) : Follows t (t.resume stop data) := by
  cases stop <;> exact follows_state rfl rfl fun _ hstate => by cases hstate

theorem Current.congr (h : Current table w) (htask : w'.task = w.task) : Current table w' := by
  refine ⟨?_, ?_, ?_, ?_⟩
  · rw [htask]
    exact h.died
  · rw [htask]
    exact h.unhooked
  · rw [htask]
    exact h.present
  · rw [htask]
    exact h.initial

theorem current_poke (h : Current table w) (ht : w.task pid = some t) (hstop : t.isStopped = true)
    (mm : Nat) (m : Memory) :
    Current table (((w.setMem mm m).countPoke pid t).recordWrite pid t.mm) := by
  have hmem : Current table (w.setMem mm m) := h.congr rfl
  rcases task_countPoke (w.setMem mm m) pid t with hsame | hcount
  · exact hmem.congr hsame
  · have hfollows : Follows t { t with earlyPokes := t.earlyPokes + 1 } := by
      refine follows_state rfl rfl fun status hstate => ?_
      obtain ⟨stop, reported, hstopped⟩ := Task.state_of_isStopped hstop
      rw [show t.state = .zombie status from hstate] at hstopped
      cases hstopped
    rw [hcount]
    exact (hmem.setTask ht hfollows).congr rfl

/-- A report that is no death. -/
theorem current_report {status : Status} (h : Current table w)
    (hreported : Reported w pid status w') (hlive : terminated status = false) :
    Current table w' := by
  cases hreported with
  | stopped ht hstate =>
    exact h.setTask ht (follows_state rfl rfl fun _ hstate' => by cases hstate')
  | reaped ht hstate hlast =>
    rw [h.died _ _ _ ht hstate] at hlive
    cases hlive

theorem resumesKeep_current (table : List ChildProcess) (pid : PidT) :
    ResumesKeep ForeignExec ReapedInside (Current table) pid where
  moved _ _ _ hw hmoved := (current_moved hw hmoved).imp_left fun h => h.congr rfl
  ticked _ _ hw := hw.congr rfl
  poke w t m hw ht hstop := current_poke hw ht hstop _ m
  resume w t stop hw ht _ := hw.setTask ht (follows_resume t stop 0)
  report w status w' hw hreported := by
    cases hdead : terminated status with
    | false => exact .inl (current_report hw hreported hdead)
    | true => exact .inr hdead

/-! ### The process that is handled -/

/-- The process is there and has made at least `n` calls. -/
def AtLeast (n : Nat) (pid : PidT) (w : World) : Prop := ∃ t, w.task pid = some t ∧ n ≤ t.calls

variable {n : Nat} {p : PidT}

theorem AtLeast.setTask (h : AtLeast n pid w) (ht : w.task p = some t)
    (hcalls : t.calls ≤ t'.calls) :
    AtLeast n pid (w.setTask p (some t')) := by
  obtain ⟨u, hu, hn⟩ := h
  by_cases hp : pid = p
  · subst hp
    cases hu.symm.trans ht
    exact ⟨t', World.task_setTask_self .., hn.trans hcalls⟩
  · exact ⟨u, by rw [World.task_setTask_of_ne _ _ hp, hu], hn⟩

theorem AtLeast.congr (h : AtLeast n pid w) (htask : w'.task = w.task) : AtLeast n pid w' := by
  unfold AtLeast
  rw [htask]
  exact h

theorem atLeast_moved {m : Move} (h : AtLeast n pid w) (hmoved : Moved w m w') :
    AtLeast n pid w' ∨ ForeignExec (w.tick, m) := by
  cases hmoved with
  | enter ht hstate => exact .inl (h.setTask ht (Nat.le_succ _))
  | finish ht hstate => exact .inl (h.setTask ht (calls_finish _ _).ge)
  | @fork p child t e thread share rsp ht hstate hnr he hchild hfree hshare =>
    have hforking : AtLeast n pid (w.setTask p (some (t.forking e child w.births))) :=
      h.setTask ht le_rfl
    obtain ⟨u, hu, hn⟩ := hforking
    have hne : pid ≠ child := by
      rintro rfl
      obtain ⟨v, hv, -⟩ := h
      rw [hfree] at hv
      cases hv
    refine .inl ⟨u, ?_, hn⟩
    exact (Function.update_of_ne hne _ _).trans hu
  | @exec p leader t old regs image ht hstate hnr hold htgid hleader hdead halone =>
    -- a thread that executes a program starts its leader anew, with a count of its own
    by_cases hp : p = leader
    · subst hp
      cases ht.symm.trans hold
      have hset : AtLeast n pid (w.setTask p (some (t.exec t p w.nextMm regs))) :=
        h.setTask ht le_rfl
      exact .inl (hset.congr (Function.update_idem ..))
    · exact .inr ⟨p, leader, regs, image, rfl, hp⟩
  | signal ht hstate => exact .inl (h.setTask ht le_rfl)
  | die ht hlive hstatus => exact .inl (h.setTask ht le_rfl)
  | store => exact .inl h

theorem calls_resume (t : Task) (stop : Stop) (data : Word) :
    (t.resume stop data).calls = t.calls := by
  cases stop <;> rfl

theorem atLeast_poke (h : AtLeast n pid w) (ht : w.task p = some t) (mm mm' : Nat) (m : Memory) :
    AtLeast n pid (((w.setMem mm m).countPoke p t).recordWrite p mm') := by
  have hmem : AtLeast n pid (w.setMem mm m) := h
  rcases task_countPoke (w.setMem mm m) p t with hsame | hcount
  · exact hmem.congr hsame
  · rw [hcount]
    exact hmem.setTask ht le_rfl

/-- The table is current and the process is there, after `n` calls at least. -/
def Handling (table : List ChildProcess) (n : Nat) (pid : PidT) (w : World) : Prop :=
  Current table w ∧ AtLeast n pid w

theorem resumesKeep_handling (table : List ChildProcess) (n : Nat) (pid p : PidT) :
    ResumesKeep ForeignExec ReapedInside (Handling table n pid) p where
  moved w m w' hw hmoved := by
    rcases current_moved hw.1 hmoved with hcurrent | hforeign
    · exact (atLeast_moved hw.2 hmoved).imp_left fun h => ⟨hcurrent.congr rfl, h.congr rfl⟩
    · exact .inr hforeign
  ticked _ _ hw := ⟨hw.1.congr rfl, hw.2.congr rfl⟩
  poke w t m hw ht hstop := ⟨current_poke hw.1 ht hstop _ m, atLeast_poke hw.2 ht _ _ m⟩
  resume w t stop hw ht hstop :=
    ⟨hw.1.setTask ht (follows_resume t stop 0), hw.2.setTask ht (calls_resume t stop 0).ge⟩
  report w status w' hw hreported := by
    cases hdead : terminated status with
    | true => exact .inr hdead
    | false =>
      refine .inl ⟨current_report hw.1 hreported hdead, ?_⟩
      cases hreported with
      | stopped ht hstate => exact hw.2.setTask ht le_rfl
      | reaped ht hstate hlast =>
        rw [hw.1.died _ _ _ ht hstate] at hdead
        cases hdead

/-- A process that has made a call may be given any registers. -/
theorem requestsKeep_handling (table : List ChildProcess) (pid : PidT) :
    RequestsKeep ForeignExec ReapedInside (Handling table 1 pid) pid where
  toResumesKeep := resumesKeep_handling table 1 pid pid
  setregs w t regs hw ht hstop := by
    have hcalled : t.calls ≠ 0 := by
      obtain ⟨u, hu, hn⟩ := hw.2
      cases hu.symm.trans ht
      omega
    have hfollows : Follows t { t with regs := regs } := by
      refine ⟨fun status hstate => hw.1.died _ _ _ ht hstate, id, fun hzero => ?_⟩
      exact absurd hzero hcalled
    have hset : AtLeast 1 pid (w.setTask pid (some { t with regs := regs })) :=
      hw.2.setTask ht le_rfl
    exact ⟨(hw.1.setTask ht hfollows).congr rfl, hset.congr rfl⟩

/-! ### Traces -/

variable {trace new : List (Event World)}

theorem Unreaped.extend (h : Unreaped pid trace) (hnew : ∀ e ∈ new, ¬ReportsDeath pid e) :
    Unreaped pid (new ++ trace) := by
  obtain ⟨newer, table, os, older, rfl, hnewer⟩ := h
  refine ⟨new ++ newer, table, os, older, (List.append_assoc ..).symm, fun e he => ?_⟩
  rcases List.mem_append.mp he with he | he
  · exact hnew e he
  · exact hnewer e he

theorem not_reportsDeath_of_onProcess {e : Event World} (h : OnProcess p e)
    (hclean : ¬ReapedInside e) :
    ¬ReportsDeath pid e := by
  cases e with
  | wait target answer =>
    have htarget : target = some p := h
    subst htarget
    rcases answer with _ | _ | ⟨q, status⟩
    · exact id
    · exact id
    · exact fun hdeath => hclean hdeath.2
  | _ => exact id

/-- The invariant of the loop. -/
structure Kept (s : Tracer World) : Prop where
  ok : TableOk s
  current : Current s.processTable s.os
  unreaped : ∀ c ∈ s.processTable, Unreaped c.pid s.trace

variable {env : Env} {scan : Nat} {s s' : Tracer World}

theorem unreaped_extends (hs : ∀ c ∈ s.processTable, Unreaped c.pid s.trace)
    (hextends : Extends (OnProcess p) s s') (hsound : Sound ForeignExec ReapedInside s')
    (htable : s'.processTable.map ChildProcess.pid = s.processTable.map ChildProcess.pid) :
    ∀ c ∈ s'.processTable, Unreaped c.pid s'.trace := by
  intro c hc
  obtain ⟨d, hd, hpid⟩ := List.mem_map.mp (htable ▸ List.mem_map_of_mem hc)
  obtain ⟨new, htrace, hnew⟩ := hextends
  rw [htrace, ← hpid]
  refine (hs d hd).extend fun e he => ?_
  have hclean := hsound.events e (by rw [htrace]; exact List.mem_append_left _ he)
  exact not_reportsDeath_of_onProcess (hnew e he) hclean

/-- A helper keeps the invariant when it keeps the table current. -/
theorem Kept.helper (h : Kept s) (hhelper : Helper p s s')
    (hsound : Sound ForeignExec ReapedInside s') (hcurrent : Current s.processTable s'.os) :
    Kept s' := by
  obtain ⟨hkept, hextends⟩ := hhelper
  refine ⟨h.ok.tableKept hkept, ?_, unreaped_extends h.unreaped hextends hsound ?_⟩
  · rw [hkept.processTable]
    exact hcurrent
  · rw [hkept.processTable]

theorem terminated_stop (stop : Stop) : terminated stop.status = false := by
  cases stop <;> exact terminated_stopStatus _ _

/-! ### The parts of a turn -/

/-- A reported death. -/
theorem Kept.died (h : Kept s) {status : Status}
    (hwait : ((kernel env).waitpid none s.os).1 = some (.ok (pid, status)))
    (hdead : terminated status = true)
    (hsound : Sound ForeignExec ReapedInside ((s.waited (kernel env) none).deleted pid)) :
    Kept ((s.waited (kernel env) none).deleted pid) := by
  have hok : TableOk (s.waited (kernel env) none) := h.ok.tableKept ⟨rfl, rfl, rfl⟩
  have htable := hok.processTable_deleted pid
  obtain ⟨hasked, hreported⟩ := (hsound.earlier (later_deleted _ pid)).waited env
    (resumesKeep_current s.processTable pid).toMovesKeep h.current hwait
  refine ⟨hok.deleted pid, ?_, fun c hc => ?_⟩
  · rw [htable, os_deleted]
    generalize (s.waited (kernel env) none).os = w' at hreported
    cases hreported with
    | stopped ht hstate =>
      rw [terminated_stop] at hdead
      cases hdead
    | reaped ht hstate hlast =>
      -- the entry goes with the process, and the other tasks are not touched
      have hother : ∀ {q}, q ≠ pid →
          ((s.os.asked env (.wait none)).setTask pid none).task q =
            (s.os.asked env (.wait none)).task q := fun hq => World.task_setTask_of_ne _ _ hq
      have hmem : ∀ {c}, c ∈ (s.waited (kernel env) none).processTable.filter
          (fun c => c.pid ≠ pid) → c ∈ s.processTable ∧ c.pid ≠ pid := by
        intro c hc
        obtain ⟨hc, hne⟩ := List.mem_filter.mp hc
        exact ⟨hc, by simpa using hne⟩
      refine ⟨fun q u status' hu hstate' => ?_, fun q u hu hcalls => ?_, fun c hc => ?_,
        fun c hc u hu hcalls => ?_⟩
      · by_cases hq : q = pid
        · rw [hq, World.task_setTask_self] at hu
          cases hu
        · exact hasked.died q u status' (hother hq ▸ hu) hstate'
      · by_cases hq : q = pid
        · rw [hq, World.task_setTask_self] at hu
          cases hu
        · exact hasked.unhooked q u (hother hq ▸ hu) hcalls
      · obtain ⟨hc, hne⟩ := hmem hc
        rw [hother hne]
        exact hasked.present c hc
      · obtain ⟨hc, hne⟩ := hmem hc
        exact hasked.initial c hc u (hother hne ▸ hu) hcalls
  · rw [htable] at hc
    obtain ⟨hc, hne⟩ := List.mem_filter.mp hc
    have hne' : c.pid ≠ pid := by simpa using hne
    rw [trace_deleted]
    -- the death that was reported is not one of the entries that stay
    have hnew : ∀ e ∈ [.call (.deleteProcess pid) s.processTable (s.waited (kernel env) none).os,
        .wait none ((kernel env).waitpid none s.os).1], ¬ReportsDeath c.pid e := by
      intro e he
      rcases List.mem_pair.mp he with rfl | rfl
      · exact id
      · rw [hwait]
        exact fun hdeath => hne' hdeath.1.symm
    exact (h.unreaped c hc).extend hnew

/-- A reported stop. -/
theorem Kept.waited (h : Kept s) {status : Status}
    (hwait : ((kernel env).waitpid none s.os).1 = some (.ok (pid, status)))
    (hlive : terminated status = false)
    (hsound : Sound ForeignExec ReapedInside (s.waited (kernel env) none)) :
    Kept (s.waited (kernel env) none) ∧ AtLeast 0 pid (s.waited (kernel env) none).os := by
  obtain ⟨hasked, hreported⟩ := hsound.waited env
    (resumesKeep_current s.processTable pid).toMovesKeep h.current hwait
  refine ⟨⟨h.ok.tableKept ⟨rfl, rfl, rfl⟩, current_report hasked hreported hlive,
    fun c hc => ?_⟩, ?_⟩
  · have hnew : ∀ e ∈ [.wait none ((kernel env).waitpid none s.os).1], ¬ReportsDeath c.pid e := by
      intro e he
      rw [List.mem_singleton.mp he, hwait]
      rintro ⟨-, hdead⟩
      rw [hlive] at hdead
      cases hdead
    exact (h.unreaped c hc).extend hnew
  · generalize (s.waited (kernel env) none).os = w' at hreported
    cases hreported with
    | stopped ht hstate => exact ⟨_, World.task_setTask_self .., Nat.zero_le _⟩
    | reaped ht hstate hlast =>
      -- what was reaped was dead, but the report is none of a death
      rw [hasked.died _ _ _ ht hstate] at hlive
      cases hlive

/-- Reading the message of an event. -/
theorem Kept.message (h : Kept s)
    (hsound : Sound ForeignExec ReapedInside (s.asked (kernel env) (.geteventmsg p))) :
    Kept (s.asked (kernel env) (.geteventmsg p)) := by
  have hkeeps : Within (Keeps Later (Amiss ForeignExec ReapedInside)
      fun s' => Current s.processTable s'.os ∧ True) (ptrace (kernel env) (.geteventmsg p)) := by
    refine (resumesKeep_current s.processTable p).within_ptrace env (fun _ => True) ?_
    intro w t hw _ _
    rw [perform_geteventmsg_snd]
    exact hw
  have hhelper : Within (Helper p) (ptrace (kernel env) (.geteventmsg p)) :=
    helper_ptrace (kernel env) ⟨rfl, nofun⟩
  exact h.helper (hhelper s) hsound (hsound.kept (hkeeps s) ⟨h.current, trivial⟩).1

theorem Kept.initialised (h : Kept s) (hinit : procInit (kernel env) scan pid s = .ok () s')
    (hsound : Sound ForeignExec ReapedInside s') : Kept s' := by
  have hkeeps :=
    ((resumesKeep_current s.processTable pid).within_procInit env (fun _ => True) scan).ok
    hinit
  exact h.helper ((helper_procInit (kernel env) scan pid).ok hinit) hsound
    (hsound.kept hkeeps ⟨h.current, trivial⟩).1

/-- An entry for a process that is there. -/
theorem Current.cons (h : Current table w) (hpid : ∃ t, w.task pid = some t) (addr : Ptr) :
    Current (⟨addr, pid, initialClock⟩ :: table) w := by
  refine ⟨h.died, h.unhooked, fun c hc => ?_, fun c hc => ?_⟩
  · rcases List.mem_cons.mp hc with rfl | hc
    · exact hpid
    · exact h.present c hc
  · rcases List.mem_cons.mp hc with rfl | hc
    · exact fun _ _ _ => rfl
    · exact h.initial c hc

theorem unreaped_inserted (table : List ChildProcess) (os : World) (older : List (Event World))
    (hnew : ∀ e ∈ new, ¬ReportsDeath pid e) :
    Unreaped pid (new ++ .call (.insertProcess pid) table os :: older) :=
  ⟨new, table, os, older, rfl, hnew⟩

theorem Kept.resumed (h : Kept s)
    (hsound : Sound ForeignExec ReapedInside (s.asked (kernel env) (.syscall p 0))) :
    Kept (s.asked (kernel env) (.syscall p 0)) := by
  have hkeeps := (resumesKeep_current s.processTable p).within_resume env (fun _ => True) s
  have hhelper : Within (Helper p) (ptrace (kernel env) (.syscall p 0)) :=
    helper_ptrace (kernel env) ⟨rfl, nofun⟩
  exact h.helper (hhelper s) hsound (hsound.kept hkeeps ⟨h.current, trivial⟩).1

/-- A wait for a single process that is no death. -/
theorem live_of_sound {q : PidT} {status : Status} (hsound : Sound ForeignExec ReapedInside s)
    (hmem : .wait (some p) (some (.ok (q, status))) ∈ s.trace) : terminated status = false := by
  cases hdead : terminated status with
  | false => rfl
  | true => exact absurd hdead (hsound.events _ hmem)

/-- The child that `register_new_child` inserts and waits for. -/
theorem Kept.registered (h : Kept s) (hregistered : Registered (kernel env) pid s s')
    (hsound : Sound ForeignExec ReapedInside s') : Kept s' := by
  cases hregistered with
  | vanished hmessage => exact h.message hsound
  | known hmessage hfind => exact h.message hsound
  | @inserted message q status hmessage hfind hwait hresume =>
    have hwaited := hsound.earlier (later_asked env _ _)
    have hregistering := hwaited.earlier (later_waited env _ _)
    have hasked : Sound ForeignExec ReapedInside (s.asked (kernel env) (.geteventmsg pid)) :=
      ⟨hregistering.moves, fun e he => hregistering.events e (.tail _ (.tail _ he))⟩
    have hkept := h.message hasked
    have hallocated : TableOk ((s.asked (kernel env) (.geteventmsg pid)).allocated (kernel env)
        (childOf message)) := hkept.ok.tableKept ⟨rfl, rfl, rfl⟩
    have hok := @TableOk.inserted _ (childOf message) _ hallocated hfind
    -- the wait reports the child, which is alive
    have hq : q = childOf message := (waitpid_reported env hwait).2
    subst hq
    have hlive : terminated status = false :=
      live_of_sound (q := childOf message) hwaited (by rw [← hwait]; exact .head _)
    obtain ⟨hbefore, hreported⟩ := hwaited.waited env
      (resumesKeep_current s.processTable pid).toMovesKeep hkept.current hwait
    have hcurrent := current_report hbefore hreported hlive
    have hpresent : ∃ t, ((s.registering (kernel env) pid (childOf message)).waited (kernel env)
        (some (childOf message))).os.task (childOf message) = some t := by
      generalize ((s.registering (kernel env) pid (childOf message)).waited (kernel env)
        (some (childOf message))).os = w' at hreported
      cases hreported with
      | stopped ht hstate => exact ⟨_, World.task_setTask_self ..⟩
      | reaped ht hstate hlast =>
        rw [hbefore.died _ _ _ ht hstate] at hlive
        cases hlive
    refine Kept.resumed (s := (s.registering (kernel env) pid (childOf message)).waited (kernel env)
      (some (childOf message))) ⟨hok.tableKept ⟨rfl, rfl, rfl⟩, hcurrent.cons hpresent _, ?_⟩ hsound
    have hwait' : ∀ p, ¬ReportsDeath p (.wait (some (childOf message)) ((kernel env).waitpid
        (some (childOf message)) (s.registering (kernel env) pid (childOf message)).os).1) := by
      rw [hwait]
      rintro p ⟨-, hdead⟩
      rw [hlive] at hdead
      cases hdead
    intro c hc
    rcases List.mem_cons.mp hc with rfl | hc
    · refine @unreaped_inserted _ [.wait _ _, .malloc _ _] _ _ _ fun e he => ?_
      rcases List.mem_pair.mp he with rfl | rfl
      · exact hwait' _
      · exact id
    · refine @Unreaped.extend _ _ [.wait _ _, .malloc _ _, .call _ _ _]
        (hkept.unreaped c hc) fun e he => ?_
      rcases List.mem_cons.mp he with rfl | he
      · exact hwait' _
      · rcases List.mem_pair.mp he with rfl | rfl <;> exact id

theorem Kept.forkEvent (h : Kept s) {status : Status}
    (hregister : registerForkEvent (kernel env) pid status s = .ok () s')
    (hsound : Sound ForeignExec ReapedInside s') : Kept s' := by
  unfold registerForkEvent at hregister
  split at hregister
  · exact h.registered (register_cases hregister) hsound
  · cases hregister
    exact h

/-- A process stays there while a fork event is handled. -/
theorem atLeast_forkEvent (h : Handling table n p s.os) {status : Status}
    (hregister : registerForkEvent (kernel env) pid status s = .ok () s')
    (hsound : Sound ForeignExec ReapedInside s') : AtLeast n p s'.os := by
  have hkeeps := (within_registerForkEvent env (fun child => resumesKeep_handling table n p child)
    pid status).ok hregister
  exact (hsound.kept hkeeps ⟨h, trivial⟩).1.2

/-- An unexpected process. -/
theorem Kept.unexpected (h : Kept s) (hpresent : AtLeast 0 pid s.os) {added : Bool}
    {s₁ : Tracer World} (hfind : hashFind s.processTable pid = none)
    (hinit : procInit (kernel env) scan pid s = .ok () s₁)
    (hinsert : insertProcess (kernel env) pid s₁ = .ok added s')
    (hsound : Sound ForeignExec ReapedInside s') : Kept s' := by
  have hsound₁ := hsound.earlier (((later_steps env).within_insertProcess pid).ok hinsert)
  have hkept := h.initialised hinit hsound₁
  have htable : s₁.processTable = s.processTable :=
    ((helper_procInit (kernel env) scan pid).ok hinit).1.processTable
  have hkeeps :=
    ((resumesKeep_handling s.processTable 0 pid pid).within_procInit env (fun _ => True)
    scan).ok hinit
  obtain ⟨t, ht, -⟩ := (hsound₁.kept hkeeps ⟨⟨h.current, hpresent⟩, trivial⟩).1.2
  -- `proc_init` does not change the table
  have hfree : hashFind s₁.processTable pid = none := htable ▸ hfind
  rw [insertProcess_eq, if_neg (by rw [hfree]; exact Bool.false_ne_true)] at hinsert
  split at hinsert
  · cases hinsert
    have hallocated : TableOk (s₁.allocated (kernel env) pid) := hkept.ok.tableKept ⟨rfl, rfl, rfl⟩
    refine ⟨hallocated.inserted hfree, hkept.current.cons ⟨t, ht⟩ _, fun c hc => ?_⟩
    rcases List.mem_cons.mp hc with rfl | hc
    · refine @unreaped_inserted _ [.malloc _ _] _ _ _ fun e he => ?_
      rw [List.mem_singleton.mp he]
      exact id
    · refine @Unreaped.extend _ _ [.malloc _ _, .call _ _ _] (hkept.unreaped c hc) fun e he => ?_
      rcases List.mem_pair.mp he with rfl | rfl <;> exact id
  · cases hinsert

/-- A handler changes at most the clock of a process that has made a call. -/
theorem Kept.handled (h : Kept s) {c : ChildProcess} (hc : c ∈ s.processTable)
    {regs : UserRegsStruct} (hregs : hookOf regs.origRax ≠ none → AtLeast 1 c.pid s.os)
    (hhandle : handleSyscall (kernel env) c.addr regs s = .ok () s')
    (hsound : Sound ForeignExec ReapedInside s') : Kept s' := by
  have hblock := h.ok.blockAt_of_mem hc
  obtain ⟨hclock, hextends⟩ := within_handleSyscall (kernel env) regs hblock
  have hrun := hhandle
  rw [hhandle] at hclock hextends
  rw [handleSyscall_eq (kernel env) hblock] at hrun
  cases hhook : hookOf regs.origRax with
  | none =>
    rw [hhook] at hrun
    cases hrun
    refine ⟨h.ok.tableKept ⟨rfl, rfl, rfl⟩, h.current, fun d hd => ?_⟩
    refine @Unreaped.extend _ _ [.call _ _ _] (h.unreaped d hd) fun e he => ?_
    rw [List.mem_singleton.mp he]
    exact id
  | some hook =>
    rw [hhook] at hrun
    have hcalled : AtLeast 1 c.pid s.os := hregs (by rw [hhook]; exact nofun)
    let T : List ChildProcess → Prop := fun table => ∃ f, table = retime c.addr f s.processTable
    have hrequests := (requestsKeep_handling s.processTable c.pid).requests env T
    -- only the clock of the caller is set
    have hset : ∀ clock, Within (Keeps Later (Amiss ForeignExec ReapedInside) fun s' =>
        Handling s.processTable 1 c.pid s'.os ∧ T s'.processTable)
        (setClock c.addr clock : TracerM World Unit) := by
      intro clock
      refine Within.bind (Requests.within_deref c.addr) fun _ s₁ => ?_
      refine ⟨⟨List.suffix_rfl, List.suffix_rfl⟩, fun hs₁ => .inl ⟨hs₁.1, ?_⟩⟩
      obtain ⟨f, hf⟩ := hs₁.2
      refine ⟨(fun _ => clock) ∘ f, ?_⟩
      show retime c.addr (fun _ => clock) s₁.processTable = _
      rw [hf, retime_retime]
    have hkeeps := (hrequests.within_runHook hset regs (some hook)).ok hrun
    obtain ⟨⟨hcurrent, hcalled'⟩, f, hf⟩ := hsound.kept hkeeps
      ⟨⟨h.current, hcalled⟩, id, (retime_id ..).symm⟩
    have hpids : s'.processTable.map ChildProcess.pid = s.processTable.map ChildProcess.pid := by
      rw [hf, map_retime _ fun _ _ => rfl]
    refine ⟨TableOk.clockOnly (s := s) h.ok
      ⟨hclock.processTable, hclock.entryCount, hclock.nextAddr⟩,
      ⟨hcurrent.died, hcurrent.unhooked, fun d hd => ?_, fun d hd t ht hzero => ?_⟩, ?_⟩
    · rw [hf] at hd
      obtain ⟨d₀, hd₀, rfl⟩ := List.mem_map.mp hd
      obtain ⟨t, ht⟩ := hcurrent.present d₀ hd₀
      refine ⟨t, ?_⟩
      split <;> exact ht
    · rw [hf] at hd
      obtain ⟨d₀, hd₀, rfl⟩ := List.mem_map.mp hd
      by_cases haddr : d₀.addr = c.addr
      · -- the caller has made a call
        rw [if_pos haddr] at ht
        rw [h.ok.eq_of_addr hd₀ hc haddr] at ht
        obtain ⟨u, hu, hn⟩ := hcalled'
        cases hu.symm.trans ht
        omega
      · rw [if_neg haddr] at ht ⊢
        exact hcurrent.initial d₀ hd₀ t ht hzero
    · have hnoted : ∀ d ∈ (s.noted (.handleSyscall c.addr regs)).processTable,
          Unreaped d.pid (s.noted (.handleSyscall c.addr regs)).trace := by
        intro d hd
        refine @Unreaped.extend _ _ [.call _ _ _] (h.unreaped d hd) fun e he => ?_
        rw [List.mem_singleton.mp he]
        exact id
      exact unreaped_extends hnoted hextends hsound hpids

/-- The entry of a process that does not answer is deleted. -/
theorem Kept.deleted (h : Kept s) (pid : PidT) : Kept (s.deleted pid) := by
  have htable := h.ok.processTable_deleted pid
  have hsub : ∀ c ∈ (s.deleted pid).processTable, c ∈ s.processTable := by
    intro c hc
    rw [htable] at hc
    exact (List.mem_filter.mp hc).1
  refine ⟨h.ok.deleted pid, ?_, fun c hc => ?_⟩
  · rw [os_deleted]
    exact h.current.mono hsub
  · rw [trace_deleted]
    refine @Unreaped.extend _ _ [.call _ _ _] (h.unreaped c (hsub c hc)) fun e he => ?_
    rw [List.mem_singleton.mp he]
    exact id

/-- Reading the registers of a tracked process. -/
theorem Kept.registers (h : Kept s) (hpresent : AtLeast 0 pid s.os) {regs : UserRegsStruct}
    (hregs : ((kernel env).ptrace (.getregs pid) s.os).1 = .ok regs)
    (hsound : Sound ForeignExec ReapedInside (s.asked (kernel env) (.getregs pid))) :
    Kept (s.asked (kernel env) (.getregs pid)) ∧
      (hookOf regs.origRax ≠ none → AtLeast 1 pid (s.asked (kernel env) (.getregs pid)).os) := by
  -- a process that has made no call has no hooked number in its registers
  have hhandling := hsound.asked env (history_ptrace env s.os (.getregs pid))
    (resumesKeep_handling s.processTable 0 pid pid).toMovesKeep ⟨h.current, hpresent⟩
  have hos : (s.asked (kernel env) (.getregs pid)).os = s.os.asked env (.ptrace (.getregs pid)) ∧
      ∃ t, (s.os.asked env (.ptrace (.getregs pid))).task pid = some t ∧ regs = t.regs := by
    have hrun : ((kernel env).ptrace (.getregs pid) s.os) =
        World.ptrace env (.getregs pid) s.os := rfl
    rcases ptrace_performed env s.os (.getregs pid) with ⟨t, ht, -, hperform⟩ | ⟨-, hgone⟩
    · rw [hrun, hperform] at hregs
      refine ⟨congrArg Prod.snd hperform, t, ht, ?_⟩
      exact (Except.ok.inj hregs).symm
    · rw [hrun, hgone] at hregs
      cases hregs
  obtain ⟨hos, t, ht, rfl⟩ := hos
  refine ⟨⟨h.ok.tableKept ⟨rfl, rfl, rfl⟩, ?_, fun c hc => ?_⟩, fun hhooked => ?_⟩
  · rw [hos]
    exact hhandling.1
  · refine @Unreaped.extend _ _ [.ptrace _ _] (h.unreaped c hc) fun e he => ?_
    rw [List.mem_singleton.mp he]
    exact id
  · rw [hos]
    refine ⟨t, ht, Nat.one_le_iff_ne_zero.mpr fun hzero => hhooked ?_⟩
    exact hhandling.1.unhooked pid t ht hzero

/-- A turn keeps the invariant. -/
theorem kept_turn (h : Kept s) (hturned : Turned (kernel env) scan s s')
    (hsound : Sound ForeignExec ReapedInside s') : Kept s' := by
  cases hturned with
  | died hwait hdead => exact h.died hwait hdead hsound
  | execd hwait hlive hexec hinit =>
    have hwaited := hsound.earlier (((later_steps env).within_procInit scan _).ok hinit)
    exact (h.waited hwait hlive hwaited).1.initialised hinit hsound
  | @unexpected pid status added s₁ s₂ _ hwait hlive hexec hregister hfind hinit hinsert =>
    have hsound₁ :=
      (hsound.earlier (((later_steps env).within_insertProcess pid).ok hinsert)).earlier
      (((later_steps env).within_procInit scan pid).ok hinit)
    have hwaited :=
      hsound₁.earlier (((later_steps env).within_registerForkEvent pid status).ok hregister)
    obtain ⟨hkept, hpresent⟩ := h.waited hwait hlive hwaited
    have hpresent₁ := atLeast_forkEvent ⟨hkept.current, hpresent⟩ hregister hsound₁
    exact (hkept.forkEvent hregister hsound₁).unexpected hpresent₁ hfind hinit hinsert hsound
  | @handled pid status c regs s₁ s₂ _ hwait hlive hexec hregister hfind hregs hhandle hresume =>
    -- each part of the turn is sound, for the whole record is
    have hsound₂ : Sound ForeignExec ReapedInside (s₂.asked (kernel env) (.syscall pid 0)) := by
      rcases hresume with ⟨-, rfl⟩ | ⟨-, rfl⟩
      · exact hsound
      · exact hsound.earlier (later_deleted _ pid)
    have hhandled := hsound₂.earlier (later_asked env _ _)
    have hread := hhandled.earlier ((later_handleSyscall env c.addr regs).ok hhandle)
    have hsound₁ := hread.earlier (later_asked env _ _)
    have hwaited :=
      hsound₁.earlier (((later_steps env).within_registerForkEvent pid status).ok hregister)
    obtain ⟨hkept, hpresent⟩ := h.waited hwait hlive hwaited
    have hpresent₁ := atLeast_forkEvent ⟨hkept.current, hpresent⟩ hregister hsound₁
    obtain ⟨hkept₁, hcalled⟩ := (hkept.forkEvent hregister hsound₁).registers hpresent₁ hregs hread
    have hmem : c ∈ s₁.processTable ∧ c.pid = pid := hashFind_eq_some hfind
    obtain ⟨hmem, rfl⟩ := hmem
    have hkept₂ := (hkept₁.handled hmem hcalled hhandle hhandled).resumed hsound₂
    rcases hresume with ⟨-, rfl⟩ | ⟨-, rfl⟩
    · exact hkept₂
    · exact hkept₂.deleted c.pid

theorem kept_begun {b : Boot} (h : Begun b s) : Kept s := by
  -- the only task is the first child
  have hfirst : ∀ {q t}, s.os.task q = some t →
      q = b.childPid ∧ t = { b.task with state := .user } := by
    intro q t ht
    rw [h.task] at ht
    by_cases hq : q = b.childPid
    · rw [hq, Function.update_self] at ht
      exact ⟨hq, (Option.some.inj ht).symm⟩
    · rw [Function.update_of_ne hq] at ht
      cases ht
  refine ⟨h.ok,
    ⟨fun q t status ht hstate => ?_, fun q t ht _ => ?_, fun c hc => ?_, fun c hc t _ _ => ?_⟩,
    fun c hc => ?_⟩
  · rw [(hfirst ht).2] at hstate
    cases hstate
  · rw [(hfirst ht).2]
    rfl
  · rw [h.table] at hc
    rw [List.mem_singleton.mp hc, h.task]
    exact ⟨_, Function.update_self ..⟩
  · rw [h.table] at hc
    rw [List.mem_singleton.mp hc]
  · rw [h.table] at hc
    rw [List.mem_singleton.mp hc, h.trace]
    refine ⟨[.ptrace _ _, .malloc _ _], [], b.world, [], rfl, fun e he => ?_⟩
    rcases List.mem_pair.mp he with rfl | rfl <;> exact id

/-- As long as no wait for a single process reports a death, no entry is stale at any head of the
loop. -/
theorem noStale_of_sound {b : Boot} (h : b.Head env scan (fun _ _ => True) s)
    (hsound : Sound ForeignExec ReapedInside s) : NoStale s := by
  have hkept : Kept s := by
    -- over the turns: a turn of a sound run is sound
    induction h with
    | first hinsert hresume => exact kept_begun (begun_first hinsert hresume)
    | @turn s s' h hturn _ ih =>
      exact kept_turn (ih (hsound.earlier (later_turn env hturn))) (turn_cases hturn) hsound
  exact ⟨hkept.unreaped, hkept.current.initial⟩

/-- The first task forks, and its child reaches its first stop. -/
def childStarts : Env :=
  scripted [(1, ⟨[.enter 100 forkCall], 100⟩), (4, ⟨[.fork 100 101 .fork false false 0], 100⟩)]

theorem forkCall_noStale :
    ∃ s, Boot.sample.Head childStarts 0 (fun _ _ => True) s ∧
      s.processTable.map ChildProcess.pid = [101, 100] ∧ NoStale s := by
  obtain ⟨s, hhead, hpids, hhistory, htrace⟩ : ∃ s,
      Boot.sample.Head childStarts 0 (fun _ _ => True) s ∧
      s.processTable.map ChildProcess.pid = [101, 100] ∧
      s.os.history = [(4, .fork 100 101 .fork false false 0), (1, .enter 100 forkCall)] ∧
      ∀ e ∈ s.trace, ¬ReapedInside e :=
    ⟨_, .turn (.turn (.first rfl rfl) rfl trivial) rfl trivial, rfl, rfl, by decide +kernel⟩
  refine ⟨s, hhead, hpids, noStale_of_sound hhead ⟨?_, htrace⟩⟩
  rintro x hx ⟨pid, leader, regs, image, hexec, -⟩
  rw [hhistory] at hx
  rcases List.mem_pair.mp hx with rfl | rfl <;> cases hexec

/-- The child is killed before its first stop. -/
def childKilled : Env :=
  scripted [(1, ⟨[.enter 100 forkCall], 100⟩), (4, ⟨[.fork 100 101 .fork false false 0], 100⟩),
    (6, ⟨[.die 101 9], 101⟩)]

/-- A process whose death was the last that is known of it is not tracked rightly. -/
theorem not_unreaped {recent older : List (Event World)} {e : Event World}
    (hdeath : ReportsDeath pid e)
    (hrecent : ∀ table os, .call (.insertProcess pid) table os ∉ recent) :
    ¬Unreaped pid (recent ++ e :: older) := by
  rintro ⟨newer, table, os, old, htrace, hnewer⟩
  have hne : e ≠ .call (.insertProcess pid) table os := by
    rintro rfl
    exact hdeath
  -- the insertion would have to stand before the death or behind it
  rcases List.append_eq_append_iff.mp htrace with ⟨between, rfl, htail⟩ | ⟨between, rfl, htail⟩
  · cases between with
    | nil => exact hne (List.cons.inj htail).1
    | cons e' between =>
      obtain ⟨rfl, -⟩ := List.cons.inj htail
      exact hnewer e (List.mem_append_right _ (.head _)) hdeath
  · cases between with
    | nil => exact hne (List.cons.inj htail).1.symm
    | cons e' between =>
      obtain ⟨rfl, -⟩ := List.cons.inj htail
      exact hrecent _ _ (List.mem_append_right _ (.head _))

/-- The wait of `register_new_child` consumes the death of the child, and its entry stays. -/
theorem not_noStale_childKilled :
    ∃ s, Boot.sample.Head childKilled 0 (fun _ _ => True) s ∧
      (∀ x ∈ s.os.history, ¬ForeignExec x) ∧ ¬NoStale s := by
  refine ⟨_, .turn (.turn (.first rfl rfl) rfl trivial) rfl trivial, ?_, fun h => ?_⟩
  · rintro x hx ⟨pid, leader, regs, image, hexec, -⟩
    have hmove : x ∈ [((6 : Nat), Move.die 101 9), (4, .fork 100 101 .fork false false 0),
        (1, .enter 100 forkCall)] := hx
    simp only [List.mem_cons, List.not_mem_nil, or_false] at hmove
    rcases hmove with rfl | rfl | rfl <;> cases hexec
  · exact @not_unreaped 101 [_, _, _, _] _ (.wait (some 101) (some (.ok (101, 9)))) ⟨rfl, rfl⟩
      (by simp) (h.unreaped _ (.head _))

end Reproduce.Linux
