import Reproduce.Linux.Equiv.Fate
import Reproduce.Tracer.Equiv.Survival

/-!
# A call that nobody disturbs

An environment *attends* to a process when, during a call of the tracer, nobody kills it, replaces
its program or writes to its memory, and when the process reaches the end of its system call
whenever the tracer waits for that.  All other processes are free to do whatever they do.

In such an environment the answers to the requests of a handler are determined by the task and its
memory: `Held t m` says what they are, and there is one triple for each request.  A word that is not
accessible is the only reason for a request to fail.
-/

namespace Reproduce.Linux

open Bytes Effect

/-- The move neither kills the process, nor replaces its program, nor writes to the
address space. -/
def Move.Spares (pid : PidT) (mm : Nat) : Move → Prop
  | .die p _ => p ≠ pid
  | .exec _ leader _ _ => leader ≠ pid
  | .store mm' _ => mm' ≠ mm
  | _ => True

/-- During a call of the tracer nobody disturbs the process. -/
def Spared (env : Env) (pid : PidT) (mm : Nat) : Prop :=
  ∀ n q, ∀ m ∈ (env n q).moves, m.Spares pid mm

structure Attends (env : Env) (pid : PidT) (mm : Nat) : Prop where
  spares : ∀ n q, ∀ m ∈ (env n q).moves, m.Spares pid mm
  finishes : ∀ n, ∃ regs, Move.finish pid regs ∈ (env n (.wait (some pid))).moves

theorem Attends.spared {env : Env} {pid : PidT} {mm : Nat} (h : Attends env pid mm) :
    Spared env pid mm := h.spares

/-- The process is the task `t`, its memory is `m`, and its address space is not given out again. -/
structure Held (pid : PidT) (t : Task) (m : Memory) (w : World) : Prop where
  task : w.task pid = some t
  mem : w.mem t.mm = m
  fresh : t.mm < w.nextMm

/-! ### Moves -/

variable {pid : PidT} {mm : Nat} {m : Memory}

/-- Nobody else kills the process or replaces its program. -/
def Move.Leaves (pid : PidT) : Move → Prop
  | .die p _ => p ≠ pid
  | .exec p leader _ _ => leader = pid → p = pid
  | _ => True

theorem Move.Spares.leaves {move : Move} (h : move.Spares pid mm) : move.Leaves pid := by
  cases move with
  | die => exact h
  | exec p leader => exact fun hleader => absurd hleader h
  | enter | finish | fork | signal | store => trivial

/-- A process that nobody else disturbs makes its own moves only. -/
theorem left_moved {G : Task → Prop} (hG : Steady G) {w w' : World} {move : Move}
    (hleaves : move.Leaves pid) (h : Moved w move w') {t : Task} (ht : w.task pid = some t)
    (hGt : G t) : ∃ t', w'.task pid = some t' ∧ G t' := by
  -- a move of another process
  have hother : ∀ {p : PidT} {o : Option Task}, pid ≠ p →
      ∃ t', (w.setTask p o).task pid = some t' ∧ G t' :=
    fun hp => ⟨t, (World.task_setTask_of_ne _ _ hp).trans ht, hGt⟩
  cases h with
  | @enter p t' regs ht' hstate =>
    by_cases hp : pid = p
    · subst hp
      cases ht.symm.trans ht'
      exact ⟨_, World.task_setTask_self .., hG.enter t regs hGt hstate⟩
    · exact hother hp
  | @finish p t' fresh regs ht' hstate =>
    by_cases hp : pid = p
    · subst hp
      cases ht.symm.trans ht'
      exact ⟨_, World.task_setTask_self .., hG.finish t fresh regs hGt hstate⟩
    · exact hother hp
  | @fork p child t' e thread share rsp ht' hstate hnr he hchild hfree hshare =>
    -- the child has a pid that was free
    have hchild' : pid ≠ child := fun h => by
      rw [h, hfree] at ht
      cases ht
    by_cases hp : pid = p
    · subst hp
      cases ht.symm.trans ht'
      refine ⟨t.forking e child w.births, ?_, hG.fork t e child _ hGt hstate hnr⟩
      simp [World.fork, Function.update_of_ne hchild']
    · refine ⟨t, ?_, hGt⟩
      simp [World.fork, Function.update_of_ne hchild', Function.update_of_ne hp, ht]
  | @exec p leader t' old regs image ht' hstate hnr hold htgid hleader hdead halone =>
    by_cases hp : pid = p
    · subst hp
      cases ht.symm.trans ht'
      have := hG.exec t hGt hstate
      rw [hnr] at this
      cases this
    · -- the leader that is replaced is not this process, by `hleaves`
      have hl : pid ≠ leader := fun h => hp (hleaves h.symm).symm
      exact ⟨t, by simp [World.exec, Function.update_of_ne hl, Function.update_of_ne hp, ht], hGt⟩
  | @signal p t' sig regs ht' hstate =>
    by_cases hp : pid = p
    · subst hp
      cases ht.symm.trans ht'
      exact ⟨_, World.task_setTask_self .., hG.signal t sig regs hGt hstate⟩
    · exact hother hp
  | @die p t' status ht' hlive hstatus => exact hother fun h => hleaves h.symm
  | store => exact ⟨t, ht, hGt⟩

theorem left_runMoves {G : Task → Prop} (hG : Steady G) {moves : List Move}
    (hleaves : ∀ move ∈ moves, move.Leaves pid) {w : World} (hw : ∃ t, w.task pid = some t ∧ G t) :
    ∃ t, (w.runMoves moves).task pid = some t ∧ G t := by
  refine runMoves_induction (P := fun w => ∃ t, w.task pid = some t ∧ G t) ?_ w hw
  rintro w move w' hmem ⟨t, ht, hGt⟩ hmoved
  obtain ⟨t', ht', hGt'⟩ := left_moved hG (hleaves move hmem) hmoved ht hGt
  exact ⟨t', ht', hGt'⟩

/-- A stopped process that nobody else disturbs stays as it is. -/
theorem left_stopped {t : Task} (hstop : t.isStopped = true) {moves : List Move}
    (hleaves : ∀ move ∈ moves, move.Leaves pid) {w : World} (ht : w.task pid = some t) :
    (w.runMoves moves).task pid = some t := by
  obtain ⟨t', ht', rfl⟩ := left_runMoves (steady_stopped hstop) hleaves ⟨t, ht, rfl⟩
  exact ht'

/-- A process in an ordinary system call comes to its end when one of the moves says so. -/
theorem left_finish {t : Task} {fresh : Bool} (hstate : t.state = .kernel fresh)
    (hcreation : isCreation t.regs.origRax = false) (hexecve : isExecve t.regs.origRax = false)
    {moves : List Move} (hleaves : ∀ move ∈ moves, move.Leaves pid) {w : World}
    (ht : w.task pid = some t) {regs : UserRegsStruct} (hmem : Move.finish pid regs ∈ moves) :
    ∃ regs', (w.runMoves moves).task pid = some (t.finish regs') := by
  obtain ⟨before, after, rfl⟩ := List.append_of_mem hmem
  have hbefore : ∀ move ∈ before, move.Leaves pid :=
    fun move h => hleaves move (List.mem_append_left _ h)
  have hafter : ∀ move ∈ after, move.Leaves pid :=
    fun move h => hleaves move (List.mem_append_right _ (List.mem_cons_of_mem _ h))
  have hstill : ∀ regs', (t.finish regs').isStopped = true := by simp [Task.isStopped]
  rw [runMoves_append]
  obtain ⟨t', ht', rfl | ⟨regs', rfl⟩⟩ :=
    left_runMoves (steady_kernel hstate hcreation hexecve) hbefore ⟨t, ht, .inl rfl⟩
  · -- the move happens now
    have hmove : ((w.runMoves before).move (.finish pid regs)).task pid =
        some (t'.finish regs) := by
      rw [World.move, apply_finish regs ht' hstate]
      exact World.task_setTask_self ..
    exact ⟨regs, left_stopped (hstill regs) hafter hmove⟩
  · -- the process is at its exit stop already
    refine ⟨regs', left_stopped (hstill regs') (fun move h => ?_) ht'⟩
    exact hleaves move (List.mem_append_right _ h)

/-- An address space that nobody writes to keeps its memory. -/
theorem mem_runMoves {moves : List Move} (hspares : ∀ move ∈ moves, move.Spares pid mm) {w : World}
    (hw : w.mem mm = m ∧ mm < w.nextMm) :
    (w.runMoves moves).mem mm = m ∧ mm < (w.runMoves moves).nextMm := by
  refine runMoves_induction (P := fun w => w.mem mm = m ∧ mm < w.nextMm) ?_ w hw
  rintro w move w' hmem ⟨hm, hfresh⟩ hmoved
  -- a new address space is none of the old ones
  have hnew : mm ≠ w.nextMm := Nat.ne_of_lt hfresh
  have hspare := hspares move hmem
  cases hmoved with
  | fork => exact ⟨by simp [World.fork, Function.update_of_ne hnew, hm], Nat.lt_succ_of_lt hfresh⟩
  | exec => exact ⟨by simp [World.exec, Function.update_of_ne hnew, hm], Nat.lt_succ_of_lt hfresh⟩
  | store => exact ⟨(Function.update_of_ne (Ne.symm hspare) _ _).trans hm, hfresh⟩
  | enter | finish | signal | die => exact ⟨hm, hfresh⟩

/-- A stopped process stays as it is, with its memory. -/
theorem held_stopped {t : Task} (hstop : t.isStopped = true) {moves : List Move}
    (hspares : ∀ move ∈ moves, move.Spares pid t.mm) {w : World} (hw : Held pid t m w) :
    Held pid t m (w.runMoves moves) := by
  obtain ⟨hmem', hfresh'⟩ := mem_runMoves hspares ⟨hw.mem, hw.fresh⟩
  exact ⟨left_stopped hstop (fun move h => (hspares move h).leaves) hw.task, hmem', hfresh'⟩

/-- The end of an ordinary system call finds the memory as it was. -/
theorem held_finish {t : Task} {fresh : Bool} (hstate : t.state = .kernel fresh)
    (hcreation : isCreation t.regs.origRax = false) (hexecve : isExecve t.regs.origRax = false)
    {moves : List Move} (hspares : ∀ move ∈ moves, move.Spares pid t.mm) {w : World}
    (hw : Held pid t m w) {regs : UserRegsStruct} (hmem : Move.finish pid regs ∈ moves) :
    ∃ regs', Held pid (t.finish regs') m (w.runMoves moves) := by
  obtain ⟨regs', ht'⟩ := left_finish hstate hcreation hexecve
    (fun move h => (hspares move h).leaves) hw.task hmem
  obtain ⟨hmem', hfresh'⟩ := mem_runMoves hspares ⟨hw.mem, hw.fresh⟩
  refine ⟨regs', ht', ?_, ?_⟩
  · rw [mm_finish]
    exact hmem'
  · rw [mm_finish]
    exact hfresh'

/-! ### Requests -/

theorem heap_moved {w w' : World} {move : Move} (h : Moved w move w') : w'.heap = w.heap := by
  cases h <;> rfl

variable (env : Env)

theorem heap_asked (w : World) (q : Query) : (w.asked env q).heap = w.heap :=
  runMoves_induction (P := fun w' => w'.heap = w.heap)
    (fun _ _ _ _ hw hmoved => (heap_moved hmoved).trans hw) w rfl

/-- A wait for a process that has reached the end of its call reports the exit stop. -/
theorem waitpidOrExit_of_finish {env : Env} {t : Task} {regs : UserRegsStruct} {s : Tracer World}
    (h : (s.os.asked env (.wait (some pid))).task pid = some (t.finish regs)) :
    waitpidOrExit (kernel env) pid s =
        .ok Stop.syscallExit.status (s.waited (kernel env) (some pid)) ∧
      (s.waited (kernel env) (some pid)).os = (s.os.asked env (.wait (some pid))).setTask pid
        (some { t.finish regs with state := .stopped .syscallExit true }) := by
  have hsome : ((s.os.asked env (.wait (some pid))).task pid).isNone = false := by
    rw [h]
    rfl
  have hanswer : World.waitpid env (some pid) s.os = (some (.ok (pid, Stop.syscallExit.status)),
      (s.os.asked env (.wait (some pid))).setTask pid
        (some { t.finish regs with state := .stopped .syscallExit true })) := by
    unfold World.waitpid
    dsimp only
    rw [← World.asked, if_neg (by simp [hsome]), report_of_stopped h (state_finish t regs)]
  have hwait : waitpid (kernel env) (some pid) s =
      .ok (.ok (pid, Stop.syscallExit.status)) (s.waited (kernel env) (some pid)) :=
    waitpid_of_some _ (congrArg Prod.fst hanswer)
  exact ⟨bind_apply_ok hwait, congrArg Prod.snd hanswer⟩

/-- The process, its memory, the process table, and the largest block that is granted. -/
structure Tracked (pid : PidT) (table : List ChildProcess) (heap : Nat) (t : Task) (m : Memory)
    (s : Tracer World) : Prop where
  held : Held pid t m s.os
  table : s.processTable = table
  heap : s.os.heap = heap

variable {env} {table : List ChildProcess} {heap : Nat} {t : Task}

theorem held_asked (henv : Spared env pid t.mm) (hstop : t.isStopped = true) {w : World}
    (hw : Held pid t m w) (q : Query) : Held pid t m (w.asked env q) := by
  have hmoves := held_stopped hstop (henv w.tick q) hw
  exact ⟨hmoves.task, hmoves.mem, hmoves.fresh⟩

/-- A request is carried out on the task with its memory. -/
theorem triple_ptrace_tracked (henv : Spared env pid t.mm) (hstop : t.isStopped = true)
    {r : Request} (hr : r.pid = pid) (E : Halt → Tracer World → Prop) :
    Triple (Tracked pid table heap t m) (ptrace (kernel env) r)
      (fun answer s => ∃ w, Held pid t m w ∧ w.heap = heap ∧ answer = (w.perform t r).1 ∧
        s.os = (w.perform t r).2 ∧ s.processTable = table) E := by
  intro s hs
  have hheld := held_asked henv hstop hs.held (.ptrace r)
  have hperform : World.ptrace env r s.os = (s.os.asked env (.ptrace r)).perform t r :=
    ptrace_of_stopped env (by rw [hr]; exact hheld.task) hstop
  refine ⟨s.os.asked env (.ptrace r), hheld, ?_, ?_, ?_, hs.table⟩
  · rw [heap_asked]
    exact hs.heap
  · rw [← hperform]
    rfl
  · rw [← hperform]
    rfl

/-- A request that cannot fail, and what it makes of the task. -/
theorem triple_ptraceReturn_tracked (henv : Spared env pid t.mm) (hstop : t.isStopped = true)
    {r : Request} (hr : r.pid = pid) {t' : Task}
    (heffect : ∀ w, Held pid t m w → (∃ reply, (w.perform t r).1 = .ok reply) ∧
      Held pid t' m (w.perform t r).2 ∧ (w.perform t r).2.heap = w.heap)
    (E : Halt → Tracer World → Prop) :
    Triple (Tracked pid table heap t m) (ptraceReturn (kernel env) r)
      (fun more s => more = true ∧ Tracked pid table heap t' m s) E := by
  refine Triple.bind (triple_ptrace_tracked henv hstop hr E) fun answer => ?_
  cases answer with
  | ok reply' =>
    refine Triple.pure fun s hs => ⟨rfl, ?_⟩
    obtain ⟨w, hw, hheap, -, hos, htable⟩ := hs
    obtain ⟨-, hheld, hheap'⟩ := heffect w hw
    exact ⟨hos ▸ hheld, htable, by rw [hos, hheap', hheap]⟩
  | error e =>
    refine Triple.intro (fun s _ _ hs _ => ?_) (fun s _ _ hs _ => ?_)
    -- the answer cannot be an error
    all_goals
      obtain ⟨w, hw, -, hanswer, -, -⟩ := hs
      obtain ⟨⟨reply, hreply⟩, -, -⟩ := heffect w hw
      rw [hreply] at hanswer
      cases hanswer

theorem triple_setregs (henv : Spared env pid t.mm) (hstop : t.isStopped = true)
    (regs : UserRegsStruct) (E : Halt → Tracer World → Prop) :
    Triple (Tracked pid table heap t m) (ptraceReturn (kernel env) (.setregs pid regs))
      (fun more s => more = true ∧ Tracked pid table heap { t with regs := regs } m s) E := by
  refine triple_ptraceReturn_tracked henv hstop rfl (fun w hw => ?_) E
  exact ⟨⟨(), rfl⟩, ⟨Function.update_self pid _ w.task, hw.mem, hw.fresh⟩, rfl⟩

theorem triple_resume (henv : Spared env pid t.mm) {reported : Bool}
    (hstate : t.state = .stopped .syscallEntry reported) (E : Halt → Tracer World → Prop) :
    Triple (Tracked pid table heap t m) (ptraceReturn (kernel env) (.syscall pid 0))
      (fun more s => more = true ∧ Tracked pid table heap (t.resume .syscallEntry 0) m s) E := by
  have hstop : t.isStopped = true := by simp [Task.isStopped, hstate]
  have hentry : t.stop? = some .syscallEntry := by simp [Task.stop?, hstate]
  refine triple_ptraceReturn_tracked henv hstop rfl (fun w hw => ?_) E
  unfold World.perform
  rw [hentry]
  exact ⟨⟨(), rfl⟩, ⟨Function.update_self pid _ w.task, hw.mem, hw.fresh⟩, rfl⟩

section access

variable {w : World} {addr data : Word}

theorem perform_poke_of_some {m' : Memory} (h : (w.mem t.mm).poke addr data = some m') :
    w.perform t (.pokedata pid addr data) =
      (.ok (), ((w.setMem t.mm m').countPoke pid t).recordWrite pid t.mm) := by
  unfold World.perform
  dsimp only
  rw [h]

theorem perform_poke_of_none (h : (w.mem t.mm).poke addr data = none) :
    w.perform t (.pokedata pid addr data) = (.error Errno.EIO, w) := by
  unfold World.perform
  dsimp only
  rw [h]

theorem perform_peek_of_some {word : Word} (h : (w.mem t.mm).peek addr = some word) :
    w.perform t (.peek pid (.data addr)) = (.ok word, w) := by
  unfold World.perform
  dsimp only
  rw [h]

theorem perform_peek_of_none (h : (w.mem t.mm).peek addr = none) :
    w.perform t (.peek pid (.data addr)) = (.error Errno.EIO, w) := by
  unfold World.perform
  dsimp only
  rw [h]

end access

/-- The task after a poke into it, which is counted in its first stop. -/
def Task.poked (t : Task) : Task :=
  if t.stop? = some .initial then { t with earlyPokes := t.earlyPokes + 1 } else t

theorem held_poke {w : World} (hw : Held pid t m w) (m' : Memory) :
    Held pid t.poked m' (((w.setMem t.mm m').countPoke pid t).recordWrite pid t.mm) := by
  unfold Task.poked World.countPoke
  by_cases hinitial : t.stop? = some .initial
  · rw [if_pos hinitial, if_pos hinitial]
    exact ⟨Function.update_self .., Function.update_self .., hw.fresh⟩
  · rw [if_neg hinitial, if_neg hinitial]
    exact ⟨hw.task, Function.update_self .., hw.fresh⟩

theorem heap_countPoke (w : World) (pid : PidT) (t : Task) : (w.countPoke pid t).heap = w.heap := by
  unfold World.countPoke
  split
  · rfl
  · rfl

/-- A word is poked exactly when the memory lets it. -/
theorem triple_poke (henv : Spared env pid t.mm) (hstop : t.isStopped = true) (addr data : Word) :
    Triple (Tracked pid table heap t m) (ptraceReturn (kernel env) (.pokedata pid addr data))
      (fun more s => more = true ∧
        ∃ m', m.poke addr data = some m' ∧ Tracked pid table heap t.poked m' s)
      (fun e _ => e = .exit EXIT_FAILURE ∧ m.poke addr data = none) := by
  refine Triple.bind (triple_ptrace_tracked henv hstop rfl _) fun answer => ?_
  have hnone : ∀ w, Held pid t m w → m.poke addr data = none →
      w.perform t (.pokedata pid addr data) = (.error Errno.EIO, w) := by
    intro w hw h
    exact perform_poke_of_none (by rw [hw.mem, h])
  have hsome : ∀ w m', Held pid t m w → m.poke addr data = some m' →
      w.perform t (.pokedata pid addr data) =
        (.ok (), ((w.setMem t.mm m').countPoke pid t).recordWrite pid t.mm) := by
    intro w m' hw h
    exact perform_poke_of_some (by rw [hw.mem, h])
  cases answer with
  | ok reply =>
    refine Triple.pure fun s hs => ⟨rfl, ?_⟩
    obtain ⟨w, hw, hheap, hanswer, hos, htable⟩ := hs
    cases hpoke : m.poke addr data with
    | none =>
      rw [hnone w hw hpoke] at hanswer
      cases hanswer
    | some m' =>
      rw [hsome w m' hw hpoke] at hos
      refine ⟨m', rfl, ?_, htable, ?_⟩
      · rw [hos]
        exact held_poke hw m'
      · rw [hos]
        exact (heap_countPoke _ pid t).trans hheap
  | error e =>
    -- an error is `EIO`, which `ptrace_return` does not pass over
    have hanswers : ∀ s : Tracer World, (∃ w, Held pid t m w ∧ w.heap = heap ∧
        Except.error e = (w.perform t (.pokedata pid addr data)).1 ∧
        s.os = (w.perform t (.pokedata pid addr data)).2 ∧ s.processTable = table) →
        e = Errno.EIO ∧ m.poke addr data = none := by
      rintro s ⟨w, hw, -, hanswer, -, -⟩
      cases hpoke : m.poke addr data with
      | none =>
        rw [hnone w hw hpoke] at hanswer
        cases hanswer
        exact ⟨rfl, rfl⟩
      | some m' =>
        rw [hsome w m' hw hpoke] at hanswer
        cases hanswer
    refine Triple.ite (fun he => Triple.pure fun s hs => ?_) (fun he => Triple.throw fun s hs => ?_)
    · rw [(hanswers s hs).1] at he
      cases he
    · exact ⟨rfl, (hanswers s hs).2⟩

/-- A poke behind the first stop leaves the task as it is. -/
theorem poked_of_started {t : Task} (hinitial : t.stop? ≠ some .initial) : t.poked = t :=
  if_neg hinitial

/-- A word is peeked exactly when the memory lets it. -/
def Peeked (pid : PidT) (table : List ChildProcess) (heap : Nat) (t : Task) (m : Memory)
    (addr : Word) : Except Errno Word → Tracer World → Prop
  | .ok v, s => m.peek addr = some v ∧ Tracked pid table heap t m s
  | .error e, s => e = Errno.EIO ∧ m.peek addr = none ∧ Tracked pid table heap t m s

theorem triple_peek (henv : Spared env pid t.mm) (hstop : t.isStopped = true) (addr : Word)
    (E : Halt → Tracer World → Prop) :
    Triple (Tracked pid table heap t m) (ptrace (kernel env) (.peek pid (.data addr)))
      (Peeked pid table heap t m addr) E := by
  refine Triple.conseq (triple_ptrace_tracked henv hstop rfl E) (fun s hs => hs) ?_
    (fun _ _ he => he)
  rintro answer s ⟨w, hw, hheap, hanswer, hos, htable⟩
  cases hpeek : m.peek addr with
  | none =>
    have hperform := @perform_peek_of_none pid t w addr (by rw [hw.mem, hpeek])
    rw [hperform] at hanswer hos
    subst hanswer
    exact ⟨rfl, hpeek, hos ▸ hw, htable, by rw [hos]; exact hheap⟩
  | some v =>
    have hperform := @perform_peek_of_some pid t w addr v (by rw [hw.mem, hpeek])
    rw [hperform] at hanswer hos
    subst hanswer
    exact ⟨hpeek, hos ▸ hw, htable, by rw [hos]; exact hheap⟩

end Reproduce.Linux
