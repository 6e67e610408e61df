import Reproduce.Linux.Equiv.Creations

/-!
# What is known of the processes at any point

`Tally` is what is known at any point of a story: the processes that are not tracked are new
(`Watched`) and announced (`Announced`), unless one was lost.  Moves keep it (`Tally.asked`), and so
do the requests and waits of the tracer, provided that a process is resumed only from a stop that
announces nobody without an entry (`Tallied.resumed`).

A handler resumes its process from the entry of a call that creates nobody, so that it leaves the
process dead or at a stop that announces nobody (`tallied_handleSyscall`).
-/

namespace Reproduce.Linux

open Bytes Effect

variable {tracked tracked' : PidT → Prop} {w w' : World} {pid p q : PidT} {t t' : Task} {m : Move}

/-! ### At any point of a story -/

/-- What is known of the tasks, if `tracked` has all processes with an entry. -/
structure Tally (tracked : PidT → Prop) (trace : List (Event World)) (w : World) : Prop where
  entries : ∀ q ∈ enrolled trace, tracked q
  watched : NoneUsurped w.history trace → Watched tracked w
  announced : NoneOrphaned w.history trace →
    Announced tracked (creations w.history trace) w

/-- What is known after the moves `ms`, which came behind the history `h₀`. -/
structure Along (tracked : PidT → Prop) (trace : List (Event World)) (h₀ : List (Nat × Move))
    (ms : List Move) (w : World) : Prop where
  watched : NoneUsurped h₀ trace → (∀ m ∈ ms, ¬m.Usurps (enrolled trace)) → Watched tracked w
  announced : NoneOrphaned h₀ trace → OrphanNone (creations h₀ trace) (enrolled trace) ms →
    Announced tracked (ms.foldr Move.announces (creations h₀ trace)) w

variable {trace : List (Event World)} {h₀ : List (Nat × Move)} {ms : List Move}

theorem Along.moved (h : Along tracked trace h₀ ms w) (hentries : ∀ q ∈ enrolled trace, tracked q)
    (hmoved : Moved w m w') :
    Along tracked trace h₀ (m :: ms) { w' with history := (w.tick, m) :: w.history } where
  watched hnone hmoves := by
    refine (watched_moved (h.watched hnone fun m' hm' => hmoves m' (.tail _ hm')) hmoved
      fun p leader regs image hexec hne => ?_).congr rfl rfl
    by_contra hnot
    refine hmoves m (.head _) ?_
    rw [hexec]
    exact ⟨hne, fun hmem => hnot (hentries leader hmem)⟩
  announced hnone hmoves :=
    (announced_moved (h.announced hnone hmoves.2) hmoved hentries hmoves.1).congr rfl

variable (env : Env)

/-- The moves before a query keep what is known.  The event of a wait without an answer stands for
the query that they come before. -/
theorem Tally.asked (h : Tally tracked trace w) (hn : Numbered trace w) (query : Query) :
    Tally tracked (.wait none none :: trace) (w.asked env query) := by
  obtain ⟨ms, hhistory, hbefore, hnew, halong⟩ := hn.recorded env
    (P := Along tracked trace w.history)
    ⟨fun hnone _ => h.watched hnone, fun hnone _ => h.announced hnone⟩
    (fun _ _ _ _ halong hmoved => halong.moved h.entries hmoved) query
  have hlist : creations (w.asked env query).history trace = creations w.history trace := by
    rw [hhistory, creations_append hnew]
  refine ⟨h.entries, fun ⟨hmoves, hnone⟩ => ?_, fun ⟨hmoves, hnone⟩ => ?_⟩
  · rw [hbefore] at hmoves
    rw [hhistory, everyMove_append hnew] at hnone
    exact (halong.watched hnone hmoves).congr rfl rfl
  · rw [hbefore, hlist] at hmoves
    rw [hhistory, noneOrphaned_append hnew] at hnone
    rw [creations, hbefore, hlist]
    exact (halong.announced hnone hmoves).congr rfl

/-- What is known in a state of the tracer. -/
structure Tallied (tracked : PidT → Prop) (s : Tracer World) : Prop where
  numbered : Numbered s.trace s.os
  tally : Tally tracked s.trace s.os

namespace Tallied

variable {s s' : Tracer World} {r : Request}

theorem mono (h : Tallied tracked s) (hsub : ∀ q, tracked q → tracked' q) : Tallied tracked' s where
  numbered := h.numbered
  tally :=
    { entries := fun q hq => hsub q (h.tally.entries q hq)
      watched := fun hnone => (h.tally.watched hnone).mono hsub
      announced := fun hnone => (h.tally.announced hnone).mono hsub }

theorem congr (h : Tallied tracked s) (htrace : s'.trace = s.trace) (hos : s'.os = s.os) :
    Tallied tracked s' :=
  ⟨by rw [htrace, hos]; exact h.numbered, by rw [htrace, hos]; exact h.tally⟩

theorem allocates (h : Tallied tracked s) {size : Nat} {granted : Bool}
    (htrace : s'.trace = .malloc size granted :: s.trace) (hos : s'.os = s.os) :
    Tallied tracked s' where
  numbered := (onward_own hos (htrace ▸ List.suffix_cons _ _) (by rw [htrace]; rfl)).numbered
    h.numbered
  tally := by
    rw [htrace, hos]
    exact ⟨h.tally.entries, h.tally.watched, h.tally.announced⟩

/-- A call is recorded; what is inserted is tracked. -/
theorem called (h : Tallied tracked s) {c : Call} {table : List ChildProcess} {os : World}
    (htrace : s'.trace = .call c table os :: s.trace) (hos : s'.os = s.os)
    (hinserts : ∀ q, c = .insertProcess q → tracked q) : Tallied tracked s' where
  numbered := (onward_own hos (htrace ▸ List.suffix_cons _ _) (by rw [htrace]; rfl)).numbered
    h.numbered
  tally := by
    rw [htrace, hos]
    refine ⟨fun q hq => ?_, h.tally.watched, h.tally.announced⟩
    cases c with
    | insertProcess pid =>
      rcases List.mem_cons.mp hq with rfl | hq
      · exact hinserts q rfl
      · exact h.tally.entries q hq
    | deleteProcess pid => exact h.tally.entries q (List.mem_filter.mp hq).1
    | removeVdso | handleSyscall => exact h.tally.entries q hq

/-- A request; it is refused, or carried out on a task that is stopped. -/
theorem asked (h : Tallied tracked s)
    (hperform : ∀ t, (s.os.asked env (.ptrace r)).task r.pid = some t → t.isStopped = true →
      (Watched tracked (s.os.asked env (.ptrace r)) →
        Watched tracked ((s.os.asked env (.ptrace r)).perform t r).2) ∧
      ∀ l, Announced tracked l (s.os.asked env (.ptrace r)) →
        Announced tracked l ((s.os.asked env (.ptrace r)).perform t r).2) :
    Tallied tracked (s.asked (kernel env) r) where
  numbered := (onward_asked env s r).numbered h.numbered
  tally := by
    have hasked := h.tally.asked env h.numbered (.ptrace r)
    have hhistory : (s.asked (kernel env) r).os.history = (s.os.asked env (.ptrace r)).history :=
      history_ptrace env s.os r
    have hos : (s.asked (kernel env) r).os = (World.ptrace env r s.os).2 := rfl
    refine ⟨h.tally.entries, fun hnone => ?_, fun hnone => ?_⟩
    · rw [hhistory] at hnone
      have hwatched := hasked.watched hnone
      rw [hos]
      rcases ptrace_performed env s.os r with ⟨t, ht, hstop, hrun⟩ | ⟨-, hrun⟩
      · rw [hrun]
        exact (hperform t ht hstop).1 hwatched
      · rw [hrun]
        exact hwatched
    · rw [hhistory] at hnone ⊢
      have hannounced := hasked.announced hnone
      rw [hos]
      rcases ptrace_performed env s.os r with ⟨t, ht, hstop, hrun⟩ | ⟨-, hrun⟩
      · rw [hrun]
        exact (hperform t ht hstop).2 _ hannounced
      · rw [hrun]
        exact hannounced

/-- A request that changes nothing. -/
theorem looked (h : Tallied tracked s)
    (hsame : ∀ t, ((s.os.asked env (.ptrace r)).perform t r).2 = s.os.asked env (.ptrace r)) :
    Tallied tracked (s.asked (kernel env) r) :=
  h.asked env fun t _ _ => by
    rw [hsame]
    exact ⟨id, fun _ => id⟩

theorem poked (h : Tallied tracked s) (addr data : Word) :
    Tallied tracked (s.asked (kernel env) (.pokedata pid addr data)) :=
  h.asked env fun t ht hstop => by
    rcases perform_poke_snd (s.os.asked env (.ptrace (.pokedata pid addr data))) t pid addr data
      with hsame | ⟨m, hpoke⟩
    · rw [hsame]
      exact ⟨id, fun _ => id⟩
    · rw [hpoke]
      exact ⟨fun hw => watched_poke hw ht t.mm m, fun _ hl => announced_poke hl ht t.mm m⟩

theorem registersSet (h : Tallied tracked s) (regs : UserRegsStruct) :
    Tallied tracked (s.asked (kernel env) (.setregs pid regs)) :=
  h.asked env fun t ht _ => by
    have hsame : ({ t with regs := regs } : Task).state = t.state := rfl
    exact ⟨fun hw => (hw.setTask_same ht hsame).congr rfl rfl,
      fun _ hl => (hl.setTask_same ht hsame).congr rfl⟩

/-- A process with an entry is resumed from a stop that announces nobody. -/
theorem resumed (h : Tallied tracked s) (hpid : tracked pid)
    (hclear : Only pid (Task.Clear tracked) s.os) :
    Tallied tracked (s.asked (kernel env) (.syscall pid 0)) :=
  h.asked env fun t ht hstop => by
    obtain ⟨stop, hstop⟩ := stop?_of_isStopped hstop
    have hclear' := (abides_clear tracked pid).asked env hclear (.ptrace (.syscall pid 0)) t ht
    rw [perform_syscall_snd pid 0 hstop]
    refine ⟨fun hw => hw.setTask ht (fit_resume hpid t stop 0), fun l hl => ?_⟩
    refine hl.setTask_silent ht (fun hborn => ?_) fun stop' hstop' => hclear'.of_stop? hstop'
    rcases state_resume t stop 0 with hruns | ⟨fresh, hruns⟩ <;> cases hruns.symm.trans hborn

/-- A wait has reported a process. -/
theorem waited (h : Tallied tracked s) {target : WaitTarget} {status : Status}
    (hwait : ((kernel env).waitpid target s.os).1 = some (.ok (pid, status)))
    (hsub : ∀ q, tracked q → tracked' q) (hpid : tracked' pid) :
    Tallied tracked' (s.waited (kernel env) target) where
  numbered := (onward_waited env s target).numbered h.numbered
  tally := by
    have hanswer : (World.waitpid env target s.os).1 = some (.ok (pid, status)) := hwait
    have hreported := (waitpid_reported env hanswer).1
    have hasked := h.tally.asked env h.numbered (.wait target)
    have hhistory : (World.waitpid env target s.os).2.history =
        (s.os.asked env (.wait target)).history := history_waitpid env s.os target
    have htrace : (s.waited (kernel env) target).trace =
        .wait target (some (.ok (pid, status))) :: s.trace := congrArg
      (fun answer => Event.wait target answer :: s.trace) hanswer
    rw [htrace]
    show Tally tracked' _ (World.waitpid env target s.os).2
    refine ⟨fun q hq => hsub q (h.tally.entries q hq), fun hnone => ?_, fun hnone => ?_⟩
    · rw [hhistory] at hnone
      exact watched_report ((hasked.watched hnone).mono hsub) hpid hreported
    · rw [hhistory] at hnone ⊢
      exact announced_report ((hasked.announced hnone).mono hsub) hreported

/-- The entry of a dead process is deleted. -/
theorem deleted (h : Tallied tracked s) (hdead : Only pid (fun t => t.isDead = true) s.os)
    (hsub : ∀ q, tracked q → q ≠ pid → tracked' q) : Tallied tracked' (s.deleted pid) where
  numbered := (onward_deleted s pid).numbered h.numbered
  tally := by
    rw [trace_deleted, os_deleted]
    refine ⟨fun q hq => ?_, fun hnone q t ht => ?_, fun hnone q t ht hstate hnot => ?_⟩
    · obtain ⟨hmem, hne⟩ := List.mem_filter.mp hq
      exact hsub q (h.tally.entries q hmem) (by simpa using hne)
    · obtain ⟨hfit, hpids⟩ := h.tally.watched hnone q t ht
      refine ⟨⟨hfit.died, fun hlive hnot => hfit.unseen hlive fun hq => ?_, hfit.message⟩, hpids⟩
      -- a live process keeps its entry
      refine hnot (hsub q hq ?_)
      rintro rfl
      rw [hdead t ht] at hlive
      cases hlive
    · refine h.tally.announced hnone q t ht hstate fun hq => hnot (hsub q hq ?_)
      rintro rfl
      have hdead' := hdead t ht
      simp [Task.isDead, hstate] at hdead'

/-- Looking at a process and changing its memory. -/
theorem pokes {J : World → Prop} (hJ : Abides J) (pid : PidT) :
    Pokes (kernel env) (Preserves fun s => Tallied tracked s ∧ J s.os) pid where
  peek place s hs :=
    ⟨hs.1.looked env fun t => perform_peek_snd _ t pid place, (hJ.pokes env pid).peek place s hs.2⟩
  poke addr data s hs := ⟨hs.1.poked env addr data, (hJ.pokes env pid).poke addr data s hs.2⟩

/-- `proc_init` resumes the process at its end. -/
theorem initialised {scan : Nat} (h : Tallied tracked s) (hpid : tracked pid)
    (hclear : Only pid (Task.Clear tracked) s.os)
    (hinit : procInit (kernel env) scan pid s = .ok () s') : Tallied tracked s' := by
  obtain ⟨_, s₁, hremove, hrest⟩ := bind_eq_ok.mp hinit
  obtain ⟨more, s₂, hresume, hend⟩ := bind_eq_ok.mp hrest
  cases hend
  obtain ⟨rfl, -⟩ := ptraceReturn_eq_ok _ hresume
  have hnoted : Tallied tracked (s.noted (.removeVdso pid)) := h.called rfl rfl nofun
  have hremoved :=
    (pokes env (abides_clear tracked pid) pid).removeVdso_from scan s ⟨hnoted, hclear⟩
  rw [hremove] at hremoved
  exact hremoved.1.resumed env hpid hremoved.2

end Tallied

/-! ### The process that is handled -/

/-- Dead, or at a stop that announces nobody without an entry and from which nobody is created. -/
def Task.Plain (tracked : PidT → Prop) : Task → Prop :=
  Task.AtStop fun stop t => Cleared tracked stop ∧
    (stop = .syscallEntry → isCreation t.regs.origRax = false)

theorem Task.Plain.clear (h : t.Plain tracked) : t.Clear tracked :=
  h.imp_right fun ⟨stop, hstop, hG⟩ => ⟨stop, hstop, hG.1⟩

theorem abides_plain (tracked : PidT → Prop) (pid : PidT) :
    Abides (Only pid (Task.Plain tracked)) :=
  abides_only
    (local_atStop (fun _ _ _ h => h) (fun _ _ _ h => h) fun _ p => ⟨cleared_exec tracked p, nofun⟩)
    (fun _ _ _ _ _ => .inr ⟨.initial, rfl, fun _ _ => nofun, nofun⟩) pid

/-- Dead, or on the way to a stop that announces nobody. -/
structure Task.Calm (t : Task) : Prop where
  stop : ∀ e q, t.stop? = some (.event e q) → e = .exec
  call : t.state = .kernel true → isCreation t.regs.origRax = false

theorem local_calm : Local Task.Calm where
  moves h hmoves := by
    cases hmoves with
    | enter => exact ⟨by simp [Task.enter, Task.stop?], by simp [Task.enter]⟩
    | finish regs => exact ⟨by simp [Task.stop?], by simp⟩
    | fork e child birth hstate hnr =>
      rw [h.call hstate] at hnr
      cases hnr
    | signal => exact ⟨by simp [Task.signal, Task.stop?], by simp [Task.signal]⟩
    | die => exact ⟨by simp [Task.stop?], by simp⟩
  poke _ h := ⟨h.stop, h.call⟩
  report h hstate :=
    ⟨fun e q hstop => h.stop e q ((stop?_stopped hstate).trans hstop), by simp⟩
  exec old pid mm regs _ := ⟨by simp [Task.exec, Task.stop?], by simp [Task.exec]⟩

theorem abides_calm (pid : PidT) : Abides (Only pid Task.Calm) :=
  abides_only local_calm (fun _ _ _ _ _ => ⟨by simp [Task.newborn, Task.stop?], nofun⟩) pid

theorem calm_resume {stop : Stop} (h : stop = .syscallEntry → isCreation t.regs.origRax = false)
    (data : Word) : (t.resume stop data).Calm where
  stop e q hstop := by cases stop <;> cases hstop
  call hstate := by
    cases stop with
    | syscallEntry => exact h rfl
    | initial | syscallExit | event | signal => cases hstate

/-- A task whose death is not reported is stopped when it is reported. -/
theorem clear_reported (h : Only pid Task.Calm w) {status : Status}
    (hreported : Reported w pid status w') : Only pid (Task.Clear tracked) w' := by
  cases hreported with
  | stopped ht hstate =>
    refine only_setTask (.inr ⟨_, rfl, ?_⟩)
    rintro e q rfl
    exact .inl ((h _ ht).stop e q (stop?_stopped hstate))
  | reaped ht hstate hlast =>
    intro u hu
    rw [World.task_setTask_self] at hu
    cases hu

variable (env : Env) {s s' : Tracer World}

/-- A process that is resumed inside a handler stops again without announcing anybody. -/
theorem Tallied.wentOn (h : Tallied tracked s) (hpid : tracked pid)
    (hplain : Only pid (Task.Plain tracked) s.os)
    (hrun : resumeAndWait (kernel env) pid s = .ok () s') :
    Tallied tracked s' ∧ Only pid (Task.Clear tracked) s'.os := by
  obtain ⟨more, s₁, hresume, hrest⟩ := bind_eq_ok.mp hrun
  obtain ⟨rfl, hanswer⟩ := ptraceReturn_eq_ok _ hresume
  have hresumed := h.resumed env hpid fun t ht => (hplain t ht).clear
  have hasked := (abides_plain tracked pid).asked env hplain (.ptrace (.syscall pid 0))
  have hos : (s.asked (kernel env) (.syscall pid 0)).os =
      (World.ptrace env (.syscall pid 0) s.os).2 := rfl
  rcases hanswer with ⟨rfl, reply, hok⟩ | ⟨rfl, hgone⟩
  · -- it runs until the wait reports it
    have hcalm : Only pid Task.Calm (s.asked (kernel env) (.syscall pid 0)).os := by
      rw [hos]
      rcases ptrace_performed env s.os (.syscall pid 0) with
        ⟨t, ht, hstop, hperform⟩ | ⟨-, hrefused⟩
      · obtain ⟨stop, hstop⟩ := stop?_of_isStopped hstop
        rw [hperform, perform_syscall_snd pid 0 hstop]
        exact only_setTask (calm_resume ((hasked t ht).of_stop? hstop).2 0)
      · have hanswer : (World.ptrace env (.syscall pid 0) s.os).1 = .ok reply := hok
        rw [hrefused] at hanswer
        cases hanswer
    obtain ⟨status, s₂, hwait, hend⟩ := bind_eq_ok.mp hrest
    obtain ⟨rfl, q, hanswer⟩ := waitpidOrExit_eq_ok _ hwait
    obtain ⟨hreported, hq⟩ := waitpid_reported env hanswer
    have hsame : q = pid := hq
    subst hsame
    have hs' : s' = (s.asked (kernel env) (.syscall q 0)).waited (kernel env) (some q) := by
      split at hend
      · cases hend
      · cases hend
        rfl
    subst hs'
    exact ⟨hresumed.waited env hanswer (fun _ => id) hpid,
      clear_reported ((abides_calm q).asked env hcalm _) hreported⟩
  · -- it is dead
    cases hrest
    refine ⟨hresumed, ?_⟩
    rw [hos]
    rcases ptrace_performed env s.os (.syscall pid 0) with
      ⟨t, ht, hstop, hperform⟩ | ⟨hstill, hrefused⟩
    · obtain ⟨stop, hstop⟩ := stop?_of_isStopped hstop
      obtain ⟨reply, hreply⟩ := perform_syscall_ok
        (w := s.os.asked env (.ptrace (.syscall pid 0))) hstop pid 0
      have hanswer : (World.ptrace env (.syscall pid 0) s.os).1 = .error .ESRCH := hgone
      rw [hperform, hreply] at hanswer
      cases hanswer
    · rw [hrefused]
      exact fun t ht => .inl (isDead_of_atStop (hasked t ht) (hstill t ht))

/-- The number of a cancelled call creates nobody. -/
theorem Tallied.cancelled (h : Tallied tracked s) (hpid : tracked pid)
    (hplain : Only pid (Task.Plain tracked) s.os) {regs regs' : UserRegsStruct}
    (hrun : childCancelSyscall (kernel env) pid regs s = .ok regs' s') :
    Tallied tracked s' ∧ Only pid (Task.Clear tracked) s'.os := by
  obtain ⟨more, s₁, hset, hrest⟩ := bind_eq_ok.mp hrun
  obtain ⟨rfl, hanswer⟩ := ptraceReturn_eq_ok _ hset
  have hasked := (abides_plain tracked pid).asked env hplain
    (.ptrace (.setregs pid { regs with origRax := -1 }))
  have hregisters : Tallied tracked
      (s.asked (kernel env) (.setregs pid { regs with origRax := -1 })) := h.registersSet env _
  have hplain' : Only pid (Task.Plain tracked)
      (s.asked (kernel env) (.setregs pid { regs with origRax := -1 })).os := by
    show Only pid _ (World.ptrace env (.setregs pid { regs with origRax := -1 }) s.os).2
    rcases ptrace_performed env s.os (.setregs pid { regs with origRax := -1 }) with
      ⟨t, ht, hstop, hperform⟩ | ⟨-, hrefused⟩
    · rw [hperform]
      obtain ⟨stop, hstop⟩ := stop?_of_isStopped hstop
      exact (only_setTask (.inr ⟨stop, hstop, ((hasked t ht).of_stop? hstop).1,
        fun _ => rfl⟩)).congr rfl
    · rw [hrefused]
      exact hasked
  cases more with
  | true =>
    obtain ⟨_, s₂, hgoes, hend⟩ := bind_eq_ok.mp hrest
    cases hend
    exact hregisters.wentOn env hpid hplain' hgoes
  | false =>
    cases hrest
    exact ⟨hregisters, fun t ht => (hplain' t ht).clear⟩

theorem phases_tallied (child : Ptr) (hpid : tracked pid) (regs : UserRegsStruct) :
    Phases (kernel env) child pid regs
      (fun s => Tallied tracked s ∧ Only pid (Task.Plain tracked) s.os)
      (fun s => Tallied tracked s ∧ Only pid (Task.Clear tracked) s.os) (fun _ _ => True) where
  look := ⟨(Tallied.pokes env (abides_plain tracked pid) pid).peek,
    fun _ _ hs => ⟨hs.1.congr rfl rfl, hs.2⟩⟩
  cancel _ _ _ := Triple.intro
    (fun _ _ _ hs hrun => hs.1.cancelled env hpid hs.2 hrun) fun _ _ _ _ _ => trivial
  proceed _ _ _ := Triple.intro
    (fun _ _ _ hs hrun => hs.1.wentOn env hpid hs.2 hrun) fun _ _ _ _ _ => trivial
  change := Tallied.pokes env (abides_clear tracked pid) pid
  returns regs' _ s hs := by
    refine ⟨hs.1.registersSet env regs', ?_⟩
    refine (abides_clear tracked pid).within_ptrace env (fun w t hw ht hstop => ?_) s hs.2
    exact (only_setTask ((hw t ht).imp_right id)).congr rfl
  malloc size s hs := by
    have hmalloc : Tallied tracked (finalState (Reproduce.malloc (kernel env) size s)) := by
      unfold Reproduce.malloc
      split <;> exact hs.1.allocates rfl rfl
    refine ⟨hmalloc, ?_⟩
    unfold Reproduce.malloc
    split <;> exact hs.2
  clock _ := Within.bind (Requests.within_deref child) fun _ _ hs => ⟨hs.1.congr rfl rfl, hs.2⟩
  before _ _ _ := trivial
  after _ _ _ := trivial

/-- A handler leaves its process dead or at a stop that announces nobody. -/
theorem tallied_handleSyscall {c : ChildProcess} {regs : UserRegsStruct}
    (hblock : blockAt s.processTable c.addr = some c) (h : Tallied tracked s) (hpid : tracked c.pid)
    (hclear : Only c.pid (Task.Clear tracked) s.os)
    (hregs : ∀ t, s.os.task c.pid = some t → t.isStopped = true → t.regs = regs)
    (hhandle : handleSyscall (kernel env) c.addr regs s = .ok () s') :
    Tallied tracked s' ∧ Only c.pid (Task.Clear tracked) s'.os := by
  have hnoted : Tallied tracked (s.noted (.handleSyscall c.addr regs)) := h.called rfl rfl nofun
  rw [handleSyscall_eq (kernel env) hblock] at hhandle
  cases hhook : hookOf regs.origRax with
  | none =>
    -- the call is not hooked
    rw [hhook] at hhandle
    cases hhandle
    exact ⟨hnoted, hclear⟩
  | some hook =>
    have hplain : Only c.pid (Task.Plain tracked) s.os := by
      intro t ht
      refine (hclear t ht).imp_right fun ⟨stop, hstop, hcleared⟩ => ⟨stop, hstop, hcleared, ?_⟩
      obtain ⟨reported, hstate⟩ := state_of_stop? hstop
      rw [hregs t ht (by simp [Task.isStopped, hstate])]
      exact fun _ => (ordinary_of_hookOf hhook).1
    have hdone := (phases_tallied env c.addr hpid regs).triple_runHook.ok
      (s := s.noted (.handleSyscall c.addr regs)) ⟨hnoted, hplain⟩ hhandle
    exact hdone.elim (fun hs => ⟨hs.2.1, fun t ht => (hs.2.2 t ht).clear⟩) id

end Reproduce.Linux
