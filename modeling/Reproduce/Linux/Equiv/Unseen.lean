import Reproduce.Linux.Equiv.Tallied
import Reproduce.Tracer.Equiv.Contract

/-!
# No process that ran is lost

The loop deletes an entry for two reasons: a death was reported, or the process did not answer the
request to go on.  Nobody waits for a process without an entry once the tracer has returned.

`Covered` is the invariant of the loop: a live process without an entry is in its first stop, which
nobody has reported, and the stop that its creator is in announces it.  A turn keeps it
(`Covered.turned`).

At the end no creator has an entry.  As long as no thread has taken the place of a leader without an
entry, whoever is left has not been let run (`run_unseen`), and if no creator has died before the
tracer knew of its new process, nobody is left at all (`run_deserted`).
-/

namespace Reproduce.Linux

open Bytes Effect

variable {b : Boot} {env : Env} {scan : Nat} {pending : PidT → Prop} {s s' : Tracer World}
  {pid p q : PidT} {w : World}

/-- No thread has taken the place of a leader without an entry so far. -/
abbrev Unusurped (s : Tracer World) : Prop := NoneUsurped s.os.history s.trace

/-- The process has an entry, or is about to get one. -/
def Expected (pending : PidT → Prop) (table : List ChildProcess) (pid : PidT) : Prop :=
  HasEntry table pid ∨ pending pid

/-- The invariant of the loop; the processes in `pending` are about to get an entry. -/
structure Covered (pending : PidT → Prop) (s : Tracer World) : Prop where
  ok : TableOk s
  nonzero : ∀ c ∈ s.processTable, c.pid ≠ 0
  tallied : Tallied (Expected pending s.processTable) s

/-- The process is dead or at a stop that announces nobody without an entry. -/
abbrev AtRest (pending : PidT → Prop) (pid : PidT) (s : Tracer World) : Prop :=
  Only pid (Task.Clear (Expected pending s.processTable)) s.os

theorem AtRest.mono {pending' : PidT → Prop} (h : AtRest pending pid s)
    (hsub : ∀ q, pending q → HasEntry s.processTable q) : AtRest pending' pid s :=
  fun t ht => (h t ht).imp_right fun ⟨stop, hstop, hcleared⟩ =>
    ⟨stop, hstop, fun e q heq => (hcleared e q heq).imp_right fun hq => .inl (hq.elim id (hsub q))⟩

/-- The event of a creation is a fork event. -/
theorem isForkEvent_of_creation {e : PtraceEvent} (he : e ≠ .exec) :
    (wifstopped (stopStatus e.number SIGTRAP) &&
      isForkEvent (eventOf (stopStatus e.number SIGTRAP))) = true := by
  cases e with
  | exec => exact absurd rfl he
  | fork | vfork | clone => decide

/-- A stop that is no fork event announces nobody. -/
theorem cleared_of_status {tracked : PidT → Prop} {stop : Stop}
    (h : (wifstopped stop.status && isForkEvent (eventOf stop.status)) = false) :
    Cleared tracked stop := by
  rintro e q rfl
  refine .inl (by_contra fun he => ?_)
  exact Bool.false_ne_true (h.symm.trans (isForkEvent_of_creation he))

theorem not_fork_of_isExecStop {status : Status} (h : isExecStop status = true) :
    (wifstopped status && isForkEvent (eventOf status)) = false := by
  obtain ⟨-, hevent⟩ := Bool.and_eq_true_iff.mp h
  rw [of_decide_eq_true hevent, Bool.and_eq_false_iff]
  exact .inr rfl

/-! ### The table -/

theorem hasEntry_deleted (h : TableOk s) :
    HasEntry (s.deleted pid).processTable q ↔ HasEntry s.processTable q ∧ q ≠ pid := by
  rw [h.processTable_deleted]
  constructor
  · rintro ⟨c, hc, rfl⟩
    obtain ⟨hmem, hne⟩ := List.mem_filter.mp hc
    exact ⟨⟨c, hmem, rfl⟩, by simpa using hne⟩
  · rintro ⟨⟨c, hc, rfl⟩, hne⟩
    exact ⟨c, List.mem_filter.mpr ⟨hc, by simpa using hne⟩, rfl⟩

/-! ### Answers -/

/-- A stopped process does not refuse a request. -/
theorem perform_ne_esrch {t : Task} (hstop : t.isStopped = true) (r : Request) :
    (w.perform t r).1 ≠ .error .ESRCH := by
  obtain ⟨stop, hstop⟩ := stop?_of_isStopped hstop
  unfold World.perform
  cases r with
  | peek _ place => cases place <;> dsimp only <;> split <;> exact nofun
  | pokedata _ addr data => dsimp only; split <;> exact nofun
  | getregs | setregs => exact nofun
  | syscall => dsimp only; rw [hstop]; exact nofun
  | geteventmsg => dsimp only; split <;> exact nofun

/-- A process that was at a stop refuses a request because it is dead. -/
theorem dead_of_refused {r : Request} (hstop : Only r.pid Task.Halted s.os)
    (hgone : ((kernel env).ptrace r s.os).1 = .error .ESRCH) :
    Only r.pid (fun t => t.isDead = true) (s.asked (kernel env) r).os := by
  have hasked := (abides_halted r.pid).asked env hstop (.ptrace r)
  have hanswer : (World.ptrace env r s.os).1 = .error .ESRCH := hgone
  show Only r.pid _ (World.ptrace env r s.os).2
  rcases ptrace_performed env s.os r with ⟨t, ht, hrun, hperform⟩ | ⟨hstill, hrefused⟩
  · rw [hperform] at hanswer
    exact absurd hanswer (perform_ne_esrch hrun r)
  · rw [hrefused]
    exact fun t ht => isDead_of_atStop (hasked t ht) (hstill t ht)

/-- A message names the new process of the stop that the process is in. -/
theorem stop_of_message {message : Word}
    (hmessage : ((kernel env).ptrace (.geteventmsg pid) s.os).1 = .ok message) :
    ∃ t e, (s.asked (kernel env) (.geteventmsg pid)).os.task pid = some t ∧
      t.stop? = some (.event e (childOf message)) := by
  have hanswer : (World.ptrace env (.geteventmsg pid) s.os).1 = .ok message := hmessage
  show ∃ t e, (World.ptrace env (.geteventmsg pid) s.os).2.task pid = some t ∧ _
  rcases ptrace_performed env s.os (.geteventmsg pid) with ⟨t, ht, -, hrun⟩ | ⟨-, hgone⟩
  · rw [hrun] at hanswer ⊢
    rw [perform_geteventmsg_snd]
    unfold World.perform at hanswer
    dsimp only at hanswer
    split at hanswer
    · next e child hstop =>
      cases hanswer
      have hsame : childOf (child.setWidth 64) = child :=
        BitVec.setWidth_setWidth_of_le child (by decide)
      rw [hsame]
      exact ⟨t, e, ht, hstop⟩
    · cases hanswer
  · rw [hgone] at hanswer
    cases hanswer

/-- Other processes do not notice a resumption. -/
theorem only_resumed_other {S : Task → Prop} (hS : Abides (Only p S)) (hp : p ≠ q)
    (h : Only p S s.os) : Only p S (s.asked (kernel env) (.syscall q 0)).os := by
  have hasked := hS.asked env h (.ptrace (.syscall q 0))
  show Only p S (World.ptrace env (.syscall q 0) s.os).2
  rcases ptrace_performed env s.os (.syscall q 0) with ⟨t, -, hstop, hrun⟩ | ⟨-, hgone⟩
  · obtain ⟨stop, hstop⟩ := stop?_of_isStopped hstop
    rw [hrun, perform_syscall_snd q 0 hstop]
    intro u hu
    rw [World.task_setTask_of_ne _ _ hp] at hu
    exact hasked u hu
  · rw [hgone]
    exact hasked

/-- A report keeps what is known of the stops. -/
theorem only_waited {S : Task → Prop} (hlocal : Local S) (hS : Abides (Only p S))
    (h : Only p S s.os) {target : WaitTarget} {status : Status}
    (hwait : ((kernel env).waitpid target s.os).1 = some (.ok (q, status))) :
    Only p S (s.waited (kernel env) target).os := by
  have hasked := hS.asked env h (.wait target)
  have hreported := (waitpid_reported env hwait).1
  show Only p S (World.waitpid env target s.os).2
  generalize (World.waitpid env target s.os).2 = w' at hreported
  by_cases hp : p = q
  · subst hp
    exact only_reported hlocal hasked hreported
  · intro u hu
    refine hasked u ?_
    cases hreported with
    | stopped | reaped => exact (World.task_setTask_of_ne _ _ hp).symm.trans hu

namespace Covered

theorem mono {pending' : PidT → Prop} (h : Covered pending s)
    (hsub : ∀ q, pending q → Expected pending' s.processTable q) : Covered pending' s :=
  ⟨h.ok, h.nonzero, h.tallied.mono fun q hq => hq.elim .inl (hsub q)⟩

/-- What leaves the table alone. -/
theorem kept (h : Covered pending s) (hkept : TableKept s s')
    (hs' : Tallied (Expected pending s.processTable) s') : Covered pending s' := by
  refine ⟨h.ok.tableKept hkept, ?_, ?_⟩
  · rw [hkept.processTable]
    exact h.nonzero
  · rw [hkept.processTable]
    exact hs'

theorem watched (h : Covered pending s) (hsafe : Unusurped s) :
    Watched (Expected pending s.processTable) s.os := h.tallied.tally.watched hsafe

theorem resumed (h : Covered pending s) (hp : Expected pending s.processTable p)
    (hrest : AtRest pending p s) : Covered pending (s.asked (kernel env) (.syscall p 0)) :=
  h.kept ⟨rfl, rfl, rfl⟩ (h.tallied.resumed env hp hrest)

theorem initialised (h : Covered pending s) (hp : Expected pending s.processTable p)
    (hrest : AtRest pending p s) (hinit : procInit (kernel env) scan p s = .ok () s') :
    Covered pending s' :=
  h.kept ((helper_procInit (kernel env) scan p).ok hinit).1
    (h.tallied.initialised env hp hrest hinit)

theorem message (h : Covered pending s) : Covered pending (s.asked (kernel env) (.geteventmsg p)) :=
  h.kept ⟨rfl, rfl, rfl⟩ (h.tallied.looked env fun t => perform_geteventmsg_snd _ t p)

/-- A new process has a pid that is not 0. -/
theorem message_ne_zero (h : Covered pending s) {message : Word}
    (hmessage : ((kernel env).ptrace (.geteventmsg p) s.os).1 = .ok message)
    (hsafe : Unusurped (s.asked (kernel env) (.geteventmsg p))) : childOf message ≠ 0 := by
  obtain ⟨t, e, ht, hstop⟩ := stop_of_message hmessage
  exact ((h.message.watched hsafe) p t ht).1.message e _ hstop

theorem insertedEntry (h : Covered pending s) (hp : p ≠ 0)
    (hfind : hashFind s.processTable p = none) :
    Covered pending ((s.allocated (kernel env) p).inserted p) where
  ok := by
    have hallocated : TableOk (s.allocated (kernel env) p) := h.ok.tableKept ⟨rfl, rfl, rfl⟩
    exact hallocated.inserted hfind
  nonzero c hc := by
    rcases List.mem_cons.mp hc with rfl | hc
    · exact hp
    · exact h.nonzero c hc
  tallied := by
    have hmono : Tallied (Expected pending ((s.allocated (kernel env) p).inserted p).processTable)
        s := by
      refine h.tallied.mono ?_
      rintro q (⟨c, hc, hq⟩ | hq)
      · exact .inl ⟨c, .tail _ hc, hq⟩
      · exact .inr hq
    have hcalled : Tallied (Expected pending ((s.allocated (kernel env) p).inserted p).processTable)
        (s.noted (.insertProcess p)) := by
      refine hmono.called rfl rfl ?_
      rintro q ⟨⟩
      exact .inl ⟨_, .head _, rfl⟩
    exact hcalled.allocates rfl rfl

/-! ### The parts of a turn -/

/-- The child of a fork event is inserted, waited for and resumed. -/
theorem registered (h : Covered (fun q => q = pid) s)
    (hregistered : Registered (kernel env) pid s s') (hhalted : Only pid Task.Halted s.os)
    (hsafe : Unusurped s') (hhonest : Honest s'.trace) :
    Covered (fun q => q = pid) s' ∧ AtRest (fun q => q = pid) pid s' := by
  cases hregistered with
  | vanished hmessage =>
    have hdead := dead_of_refused (r := .geteventmsg pid) hhalted hmessage
    exact ⟨h.message, fun t ht => .inl (hdead t ht)⟩
  | @known message hmessage hfind =>
    -- the process that is announced has an entry
    obtain ⟨t, e, ht, hstop⟩ := stop_of_message hmessage
    refine ⟨h.message, fun u hu => ?_⟩
    cases ht.symm.trans hu
    refine .inr ⟨_, hstop, ?_⟩
    rintro e' q ⟨⟩
    obtain ⟨c, hfind⟩ := Option.isSome_iff_exists.mp hfind
    exact .inr (.inl (hasEntry_of_hashFind hfind))
  | @inserted message q status hmessage hfind hwait hresume =>
    have hq : q = childOf message := (waitpid_reported env hwait).2
    subst hq
    have honward : Onward (s.asked (kernel env) (.geteventmsg pid))
        (((s.registering (kernel env) pid (childOf message)).waited (kernel env)
          (some (childOf message))).asked (kernel env) (.syscall (childOf message) 0)) := by
      have hregistering : Onward (s.asked (kernel env) (.geteventmsg pid))
          (s.registering (kernel env) pid (childOf message)) :=
        onward_own rfl ⟨[_, _], rfl⟩ rfl
      exact (hregistering.trans (onward_waited env _ _)).trans (onward_asked env _ _)
    have hasked := hsafe.earlier honward (h.message (p := pid)).tallied.numbered
    -- the new process is another one, and has not been seen
    have hne : childOf message ≠ pid := by
      have hnames : NamesOther (.ptrace (.geteventmsg pid)
          ((kernel env).ptrace (.geteventmsg pid) s.os).1 : Event World) :=
        hhonest _ (honward.trace.subset (.head _))
      rwa [hmessage] at hnames
    have hnew : ∀ tracked, Only (childOf message) (Task.Clear tracked)
        (s.registering (kernel env) pid (childOf message)).os := by
      intro tracked t ht
      have hfit := ((h.message (p := pid)).watched hasked _ t ht).1
      by_cases hlive : t.isDead = true
      · exact .inl hlive
      · have hstate := hfit.unseen (by simpa using hlive)
          (not_or.mpr ⟨not_hasEntry hfind, hne⟩)
        exact .inr ⟨.initial, stop?_stopped hstate, fun _ _ => nofun⟩
    have hinserted : Covered (fun q => q = pid)
        (s.registering (kernel env) pid (childOf message)) :=
      (h.message (p := pid)).insertedEntry (h.message_ne_zero hmessage hasked) hfind
    have hentry : Expected (fun q => q = pid)
        (s.registering (kernel env) pid (childOf message)).processTable (childOf message) :=
      .inl ⟨_, .head _, rfl⟩
    have hparent : AtRest (fun q => q = pid) pid
        (s.registering (kernel env) pid (childOf message)) := by
      obtain ⟨t, e, ht, hstop⟩ := stop_of_message hmessage
      intro u hu
      cases ht.symm.trans hu
      refine .inr ⟨_, hstop, ?_⟩
      rintro e' q ⟨⟩
      exact .inr hentry
    -- it is waited for and resumed
    have hwaited : Covered (fun q => q = pid) ((s.registering (kernel env) pid
        (childOf message)).waited (kernel env) (some (childOf message))) :=
      hinserted.kept ⟨rfl, rfl, rfl⟩
        (hinserted.tallied.waited env hwait (fun _ => id) hentry)
    have hlocal := local_clear (Expected (fun q => q = pid)
      (s.registering (kernel env) pid (childOf message)).processTable)
    have habides := abides_clear (Expected (fun q => q = pid)
      (s.registering (kernel env) pid (childOf message)).processTable)
    refine ⟨hwaited.resumed hentry (only_waited hlocal (habides _) (hnew _) hwait), ?_⟩
    exact only_resumed_other (habides pid) (Ne.symm hne)
      (only_waited hlocal (habides pid) hparent hwait)

/-- What is reported is at rest, unless a fork event has to be dealt with. -/
theorem forkEvent (h : Covered (fun q => q = pid) s) {status : Status}
    (hregister : registerForkEvent (kernel env) pid status s = .ok () s')
    (hhalted : Only pid Task.Halted s.os)
    (hrest : (wifstopped status && isForkEvent (eventOf status)) = false →
      AtRest (fun q => q = pid) pid s)
    (hsafe : Unusurped s') (hhonest : Honest s'.trace) :
    Covered (fun q => q = pid) s' ∧ AtRest (fun q => q = pid) pid s' := by
  unfold registerForkEvent at hregister
  split at hregister
  · exact h.registered (register_cases hregister) hhalted hsafe hhonest
  · next hevent =>
    cases hregister
    exact ⟨h, hrest (by simpa using hevent)⟩

/-- The process that is about to get an entry gets it. -/
theorem inserted (h : Covered (fun q => q = pid) s) (hpid : pid ≠ 0) {added : Bool}
    (hinsert : insertProcess (kernel env) pid s = .ok added s') :
    Covered (fun _ => False) s' := by
  rw [insertProcess_eq] at hinsert
  split at hinsert
  · next hfind =>
    obtain ⟨c, hfind⟩ := Option.isSome_iff_exists.mp hfind
    cases hinsert
    refine h.mono ?_
    rintro q rfl
    exact .inl (hasEntry_of_hashFind hfind)
  · next hfind =>
    split at hinsert
    · cases hinsert
      refine (h.insertedEntry hpid (Option.not_isSome_iff_eq_none.mp hfind)).mono ?_
      rintro q rfl
      exact .inl ⟨_, .head _, rfl⟩
    · cases hinsert

/-- The entry of a dead process is deleted. -/
theorem deleted (h : Covered (fun q => q = pid) s)
    (hdead : Only pid (fun t => t.isDead = true) s.os) :
    Covered (fun _ => False) (s.deleted pid) where
  ok := h.ok.deleted pid
  nonzero c hc := by
    rw [h.ok.processTable_deleted] at hc
    exact h.nonzero c (List.mem_filter.mp hc).1
  tallied := by
    refine h.tallied.deleted hdead ?_
    rintro q (hentry | hq) hne
    · exact .inl ((hasEntry_deleted h.ok).mpr ⟨hentry, hne⟩)
    · exact absurd hq hne

/-- Reading the registers of a process changes nothing. -/
theorem registers (h : Covered pending s) (hrest : AtRest pending pid s) {regs : UserRegsStruct}
    (hregs : ((kernel env).ptrace (.getregs pid) s.os).1 = .ok regs) :
    Covered pending (s.asked (kernel env) (.getregs pid)) ∧
      AtRest pending pid (s.asked (kernel env) (.getregs pid)) ∧
      Only pid (fun t => t.regs = regs) (s.asked (kernel env) (.getregs pid)).os := by
  have hasked := (abides_clear (Expected pending s.processTable) pid).asked env hrest
    (.ptrace (.getregs pid))
  have hanswer : (World.ptrace env (.getregs pid) s.os).1 = .ok regs := hregs
  refine ⟨h.kept ⟨rfl, rfl, rfl⟩ (h.tallied.looked env fun _ => rfl), ?_⟩
  show Only pid _ (World.ptrace env (.getregs pid) s.os).2 ∧ Only pid _ (World.ptrace env _ s.os).2
  rcases ptrace_performed env s.os (.getregs pid) with ⟨t, ht, -, hrun⟩ | ⟨-, hgone⟩
  · rw [hrun] at hanswer ⊢
    refine ⟨hasked, fun u hu => ?_⟩
    cases ht.symm.trans hu
    exact Except.ok.inj hanswer
  · rw [hgone] at hanswer
    cases hanswer

/-- A handler leaves its process at rest. -/
theorem handled (h : Covered pending s) {c : ChildProcess} (hc : c ∈ s.processTable)
    {regs : UserRegsStruct} (hrest : AtRest pending c.pid s)
    (hregs : Only c.pid (fun t => t.regs = regs) s.os)
    (hhandle : handleSyscall (kernel env) c.addr regs s = .ok () s') :
    Covered pending s' ∧ HasEntry s'.processTable c.pid ∧ AtRest pending c.pid s' := by
  have hblock := h.ok.blockAt_of_mem hc
  have hhandler := within_handleSyscall (kernel env) regs hblock
  rw [hhandle] at hhandler
  have hclock : ClockOnly c.addr s s' :=
    ⟨hhandler.1.processTable, hhandler.1.entryCount, hhandler.1.nextAddr⟩
  have hpids : s'.processTable.map ChildProcess.pid = s.processTable.map ChildProcess.pid := by
    obtain ⟨f, hf⟩ := hclock.processTable
    rw [hf, map_retime _ fun _ _ => rfl]
  have hentry : ∀ q, HasEntry s'.processTable q ↔ HasEntry s.processTable q := by
    intro q
    rw [hasEntry_iff, hasEntry_iff, hpids]
  have hsame : Expected pending s'.processTable = Expected pending s.processTable := by
    funext q
    rw [Expected, hentry q, Expected]
  obtain ⟨htallied, hrest'⟩ := tallied_handleSyscall env hblock h.tallied (.inl ⟨c, hc, rfl⟩) hrest
    (fun t ht _ => hregs t ht) hhandle
  refine ⟨⟨h.ok.clockOnly hclock, fun d hd => ?_, hsame ▸ htallied⟩,
    (hentry c.pid).mpr ⟨c, hc, rfl⟩, ?_⟩
  · obtain ⟨d₀, hd₀, hpid⟩ := List.mem_map.mp (hpids ▸ List.mem_map_of_mem hd)
    exact hpid ▸ h.nonzero d₀ hd₀
  · rw [AtRest, hsame]
    exact hrest'

/-! ### Turns -/

/-- The loop is told of a process. -/
theorem waited (h : Covered (fun _ => False) s) {status : Status}
    (hwait : ((kernel env).waitpid none s.os).1 = some (.ok (pid, status))) :
    Covered (fun q => q = pid) (s.waited (kernel env) none) where
  ok := h.ok.tableKept ⟨rfl, rfl, rfl⟩
  nonzero := h.nonzero
  tallied := h.tallied.waited env hwait (fun _ hq => hq.imp_right False.elim) (.inr rfl)

/-- The death of a process is reported. -/
theorem died (h : Covered (fun _ => False) s) {status : Status}
    (hwait : ((kernel env).waitpid none s.os).1 = some (.ok (pid, status)))
    (hdead : terminated status = true) :
    Covered (fun _ => False) ((s.waited (kernel env) none).deleted pid) := by
  refine (h.waited hwait).deleted ?_
  have hreported := (waitpid_reported env hwait).1
  show Only pid _ (World.waitpid env none s.os).2
  generalize (World.waitpid env none s.os).2 = w' at hreported
  cases hreported with
  | stopped ht hstate =>
    rw [terminated_stop] at hdead
    cases hdead
  | reaped ht hstate hlast =>
    intro u hu
    rw [World.task_setTask_self] at hu
    cases hu

/-- A stop is reported.  Its process may be one that nobody has seen before. -/
theorem stopped (h : Covered (fun _ => False) s) {status : Status}
    (hwait : ((kernel env).waitpid none s.os).1 = some (.ok (pid, status)))
    (hlive : terminated status = false) (hsafe : Unusurped (s.waited (kernel env) none)) :
    pid ≠ 0 ∧ (isExecStop status = true → HasEntry s.processTable pid) ∧
      ∃ t stop, (s.waited (kernel env) none).os.task pid = some t ∧ t.stop? = some stop ∧
        status = stop.status := by
  have hwatched := (h.waited hwait).watched hsafe
  have hasked := h.tallied.tally.asked env h.tallied.numbered (.wait none)
  have hbefore :
      Watched (Expected (fun _ => False) s.processTable) (s.os.asked env (.wait none)) := by
    refine hasked.watched ?_
    rw [← history_waitpid env s.os none]
    exact hsafe
  have hreported := (waitpid_reported env hwait).1
  have hos : (s.waited (kernel env) none).os = (World.waitpid env none s.os).2 := rfl
  rw [hos] at hwatched ⊢
  generalize (World.waitpid env none s.os).2 = w' at hreported hwatched
  cases hreported with
  | @stopped t stop ht hstate =>
    refine ⟨(hbefore pid _ ht).2.1, fun hexec => ?_, _, _, World.task_setTask_self .., rfl, rfl⟩
    -- a process that has executed a program is not new
    obtain ⟨e, message, rfl⟩ := event_of_isExecStop hexec
    have hentry := hbefore.of_seen ht (by simp [Task.isDead, hstate]) (by simp [hstate])
    exact hentry.resolve_right id
  | reaped ht hstate hlast =>
    rw [(hbefore pid _ ht).1.died _ hstate] at hlive
    cases hlive

/-- A process that does not go on is dead. -/
theorem dropped (h : Covered (fun _ => False) s) (hpid : HasEntry s.processTable pid)
    (hrest : AtRest (fun _ => False) pid s)
    (hgone : ((kernel env).ptrace (.syscall pid 0) s.os).1 = .error .ESRCH) :
    Covered (fun _ => False) ((s.asked (kernel env) (.syscall pid 0)).deleted pid) := by
  refine ((h.resumed (.inl hpid) hrest).mono fun q hq => hq.elim).deleted ?_
  have hhalted : Only pid Task.Halted s.os := fun t ht =>
    (hrest t ht).imp_right fun ⟨stop, hstop, _⟩ => ⟨stop, hstop, trivial⟩
  exact dead_of_refused (r := .syscall pid 0) hhalted hgone

/-- The stop is reported, and a fork event is dealt with. -/
theorem reported (h : Covered (fun _ => False) s) {status : Status}
    (hwait : ((kernel env).waitpid none s.os).1 = some (.ok (pid, status)))
    (hlive : terminated status = false)
    (hregister : registerForkEvent (kernel env) pid status (s.waited (kernel env) none) = .ok () s')
    (hsafe : Unusurped s') (hhonest : Honest s'.trace) :
    Covered (fun q => q = pid) s' ∧ AtRest (fun q => q = pid) pid s' := by
  have hwaited := h.waited hwait
  have hregistered := ((onward_steps env).within_registerForkEvent pid status).ok hregister
  obtain ⟨-, -, t, stop, ht, hstop, rfl⟩ :=
    h.stopped hwait hlive (hsafe.earlier hregistered hwaited.tallied.numbered)
  refine hwaited.forkEvent hregister (fun u hu => ?_) (fun hevent u hu => ?_) hsafe hhonest
  · cases ht.symm.trans hu
    exact .inr ⟨stop, hstop, trivial⟩
  · cases ht.symm.trans hu
    exact .inr ⟨stop, hstop, cleared_of_status hevent⟩

/-- A turn loses sight of no process. -/
theorem turned (h : Covered (fun _ => False) s) (hturned : Turned (kernel env) scan s s')
    (hsafe : Unusurped s') (hhonest : Honest s'.trace) : Covered (fun _ => False) s' := by
  cases hturned with
  | died hwait hdead => exact h.died hwait hdead
  | execd hwait hlive hexec hinit =>
    have hwaited := h.waited hwait
    obtain ⟨-, hentry, t, stop, ht, hstop, rfl⟩ := h.stopped hwait hlive
      (hsafe.earlier (((onward_steps env).within_procInit scan _).ok hinit)
        hwaited.tallied.numbered)
    have hcovered : Covered (fun _ => False) (s.waited (kernel env) none) :=
      hwaited.mono fun q hq => .inl (hq ▸ hentry hexec)
    refine hcovered.initialised (.inl (hentry hexec)) (fun u hu => ?_) hinit
    cases ht.symm.trans hu
    exact .inr ⟨stop, hstop, cleared_of_status (not_fork_of_isExecStop hexec)⟩
  | @unexpected pid status added s₁ s₂ _ hwait hlive hexec hregister hfind hinit hinsert =>
    have hinserted := ((onward_steps env).within_insertProcess pid).ok hinsert
    have hinitialised := (((onward_steps env).within_procInit scan pid).ok hinit).trans hinserted
    have hregistered := ((onward_steps env).within_registerForkEvent pid status).ok hregister
    have hwaited := h.waited hwait
    obtain ⟨hcovered, hrest⟩ := h.reported hwait hlive hregister
      (hsafe.earlier hinitialised (hregistered.numbered hwaited.tallied.numbered))
      (hhonest.earlier hinitialised.trace)
    obtain ⟨hne, -, -⟩ := h.stopped hwait hlive
      (hsafe.earlier (hregistered.trans hinitialised) hwaited.tallied.numbered)
    exact (hcovered.initialised (.inr rfl) hrest hinit).inserted hne hinsert
  | @handled pid status c regs s₁ s₂ _ hwait hlive hexec hregister hfind hregs hhandle hresume =>
    have hhandled := (onward_asked env s₁ (.getregs pid)).trans
      ((onward_handleSyscall env c.addr regs).ok hhandle)
    have hresumed : Onward s₂ s' := by
      rcases hresume with ⟨-, rfl⟩ | ⟨-, rfl⟩
      · exact onward_asked env s₂ _
      · exact (onward_asked env s₂ _).trans (onward_deleted _ pid)
    have hregistered := ((onward_steps env).within_registerForkEvent pid status).ok hregister
    obtain ⟨hreported, hrest⟩ := h.reported hwait hlive hregister
      (hsafe.earlier (hhandled.trans hresumed)
        (hregistered.numbered (h.waited hwait).tallied.numbered))
      (hhonest.earlier (hhandled.trans hresumed).trace)
    -- the process has an entry
    obtain ⟨hc, rfl⟩ := hashFind_eq_some hfind
    have hentry : ∀ q, q = c.pid → HasEntry s₁.processTable q := fun q hq => ⟨c, hc, hq.symm⟩
    have hcovered : Covered (fun _ => False) s₁ := hreported.mono fun q hq => .inl (hentry q hq)
    have hrest' : AtRest (fun _ => False) c.pid s₁ := hrest.mono hentry
    obtain ⟨hread, hrest₂, hsame⟩ := hcovered.registers hrest' hregs
    obtain ⟨hcovered₂, hentry₂, hrest₃⟩ := hread.handled hc hrest₂ hsame hhandle
    rcases hresume with ⟨-, rfl⟩ | ⟨hgone, rfl⟩
    · exact hcovered₂.resumed (.inl hentry₂) hrest₃
    · exact hcovered₂.dropped hentry₂ hrest₃ hgone

end Covered

/-! ### Runs -/

theorem covered_start (b : Boot) : Covered (fun q => q = b.childPid) (Tracer.start b.world) where
  ok := tableOk_start b.world
  nonzero := List.forall_mem_nil _
  tallied := by
    refine ⟨⟨rfl, List.forall_mem_nil _⟩, List.forall_mem_nil _, fun _ q t ht => ?_,
      fun _ q t ht hstate => ?_⟩
    · obtain ⟨rfl, rfl⟩ := boot_cases b ht
      exact ⟨fit_of_tracked (.inr rfl) (fun _ => nofun) fun _ _ => nofun, b.childPid_ne_zero,
        .head _⟩
    · obtain ⟨-, rfl⟩ := boot_cases b ht
      cases hstate

theorem first_inserted {added : Bool} {s₀ : Tracer World}
    (hinsert : insertProcess (kernel env) b.childPid (Tracer.start b.world) = .ok added s₀) :
    s₀ = ((Tracer.start b.world).allocated (kernel env) b.childPid).inserted b.childPid := by
  rw [insertProcess_eq, if_neg (by exact Bool.false_ne_true)] at hinsert
  split at hinsert
  · cases hinsert
    rfl
  · cases hinsert

/-- The first task is inserted and resumed. -/
theorem covered_first {added : Bool} {s₀ : Tracer World}
    (hinsert : insertProcess (kernel env) b.childPid (Tracer.start b.world) = .ok added s₀) :
    Covered (fun _ => False) (s₀.asked (kernel env) (.syscall b.childPid 0)) := by
  have hinserted := (covered_start b).inserted b.childPid_ne_zero hinsert
  have hs₀ := first_inserted hinsert
  have hentry : HasEntry s₀.processTable b.childPid := hs₀ ▸ ⟨_, .head _, rfl⟩
  refine hinserted.resumed (.inl hentry) fun t ht => ?_
  rw [hs₀] at ht
  obtain ⟨-, rfl⟩ := boot_cases b ht
  exact .inr ⟨_, rfl, fun _ _ => nofun⟩

theorem numbered_head (h : b.Head env scan (fun _ _ => True) s) : Numbered s.trace s.os := by
  induction h with
  | first hinsert hresume =>
    injection hresume with _ hs
    exact hs ▸ (covered_first hinsert).tallied.numbered
  | turn h hturn _ ih => exact (onward_turn env hturn).numbered ih

/-- At every head of the loop, a live process without an entry is new and was not seen. -/
theorem covered_head (h : b.Head env scan (fun _ _ => True) s) (hsafe : Unusurped s) :
    Covered (fun _ => False) s := by
  -- over the turns: what has not happened so far had not happened before
  induction h with
  | first hinsert hresume =>
    injection hresume with _ hs
    exact hs ▸ covered_first hinsert
  | @turn s s' h hturn _ ih =>
    have honward := onward_turn env hturn
    have hcovered := ih (hsafe.earlier honward (numbered_head h))
    exact hcovered.turned (turn_cases hturn) hsafe (honest_head (.turn h hturn trivial))

/-- The loop goes from head to head. -/
theorem head_iterates {u v : Unit} (h : b.Head env scan (fun _ _ => True) s)
    (hiterates : Iterates (handleEventTurn (kernel env) scan) u s v s') :
    b.Head env scan (fun _ _ => True) s' := by
  induction hiterates with
  | refl => exact h
  | next _ hturn ih => exact .turn (ih h) hturn trivial

/-- A wait for any child that fails has found no task. -/
theorem waitpid_echild {e : Errno} (h : (World.waitpid env none w).1 = some (.error e)) :
    (World.waitpid env none w).2 = w.asked env (.wait none) ∧
      ∀ q ∈ (w.asked env (.wait none)).pids, (w.asked env (.wait none)).task q = none := by
  unfold World.waitpid at h ⊢
  dsimp only at h ⊢
  rw [← World.asked] at h ⊢
  split at h
  · next hnone =>
    rw [if_pos hnone]
    refine ⟨rfl, fun q hq => ?_⟩
    exact Option.isNone_iff_eq_none.mp (List.all_eq_true.mp hnone q hq)
  · exact absurd h report_ne_error

/-- A live task that nobody has seen since it was created. -/
def Unseen (w : World) : Prop :=
  ∀ q t, w.task q = some t → t.isDead = false → t.state = .stopped .initial false

/-- No task is alive. -/
def Deserted (w : World) : Prop := ∀ q t, w.task q = some t → t.isDead = true

theorem Deserted.unseen (h : Deserted w) : Unseen w := by
  intro q t ht hlive
  rw [h q t ht] at hlive
  cases hlive

/-- When nobody has an entry, a live process is new. -/
theorem Covered.unseen (h : Covered (fun _ => False) s) (hempty : s.processTable = [])
    (hsafe : Unusurped s) : Unseen s.os := by
  intro q t ht hlive
  refine (h.watched hsafe q t ht).1.unseen hlive ?_
  rintro (⟨c, hc, -⟩ | hfalse)
  · rw [hempty] at hc
    cases hc
  · exact hfalse

/-- A new process is announced, but not by one that is new itself. -/
theorem Covered.deserted (h : Covered (fun _ => False) s) (hempty : s.processTable = [])
    (hsafe : Unusurped s) (hkept : NoneOrphaned s.os.history s.trace) : Deserted s.os := by
  have hunseen := h.unseen hempty hsafe
  intro q t ht
  by_contra hlive
  have hnew := hunseen q t ht (by simpa using hlive)
  have hnot : ¬Expected (fun _ => False) s.processTable q := by
    rw [hempty]
    rintro (⟨c, hc, -⟩ | hfalse)
    · cases hc
    · exact hfalse
  obtain ⟨p, u, stop, hu, hstop, ⟨e, -, rfl⟩, -⟩ := h.tallied.tally.announced hkept q t ht hnew hnot
  obtain ⟨reported, hstate⟩ := state_of_stop? hstop
  have hcreator := hunseen p u hu (by simp [Task.isDead, hstate])
  rw [hstate] at hcreator
  cases hcreator

theorem Covered.empty (h : Covered pending s) (hcount : s.entryCount = 0) :
    s.processTable = [] := by
  have hfree : hashFind s.processTable 0 = none := hashFind_eq_none.mpr h.nonzero
  have hlength := (h.ok.counts (h.ok.length_lt hfree)).entries
  rw [hcount] at hlength
  exact List.length_eq_zero_iff.mp hlength.symm

/-- The loop does not go on waiting when there is nobody to wait for. -/
theorem Covered.deserted_echild (h : Covered pending s) {e : Errno}
    (hwait : ((kernel env).waitpid none s.os).1 = some (.error e))
    (hsafe : Unusurped (s.waited (kernel env) none)) :
    Deserted (s.waited (kernel env) none).os := by
  obtain ⟨hos, hnone⟩ := waitpid_echild hwait
  have hos' : (s.waited (kernel env) none).os = s.os.asked env (.wait none) := hos
  have hasked := (h.tallied.tally.asked env h.tallied.numbered (.wait none)).watched
    (by rw [← hos']; exact hsafe)
  intro q t ht
  rw [hos'] at ht
  rw [hnone q (hasked q t ht).2.2] at ht
  cases ht

/-- The first resumption fails only when the first task is dead. -/
theorem deserted_refused {added : Bool} {e : Errno} {s₀ : Tracer World}
    (hinsert : insertProcess (kernel env) b.childPid (Tracer.start b.world) = .ok added s₀)
    (hresume : ptrace (kernel env) (.syscall b.childPid 0) s₀ = .ok (.error e) s) :
    Deserted s.os := by
  obtain rfl := first_inserted hinsert
  injection hresume with hanswer hstate
  subst hstate
  have hanswer' : (World.ptrace env (.syscall b.childPid 0) b.world).1 = .error e := hanswer
  show Deserted (World.ptrace env (.syscall b.childPid 0) b.world).2
  rcases ptrace_performed env b.world (.syscall b.childPid 0) with
    ⟨t, ht, hstop, hrun⟩ | ⟨hstill, hrun⟩
  · obtain ⟨stop, hstop⟩ := stop?_of_isStopped hstop
    obtain ⟨reply, hreply⟩ := perform_syscall_ok
      (w := b.world.asked env (.ptrace (.syscall b.childPid 0))) hstop b.childPid 0
    rw [hrun, hreply] at hanswer'
    cases hanswer'
  · rw [hrun]
    have hwaiting := @waiting_asked b env (.ptrace (.syscall b.childPid 0))
    obtain ⟨t, ht, hfirst⟩ := hwaiting.first
    intro q u hu
    by_cases hq : q = b.childPid
    · subst hq
      cases ht.symm.trans hu
      rcases hfirst with rfl | hdead
      · cases hstill _ ht
      · exact hdead
    · rw [hwaiting.others q hq] at hu
      cases hu

/-- When a run returns, nobody is left or nobody has an entry. -/
theorem run_ends {n : Nat} (hrun : b.run env scan n = .ok () s) (hsafe : Unusurped s) :
    Deserted s.os ∨ s.processTable = [] ∧ Covered (fun _ => False) s := by
  obtain ⟨added, s₀, hinsert, hrest⟩ := bind_eq_ok.mp hrun
  obtain ⟨answer, s₁, hresume, hloop⟩ := bind_eq_ok.mp hrest
  cases answer with
  | error e =>
    cases hloop
    exact .inl (deserted_refused hinsert hresume)
  | ok reply =>
    obtain ⟨_, s₂, hiterates, hlast⟩ := loop_eq_ok hloop
    have hhead := head_iterates (.first hinsert hresume) hiterates
    rcases turn_ends hlast with ⟨hcount, rfl⟩ | ⟨hwait, rfl⟩
    · have hcovered := covered_head hhead hsafe
      exact .inr ⟨hcovered.empty hcount, hcovered⟩
    · have honward := onward_waited env s₂ none
      have hcovered := covered_head hhead (hsafe.earlier honward (numbered_head hhead))
      exact .inl (hcovered.deserted_echild hwait hsafe)

theorem unusurped_of_leaders (hleaders : ∀ x ∈ s.os.history, ¬ForeignExec x) : Unusurped s := by
  refine everyMove_of_forall (fun x hx entries husurps => hleaders x hx ?_) s.trace
  obtain ⟨n, m⟩ := x
  cases m with
  | exec pid leader regs image => exact ⟨pid, leader, regs, image, rfl, husurps.1⟩
  | enter | finish | fork | signal | die | store => exact husurps.elim

/-- When the run returns, every process that is left alive is new: the tracer has not seen its first
stop, and has not let it run. -/
theorem run_unseen {n : Nat} (hrun : b.run env scan n = .ok () s)
    (hleaders : ∀ x ∈ s.os.history, ¬ForeignExec x) : Unseen s.os := by
  have hsafe := unusurped_of_leaders hleaders
  rcases run_ends hrun hsafe with hdeserted | ⟨hempty, hcovered⟩
  · exact hdeserted.unseen
  · exact hcovered.unseen hempty hsafe

/-- A run is followed by evaluation. -/
theorem exists_returned (b : Boot) (env : Env) (scan n : Nat) {P : Tracer World → Prop}
    [DecidablePred P]
    (h : (match b.run env scan n with
      | .ok () s => decide (P s)
      | .error .. => false) = true) : ∃ s, b.run env scan n = .ok () s ∧ P s := by
  split at h
  · next s hrun => exact ⟨s, hrun, of_decide_eq_true h⟩
  · cases h

/-- The first task is killed right after it has created a process, which the tracer never sees. -/
def newbornLeft : Env :=
  scripted [(1, ⟨[.enter 100 forkCall], 100⟩),
    (4, ⟨[.fork 100 101 .fork false false 0, .die 100 9], 100⟩)]

theorem newbornLeft_unseen :
    ∃ s, Boot.sample.run newbornLeft 0 3 = .ok () s ∧
      (∃ t, s.os.task 101 = some t ∧ t.isDead = false) ∧ Unseen s.os := by
  obtain ⟨s, hrun, hleft, hleaders⟩ := exists_returned Boot.sample newbornLeft 0 3
    (P := fun s => (s.os.task 101).any (fun t => t.isDead = false) = true ∧
      ∀ x ∈ s.os.history, ¬ForeignExec x) (by decide +kernel)
  obtain ⟨t, ht, hlive⟩ := (Option.any_eq_true _ _).mp hleft
  exact ⟨s, hrun, ⟨t, ht, of_decide_eq_true hlive⟩, run_unseen hrun hleaders⟩

/-- When the run returns, nobody is left, unless a creator has died before its new process was
known, or a thread has taken the place of a leader that was dropped. -/
theorem run_deserted {n : Nat} (hrun : b.run env scan n = .ok () s)
    (hleaders : NoneUsurped s.os.history s.trace) (hkept : NoneOrphaned s.os.history s.trace) :
    Deserted s.os := by
  rcases run_ends hrun hleaders with hdeserted | ⟨hempty, hcovered⟩
  · exact hdeserted
  · exact hcovered.deserted hempty hleaders hkept

/-- A new process is known before its creator exits. -/
def forkEnds : Env :=
  scripted [(1, ⟨[.enter 100 forkCall], 100⟩), (4, ⟨[.fork 100 101 .fork false false 0], 100⟩),
    (10, ⟨[.die 101 0], 101⟩), (11, ⟨[.die 100 0], 100⟩)]

theorem forkEnds_deserted :
    ∃ s, Boot.sample.run forkEnds 0 6 = .ok () s ∧ s.os.births = 2 ∧ Deserted s.os := by
  obtain ⟨s, hrun, hbirths, hsafe, hkept⟩ := exists_returned Boot.sample forkEnds 0 6
    (P := fun s => s.os.births = 2 ∧ NoneUsurped s.os.history s.trace ∧
      NoneOrphaned s.os.history s.trace) (by decide +kernel)
  exact ⟨s, hrun, hbirths, run_deserted hrun hsafe hkept⟩

/-- Thread 101 takes the place of the leader 100, whose entry was deleted when it did not go on.
Then another process gets pid 101, whose death is taken for that of the thread. -/
def leaderUsurped : Env :=
  scripted [(1, ⟨[.enter 100 forkCall], 100⟩), (4, ⟨[.fork 100 102 .fork false false 0], 100⟩),
    (10, ⟨[.finish 100 default], 100⟩), (13, ⟨[.enter 100 cloneCall], 100⟩),
    (16, ⟨[.fork 100 101 .clone true true 0], 100⟩), (22, ⟨[.enter 101 execveCall], 101⟩),
    (25, ⟨[.finish 100 default], 100⟩), (27, ⟨[.die 100 0], 100⟩),
    (28, ⟨[.exec 101 100 default Boot.sample.memory], 100⟩), (34, ⟨[.enter 102 forkCall], 102⟩),
    (37, ⟨[.fork 102 101 .fork false false 0], 102⟩), (41, ⟨[.die 102 0], 102⟩),
    (42, ⟨[.die 101 0], 101⟩)]

/-- The loop ends when the table is empty, though a task is alive: a new process whose creator was
killed before its fork event was read, or one that took the place of a leader without an entry. -/
theorem not_deserted_newbornLeft :
    (∃ s, Boot.sample.run newbornLeft 0 3 = .ok () s ∧ s.entryCount = 0 ∧
      NoneUsurped s.os.history s.trace ∧ ¬Deserted s.os) ∧
    ∃ s, Boot.sample.run leaderUsurped 3 13 = .ok () s ∧ s.entryCount = 0 ∧
      NoneOrphaned s.os.history s.trace ∧ ¬Deserted s.os := by
  have hleft : ∀ {pid : PidT} {w : World},
      (w.task pid).any (fun t => t.isDead = false) = true → ¬Deserted w := by
    intro pid w h hdeserted
    obtain ⟨t, ht, hlive⟩ := (Option.any_eq_true _ _).mp h
    cases (hdeserted pid t ht).symm.trans (of_decide_eq_true hlive)
  obtain ⟨s, hrun, hcount, hsafe, hnewborn⟩ := exists_returned Boot.sample newbornLeft 0 3
    (P := fun s => s.entryCount = 0 ∧ NoneUsurped s.os.history s.trace ∧
      (s.os.task 101).any (fun t => t.isDead = false) = true) (by decide +kernel)
  obtain ⟨s', hrun', hcount', hkept, hleader⟩ := exists_returned Boot.sample leaderUsurped 3 13
    (P := fun s => s.entryCount = 0 ∧ NoneOrphaned s.os.history s.trace ∧
      (s.os.task 100).any (fun t => t.isDead = false) = true) (by decide +kernel)
  exact ⟨⟨s, hrun, hcount, hsafe, hleft hnewborn⟩, s', hrun', hcount', hkept, hleft hleader⟩

end Reproduce.Linux
