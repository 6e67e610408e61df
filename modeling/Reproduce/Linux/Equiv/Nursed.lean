import Reproduce.Linux.Equiv.Grown
import Reproduce.Linux.Equiv.Unseen
import Reproduce.Tracer.Equiv.Justified

/-!
# New processes and entries

A process gets its entry when it is resumed from its first stop.  This needs that a new process is
not given the pid of an entry (`NoneReused`), that every process that runs has its entry
(`NoneUsurped`), and that the loop reads nothing in a new process that makes it write there or give
up (`ScansHarmless`): these are the conditions of `Untroubled`.

`Nursed` is the invariant.  A handler keeps it, as its process has an entry (`Nursed.handled`), and
so does the registration of a new process (`Nursed.registered`).
-/

namespace Reproduce.Linux

open Bytes Effect

variable {rising rising' : PidT → Prop} {entries : List PidT} {w w' : World} {pid p q : PidT}
  {t t' u : Task} {m : Move}

/-! ### The conditions -/

/-- A process is created under the pid of an entry. -/
def Move.Reuses (entries : List PidT) : Move → Prop
  | .fork _ child .. => child ∈ entries
  | .enter .. | .finish .. | .exec .. | .signal .. | .die .. | .store .. => False

instance (entries : List PidT) : DecidablePred (Move.Reuses entries)
  | .fork _ child .. => inferInstanceAs (Decidable (child ∈ entries))
  | .enter .. | .finish .. | .exec .. | .signal .. | .die .. | .store .. =>
    inferInstanceAs (Decidable False)

/-- No process was created under the pid of an entry. -/
abbrev NoneReused (history : List (Nat × Move)) (trace : List (Event World)) : Prop :=
  EveryMove (fun entries m => ¬m.Reuses entries) history trace

/-- The zero words that a scan has read; the first word it reads is the stack pointer. -/
def countZero (place : Peek) (word : Word) (zeros : Nat) : Nat :=
  match place with
  | .user _ => zeros
  | .data _ => if word = AT_NULL then zeros + 1 else zeros

/-- How many zero words were read, if a process in its first stop is being scanned. -/
def scanning : List (Event World) → Option Nat
  | .call (.removeVdso pid) _ os :: _ =>
    if (os.task pid).any (fun t => t.stop? = some .initial) then some 0 else none
  | .ptrace (.peek _ place) (.ok word) :: older => (scanning older).map (countZero place word)
  | _ => none

/-- What a scan can read without changing anything and without ending the tracer.  From the second
zero word on, it compares what it reads with the type of the vDSO entry. -/
def Harmless (zeros : Nat) : Except Errno Word → Prop
  | .ok word => word ≠ -1 ∧ (2 ≤ zeros → word ≠ AT_SYSINFO_EHDR)
  | .error e => e = .ESRCH

instance (zeros : Nat) : DecidablePred (Harmless zeros)
  | .ok word => inferInstanceAs (Decidable (word ≠ -1 ∧ (2 ≤ zeros → word ≠ AT_SYSINFO_EHDR)))
  | .error e => inferInstanceAs (Decidable (e = .ESRCH))

/-- Whatever was read in a scan of a process in its first stop was harmless. -/
def ScansHarmless : List (Event World) → Prop
  | [] => True
  | .ptrace (.peek _ _) answer :: older =>
    (∀ zeros ∈ scanning older, Harmless zeros answer) ∧ ScansHarmless older
  | _ :: older => ScansHarmless older

instance decidableScansHarmless : DecidablePred ScansHarmless
  | [] => inferInstanceAs (Decidable True)
  | .ptrace (.peek _ _) answer :: older =>
    have := decidableScansHarmless older
    inferInstanceAs (Decidable
      ((∀ zeros ∈ scanning older, Harmless zeros answer) ∧ ScansHarmless older))
  | .ptrace (.pokedata ..) _ :: older | .ptrace (.getregs _) _ :: older
  | .ptrace (.setregs ..) _ :: older | .ptrace (.syscall ..) _ :: older
  | .ptrace (.geteventmsg _) _ :: older | .wait _ _ :: older | .malloc _ _ :: older
  | .call _ _ _ :: older => decidableScansHarmless older

theorem ScansHarmless.suffix {trace trace' : List (Event World)} (h : ScansHarmless trace')
    (hle : trace <:+ trace') : ScansHarmless trace := by
  obtain ⟨newer, rfl⟩ := hle
  induction newer with
  | nil => exact h
  | cons e newer ih =>
    match e, h with
    | .ptrace (.peek ..) _, h => exact ih h.2
    | .ptrace (.pokedata ..) _, h | .ptrace (.getregs _) _, h | .ptrace (.setregs ..) _, h
    | .ptrace (.syscall ..) _, h | .ptrace (.geteventmsg _) _, h | .wait .., h | .malloc .., h
    | .call .., h => exact ih h

/-- What a run has to keep to so that its new processes fare alike. -/
structure Untroubled (s : Tracer World) : Prop where
  usurped : NoneUsurped s.os.history s.trace
  reused : NoneReused s.os.history s.trace
  scans : ScansHarmless s.trace

instance (s : Tracer World) : Decidable (Untroubled s) :=
  decidable_of_iff (NoneUsurped s.os.history s.trace ∧ NoneReused s.os.history s.trace ∧
      ScansHarmless s.trace)
    ⟨fun ⟨husurped, hreused, hscans⟩ => ⟨husurped, hreused, hscans⟩,
      fun h => ⟨h.usurped, h.reused, h.scans⟩⟩

/-! ### Tasks and entries -/

/-- A process with an entry is in its first stop only while it is `rising`, and nothing was poked
into a process in its first stop. -/
structure Clean (rising : PidT → Prop) (entries : List PidT) (w : World) : Prop where
  resumed : ∀ q ∈ entries, ∀ t, w.task q = some t → t.stop? = some .initial → rising q
  unpoked : ∀ q t, w.task q = some t → t.earlyPokes = 0

namespace Clean

theorem congr (h : Clean rising entries w) (htask : w'.task = w.task) :
    Clean rising entries w' where
  resumed := by rw [htask]; exact h.resumed
  unpoked := by rw [htask]; exact h.unpoked

theorem moved (h : Clean rising entries w) (hmoved : Moved w m w') (hreuses : ¬m.Reuses entries) :
    Clean rising entries w' where
  resumed q hq t ht hinitial := by
    have hbecomes := becomes hmoved q
    generalize ho : w'.task q = o at hbecomes
    cases hbecomes with
    | same => exact h.resumed q hq t (ho.symm.trans ht) hinitial
    | own hu hmoves =>
      cases ht.symm.trans ho
      exact absurd hinitial (not_initial_moves hmoves)
    | born hfree => exact absurd hq hreuses
    | gone => cases ht.symm.trans ho
    | replaced hold hu hstate hnr hdead =>
      cases ht.symm.trans ho
      cases hinitial
  unpoked q t ht := by
    have hbecomes := becomes hmoved q
    generalize ho : w'.task q = o at hbecomes
    cases hbecomes with
    | same => exact h.unpoked q t (ho.symm.trans ht)
    | own hu hmoves =>
      cases ht.symm.trans ho
      exact (kept_moves hmoves).earlyPokes.trans (h.unpoked q _ hu)
    | born hfree hu hstate hnr =>
      cases ht.symm.trans ho
      rfl
    | gone => cases ht.symm.trans ho
    | replaced hold hu hstate hnr hdead =>
      cases ht.symm.trans ho
      have hpokes := h.unpoked q _ hold
      exact hpokes

/-- A task changes; it may come out of its first stop. -/
theorem setTask (h : Clean rising entries w) (ht : w.task pid = some t)
    (hstop : t'.stop? = some .initial → t.stop? = some .initial)
    (hpokes : t'.earlyPokes = t.earlyPokes) : Clean rising entries (w.setTask pid (some t')) where
  resumed q hq u hu hinitial := by
    rcases Grown.of_setTask hu with ⟨rfl, ho⟩ | ⟨-, hu⟩
    · cases ho
      exact h.resumed q hq t ht (hstop hinitial)
    · exact h.resumed q hq u hu hinitial
  unpoked q u hu := by
    rcases Grown.of_setTask hu with ⟨rfl, ho⟩ | ⟨-, hu⟩
    · cases ho
      exact hpokes.trans (h.unpoked q t ht)
    · exact h.unpoked q u hu

theorem unset (h : Clean rising entries w) : Clean rising entries (w.setTask pid none) where
  resumed q hq u hu hinitial := by
    rcases Grown.of_setTask hu with ⟨-, ho⟩ | ⟨-, hu⟩
    · cases ho
    · exact h.resumed q hq u hu hinitial
  unpoked q u hu := by
    rcases Grown.of_setTask hu with ⟨-, ho⟩ | ⟨-, hu⟩
    · cases ho
    · exact h.unpoked q u hu

theorem risen (h : Clean rising entries w) (hpid : Only pid (fun t => t.stop? ≠ some .initial) w) :
    Clean (fun q => rising q ∧ q ≠ pid) entries w where
  resumed q hq t ht hinitial :=
    ⟨h.resumed q hq t ht hinitial, fun hqp => hpid t (hqp ▸ ht) hinitial⟩
  unpoked := h.unpoked

theorem mono (h : Clean rising entries w) (hrising : ∀ q, rising q → rising' q) :
    Clean rising' entries w :=
  ⟨fun q hq t ht hinitial => hrising q (h.resumed q hq t ht hinitial), h.unpoked⟩

/-- A process is poked outside its first stop. -/
theorem poked (h : Clean rising entries w) (hinitial : t.stop? ≠ some .initial) (mm : Nat)
    (memory : Memory) :
    Clean rising entries (((w.setMem mm memory).countPoke pid t).recordWrite pid t.mm) := by
  rw [World.countPoke, if_neg hinitial]
  exact h.congr rfl

theorem resumes (h : Clean rising entries w) (ht : w.task pid = some t) (stop : Stop)
    (data : Word) : Clean rising entries (w.setTask pid (some (t.resume stop data))) :=
  h.setTask ht (fun hinitial => by cases (stop?_resume t stop data).symm.trans hinitial)
    (by cases stop <;> rfl)

theorem reported (h : Clean rising entries w) {status : Status}
    (hreported : Reported w pid status w') : Clean rising entries w' := by
  cases hreported with
  | stopped ht hstate =>
    exact h.setTask ht (fun hinitial => (stop?_stopped hstate).trans hinitial) rfl
  | reaped ht hstate hlast => exact h.unset

variable {trace : List (Event World)} (env : Env)

/-- The moves before a query. -/
theorem asked (h : Clean rising entries w) (hn : Numbered trace w) (query : Query)
    (hreuses : ∀ m ∈ movesBefore (w.asked env query).history (queries trace), ¬m.Reuses entries) :
    Clean rising entries (w.asked env query) := by
  obtain ⟨ms, -, hbefore, -, hclean⟩ := hn.recorded env
    (P := fun ms w => (∀ m ∈ ms, ¬m.Reuses entries) → Clean rising entries w) (fun _ => h)
    (fun ms w₁ m w₂ hw hmoved hms =>
      ((hw fun m' hm' => hms m' (.tail _ hm')).moved hmoved (hms m (.head _))).congr rfl) query
  rw [hbefore] at hreuses
  exact (hclean hreuses).congr rfl

end Clean

/-! ### The story -/

/-- What is known of the new processes in a state of the tracer. -/
structure Nursed (rising : PidT → Prop) (s : Tracer World) : Prop where
  numbered : Numbered s.trace s.os
  entered : ∀ q, HasEntry s.processTable q → q ∈ enrolled s.trace
  clean : Untroubled s → Clean rising (enrolled s.trace) s.os

theorem Untroubled.earlier {s s' : Tracer World} (h : Untroubled s') (honward : Onward s s')
    (hn : Numbered s.trace s.os) : Untroubled s :=
  ⟨h.usurped.earlier honward hn, EveryMove.earlier h.reused honward hn,
    h.scans.suffix honward.trace⟩

namespace Nursed

variable {s s' : Tracer World} (env : Env)

theorem mono (h : Nursed rising s) (hrising : ∀ q, rising q → rising' q) : Nursed rising' s :=
  ⟨h.numbered, h.entered, fun hsafe => (h.clean hsafe).mono hrising⟩

/-- A request; it is refused, or carried out on a task that is stopped. -/
theorem requested (h : Nursed rising s) {r : Request}
    (hperform : ∀ t, (s.os.asked env (.ptrace r)).task r.pid = some t → t.isStopped = true →
      Untroubled (s.asked (kernel env) r) →
      Clean rising (enrolled s.trace) (s.os.asked env (.ptrace r)) →
      Clean rising' (enrolled s.trace) ((s.os.asked env (.ptrace r)).perform t r).2)
    (hrefused : Only r.pid (fun t => t.isStopped = false) (s.os.asked env (.ptrace r)) →
      Clean rising (enrolled s.trace) (s.os.asked env (.ptrace r)) →
      Clean rising' (enrolled s.trace) (s.os.asked env (.ptrace r))) :
    Nursed rising' (s.asked (kernel env) r) where
  numbered := (onward_asked env s r).numbered h.numbered
  entered := h.entered
  clean hsafe := by
    have hhistory : (s.asked (kernel env) r).os.history = (s.os.asked env (.ptrace r)).history :=
      history_ptrace env s.os r
    have hos : (s.asked (kernel env) r).os = (World.ptrace env r s.os).2 := rfl
    have hbefore := h.clean (hsafe.earlier (onward_asked env s r) h.numbered)
    have hreused : NoneReused (s.os.asked env (.ptrace r)).history
        (.ptrace r ((kernel env).ptrace r s.os).1 :: s.trace) := hhistory ▸ hsafe.reused
    have hasked := hbefore.asked env h.numbered (.ptrace r) hreused.1
    show Clean rising' (enrolled s.trace) (World.ptrace env r s.os).2
    rcases ptrace_performed env s.os r with ⟨t, ht, hstop, hrun⟩ | ⟨hstill, hrun⟩
    · rw [hrun]
      exact hperform t ht hstop hsafe hasked
    · rw [hrun]
      exact hrefused hstill hasked

/-- A request that changes nothing. -/
theorem looked (h : Nursed rising s) {r : Request}
    (hsame : ∀ t, ((s.os.asked env (.ptrace r)).perform t r).2 = s.os.asked env (.ptrace r)) :
    Nursed rising (s.asked (kernel env) r) :=
  h.requested env (fun t _ _ _ hw => by rw [hsame]; exact hw) fun _ => id

/-- A process with an entry is poked. -/
theorem poked (h : Nursed rising s) (hpid : pid ∈ enrolled s.trace) (hrising : ¬rising pid)
    (addr data : Word) : Nursed rising (s.asked (kernel env) (.pokedata pid addr data)) :=
  h.requested env (fun t ht _ _ hw => by
    rcases perform_poke_snd (s.os.asked env (.ptrace (.pokedata pid addr data))) t pid addr data
      with hsame | ⟨m, hpoke⟩
    · rw [hsame]
      exact hw
    · rw [hpoke]
      exact hw.poked (fun hinitial => hrising (hw.resumed pid hpid t ht hinitial)) t.mm m)
    fun _ => id

theorem registersSet (h : Nursed rising s) (regs : UserRegsStruct) :
    Nursed rising (s.asked (kernel env) (.setregs pid regs)) :=
  h.requested env (fun t ht _ _ hw => by
    have hset : Clean rising (enrolled s.trace)
        ((s.os.asked env (.ptrace (.setregs pid regs))).setTask pid
          (some { t with regs := regs })) := hw.setTask ht id rfl
    exact hset.congr rfl) fun _ => id

theorem resumed (h : Nursed rising s) : Nursed rising (s.asked (kernel env) (.syscall pid 0)) :=
  h.requested env (fun t ht hstop _ hw => by
    obtain ⟨stop, hstop⟩ := stop?_of_isStopped hstop
    rw [perform_syscall_snd pid 0 hstop]
    exact hw.resumes ht stop 0) fun _ => id

/-- A process that is not in its first stop need not be rising. -/
theorem risen (h : Nursed rising s) (hpid : Only pid (fun t => t.stop? ≠ some .initial) s.os) :
    Nursed (fun q => rising q ∧ q ≠ pid) s :=
  ⟨h.numbered, h.entered, fun hsafe => (h.clean hsafe).risen hpid⟩

theorem waited (h : Nursed rising s) (target : WaitTarget) :
    Nursed rising (s.waited (kernel env) target) where
  numbered := (onward_waited env s target).numbered h.numbered
  entered := h.entered
  clean hsafe := by
    have hhistory : (s.waited (kernel env) target).os.history =
        (s.os.asked env (.wait target)).history := history_waitpid env s.os target
    have hbefore := h.clean (hsafe.earlier (onward_waited env s target) h.numbered)
    have hreused : NoneReused (s.os.asked env (.wait target)).history
        (.wait target ((kernel env).waitpid target s.os).1 :: s.trace) := hhistory ▸ hsafe.reused
    have hasked := hbefore.asked env h.numbered (.wait target) hreused.1
    show Clean rising (enrolled s.trace) (World.waitpid env target s.os).2
    by_cases hanswer : ∃ p status, (World.waitpid env target s.os).1 = some (.ok (p, status))
    · obtain ⟨p, status, hanswer⟩ := hanswer
      exact hasked.reported (waitpid_reported env hanswer).1
    · rw [waitpid_unreported env fun p status hok => hanswer ⟨p, status, hok⟩]
      exact hasked

/-- The tracer does something by itself that changes no entry. -/
theorem own (h : Nursed rising s) (hos : s'.os = s.os) (htrace : s.trace <:+ s'.trace)
    (hqueries : queries s'.trace = queries s.trace)
    (henrolled : enrolled s'.trace = enrolled s.trace)
    (htable : ∀ q, HasEntry s'.processTable q → HasEntry s.processTable q) : Nursed rising s' where
  numbered := (onward_own hos htrace hqueries).numbered h.numbered
  entered q hq := henrolled ▸ h.entered q (htable q hq)
  clean hsafe := by
    rw [henrolled, hos]
    exact h.clean (hsafe.earlier (onward_own hos htrace hqueries) h.numbered)

theorem onward_inserted (s : Tracer World) (pid : PidT) :
    Onward s ((s.allocated (kernel env) pid).inserted pid) :=
  onward_own rfl ⟨[_, _], rfl⟩ rfl

/-- A process gets an entry; it is rising, or not in its first stop. -/
theorem inserted (h : Nursed rising s) (hsub : ∀ q, rising q → rising' q)
    (hpid : rising' pid ∨ Only pid (fun t => t.stop? ≠ some .initial) s.os) :
    Nursed rising' ((s.allocated (kernel env) pid).inserted pid) where
  numbered := (onward_inserted env s pid).numbered h.numbered
  entered q hq := by
    obtain ⟨c, hc, rfl⟩ := hq
    rcases List.mem_cons.mp hc with rfl | hc
    · exact .head _
    · exact .tail _ (h.entered _ ⟨c, hc, rfl⟩)
  clean hsafe := by
    have hbefore := h.clean (hsafe.earlier (onward_inserted env s pid) h.numbered)
    refine ⟨fun q hq t ht hinitial => ?_, hbefore.unpoked⟩
    rcases List.mem_cons.mp hq with rfl | hq
    · exact hpid.resolve_right fun honly => honly t ht hinitial
    · exact hsub q (hbefore.resumed q hq t ht hinitial)

theorem deleted (h : Nursed rising s) (hok : TableOk s) : Nursed rising (s.deleted pid) where
  numbered := (onward_deleted s pid).numbered h.numbered
  entered q hq := by
    obtain ⟨hentry, hne⟩ := (hasEntry_deleted hok).mp hq
    rw [trace_deleted]
    exact List.mem_filter.mpr ⟨h.entered q hentry, by simpa using hne⟩
  clean hsafe := by
    have hbefore := h.clean (hsafe.earlier (onward_deleted s pid) h.numbered)
    rw [trace_deleted, os_deleted]
    exact ⟨fun q hq => hbefore.resumed q (List.mem_filter.mp hq).1, hbefore.unpoked⟩

end Nursed

/-! ### A process with an entry -/

section handled

variable {s s' : Tracer World} (env : Env)

/-- Whatever a handler asks of its process. -/
theorem requests_nursed (pid : PidT) :
    Requests (kernel env)
      (Preserves fun s => Nursed (fun _ => False) s ∧ pid ∈ enrolled s.trace) pid where
  peek place s hs := ⟨hs.1.looked env fun t => perform_peek_snd _ t pid place, hs.2⟩
  poke addr data s hs := ⟨hs.1.poked env hs.2 id addr data, hs.2⟩
  setregs regs s hs := ⟨hs.1.registersSet env regs, hs.2⟩
  resume s hs := ⟨hs.1.resumed env, hs.2⟩
  wait s hs := by
    rw [waitpid_apply]
    split <;> exact ⟨hs.1.waited env _, hs.2⟩
  malloc size s hs := by
    unfold Reproduce.malloc
    split <;> exact ⟨hs.1.own rfl (List.suffix_cons _ _) rfl rfl fun _ => id, hs.2⟩
  buffer s f hs := ⟨hs.1.own rfl List.suffix_rfl rfl rfl fun _ => id, hs.2⟩

theorem nursed_setClock (pid : PidT) (child : Ptr) (t : Timespec) :
    Within (Preserves fun s : Tracer World => Nursed (fun _ => False) s ∧ pid ∈ enrolled s.trace)
      (setClock child t) := by
  refine Within.bind (Requests.within_deref child) fun _ s hs => ⟨?_, hs.2⟩
  refine hs.1.own rfl List.suffix_rfl rfl rfl fun q hq => ?_
  obtain ⟨c, hc, rfl⟩ := hq
  obtain ⟨c₀, hc₀, rfl⟩ := List.mem_map.mp hc
  refine ⟨c₀, hc₀, ?_⟩
  split <;> rfl

theorem Nursed.handled (h : Nursed (fun _ => False) s) {c : ChildProcess}
    (hblock : blockAt s.processTable c.addr = some c) {regs : UserRegsStruct}
    (hhandle : handleSyscall (kernel env) c.addr regs s = .ok () s') :
    Nursed (fun _ => False) s' := by
  have hnoted : Nursed (fun _ => False) (s.noted (.handleSyscall c.addr regs)) :=
    h.own rfl (List.suffix_cons _ _) rfl rfl fun _ => id
  have hentry : c.pid ∈ enrolled (s.noted (.handleSyscall c.addr regs)).trace :=
    h.entered c.pid ⟨c, (blockAt_eq_some hblock).1, rfl⟩
  rw [handleSyscall_eq (kernel env) hblock] at hhandle
  exact (((requests_nursed env c.pid).within_runHook (nursed_setClock c.pid c.addr) regs _).ok
    hhandle ⟨hnoted, hentry⟩).1

/-- `proc_init` on a process with an entry. -/
theorem Nursed.initialised (h : Nursed (fun _ => False) s) (hpid : pid ∈ enrolled s.trace)
    {scan : Nat} (hinit : procInit (kernel env) scan pid s = .ok () s') :
    Nursed (fun _ => False) s' := by
  have hrequests := requests_nursed env pid
  refine (hrequests.toDrives.toPokes.within_procInit hrequests.resume (fun s hs => ?_) scan).ok
    hinit ⟨h, hpid⟩ |>.1
  exact ⟨hs.1.own rfl (List.suffix_cons _ _) rfl rfl fun _ => id, hs.2⟩

end handled

/-! ### Registration -/

section registered

variable {s s' : Tracer World} (env : Env)

/-- A process that was asked to go on is in no first stop. -/
theorem only_resumed (s : Tracer World) (pid : PidT) :
    Only pid (fun t => t.stop? ≠ some .initial) (s.asked (kernel env) (.syscall pid 0)).os := by
  show Only pid _ (World.ptrace env (.syscall pid 0) s.os).2
  rcases ptrace_performed env s.os (.syscall pid 0) with ⟨t, -, hstop, hrun⟩ | ⟨hstill, hrun⟩
  · obtain ⟨stop, hstop⟩ := stop?_of_isStopped hstop
    rw [hrun, perform_syscall_snd pid 0 hstop]
    refine only_setTask ?_
    rw [stop?_resume]
    exact nofun
  · rw [hrun]
    intro t ht hinitial
    obtain ⟨reported, hstate⟩ := state_of_stop? hinitial
    have hstopped := hstill t ht
    simp [Task.isStopped, hstate] at hstopped

/-- The new process rises while it is registered. -/
theorem Nursed.registered (h : Nursed (fun _ => False) s)
    (hregistered : Registered (kernel env) pid s s') : Nursed (fun _ => False) s' := by
  have hmessage : Nursed (fun _ => False) (s.asked (kernel env) (.geteventmsg pid)) :=
    h.looked env fun t => perform_geteventmsg_snd _ t pid
  cases hregistered with
  | vanished | known => exact hmessage
  | @inserted message q status hmessage' hfind hwait hresume =>
    have hinserted : Nursed (fun q => q = childOf message)
        (s.registering (kernel env) pid (childOf message)) :=
      hmessage.inserted env (fun _ => False.elim) (.inl rfl)
    exact (((hinserted.waited env _).resumed env).risen (only_resumed env _ _)).mono
      fun q hq => hq.2 hq.1

end registered

end Reproduce.Linux
