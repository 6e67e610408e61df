import Reproduce.Linux.Equiv.Nursed

/-!
# The scan of a new process

The loop calls `remove_vdso` for a process that it does not know, which is in its first stop.  As
long as it reads what is harmless there, it changes nothing and does not end the tracer
(`Scanning.triple_removeVdso`), and then it resumes the process (`triple_procInit`).

So a turn keeps what is known of the new processes (`Nursed.turned`), and every run does
(`nursed_head`).
-/

namespace Reproduce.Linux

open Bytes Effect

/-! ### The scan of a new process -/

section scan

variable {rising : PidT → Prop} {ws : List (PidT × Nat)} {zeros : Nat} {s s' : Tracer World}
  {pid : PidT} (env : Env)

theorem writes_asked (w : World) (q : Query) : (w.asked env q).writes = w.writes :=
  runMoves_induction (P := fun w' => w'.writes = w.writes)
    (fun _ _ _ _ hw hmoved => by cases hmoved <;> exact hw) w rfl

/-- A request that writes no word and no registers. -/
theorem writes_ptrace {r : Request}
    (hr : Reads (.ptrace r ((kernel env).ptrace r s.os).1 : Event World)) :
    (s.asked (kernel env) r).os.writes = s.os.writes := by
  show (World.ptrace env r s.os).2.writes = _
  refine Eq.trans ?_ (writes_asked env s.os (.ptrace r))
  rcases ptrace_performed env s.os r with ⟨t, ht, hstop, hrun⟩ | ⟨-, hrun⟩
  · rw [hrun]
    cases r with
    | peek pid place => rw [perform_peek_snd]
    | pokedata | setregs => exact hr.elim
    | getregs => rfl
    | syscall pid data =>
      obtain ⟨stop, hstop⟩ := stop?_of_isStopped hstop
      rw [perform_syscall_snd pid data hstop]
      rfl
    | geteventmsg => rw [perform_geteventmsg_snd]
  · rw [hrun]

theorem writes_waitpid (s : Tracer World) (target : WaitTarget) :
    (s.waited (kernel env) target).os.writes = s.os.writes := by
  show (World.waitpid env target s.os).2.writes = _
  refine Eq.trans ?_ (writes_asked env s.os (.wait target))
  by_cases hanswer : ∃ p status, (World.waitpid env target s.os).1 = some (.ok (p, status))
  · obtain ⟨p, status, hanswer⟩ := hanswer
    have hreported := (waitpid_reported env hanswer).1
    generalize (World.waitpid env target s.os).2 = w' at hreported
    cases hreported <;> rfl
  · rw [waitpid_unreported env fun p status hok => hanswer ⟨p, status, hok⟩]

/-- The scan has read `zeros` zero words and has changed nothing. -/
structure Scanning (rising : PidT → Prop) (ws : List (PidT × Nat)) (zeros : Nat)
    (s : Tracer World) : Prop where
  nursed : Nursed rising s
  writes : s.os.writes = ws
  zeros : scanning s.trace = some zeros

/-- The scan is over; it has changed nothing unless it has read something that is not harmless. -/
structure Scanned (rising : PidT → Prop) (ws : List (PidT × Nat)) (s : Tracer World) : Prop where
  nursed : Nursed rising s
  writes : ScansHarmless s.trace → s.os.writes = ws

theorem Scanning.scanned (h : Scanning rising ws zeros s) : Scanned rising ws s :=
  ⟨h.nursed, fun _ => h.writes⟩

/-- A scan that has read what is harmless does not end the tracer. -/
def Ended (e : Halt) (s : Tracer World) : Prop := ScansHarmless s.trace → e = .outOfFuel

namespace Scanning

/-- A word is read, or the process is gone. -/
theorem triple_peek (place : Peek) :
    Triple (Scanning rising ws zeros) (peekReturn (kernel env) pid place)
      (fun read s => read.elim (Scanned rising ws s) fun word =>
        Scanning rising ws (countZero place word zeros) s ∧
          (ScansHarmless s.trace → Harmless zeros (.ok word))) Ended := by
  refine Triple.bind (Q := fun answer s => Nursed rising s ∧ s.os.writes = ws ∧
    ∃ older, s.trace = .ptrace (.peek pid place) answer :: older ∧ scanning older = some zeros)
    (fun s hs => ?_) fun answer => ?_
  · exact ⟨hs.nursed.looked env fun t => perform_peek_snd _ t pid place,
      (writes_ptrace env (r := .peek pid place) trivial).trans hs.writes, s.trace, rfl, hs.zeros⟩
  have hharmless : ∀ {s : Tracer World} {older},
      s.trace = .ptrace (.peek pid place) answer :: older → scanning older = some zeros →
        ScansHarmless s.trace → Harmless zeros answer :=
    fun htrace hzeros h => (htrace ▸ h).1 zeros hzeros
  cases answer with
  | error e =>
    refine Triple.ite (fun _ => Triple.pure fun s hs => ⟨hs.1, fun _ => hs.2.1⟩) (fun he => ?_)
    exact Triple.throw fun s ⟨_, _, _, htrace, hzeros⟩ h => absurd (hharmless htrace hzeros h) he
  | ok word =>
    refine Triple.ite (fun hword => ?_) (fun _ => ?_)
    · exact Triple.throw fun s ⟨_, _, _, htrace, hzeros⟩ h =>
        absurd hword (hharmless htrace hzeros h).1
    · refine Triple.pure fun s ⟨hnursed, hwrites, older, htrace, hzeros⟩ =>
        ⟨⟨hnursed, hwrites, ?_⟩, hharmless htrace hzeros⟩
      rw [htrace, scanning, hzeros]
      rfl

theorem triple_skipWord (st : Word × Nat) :
    Triple (Scanning rising ws st.2) (skipWord (kernel env) pid st)
      (fun r s => r.elim (fun st => Scanning rising ws st.2 s) fun pos =>
        pos.elim (Scanned rising ws s) fun _ => ∃ zeros, 2 ≤ zeros ∧ Scanning rising ws zeros s)
      Ended := by
  obtain ⟨pos, zeroCount⟩ := st
  refine Triple.ite (fun _ => ?_) (fun hcount => Triple.pure fun s hs =>
    ⟨zeroCount, Nat.le_of_not_lt hcount, hs⟩)
  refine Triple.bind (triple_peek env _) fun read => ?_
  cases read with
  | none => exact Triple.pure fun _ hs => hs
  | some word => exact Triple.pure fun _ hs => hs.1

/-- The word that is compared was read behind two zero words. -/
theorem triple_searchWord (st : Word × Word) :
    Triple (fun s => (∃ zeros, 2 ≤ zeros ∧ Scanning rising ws zeros s) ∧
        (ScansHarmless s.trace → st.2 ≠ AT_SYSINFO_EHDR)) (searchWord (kernel env) pid st)
      (fun r s => r.elim (fun st => (∃ zeros, 2 ≤ zeros ∧ Scanning rising ws zeros s) ∧
        (ScansHarmless s.trace → st.2 ≠ AT_SYSINFO_EHDR)) fun _ => Scanned rising ws s)
      Ended := by
  obtain ⟨pos, val⟩ := st
  refine Triple.ite (fun _ => Triple.pure fun _ ⟨⟨_, _, hs⟩, _⟩ => hs.scanned) (fun _ => ?_)
  refine Triple.ite (fun hval => ?_) (fun _ => ?_)
  · -- the word is overwritten, but it was not harmless
    have hpoke : Within (Preserves fun s => Nursed rising s ∧ ¬ScansHarmless s.trace)
        (ptraceReturn (kernel env) (.pokedata pid pos AT_IGNORE)) :=
      within_ptraceReturn fun s hs => ⟨hs.1.requested env
        (fun _ _ _ hsafe _ => absurd hsafe.scans hs.2) fun _ => id, hs.2⟩
    refine Triple.bind (Q := fun _ s => Scanned rising ws s) ?_ fun _ => Triple.pure fun _ hs => hs
    exact (hpoke.triple fun _ _ hs h => absurd h hs.2).conseq
      (fun s ⟨⟨_, _, hs⟩, hsearched⟩ => ⟨hs.nursed, fun h => hsearched h hval⟩)
      (fun _ _ hs => ⟨hs.1, fun h => absurd h hs.2⟩) fun _ _ he => he
  · rintro s ⟨⟨zeros, hzeros, hs⟩, -⟩
    refine Triple.bind (P := Scanning rising ws zeros) (triple_peek env (.data (pos + 16)))
      (fun read => ?_) s hs
    cases read with
    | none => exact Triple.pure fun _ hs => hs
    | some word =>
      refine Triple.pure fun s hs => ⟨⟨_, ?_, hs.1⟩, fun h => (hs.2 h).2 hzeros⟩
      unfold countZero
      dsimp only
      split <;> omega

/-- A scan that reads nothing but what is harmless changes nothing. -/
theorem triple_removeVdso (scan : Nat) :
    Triple (fun s => Scanning rising ws 0 (s.noted (.removeVdso pid)))
      (removeVdso (kernel env) scan pid) (fun _ s => Scanned rising ws s) Ended := by
  refine Triple.bind (Q := fun _ => Scanning rising ws 0) (fun s hs => hs) fun _ => ?_
  refine Triple.bind (triple_peek env _) fun read => ?_
  cases read with
  | none => exact Triple.pure fun _ hs => hs
  | some rsp =>
    refine Triple.bind (Q := fun pos s => pos.elim (Scanned rising ws s) fun _ =>
      ∃ zeros, 2 ≤ zeros ∧ Scanning rising ws zeros s) ?_ fun pos => ?_
    · refine Triple.conseq (Triple.loop (I := fun st => Scanning rising ws st.2)
        (triple_skipWord env) ?_ scan (rsp, 0)) (fun s hs => hs.1) (fun _ _ hs => hs)
        fun _ _ he => he
      exact fun _ _ _ _ => rfl
    cases pos with
    | none => exact Triple.pure fun _ hs => hs
    | some pos =>
      rintro s ⟨zeros, hzeros, hs⟩
      refine Triple.bind (P := Scanning rising ws zeros) (triple_peek env _) (fun read => ?_) s hs
      cases read with
      | none => exact Triple.pure fun _ hs => hs
      | some word =>
        refine Triple.conseq (Triple.loop (triple_searchWord env) ?_ scan (pos + 8, word))
          (fun s hs => ⟨⟨_, ?_, hs.1⟩, fun h => (hs.2 h).2 hzeros⟩) (fun _ _ hs => hs)
          fun _ _ he => he
        · exact fun _ _ _ _ => rfl
        · unfold countZero
          dsimp only
          split <;> omega

end Scanning

end scan

/-! ### Turns -/

variable {b : Boot} {env : Env} {scan : Nat} {ws : List (PidT × Nat)} {s s' : Tracer World}
  {pid p q : PidT} {t : Task} {status : Status}

/-- The request to go on is carried out, or the process was not stopped. -/
theorem resume_returns (env : Env) (s : Tracer World) (pid : PidT) :
    ∃ more, ptraceReturn (kernel env) (.syscall pid 0) s =
      .ok more (s.asked (kernel env) (.syscall pid 0)) := by
  have hanswer : (∃ reply, (World.ptrace env (.syscall pid 0) s.os).1 = .ok reply) ∨
      (World.ptrace env (.syscall pid 0) s.os).1 = .error .ESRCH := by
    rcases ptrace_performed env s.os (.syscall pid 0) with ⟨t, ht, hstop, hrun⟩ | ⟨-, hrun⟩
    · obtain ⟨stop, hstop⟩ := stop?_of_isStopped hstop
      rw [hrun]
      exact .inl (perform_syscall_ok hstop pid 0)
    · rw [hrun]
      exact .inr rfl
  rw [ptraceReturn, bind_apply_ok (ptrace_apply (kernel env) _ s)]
  have hkernel : ((kernel env).ptrace (.syscall pid 0) s.os).1 =
      (World.ptrace env (.syscall pid 0) s.os).1 := rfl
  rw [hkernel]
  rcases hanswer with ⟨reply, hok⟩ | hgone
  · rw [hok]
    exact ⟨true, rfl⟩
  · rw [hgone]
    exact ⟨false, rfl⟩

/-- A new process is scanned and resumed. -/
theorem triple_procInit (env : Env) (scan : Nat) (pid : PidT) :
    Triple (fun s => Scanning (fun _ => False) ws 0 (s.noted (.removeVdso pid)))
      (procInit (kernel env) scan pid)
      (fun _ s => Scanned (fun _ => False) ws s ∧ Only pid (fun t => t.stop? ≠ some .initial) s.os)
      Ended := by
  refine Triple.bind (Scanning.triple_removeVdso env scan) fun _ s hs => ?_
  obtain ⟨more, hrun⟩ := resume_returns env s pid
  rw [bind_apply_ok hrun]
  refine ⟨⟨hs.nursed.resumed env, fun h => ?_⟩, only_resumed env s pid⟩
  exact (writes_ptrace env (r := .syscall pid 0) trivial).trans (hs.writes h)

theorem Nursed.scanning (h : Nursed (fun _ => False) s) (ht : s.os.task pid = some t)
    (hinitial : t.stop? = some .initial) :
    Scanning (fun _ => False) s.os.writes 0 (s.noted (.removeVdso pid)) where
  nursed := h.own rfl (List.suffix_cons _ _) rfl rfl fun _ => id
  writes := rfl
  zeros := by
    show (if (s.os.task pid).any (fun t => t.stop? = some .initial) then some 0 else none) = some 0
    rw [ht]
    simp [hinitial]

theorem hasEntry_registered (hregister : registerForkEvent (kernel env) pid status s = .ok () s')
    (hq : HasEntry s.processTable q) : HasEntry s'.processTable q := by
  unfold registerForkEvent at hregister
  split at hregister
  · cases register_cases hregister with
    | vanished | known => exact hq
    | inserted =>
      obtain ⟨c, hc, hpid⟩ := hq
      exact ⟨c, .tail _ hc, hpid⟩
  · cases hregister
    exact hq

theorem tableOk_registered (h : TableOk s)
    (hregister : registerForkEvent (kernel env) pid status s = .ok () s') : TableOk s' := by
  have hasked : TableOk (s.asked (kernel env) (.geteventmsg pid)) := h.tableKept ⟨rfl, rfl, rfl⟩
  unfold registerForkEvent at hregister
  split at hregister
  · cases register_cases hregister with
    | vanished | known => exact hasked
    | @inserted message q status hmessage hfind hwait hresume =>
      have hallocated : TableOk ((s.asked (kernel env) (.geteventmsg pid)).allocated (kernel env)
          (childOf message)) := hasked.tableKept ⟨rfl, rfl, rfl⟩
      exact (hallocated.inserted hfind).tableKept ⟨rfl, rfl, rfl⟩
  · cases hregister
    exact h

/-- The first stop of a process is no fork event. -/
theorem registerForkEvent_initial (env : Env) (s : Tracer World) (pid : PidT) :
    registerForkEvent (kernel env) pid Stop.initial.status s = .ok () s := by
  rw [registerForkEvent, if_neg (by decide)]
  rfl

namespace Covered

/-- A process without an entry is in its first stop when the loop is told of it. -/
theorem initial (h : Covered (fun _ => False) s)
    (hwait : ((kernel env).waitpid none s.os).1 = some (.ok (pid, status)))
    (hlive : terminated status = false) (hsafe : Unusurped (s.waited (kernel env) none))
    (hentry : ¬HasEntry s.processTable pid) : status = Stop.initial.status ∧
      ∃ t, (s.waited (kernel env) none).os.task pid = some t ∧ t.stop? = some .initial := by
  have hbefore :
      Watched (Expected (fun _ => False) s.processTable) (s.os.asked env (.wait none)) := by
    refine (h.tallied.tally.asked env h.tallied.numbered (.wait none)).watched ?_
    rw [← history_waitpid env s.os none]
    exact hsafe
  have hreported := (waitpid_reported env hwait).1
  have hos : (s.waited (kernel env) none).os = (World.waitpid env none s.os).2 := rfl
  rw [hos]
  generalize (World.waitpid env none s.os).2 = w' at hreported
  cases hreported with
  | @stopped t stop ht hstate =>
    have hfit := (hbefore pid _ ht).1
    have hnew := hfit.unseen (by simp [Task.isDead, hstate]) fun hq => hq.elim hentry id
    cases hstate.symm.trans hnew
    exact ⟨rfl, _, World.task_setTask_self .., rfl⟩
  | reaped ht hstate hlast =>
    rw [(hbefore pid _ ht).1.died _ hstate] at hlive
    cases hlive

end Covered

namespace Nursed

theorem inserts (h : Nursed (fun _ => False) s)
    (hpid : Only pid (fun t => t.stop? ≠ some .initial) s.os) {added : Bool}
    (hinsert : insertProcess (kernel env) pid s = .ok added s') : Nursed (fun _ => False) s' := by
  rw [insertProcess_eq] at hinsert
  split at hinsert
  · cases hinsert
    exact h
  · split at hinsert
    · cases hinsert
      exact h.inserted env (fun _ => id) (.inr hpid)
    · cases hinsert

/-- A turn keeps what is known of the new processes. -/
theorem turned (h : Nursed (fun _ => False) s) (hcovered : Covered (fun _ => False) s)
    (hturned : Turned (kernel env) scan s s') (hsafe : Untroubled s') :
    Nursed (fun _ => False) s' := by
  have hwaited := h.waited env none
  have hregister : ∀ {s₁ : Tracer World} {pid : PidT} {status : Status},
      registerForkEvent (kernel env) pid status (s.waited (kernel env) none) = .ok () s₁ →
      Nursed (fun _ => False) s₁ := by
    intro s₁ pid status hregister
    unfold registerForkEvent at hregister
    split at hregister
    · exact hwaited.registered env (register_cases hregister)
    · cases hregister
      exact hwaited
  cases hturned with
  | died hwait hdead =>
    have hok : TableOk (s.waited (kernel env) none) := hcovered.ok.tableKept ⟨rfl, rfl, rfl⟩
    exact hwaited.deleted hok
  | @execd pid status _ hwait hlive hexec hinit =>
    have honward := ((onward_steps env).within_procInit scan pid).ok hinit
    obtain ⟨-, hentry, -⟩ := hcovered.stopped hwait hlive
      (hsafe.usurped.earlier honward hwaited.numbered)
    exact hwaited.initialised env (h.entered pid (hentry hexec)) hinit
  | @unexpected pid status added s₁ s₂ _ hwait hlive hexec hregistered hfind hinit hinsert =>
    have honward := (((onward_steps env).within_registerForkEvent pid status).ok hregistered).trans
      ((((onward_steps env).within_procInit scan pid).ok hinit).trans
        (((onward_steps env).within_insertProcess pid).ok hinsert))
    -- it was new, so its stop is no fork event
    obtain ⟨rfl, t, ht, hinitial⟩ := hcovered.initial hwait hlive
      (hsafe.usurped.earlier honward hwaited.numbered)
      fun hentry => not_hasEntry hfind (hasEntry_registered hregistered hentry)
    rw [registerForkEvent_initial env] at hregistered
    cases hregistered
    obtain ⟨hscanned, hresumed⟩ :=
      (triple_procInit env scan pid).ok (hwaited.scanning ht hinitial) hinit
    exact hscanned.nursed.inserts hresumed hinsert
  | @handled pid status c regs s₁ s₂ _ hwait hlive hexec hregistered hfind hregs hhandle hresume =>
    obtain ⟨hc, rfl⟩ := hashFind_eq_some hfind
    have hok₀ : TableOk (s.waited (kernel env) none) := hcovered.ok.tableKept ⟨rfl, rfl, rfl⟩
    have hok := tableOk_registered hok₀ hregistered
    have hread : Nursed (fun _ => False) (s₁.asked (kernel env) (.getregs c.pid)) :=
      (hregister hregistered).looked env fun _ => rfl
    have hhandled := hread.handled env (hok.blockAt_of_mem hc) hhandle
    rcases hresume with ⟨-, rfl⟩ | ⟨-, rfl⟩
    · exact hhandled.resumed env
    · have hok' : TableOk (s₁.asked (kernel env) (.getregs c.pid)) :=
        hok.tableKept ⟨rfl, rfl, rfl⟩
      have hok₂ : TableOk s₂ := (tableOk_parts.handle c.addr regs).ok hok' hhandle
      exact (hhandled.resumed env).deleted (hok₂.tableKept ⟨rfl, rfl, rfl⟩)

end Nursed

/-! ### Heads -/

theorem nursed_start (b : Boot) : Nursed (fun _ => False) (Tracer.start b.world) where
  numbered := ⟨rfl, List.forall_mem_nil _⟩
  entered := by
    rintro q ⟨c, hc, -⟩
    cases hc
  clean _ := by
    refine ⟨List.forall_mem_nil _, fun q t ht => ?_⟩
    rw [(boot_cases b ht).2]
    rfl

theorem nursed_first {added : Bool} {s₀ : Tracer World}
    (hinsert : insertProcess (kernel env) b.childPid (Tracer.start b.world) = .ok added s₀) :
    Nursed (fun _ => False) (s₀.asked (kernel env) (.syscall b.childPid 0)) := by
  refine ((nursed_start b).inserts (fun t ht hinitial => ?_) hinsert).resumed env
  rw [(boot_cases b ht).2] at hinitial
  cases hinitial

theorem nursed_head (h : b.Head env scan (fun _ _ => True) s) (hsafe : Untroubled s) :
    Nursed (fun _ => False) s := by
  induction h with
  | first hinsert hresume =>
    injection hresume with _ hs
    exact hs ▸ nursed_first hinsert
  | @turn s s' h hturn _ ih =>
    have honward := onward_turn env hturn
    have hsafe' := hsafe.earlier honward (numbered_head h)
    exact (ih hsafe').turned (covered_head h hsafe'.usurped) (turn_cases hturn)
      hsafe

end Reproduce.Linux
