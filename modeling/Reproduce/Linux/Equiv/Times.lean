import Reproduce.Linux.Equiv.Delivered
import Reproduce.Linux.Equiv.Runs
import Reproduce.Tracer.Equiv.Clock

/-!
# Virtual time

One clock under three calls.  `gettimeofday` and `clock_gettime` deliver it and then advance it,
`time` advances it and then delivers it, so the seconds never decrease, whatever the order of the
calls (`run_times`).

The nanoseconds are advanced by one in each call and carry into the seconds never; after 483546075
calls they are out of range (`normalised_iff`).  As microseconds they are wrong from the start
(`gettimeofday_agrees_iff`).
-/

namespace Reproduce

open Bytes Keyed

/-! ### The clock of `service` -/

namespace EmulatedCall

/-- The call advances the clock. -/
def readsClock : EmulatedCall → Bool
  | getrandom _ => false
  | _ => true

/-- The seconds that a call gets when `n` calls have advanced the clock before. -/
def secondsAfter (n : Nat) : EmulatedCall → Word
  | time _ => 1718099106 + BitVec.ofNat 64 (n + 1)
  | _ => 1718099106 + BitVec.ofNat 64 n

/-- What the caller finds has `sec` for the seconds: in its buffer, and for `time` in its return
value and, behind a pointer that is not null, in its buffer. -/
def Delivers (output : List Byte × Word) (sec : Word) : EmulatedCall → Prop
  | getrandom _ => False
  | time null => output.2 = sec ∧ (null = false → Memory.sourceWord output.1 0 = sec)
  | _ => Memory.sourceWord output.1 0 = sec

end EmulatedCall

/-- The calls that advanced the clock, oldest first, out of a list with the newest first. -/
def clockCallsOf (l : List (EmulatedCall × (List Byte × Word))) :
    List (EmulatedCall × (List Byte × Word)) :=
  (l.filter fun x => x.1.readsClock).reverse

theorem clockCallsOf_cons (x : EmulatedCall × (List Byte × Word))
    (l : List (EmulatedCall × (List Byte × Word))) :
    clockCallsOf (x :: l) = clockCallsOf l ++ if x.1.readsClock then [x] else [] := by
  unfold clockCallsOf
  rw [List.filter_cons]
  split <;> simp

theorem sourceWord_bytes (t : Timespec) : Memory.sourceWord t.bytes 0 = t.tvSec :=
  Memory.sourceWord_append [] (wordBytes t.tvNsec) t.tvSec

/-- The clock has been advanced once for every call that advances it. -/
theorem state_service (l : List (EmulatedCall × (List Byte × Word))) :
    service.state (l.map Prod.fst) = initialClock.after (clockCallsOf l).length := by
  induction l with
  | nil => simp [clockCallsOf, Transducer.state, service]
  | cons x l ih =>
    have hnext : service.state ((x :: l).map Prod.fst) =
        x.1.clock (service.state (l.map Prod.fst)) := rfl
    rw [hnext, ih, clockCallsOf_cons, List.length_append]
    obtain ⟨call, output⟩ := x
    cases call with
    | getrandom len => simp [EmulatedCall.readsClock, EmulatedCall.clock]
    | _ => simp [EmulatedCall.readsClock, EmulatedCall.clock, after_succ]

/-- A call on the clock of `n` calls gets its seconds. -/
theorem delivers_out {call : EmulatedCall} (hreads : call.readsClock = true) (n : Nat) :
    call.Delivers (service.out (initialClock.after n) call) (call.secondsAfter n) := by
  cases call with
  | getrandom len => cases hreads
  | gettimeofday => exact sourceWord_bytes _
  | clockGettime => exact sourceWord_bytes _
  | time null =>
    have hsec : ((initialClock.after n).advance).tvSec =
        EmulatedCall.secondsAfter n (.time null) := by
      rw [← after_succ]
      rfl
    refine ⟨hsec, fun hnull => ?_⟩
    subst hnull
    exact (sourceWord_bytes _).trans hsec

/-- In a list that `service` explains, the call at index `n` gets the seconds after `n` calls. -/
theorem delivers_of_explained {l : List (EmulatedCall × (List Byte × Word))}
    (h : l.map Prod.snd = service.outputs (l.map Prod.fst)) {n : Nat}
    {x : EmulatedCall × (List Byte × Word)} (hx : (clockCallsOf l)[n]? = some x) :
    x.1.Delivers x.2 (x.1.secondsAfter n) := by
  induction l with
  | nil => simp [clockCallsOf] at hx
  | cons y l ih =>
    obtain ⟨hy, hl⟩ : y.2 = service.out (service.state (l.map Prod.fst)) y.1 ∧
        l.map Prod.snd = service.outputs (l.map Prod.fst) := List.cons.inj h
    rw [clockCallsOf_cons] at hx
    by_cases hn : n < (clockCallsOf l).length
    · rw [List.getElem?_append_left hn] at hx
      exact ih hl hx
    · -- the newest call
      rw [List.getElem?_append_right (Nat.not_lt.mp hn)] at hx
      by_cases hreads : y.1.readsClock = true
      · rw [if_pos hreads] at hx
        have hindex : n = (clockCallsOf l).length := by
          have hlt : n - (clockCallsOf l).length < 1 := by
            have hsome := List.getElem?_eq_some_iff.mp hx
            exact hsome.1
          omega
        rw [hindex, Nat.sub_self] at hx
        obtain rfl : y = x := Option.some.inj hx
        rw [hy, state_service, hindex]
        exact delivers_out hreads _
      · rw [if_neg hreads] at hx
        cases hx

/-- A call gets one value for its seconds. -/
theorem delivers_unique {call : EmulatedCall} {output : List Byte × Word} {a b : Word}
    (ha : call.Delivers output a) (hb : call.Delivers output b) : a = b := by
  cases call with
  | getrandom len => exact ha.elim
  | time null => exact ha.1.symm.trans hb.1
  | gettimeofday => exact ha.symm.trans hb
  | clockGettime => exact ha.symm.trans hb

/-- Seconds without wrap-around. -/
theorem toInt_seconds {n : Nat} (hn : n ≤ 2 ^ 62) :
    ((1718099106 : Word) + BitVec.ofNat 64 n).toInt = 1718099106 + n := by
  have hbase : (1718099106 : Word).toNat = 1718099106 := rfl
  have hnat : ((1718099106 : Word) + BitVec.ofNat 64 n).toNat = 1718099106 + n := by
    rw [BitVec.toNat_add, BitVec.toNat_ofNat, hbase]
    omega
  rw [BitVec.toInt_eq_toNat_of_lt (by omega), hnat]
  omega

/-- The clock before the call, or after it. -/
theorem secondsAfter_eq (call : EmulatedCall) (n : Nat) :
    ∃ k, n ≤ k ∧ k ≤ n + 1 ∧ call.secondsAfter n = 1718099106 + BitVec.ofNat 64 k := by
  cases call with
  | time null => exact ⟨n + 1, by omega, by omega, rfl⟩
  | _ => exact ⟨n, by omega, by omega, rfl⟩

/-- A later call gets no earlier seconds. -/
theorem secondsAfter_le {call call' : EmulatedCall} {n n' : Nat} (h : n < n') (hn : n' < 2 ^ 62) :
    (call.secondsAfter n).toInt ≤ (call'.secondsAfter n').toInt := by
  obtain ⟨k, -, hk, hsec⟩ := secondsAfter_eq call n
  obtain ⟨k', hk', hbound, hsec'⟩ := secondsAfter_eq call' n'
  rw [hsec, hsec', toInt_seconds (by omega), toInt_seconds (by omega)]
  omega

/-- The tracer's clock is a valid `struct timespec`. -/
def Timespec.Normalised (t : Timespec) : Prop :=
  0 ≤ t.tvNsec.toInt ∧ t.tvNsec.toInt < 1000000000

theorem normalised_iff_toNat (t : Timespec) : t.Normalised ↔ t.tvNsec.toNat < 1000000000 := by
  have hlt := t.tvNsec.isLt
  unfold Timespec.Normalised
  rw [BitVec.toInt_eq_toNat_cond]
  split <;> omega

/-- The nanoseconds of the initial clock after `n` calls. -/
theorem toNat_nsec (n : Nat) : (initialClock.after n).tvNsec.toNat = (516453925 + n) % 2 ^ 64 := by
  have hbase : (516453925 : Word).toNat = 516453925 := rfl
  show ((516453925 : Word) + BitVec.ofNat 64 n).toNat = _
  rw [BitVec.toNat_add, BitVec.toNat_ofNat, hbase]
  omega

end Reproduce

namespace Reproduce.Linux

open Bytes Effect Keyed

/-! ### One clock for all entry points -/

variable {log : List (Entry PidT EmulatedCall (List Byte × Word))} {s : Tracer World}

/-- The calls of a process since its insertion that advanced its clock, oldest first, with what they
delivered. -/
def timeCalls (pid : PidT) (log : List (Entry PidT EmulatedCall (List Byte × Word))) :
    List (EmulatedCall × (List Byte × Word)) :=
  clockCallsOf (session pid log)

/-- In every run, the call at index `n` delivers the seconds after `n` calls, the clock has been
advanced once for every call, and the seconds delivered never decrease. -/
theorem run_times (h : Run log s) (pid : PidT) :
    (∀ n (x : EmulatedCall × (List Byte × Word)), (timeCalls pid log)[n]? = some x →
      x.1.Delivers x.2 (x.1.secondsAfter n)) ∧
    (∀ c ∈ s.processTable, c.pid = pid → c.gettimeData =
      ⟨1718099106 + BitVec.ofNat 64 (timeCalls pid log).length,
        516453925 + BitVec.ofNat 64 (timeCalls pid log).length⟩) ∧
    ((timeCalls pid log).length < 2 ^ 62 → (timeCalls pid log).Pairwise fun x y =>
      ∀ a b : Word, x.1.Delivers x.2 a → y.1.Delivers y.2 b → a.toInt ≤ b.toInt) := by
  have hexplained := run_explained h
  have hdelivers : ∀ n (x : EmulatedCall × (List Byte × Word)), (timeCalls pid log)[n]? = some x →
      x.1.Delivers x.2 (x.1.secondsAfter n) :=
    fun n x hx => delivers_of_explained (hexplained.explains pid) hx
  refine ⟨hdelivers, fun c hc hpid => ?_, fun hbound => ?_⟩
  · -- the clock is the state that `service` has reached for the process
    rw [hexplained.clocks c hc, hpid, Transducer.stateAt, state_service]
    rfl
  · rw [List.pairwise_iff_getElem]
    intro i j hi hj hij a b ha hb
    -- what the call at an index delivers is a function of the index
    have hfirst := hdelivers i _ (List.getElem?_eq_getElem hi)
    have hsecond := hdelivers j _ (List.getElem?_eq_getElem hj)
    rw [delivers_unique ha hfirst, delivers_unique hb hsecond]
    exact secondsAfter_le hij (by omega)

/-- A process makes three calls on its clock, between calls that do not advance it. -/
theorem mixedCalls_times :
    ∃ log s, Run log s ∧
      (timeCalls 100 log).map Prod.fst = [.time false, .clockGettime, .gettimeofday] ∧
      (∀ n (x : EmulatedCall × (List Byte × Word)), (timeCalls 100 log)[n]? = some x →
        x.1.Delivers x.2 (x.1.secondsAfter n)) ∧
      (∃ c ∈ s.processTable, c.pid = 100 ∧ c.gettimeData = ⟨1718099109, 516453928⟩) ∧
      (timeCalls 100 log).Pairwise fun x y =>
        ∀ a b : Word, x.1.Delivers x.2 a → y.1.Delivers y.2 b → a.toInt ≤ b.toInt := by
  obtain ⟨_, _, _, _, _, _, s, h, hpids⟩ := exists_run_mixed
  have hmem : (100 : PidT) ∈ s.processTable.map ChildProcess.pid := by simp [hpids]
  obtain ⟨c, hc, hpid⟩ := List.mem_map.mp hmem
  obtain ⟨hdelivers, hclock, hordered⟩ := run_times h 100
  exact ⟨_, s, h, rfl, hdelivers, ⟨c, hc, hpid, hclock c hc hpid⟩,
    hordered (show 3 < 2 ^ 62 by decide)⟩

/-! ### The clock at the heads of the loop -/

variable {b : Boot} {env : Env} {scan : Nat} {C : Tracer World → Tracer World → Prop}
  {c : ChildProcess}

theorem timed_head (h : b.Head env scan C s) : Timed s := by
  induction h with
  | first hinsert hresume =>
    have hinserted := (Timed.start b.world).insertProcess (kernel env) hinsert
    rw [ptrace_apply] at hresume
    injection hresume with hanswer hstate
    rw [← hstate]
    exact hinserted.asked (kernel env) _
  | turn h hturn _ ih => exact ih.turned (kernel env) (turn_cases hturn)

/-- At every head of the loop, the nanoseconds of a tracked process are in range as long as the
calls counted from 516453925 on are. -/
theorem normalised_iff (h : b.Head env scan C s) (hc : c ∈ s.processTable) :
    c.gettimeData.Normalised ↔ (516453925 + clockCalls c.addr s.trace) % 2 ^ 64 < 1000000000 := by
  rw [(timed_head h).clocks c hc, normalised_iff_toNat, toNat_nsec]

/-! ### Seconds and fractions of a second -/

/-- `struct timeval` -/
structure Timeval where
  tvSec : Word
  tvUsec : Word

/-- The `struct timeval` at an address. -/
def timevalAt (m : Memory) (a : Word) : Timeval := ⟨m.wordAt a, m.wordAt (a + 8)⟩

/-- The `struct timespec` at an address. -/
def timespecAt (m : Memory) (a : Word) : Timespec := ⟨m.wordAt a, m.wordAt (a + 8)⟩

/-- A valid `struct timeval` for the instant of a `struct timespec`. -/
def Timeval.Agrees (tv : Timeval) (ts : Timespec) : Prop :=
  tv.tvSec = ts.tvSec ∧ 0 ≤ tv.tvUsec.toInt ∧ tv.tvUsec.toInt < 1000000 ∧
    tv.tvUsec.toInt = ts.tvNsec.toInt.tdiv 1000

/-- Two equal words agree as microseconds and nanoseconds at zero only. -/
theorem agrees_same_iff (t : Timespec) :
    Timeval.Agrees ⟨t.tvSec, t.tvNsec⟩ t ↔ t.tvNsec.toNat = 0 := by
  have hlt := t.tvNsec.isLt
  unfold Timeval.Agrees
  dsimp only
  rw [BitVec.toInt_eq_toNat_cond]
  -- as microseconds a number is a thousandth of what it is as nanoseconds
  constructor
  · rintro ⟨-, hnonneg, -, hdiv⟩
    rw [Int.tdiv_eq_ediv_of_nonneg hnonneg] at hdiv
    split at hnonneg <;> omega
  · intro hzero
    simp [hzero]

section delivered

variable {env₁ env₂ : Env} {t₁ t₂ : Task} {m₁ m₂ : Memory} {s₁ s₂ s₁' s₂' : Tracer World}

/-- Both calls write the two words of the clock. -/
theorem AtCall.timeval_eq (h : AtCall env₁ c t₁ m₁ .gettimeofday s₁)
    (hrun : handleSyscall (kernel env₁) c.addr t₁.regs s₁ = .ok () s₁') :
    timevalAt (s₁'.os.mem t₁.mm) (rArg1 t₁.regs) = ⟨c.gettimeData.tvSec, c.gettimeData.tvNsec⟩ := by
  obtain ⟨-, hdone⟩ := h.delivered rfl hrun
  have hmem : s₁'.os.mem t₁.mm = m₁.overwrite (rArg1 t₁.regs) c.gettimeData.bytes := hdone.held.mem
  obtain ⟨hsec, hnsec⟩ :=
    Memory.wordAt_overwrite_pair m₁ (rArg1 t₁.regs) c.gettimeData.tvSec c.gettimeData.tvNsec
  rw [timevalAt, hmem, Timespec.bytes, hsec, hnsec]

theorem AtCall.timespec_eq (h : AtCall env₂ c t₂ m₂ .clockGettime s₂)
    (hrun : handleSyscall (kernel env₂) c.addr t₂.regs s₂ = .ok () s₂') :
    timespecAt (s₂'.os.mem t₂.mm) (rArg2 t₂.regs) = c.gettimeData := by
  obtain ⟨-, hdone⟩ := h.delivered rfl hrun
  have hmem : s₂'.os.mem t₂.mm = m₂.overwrite (rArg2 t₂.regs) c.gettimeData.bytes := hdone.held.mem
  obtain ⟨hsec, hnsec⟩ :=
    Memory.wordAt_overwrite_pair m₂ (rArg2 t₂.regs) c.gettimeData.tvSec c.gettimeData.tvNsec
  rw [timespecAt, hmem, Timespec.bytes, hsec, hnsec]

/-- In a reachable state of the clock, what `gettimeofday` would write agrees with what
`clock_gettime` would write only when the nanoseconds, counted from 516453925 on, are zero. -/
theorem gettimeofday_agrees_iff (hhead : b.Head env scan C s) (hc : c ∈ s.processTable)
    (h₁ : AtCall env₁ c t₁ m₁ .gettimeofday s₁) (h₂ : AtCall env₂ c t₂ m₂ .clockGettime s₂)
    (hrun₁ : handleSyscall (kernel env₁) c.addr t₁.regs s₁ = .ok () s₁')
    (hrun₂ : handleSyscall (kernel env₂) c.addr t₂.regs s₂ = .ok () s₂') :
    (timevalAt (s₁'.os.mem t₁.mm) (rArg1 t₁.regs)).Agrees
        (timespecAt (s₂'.os.mem t₂.mm) (rArg2 t₂.regs)) ↔
      (516453925 + clockCalls c.addr s.trace) % 2 ^ 64 = 0 := by
  rw [h₁.timeval_eq hrun₁, h₂.timespec_eq hrun₂, agrees_same_iff, (timed_head hhead).clocks c hc,
    toNat_nsec]

end delivered

/-! ### A program that reads the clock for ever -/

/-- The first task calls `clock_gettime` whenever it runs. -/
def readingClock : Env
  | _, .wait none => ⟨[.enter 100 clockGettimeCall], 100⟩
  | _, .wait (some _) => ⟨[.finish 100 default], 100⟩
  | _, .ptrace _ => ⟨[], 100⟩

theorem attends_readingClock (mm : Nat) : Attends readingClock 100 mm where
  spares n q move hmove := by
    match q with
    | .ptrace r => cases hmove
    | .wait none | .wait (some _) =>
      cases List.mem_singleton.mp hmove
      trivial
  finishes n := ⟨default, List.mem_singleton.mpr rfl⟩

/-- Pids stay listed. -/
def Listed (pid : PidT) (s s' : Tracer World) : Prop := pid ∈ s.os.pids → pid ∈ s'.os.pids

instance (pid : PidT) : IsPreorder (Tracer World) (Listed pid) where
  refl _ := id
  trans _ _ _ h h' := h' ∘ h

theorem pids_asked {pid : PidT} (env : Env) (w : World) (q : Query) (h : pid ∈ w.pids) :
    pid ∈ (w.asked env q).pids := by
  refine @runMoves_induction (fun w => pid ∈ w.pids) _ (fun w move w' _ hw hmoved => ?_) w h
  cases hmoved with
  | fork => exact List.mem_cons_of_mem _ hw
  | _ => exact hw

theorem listed_steps (env : Env) (pid : PidT) : Steps (kernel env) (Listed pid) where
  ptrace r _ s h := (record_ptrace env s.os r).pids ▸ pids_asked env s.os _ h
  wait p s h := by
    rw [waitpid_apply]
    split <;> exact (record_waitpid env s.os _).pids ▸ pids_asked env s.os _ h
  malloc size s h := by
    unfold malloc
    split <;> exact h
  note _ _ _ := id
  own _ _ _ _ _ := id

/-- The first task runs, and has read the clock `n` times. -/
structure Spinning (n : Nat) (t : Task) (m : Memory) (s : Tracer World) : Prop where
  held : Held 100 t m s.os
  state : t.state = .user
  writable : ∀ a, m.writable a = true
  listed : 100 ∈ s.os.pids
  timed : Timed s
  table : s.processTable = [⟨0, 100, initialClock.after n⟩]

variable {n : Nat} {t : Task} {m : Memory}

/-- The task at the entry of its next call. -/
def Task.reading (t : Task) : Task :=
  { t.enter clockGettimeCall with state := .stopped .syscallEntry true }

namespace Spinning

/-- The wait of the loop finds the task at the entry of its next call. -/
theorem waitpid_eq (h : Spinning n t m s) :
    (World.waitpid readingClock none s.os).1 = some (.ok (100, Stop.syscallEntry.status)) ∧
      Held 100 t.reading m (World.waitpid readingClock none s.os).2 := by
  -- the one move of the environment is the next call
  have hentered : Held 100 (t.enter clockGettimeCall) m (s.os.asked readingClock (.wait none)) := by
    have hmove : s.os.move (.enter 100 clockGettimeCall) =
        { s.os.setTask 100 (some (t.enter clockGettimeCall)) with
          history := (s.os.tick, .enter 100 clockGettimeCall) :: s.os.history } := by
      rw [World.move, apply_enter clockGettimeCall h.held.task h.state]
    have hasked : s.os.asked readingClock (.wait none) =
        { s.os.move (.enter 100 clockGettimeCall) with tick := s.os.tick + 1 } := rfl
    rw [hasked, hmove]
    exact ⟨Function.update_self 100 _ s.os.task, h.held.mem, h.held.fresh⟩
  have hlisted := pids_asked readingClock s.os (.wait none) h.listed
  -- there is a child to wait for
  have hsome : ¬((s.os.asked readingClock (.wait none)).pids.all fun q =>
      ((s.os.asked readingClock (.wait none)).task q).isNone) = true := by
    intro hall
    have hnone := List.all_eq_true.mp hall 100 hlisted
    rw [hentered.task] at hnone
    cases hnone
  have hreport : World.waitpid readingClock none s.os =
      (s.os.asked readingClock (.wait none)).report 100 := by
    unfold World.waitpid
    dsimp only
    rw [← World.asked, if_neg hsome]
    rfl
  rw [hreport, report_of_stopped hentered.task rfl]
  exact ⟨rfl, Function.update_self 100 _ (s.os.asked readingClock (.wait none)).task, hentered.mem,
    hentered.fresh⟩

/-- One turn of the loop reads the clock once. -/
theorem turn (h : Spinning n t m s) (scan : Nat) :
    ∃ t' m' s', handleEventTurn (kernel readingClock) scan () s = .ok (.inl ()) s' ∧
      Spinning (n + 1) t' m' s' := by
  obtain ⟨hwait, hheld⟩ := h.waitpid_eq
  have hstop : t.reading.isStopped = true := rfl
  have hcount : s.entryCount ≠ 0 := by
    rw [h.timed.ok.count, h.table]
    show BitVec.ofNat 32 1 ≠ 0
    decide
  have hregister : registerForkEvent (kernel readingClock) 100 Stop.syscallEntry.status
      (s.waited (kernel readingClock) none) = .ok () (s.waited (kernel readingClock) none) := rfl
  have hfind : hashFind (s.waited (kernel readingClock) none).processTable 100 =
      some ⟨0, 100, initialClock.after n⟩ := by
    show hashFind s.processTable 100 = _
    rw [h.table]
    rfl
  -- the registers are read
  have hheld' : Held 100 t.reading m
      ((s.waited (kernel readingClock) none).os.asked readingClock (.ptrace (.getregs 100))) :=
    held_asked (attends_readingClock _).spared hstop hheld _
  have hgetregs : World.ptrace readingClock (.getregs 100)
      (s.waited (kernel readingClock) none).os =
      (.ok t.reading.regs, _) := ptrace_of_stopped readingClock hheld'.task hstop
  have hread : Held 100 t.reading m
      ((s.waited (kernel readingClock) none).asked (kernel readingClock) (.getregs 100)).os := by
    show Held 100 t.reading m (World.ptrace readingClock (.getregs 100) _).2
    rw [hgetregs]
    exact hheld'
  -- the call is handled
  have hcall : AtCall readingClock ⟨0, 100, initialClock.after n⟩ t.reading m .clockGettime
      ((s.waited (kernel readingClock) none).asked (kernel readingClock) (.getregs 100)) :=
    { attends := attends_readingClock _
      ok := ((h.timed.waited _ none).asked _ _).ok
      tracked := by
        show _ ∈ s.processTable
        rw [h.table]
        exact List.mem_singleton.mpr rfl
      held := hread
      entry := rfl
      hook := rfl }
  have hargs : Hook.ArgsOk t.reading.regs m s.os.heap .clockGettime := by
    refine ⟨fun k _ => Memory.wordAll_eq_true.mpr fun j _ => h.writable _, fun hpartial => ?_⟩
    exact absurd rfl hpartial
  obtain ⟨s₂, hhandle⟩ := hcall.returns hargs
  obtain ⟨-, hdone⟩ := hcall.delivered rfl hhandle
  -- the task is resumed
  have hresumed :=
    held_asked (attends_readingClock _).spared rfl hdone.held (.ptrace (.syscall 100 0))
  have hresume : World.ptrace readingClock (.syscall 100 0) s₂.os = (.ok (), _) :=
    ptrace_of_stopped readingClock hresumed.task rfl
  have hturn : handleEventTurn (kernel readingClock) scan () s = _ :=
    turn_of_handled hcount hwait rfl rfl hregister hfind (congrArg Prod.fst hgetregs) hhandle
      (congrArg Prod.fst hresume)
  have hrunning : Held 100 ((t.reading.emulated t.reading.regs 0).resume .syscallExit 0)
      (m.overwrite 64 (initialClock.after n).bytes)
      (s₂.asked (kernel readingClock) (.syscall 100 0)).os := by
    show Held 100 _ _ (World.ptrace readingClock (.syscall 100 0) s₂.os).2
    rw [hresume]
    exact ⟨Function.update_self 100 _ (s₂.os.asked readingClock (.ptrace (.syscall 100 0))).task,
      hresumed.mem, hresumed.fresh⟩
  refine ⟨_, _, _, hturn, hrunning, rfl, h.writable, ?_, ?_, ?_⟩
  · have hlisted := (listed_steps readingClock 100).within_handleSyscall (fun _ _ _ => id) 0
      t.reading.regs
    refine (listed_steps readingClock 100).ptrace (.syscall 100 0) rfl _ (hlisted.ok hhandle ?_)
    refine (listed_steps readingClock 100).ptrace (.getregs 100) trivial _ ?_
    exact (record_waitpid readingClock s.os none).pids ▸ pids_asked readingClock s.os _ h.listed
  · have hhandled :=
      ((h.timed.waited (kernel readingClock) none).asked _ _).handleSyscall _ hcall.tracked
      hhandle
    exact hhandled.asked _ _
  · show s₂.processTable = _
    have htable : s₂.processTable = retime 0 Timespec.advance s.processTable := hdone.table
    rw [htable, h.table]
    simp [retime, after_succ]

end Spinning

/-- The first head of the run. -/
def readingFirst : Tracer World :=
  (((Tracer.start Boot.sample.world).allocated (kernel readingClock) 100).inserted 100).asked
    (kernel readingClock) (.syscall 100 0)

theorem head_readingFirst (scan : Nat) :
    Boot.sample.Head readingClock scan (fun _ _ => True) readingFirst :=
  .first rfl rfl

/-- The run reaches every number of calls. -/
theorem exists_spinning (scan n : Nat) : ∃ s t m,
    Boot.sample.Head readingClock scan (fun _ _ => True) s ∧ Spinning n t m s := by
  induction n with
  | zero =>
    have hhead := head_readingFirst scan
    refine ⟨readingFirst, { Boot.sample.task with state := .user }, Boot.sample.memory, hhead,
      ⟨⟨rfl, rfl, Nat.zero_lt_one⟩, rfl, fun _ => rfl, List.mem_singleton.mpr rfl,
        timed_head hhead, ?_⟩⟩
    rw [after_zero]
    rfl
  | succ n ih =>
    obtain ⟨s, t, m, hhead, hspinning⟩ := ih
    obtain ⟨t', m', s', hturn, hspinning'⟩ := hspinning.turn scan
    exact ⟨s', t', m', hhead.turn hturn trivial, hspinning'⟩

/-- A reachable clock that is out of range. -/
theorem not_normalised_readingClock :
    ∃ s, Boot.sample.Head readingClock 0 (fun _ _ => True) s ∧
      ∃ c ∈ s.processTable, c.pid = 100 ∧ ¬c.gettimeData.Normalised := by
  obtain ⟨s, t, m, hhead, hspinning⟩ := exists_spinning 0 483546075
  refine ⟨s, hhead, ⟨0, 100, initialClock.after 483546075⟩, ?_, rfl, ?_⟩
  · rw [hspinning.table]
    exact List.mem_singleton.mpr rfl
  · rw [normalised_iff_toNat, toNat_nsec]
    decide

/-- After 483546074 calls the clock is in range for the last time. -/
theorem normalised_lastReading :
    ∃ s, Boot.sample.Head readingClock 0 (fun _ _ => True) s ∧
      ∃ c ∈ s.processTable, c.pid = 100 ∧ c.gettimeData = initialClock.after 483546074 ∧
        c.gettimeData.Normalised := by
  obtain ⟨s, t, m, hhead, hspinning⟩ := exists_spinning 0 483546074
  have hc : ⟨0, 100, initialClock.after 483546074⟩ ∈ s.processTable := by
    rw [hspinning.table]
    exact List.mem_singleton.mpr rfl
  -- the calls are counted in the trace
  have hcount := congrArg (fun t : Timespec => t.tvNsec.toNat) (hspinning.timed.clocks _ hc)
  dsimp only at hcount
  rw [toNat_nsec, toNat_nsec] at hcount
  refine ⟨s, hhead, _, hc, rfl, rfl, (normalised_iff hhead hc).mpr ?_⟩
  rw [← hcount]
  decide

/-- In the first state of the clock, `gettimeofday` reports 516453925 microseconds. -/
theorem not_agrees_first :
    ⟨0, 100, initialClock⟩ ∈ readingFirst.processTable ∧
      ∃ s₁' s₂',
        handleSyscall (kernel (finishing 100)) 0 gettimeofdayCall
          (Boot.sample.atEntry gettimeofdayCall) = .ok () s₁' ∧
        handleSyscall (kernel (finishing 100)) 0 clockGettimeCall
          (Boot.sample.atEntry clockGettimeCall) = .ok () s₂' ∧
        ¬(timevalAt (s₁'.os.mem 0) 0).Agrees (timespecAt (s₂'.os.mem 0) 64) := by
  have h₁ := @atCall_atEntry Boot.sample gettimeofdayCall .gettimeofday rfl
  have h₂ := @atCall_atEntry Boot.sample clockGettimeCall .clockGettime rfl
  obtain ⟨s₁', hrun₁⟩ := h₁.returns (by decide)
  obtain ⟨s₂', hrun₂⟩ := h₂.returns (by decide)
  refine ⟨List.mem_singleton.mpr rfl, s₁', s₂', hrun₁, hrun₂, ?_⟩
  have htimeval : timevalAt (s₁'.os.mem 0) 0 = _ := h₁.timeval_eq hrun₁
  have htimespec : timespecAt (s₂'.os.mem 0) 64 = _ := h₂.timespec_eq hrun₂
  rw [htimeval, htimespec, agrees_same_iff]
  decide

/-- The condition at the first head. -/
theorem agrees_first_iff :
    ∃ s₁' s₂',
      handleSyscall (kernel (finishing 100)) 0 gettimeofdayCall
        (Boot.sample.atEntry gettimeofdayCall) = .ok () s₁' ∧
      handleSyscall (kernel (finishing 100)) 0 clockGettimeCall
        (Boot.sample.atEntry clockGettimeCall) = .ok () s₂' ∧
      ((timevalAt (s₁'.os.mem 0) 0).Agrees (timespecAt (s₂'.os.mem 0) 64) ↔
        (516453925 + clockCalls 0 readingFirst.trace) % 2 ^ 64 = 0) := by
  have h₁ := @atCall_atEntry Boot.sample gettimeofdayCall .gettimeofday rfl
  have h₂ := @atCall_atEntry Boot.sample clockGettimeCall .clockGettime rfl
  obtain ⟨s₁', hrun₁⟩ := h₁.returns (by decide)
  obtain ⟨s₂', hrun₂⟩ := h₂.returns (by decide)
  have hc : ⟨0, 100, initialClock⟩ ∈ readingFirst.processTable := List.mem_singleton.mpr rfl
  have hiff := gettimeofday_agrees_iff (head_readingFirst 0) hc h₁ h₂ hrun₁ hrun₂
  exact ⟨s₁', s₂', hrun₁, hrun₂, hiff⟩

end Reproduce.Linux
