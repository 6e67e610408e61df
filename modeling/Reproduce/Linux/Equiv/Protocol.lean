import Reproduce.Linux.Equiv.Emulation
import Reproduce.Linux.Equiv.Held

/-!
# When the protocol of the emulated calls is followed

Suppose that every request of an emulated call succeeds and that its wait reports the end of the
cancelled call.  Two things can still go wrong: once the tracee has reached its exit stop, another
thread of its group may execute a program, which is then poked and gets the registers; and `malloc`
may refuse the block for the bytes of `getrandom`, which `memset` then writes to all the same.
`handleSyscall_emulated_iff` says that the protocol is followed exactly when neither happens.

A program that replaced the tracee stays (`requestsKeep_renews`): it runs in an address space that
is newer than the one at the entry of the call.
-/

namespace Reproduce

/-- `getrandom` asks for no block, or for one that `malloc` grants; `heap` is the largest. -/
def Hook.BlockGranted (regs : UserRegsStruct) (heap : Nat) (hook : Hook) : Prop :=
  hook = .getrandom → rArg2 regs ≠ 0 →
    (rArg2 regs).toNat ≤ PTRDIFF_MAX ∧ (rArg2 regs).toNat ≤ heap

end Reproduce

namespace Reproduce.Linux

open Bytes Effect

variable {env : Env}

/-! ### The block of `getrandom` -/

section staging

variable {hook : Hook} {regs : UserRegsStruct} {pid : PidT} {child : Ptr}

/-- The heap stays as it is, and no block is refused but the one of `getrandom`. -/
structure Stages (hook : Hook) (regs : UserRegsStruct) (s s' : Tracer World) : Prop where
  heap : s'.os.heap = s.os.heap
  refused : Extends (fun e => ∀ size, e = .malloc size false →
    hook = .getrandom ∧ size = (rArg2 regs).toNat ∧ ¬(size ≤ PTRDIFF_MAX ∧ size ≤ s.os.heap)) s s'

instance : IsPreorder (Tracer World) (Stages hook regs) where
  refl s := ⟨rfl, Std.Refl.refl s⟩
  trans _ _ _ h h' := ⟨h'.heap.trans h.heap, IsTrans.trans _ _ _ h.refused (h.heap ▸ h'.refused)⟩

/-- A step that allocates nothing. -/
theorem stages_of_event {s s' : Tracer World} {e : Event World} (hheap : s'.os.heap = s.os.heap)
    (htrace : s'.trace = e :: s.trace) (he : ∀ size, e ≠ .malloc size false) :
    Stages hook regs s s' := by
  refine ⟨hheap, [e], htrace, fun e' he' size hsize => ?_⟩
  rw [List.mem_singleton.mp he'] at hsize
  exact absurd hsize (he size)

theorem stages_ptrace (r : Request) : Within (Stages hook regs) (ptrace (kernel env) r) := by
  intro s
  refine stages_of_event ?_ rfl nofun
  exact (record_ptrace env s.os r).heap.trans (heap_asked env s.os _)

theorem stages_drives (pid : PidT) : Drives (kernel env) (Stages hook regs) pid where
  peek _ := stages_ptrace _
  poke _ _ := stages_ptrace _
  setregs _ := stages_ptrace _
  resume := stages_ptrace _
  wait := by
    intro s
    have hwaited : Stages hook regs s (s.waited (kernel env) (some pid)) := by
      refine stages_of_event ?_ rfl nofun
      exact (record_waitpid env s.os (some pid)).heap.trans (heap_asked env s.os _)
    rw [waitpid_apply]
    split <;> exact hwaited

theorem stages_malloc :
    Within (Stages .getrandom regs) (malloc (kernel env) (rArg2 regs).toNat) := by
  intro s
  by_cases hlarge : PTRDIFF_MAX < (rArg2 regs).toNat
  · rw [malloc_large _ s hlarge]
    refine ⟨rfl, [_], rfl, fun e he size hsize => ?_⟩
    cases hsize.symm.trans (List.mem_singleton.mp he)
    exact ⟨rfl, rfl, fun h => Nat.not_le.mpr hlarge h.1⟩
  · rw [malloc_small _ s (Nat.not_lt.mp hlarge)]
    refine ⟨rfl, [_], rfl, fun e he size hsize => ?_⟩
    obtain ⟨rfl, hrefused⟩ := Event.malloc.inj (hsize.symm.trans (List.mem_singleton.mp he))
    have hheap : ¬(rArg2 regs).toNat ≤ s.os.heap := of_decide_eq_false hrefused.symm
    exact ⟨rfl, rfl, fun h => hheap h.2⟩

theorem stages_setClock (clock : Timespec) :
    Within (Stages hook regs) (setClock child clock : TracerM World Unit) :=
  Within.bind (Requests.within_deref child) fun _ _ => ⟨rfl, [], rfl, fun _ he => nomatch he⟩

theorem stages_runHook (hemulated : hook.emulated = true) :
    Within (Stages hook regs) (runHook (kernel env) child pid regs (some hook)) :=
  (stages_drives pid).within_runHook stages_setClock regs hemulated fun h => h ▸ stages_malloc

/-- An emulated call that returns has had its block. -/
theorem blockGranted_of_ok {s s' : Tracer World}
    (h : runHook (kernel env) child pid regs (some hook) s = .ok () s') :
    hook.BlockGranted regs s.os.heap := by
  rintro rfl hne
  obtain ⟨regs', s₁, hcancel, h⟩ := bind_eq_ok.mp h
  obtain ⟨granted, s₂, hmalloc, h⟩ := bind_eq_ok.mp h
  have hstages : Stages .getrandom regs s s₁ :=
    ((stages_drives pid).within_childCancelSyscall regs).ok hcancel
  -- a block that is refused is dereferenced at once
  have hgranted : granted = true := by
    cases granted with
    | true => rfl
    | false =>
      rw [if_pos (by simpa using hne)] at h
      cases h
  subst hgranted
  by_cases hlarge : PTRDIFF_MAX < (rArg2 regs).toNat
  · rw [malloc_large _ s₁ hlarge] at hmalloc
    cases hmalloc
  · rw [malloc_small _ s₁ (Nat.not_lt.mp hlarge)] at hmalloc
    injection hmalloc with hanswer
    refine ⟨Nat.not_lt.mp hlarge, ?_⟩
    rw [← hstages.heap]
    exact of_decide_eq_true hanswer

end staging

/-! ### Another program in the process -/

section renewal

variable {pid p : PidT} {h₀ : List (Nat × Move)} {n : Nat} {w w' : World} {t t' : Task}

/-- The task leads its group, in an address space whose number is at least `n`. -/
structure Task.Younger (pid : PidT) (n : Nat) (t : Task) : Prop where
  tgid : t.tgid = pid
  mm : n ≤ t.mm
  died : ∀ status, t.state = .zombie status → terminated status = true

/-- If the program was replaced since the history was `h₀`, the process still runs a program in an
address space that is newer than all those before. -/
structure Renews (pid : PidT) (h₀ : List (Nat × Move)) (n : Nat) (w : World) : Prop where
  history : h₀ <:+ w.history
  nextMm : n ≤ w.nextMm
  task : Replaced pid h₀ w → ∃ t, w.task pid = some t ∧ t.Younger pid n

theorem Renews.congr (h : Renews pid h₀ n w) (htask : w'.task = w.task)
    (hnext : w'.nextMm = w.nextMm) (hhistory : w'.history = w.history) : Renews pid h₀ n w' where
  history := hhistory ▸ h.history
  nextMm := hnext ▸ h.nextMm
  task hreplaced := by
    unfold Replaced at hreplaced
    rw [hhistory] at hreplaced
    rw [htask]
    exact h.task hreplaced

theorem Renews.setTask (h : Renews pid h₀ n w) (ht : w.task p = some t)
    (hkept : t.Younger pid n → t'.Younger pid n) : Renews pid h₀ n (w.setTask p (some t')) where
  history := h.history
  nextMm := h.nextMm
  task hreplaced := by
    obtain ⟨u, hu, hyounger⟩ := h.task hreplaced
    by_cases hp : pid = p
    · subst hp
      cases ht.symm.trans hu
      exact ⟨t', World.task_setTask_self _ _ _, hkept hyounger⟩
    · exact ⟨u, (World.task_setTask_of_ne _ _ hp).trans hu, hyounger⟩

/-- The address space and the group stay, and the task does not die. -/
theorem Task.Younger.alive (h : t.Younger pid n) (htgid : t'.tgid = t.tgid) (hmm : t'.mm = t.mm)
    (halive : ∀ status, t'.state ≠ .zombie status) : t'.Younger pid n where
  tgid := htgid.trans h.tgid
  mm := hmm ▸ h.mm
  died status hstate := absurd hstate (halive status)

theorem tgid_finish (t : Task) (regs : UserRegsStruct) : (t.finish regs).tgid = t.tgid := by
  unfold Task.finish
  split
  · rfl
  · split <;> rfl

theorem younger_resume (h : t.Younger pid n) (stop : Stop) (data : Word) :
    (t.resume stop data).Younger pid n := by
  refine h.alive ?_ ?_ fun status => ?_
  · cases stop <;> rfl
  · cases stop <;> rfl
  · cases stop <;> exact nofun

/-- A move other than a replacement of the program. -/
theorem Renews.other {m : Move} (h : Renews pid h₀ n w') (hhistory : w'.history = w.history)
    (hm : ∀ q regs image, m ≠ .exec q pid regs image) :
    Renews pid h₀ n { w' with history := (w.tick, m) :: w.history } where
  history := (hhistory ▸ h.history).trans (List.suffix_cons _ _)
  nextMm := h.nextMm
  task hreplaced := by
    refine h.task ?_
    unfold Replaced
    rw [hhistory]
    refine ((added_cons (hhistory ▸ h.history)).mp hreplaced).resolve_right ?_
    rintro ⟨q, regs, image, hexec⟩
    exact hm q regs image hexec

/-- A move of one task. -/
theorem Renews.own {m : Move} (h : Renews pid h₀ n w) (ht : w.task p = some t)
    (hkept : t.Younger pid n → t'.Younger pid n) (hm : ∀ q regs image, m ≠ .exec q pid regs image) :
    Renews pid h₀ n { w.setTask p (some t') with history := (w.tick, m) :: w.history } :=
  (h.setTask ht hkept).other rfl hm

theorem renews_moved {m : Move} (h : Renews pid h₀ n w) (hmoved : Moved w m w') :
    Renews pid h₀ n { w' with history := (w.tick, m) :: w.history } := by
  cases hmoved with
  | @enter p t regs ht hstate =>
    exact h.own ht (fun h => h.alive rfl rfl nofun) nofun
  | @finish p t fresh regs ht hstate =>
    refine h.own ht (fun h => h.alive (tgid_finish t regs) (mm_finish t regs) ?_) nofun
    simp
  | @fork p child t e thread share rsp ht hstate hnr he hchild hfree hshare =>
    have hparent : Renews pid h₀ n (w.setTask p (some (t.forking e child w.births))) :=
      h.setTask ht fun h => h.alive rfl rfl nofun
    refine Renews.other ⟨h.history, h.nextMm.trans (Nat.le_succ _), fun hreplaced => ?_⟩ rfl nofun
    obtain ⟨u, hu, hyounger⟩ := hparent.task hreplaced
    have hne : pid ≠ child := by
      rintro rfl
      obtain ⟨u', hu', -⟩ := h.task hreplaced
      cases hfree.symm.trans hu'
    exact ⟨u, (Function.update_of_ne hne _ _).trans hu, hyounger⟩
  | @exec p leader t old regs image ht hstate hnr hold htgid hleader hdead halone =>
    by_cases hl : leader = pid
    · -- the new program gets an address space of its own
      subst hl
      refine ⟨h.history.trans (List.suffix_cons _ _), h.nextMm.trans (Nat.le_succ _), fun _ => ?_⟩
      exact ⟨_, Function.update_self .., htgid, h.nextMm, nofun⟩
    · refine Renews.other ⟨h.history, h.nextMm.trans (Nat.le_succ _), fun hreplaced => ?_⟩ rfl ?_
      · obtain ⟨u, hu, hyounger⟩ := h.task hreplaced
        -- a thread that is not the leader is none of the process
        have hp : pid ≠ p := by
          rintro rfl
          cases ht.symm.trans hu
          exact hl (htgid.symm.trans hyounger.tgid)
        refine ⟨u, ?_, hyounger⟩
        exact (Function.update_of_ne (Ne.symm hl) _ _).trans
          ((Function.update_of_ne hp _ _).trans hu)
      · rintro q regs' image' ⟨⟩
        exact hl rfl
  | @signal p t sig regs ht hstate =>
    exact h.own ht (fun h => h.alive (t := t) rfl rfl nofun) nofun
  | @die p t status ht hlive hstatus =>
    refine h.own ht (fun h => ⟨h.tgid, h.mm, ?_⟩) nofun
    rintro status' ⟨⟩
    exact hstatus
  | @store mm memory =>
    have hstore : Renews pid h₀ n (w.setMem mm memory) := h.congr rfl rfl rfl
    exact hstore.other rfl nofun

/-- A new program stays in the process until its death is reported. -/
theorem requestsKeep_renews (pid : PidT) (h₀ : List (Nat × Move)) (n : Nat) :
    RequestsKeep (fun _ => False) (Unexpected pid) (Renews pid h₀ n) pid where
  moved _ _ _ hw hmoved := .inl (renews_moved hw hmoved)
  ticked _ _ hw := hw.congr rfl rfl rfl
  poke w t m hw ht hstop := by
    have hmem : Renews pid h₀ n (w.setMem t.mm m) := hw.congr rfl rfl rfl
    have hcount : Renews pid h₀ n ((w.setMem t.mm m).countPoke pid t) := by
      unfold World.countPoke
      split
      · exact hmem.setTask ht fun h => ⟨h.tgid, h.mm, h.died⟩
      · exact hmem
    exact hcount.congr rfl rfl rfl
  setregs w t regs hw ht hstop := by
    have hset : Renews pid h₀ n (w.setTask pid (some { t with regs := regs })) :=
      hw.setTask ht fun h => ⟨h.tgid, h.mm, h.died⟩
    exact hset.congr rfl rfl rfl
  resume w t stop hw ht hstop := hw.setTask ht fun h => younger_resume h stop 0
  report w status w' hw hreported := by
    cases hreported with
    | stopped ht hstate => exact .inl (hw.setTask ht fun h => h.alive rfl rfl nofun)
    | @reaped t status ht hstate hlast =>
      -- the death of the process is no end of a call
      by_cases hstatus : terminated status = true
      · refine .inr fun h => ?_
        cases h
        rw [Stop.status, terminated_stopStatus] at hstatus
        cases hstatus
      · refine .inl ⟨hw.history, hw.nextMm, fun hreplaced => ?_⟩
        obtain ⟨u, hu, hyounger⟩ := hw.task hreplaced
        cases ht.symm.trans hu
        exact absurd (hyounger.died status hstate) hstatus

end renewal

/-! ### The protocol -/

variable {c : ChildProcess} {t : Task} {hook : Hook} {s : Tracer World}

/-- A tracked process stands at the entry of an emulated call. -/
structure AtEmulated (c : ChildProcess) (t : Task) (hook : Hook) (s : Tracer World) : Prop where
  ok : TableOk s
  tracked : c ∈ s.processTable
  task : s.os.task c.pid = some t
  entry : t.state = .stopped .syscallEntry true
  emulated : hook.emulated = true
  hook : hookOf t.regs.origRax = some hook
  /-- Address spaces are numbered as they come into use. -/
  fresh : t.mm < s.os.nextMm

/-- Every request of the call succeeds, and its wait reports the exit stop. -/
def GoesWell (env : Env) (c : ChildProcess) (t : Task) (s : Tracer World) : Prop :=
  ¬Added (Unexpected c.pid) s.trace
    (finalState (handleSyscall (kernel env) c.addr t.regs s)).trace

/-- The call returns and has followed the protocol. -/
def FollowsProtocol (env : Env) (c : ChildProcess) (t : Task) (hook : Hook)
    (s : Tracer World) : Prop :=
  ∃ s', handleSyscall (kernel env) c.addr t.regs s = .ok () s' ∧ Emulated c t hook s s'

theorem AtEmulated.runs (h : AtEmulated c t hook s) :
    handleSyscall (kernel env) c.addr t.regs s =
      runHook (kernel env) c.addr c.pid t.regs (some hook)
        (s.noted (.handleSyscall c.addr t.regs)) := by
  rw [handleSyscall_eq (kernel env) (h.ok.blockAt_of_mem h.tracked), h.hook]

/-- A block that is granted is not refused. -/
theorem AtEmulated.not_refused (h : AtEmulated c t hook s)
    (hgranted : hook.BlockGranted t.regs s.os.heap) :
    ¬StagingRefused s (finalState (handleSyscall (kernel env) c.addr t.regs s)) := by
  rintro ⟨new, hnew, e, he, size, rfl, hne⟩
  have hcall : Stages hook t.regs s (s.noted (.handleSyscall c.addr t.regs)) :=
    stages_of_event rfl rfl nofun
  have hhook : Within (Stages hook t.regs) (runHook (kernel env) c.addr c.pid t.regs (some hook)) :=
    stages_runHook h.emulated
  rw [h.runs] at hnew
  obtain ⟨new', hnew', hall⟩ := (IsTrans.trans _ _ _ hcall (hhook _)).refused
  rw [List.append_cancel_right (hnew.symm.trans hnew')] at he
  obtain ⟨hgetrandom, rfl, hlarge⟩ := hall _ he size rfl
  exact hlarge (hgranted hgetrandom fun hzero => hne (by rw [hzero]; rfl))

/-- No program replaces the tracee during a call that follows the protocol. -/
theorem AtEmulated.not_replaced {s' : Tracer World} (h : AtEmulated c t hook s)
    (hrun : handleSyscall (kernel env) c.addr t.regs s = .ok () s')
    (hgoes : ¬Added (Unexpected c.pid) s.trace s'.trace) (hdone : Emulated c t hook s s') :
    ¬Replaced c.pid s.os.history s'.os := by
  intro hreplaced
  rw [h.runs] at hrun
  have hset : ∀ clock, Within (Keeps Later (Amiss (fun _ => False) (Unexpected c.pid))
      fun s' => Renews c.pid s.os.history (t.mm + 1) s'.os ∧ True)
      (setClock c.addr clock : TracerM World Unit) := fun clock =>
    Within.bind (Requests.within_deref c.addr) fun _ _ => ⟨⟨List.suffix_rfl, List.suffix_rfl⟩, .inl⟩
  have hkeeps := (((requestsKeep_renews c.pid s.os.history (t.mm + 1)).requests env
    fun _ => True).within_runHook hset t.regs (some hook)).ok hrun
  -- at the entry nothing was replaced yet
  have hstart : Renews c.pid s.os.history (t.mm + 1) s.os := by
    refine ⟨List.suffix_rfl, h.fresh, ?_⟩
    rintro ⟨new, hnew, x, hx, -⟩
    rw [List.self_eq_append_left.mp hnew] at hx
    cases hx
  rcases hkeeps.2 ⟨hstart, trivial⟩ with ⟨hrenews, -⟩ | ⟨_, -, _, -, hfalse⟩ | hunexpected
  · -- the new program is not the one that got the result
    obtain ⟨u, hu, hyounger⟩ := hrenews.task hreplaced
    cases hu.symm.trans hdone.task
    exact absurd hyounger.mm (Nat.not_succ_le_self _)
  · exact hfalse
  · exact hgoes (added_of_suffix (List.suffix_cons _ _) hunexpected)

/-- In every environment: an emulated call whose requests succeed and whose wait reports the exit
stop follows the protocol exactly when no other thread replaces the program meanwhile and the block
of `getrandom` is granted. -/
theorem handleSyscall_emulated_iff (h : AtEmulated c t hook s) (hgoes : GoesWell env c t s) :
    FollowsProtocol env c t hook s ↔
      ¬Replaced c.pid s.os.history (finalState (handleSyscall (kernel env) c.addr t.regs s)).os ∧
        hook.BlockGranted t.regs s.os.heap := by
  constructor
  · rintro ⟨s', hrun, hdone⟩
    have hgranted : hook.BlockGranted t.regs (s.noted (.handleSyscall c.addr t.regs)).os.heap :=
      blockGranted_of_ok (h.runs.symm.trans hrun)
    unfold GoesWell at hgoes
    rw [hrun] at hgoes ⊢
    exact ⟨h.not_replaced hrun hgoes hdone, hgranted⟩
  · rintro ⟨hsame, hgranted⟩
    exact (emulated_or_refused env h.ok h.tracked h.task h.entry h.hook h.emulated hgoes
      hsame).resolve_right (h.not_refused hgranted)

/-! ### The two ways to fail -/

instance decidableUnexpected (pid : PidT) : DecidablePred (Unexpected pid)
  | .ptrace _ (.error _) => isTrue trivial
  | .ptrace _ (.ok _) => isFalse id
  | .wait _ (some (.ok report)) =>
    decidable_of_iff (report ≠ (pid, Stop.syscallExit.status)) (by simp [Unexpected])
  | .wait _ (some (.error _)) => isTrue (by simp [Unexpected])
  | .wait _ none => isTrue (by simp [Unexpected])
  | .malloc .. => isFalse id
  | .call .. => isFalse id

theorem goesWell_of_forall (hstart : s.trace = [])
    (h : ∀ e ∈ (finalState (handleSyscall (kernel env) c.addr t.regs s)).trace,
      ¬Unexpected c.pid e) : GoesWell env c t s := by
  rintro ⟨new, hnew, e, he, hunexpected⟩
  rw [hstart, List.append_nil] at hnew
  exact h e (hnew ▸ he) hunexpected

/-- No program was executed at all. -/
theorem not_replaced_of_any {pid : PidT} {h₀ : List (Nat × Move)} {w : World}
    (h : (w.history.any fun x => x.2 matches .exec ..) = false) : ¬Replaced pid h₀ w := by
  rintro ⟨new, hnew, ⟨n, m⟩, hx, q, regs, image, hexec⟩
  cases hexec
  have hmem : (n, Move.exec q pid regs image) ∈ w.history := hnew ▸ List.mem_append_left _ hx
  exact List.any_eq_false.mp h _ hmem rfl

theorem atEmulated_atEntry (b : Boot) {regs : UserRegsStruct} {hook : Hook}
    (hhook : hookOf regs.origRax = some hook) (hemulated : hook.emulated = true) :
    AtEmulated ⟨0, b.childPid, initialClock⟩ (b.entryTask regs) hook (b.atEntry regs) where
  ok := tableOk_atEntry b regs
  tracked := List.mem_singleton.mpr rfl
  task := Function.update_self ..
  entry := rfl
  emulated := hemulated
  hook := hhook
  fresh := Nat.zero_lt_one

/-- The sample task at the entry of `clock_gettime`; its thread 101 is about to execute a
program. -/
def besideExecve : Tracer World :=
  let s := besideEntry clockGettimeCall
  { s with
    os := { s.os.setTask 101
      (some { Boot.sample.entryTask execveCall with state := .kernel true }) with
      pids := [101, 100] } }

/-- When the leader has come to the end of its call, the other thread executes its program. -/
def leaderOusted : Env :=
  scripted [(2, ⟨[.finish 100 default], 100⟩),
    (3, ⟨[.die 100 9, .exec 101 100 default Boot.sample.memory], 100⟩)]

/-- `getrandom` of more bytes than any block has. -/
def hugeGetrandomCall : UserRegsStruct := { getrandomCall with rsi := 0x8000000000000000 }

/-- The result of the cancelled call is given to a program that never made it; and a block that is
refused is written to. -/
theorem not_followsProtocol_leaderOusted :
    (AtEmulated ⟨0, 100, initialClock⟩ (Boot.sample.entryTask clockGettimeCall) .clockGettime
        besideExecve ∧
      GoesWell leaderOusted ⟨0, 100, initialClock⟩ (Boot.sample.entryTask clockGettimeCall)
        besideExecve ∧
      ¬FollowsProtocol leaderOusted ⟨0, 100, initialClock⟩
        (Boot.sample.entryTask clockGettimeCall) .clockGettime besideExecve) ∧
    AtEmulated ⟨0, 100, initialClock⟩ (Boot.sample.entryTask hugeGetrandomCall) .getrandom
        (Boot.sample.atEntry hugeGetrandomCall) ∧
      GoesWell (finishing 100) ⟨0, 100, initialClock⟩ (Boot.sample.entryTask hugeGetrandomCall)
        (Boot.sample.atEntry hugeGetrandomCall) ∧
      ¬FollowsProtocol (finishing 100) ⟨0, 100, initialClock⟩
        (Boot.sample.entryTask hugeGetrandomCall) .getrandom
        (Boot.sample.atEntry hugeGetrandomCall) := by
  have hhook : hookOf hugeGetrandomCall.origRax = some .getrandom := rfl
  have hreplaced : GoesWell leaderOusted ⟨0, 100, initialClock⟩
      (Boot.sample.entryTask clockGettimeCall) besideExecve :=
    goesWell_of_forall rfl (by decide +kernel)
  have hrefused : GoesWell (finishing 100) ⟨0, 100, initialClock⟩
      (Boot.sample.entryTask hugeGetrandomCall) (Boot.sample.atEntry hugeGetrandomCall) :=
    goesWell_of_forall rfl (by decide +kernel)
  refine ⟨⟨?_, hreplaced, ?_⟩, atEmulated_atEntry Boot.sample hhook rfl, hrefused, ?_⟩
  · exact ⟨⟨by decide, by decide, by decide, rfl⟩, .tail _ (.head _), rfl, rfl, rfl, rfl,
      Nat.zero_lt_one⟩
  · rintro ⟨s', hrun, hdone⟩
    -- the task with the result has the address space of the new program
    have hmm : ((finalState (handleSyscall (kernel leaderOusted) 0 clockGettimeCall
        besideExecve)).os.task 100).map Task.mm = some 1 := by
      decide +kernel
    have hrun' : handleSyscall (kernel leaderOusted) 0 clockGettimeCall besideExecve = .ok () s' :=
      hrun
    rw [hrun'] at hmm
    cases (congrArg (Option.map Task.mm) hdone.task).symm.trans hmm
  · rintro ⟨s', hrun, hdone⟩
    -- the result is never set
    have hrax : ((finalState (handleSyscall (kernel (finishing 100)) 0 hugeGetrandomCall
        (Boot.sample.atEntry hugeGetrandomCall))).os.task 100).map (fun t => t.regs.rax) =
          some 0 := by
      decide +kernel
    have hrun' : handleSyscall (kernel (finishing 100)) 0 hugeGetrandomCall
        (Boot.sample.atEntry hugeGetrandomCall) = .ok () s' := hrun
    rw [hrun'] at hrax
    have hresult := (congrArg (Option.map fun t => t.regs.rax) hdone.task).symm.trans hrax
    exact absurd (Option.some.inj hresult) (by decide)

theorem getrandomCall_emulated :
    FollowsProtocol (finishing 100) ⟨0, 100, initialClock⟩
      (Boot.sample.entryTask { getrandomCall with rdi := 64, rsi := 10 }) .getrandom
      (Boot.sample.atEntry { getrandomCall with rdi := 64, rsi := 10 }) := by
  have hentry : AtEmulated ⟨0, 100, initialClock⟩
      (Boot.sample.entryTask { getrandomCall with rdi := 64, rsi := 10 }) .getrandom
      (Boot.sample.atEntry { getrandomCall with rdi := 64, rsi := 10 }) :=
    atEmulated_atEntry Boot.sample rfl rfl
  have hgoes : GoesWell (finishing 100) ⟨0, 100, initialClock⟩
      (Boot.sample.entryTask { getrandomCall with rdi := 64, rsi := 10 })
      (Boot.sample.atEntry { getrandomCall with rdi := 64, rsi := 10 }) :=
    goesWell_of_forall rfl (by decide +kernel)
  exact (handleSyscall_emulated_iff hentry hgoes).mpr
    ⟨not_replaced_of_any (by decide +kernel), fun _ _ => ⟨by decide, by decide⟩⟩

end Reproduce.Linux
