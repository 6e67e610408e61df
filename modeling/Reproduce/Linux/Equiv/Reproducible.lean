import Reproduce.Keyed.Transducer
import Reproduce.Linux.Equiv.Arguments

/-!
# Reproducibility

What a process gets from its emulated calls depends on these calls only.  The purpose of the table,
in its own terms: under every pid there is a clock, which an insertion sets to its initial value and
which decides what the next call delivers (`service`).  The runs of `Run` are made of the functions
of the tracer, with arbitrary worlds between them; what the tracees can see of them is recorded in a
log, and the log is explained by `service` (`run_explained`).  The two-run law follows.
-/

namespace Reproduce

open Bytes Keyed

/-- An emulated call, as far as its outcome depends on it. -/
inductive EmulatedCall where
  | getrandom (len : Word)
  | gettimeofday
  | time (null : Bool)
  | clockGettime
  deriving DecidableEq

/-- The call that the registers make under a hook; the addresses of buffers are forgotten. -/
def Hook.call (regs : UserRegsStruct) : Hook → Option EmulatedCall
  | .getrandom => some (.getrandom (rArg2 regs))
  | .gettimeofday => some .gettimeofday
  | .time => some (.time (rArg1 regs = 0))
  | .clockGettime => some .clockGettime
  | _ => none

namespace EmulatedCall

/-- How many bytes are delivered. -/
def size : EmulatedCall → Nat
  | getrandom len => len.toNat
  | time null => if null then 0 else 16
  | _ => 16

def bytes (clock : Timespec) : EmulatedCall → List Byte
  | getrandom len => List.replicate len.toNat 0x22
  | time null => if null then [] else clock.advance.bytes
  | _ => clock.bytes

def result (clock : Timespec) : EmulatedCall → Word
  | getrandom len => len
  | time _ => clock.advance.tvSec
  | _ => 0

def clock : EmulatedCall → Timespec → Timespec
  | getrandom _ => id
  | _ => Timespec.advance

end EmulatedCall

/-- What every process is given: the bytes delivered and the value returned, out of a clock. -/
def service : Transducer Timespec EmulatedCall (List Byte × Word) where
  init := initialClock
  next clock call := call.clock clock
  out clock call := (call.bytes clock, call.result clock)

variable {hook : Hook} {call : EmulatedCall} {regs : UserRegsStruct}

theorem emulated_of_call (h : hook.call regs = some call) : hook.emulated = true := by
  cases hook
  case openat | «open» | openat2 => cases h
  all_goals rfl

theorem output_eq_bytes (h : hook.call regs = some call) (clock : Timespec) :
    hook.output regs clock = call.bytes clock := by
  cases hook <;> cases h <;> simp [Hook.output, EmulatedCall.bytes]

theorem result_eq (h : hook.call regs = some call) (clock : Timespec) :
    hook.result regs clock = call.result clock := by
  cases hook <;> cases h <;> rfl

theorem clock_eq (h : hook.call regs = some call) : hook.clock = call.clock := by
  cases hook <;> cases h <;> rfl

theorem length_bytes (call : EmulatedCall) (clock : Timespec) :
    (call.bytes clock).length = call.size := by
  cases call with
  | getrandom len => exact List.length_replicate
  | time null => cases null <;> simp [EmulatedCall.bytes, EmulatedCall.size, Timespec.bytes]
  | gettimeofday => simp [EmulatedCall.bytes, EmulatedCall.size, Timespec.bytes]
  | clockGettime => simp [EmulatedCall.bytes, EmulatedCall.size, Timespec.bytes]

end Reproduce

namespace Reproduce.Linux

open Bytes Effect Keyed

/-! ### Runs -/

/-- What a tracee finds after a call: the bytes in its buffer and its return value. -/
def received (w : World) (t : Task) (dest : Word) (size : Nat) : List Byte × Word :=
  ((List.range size).map fun k => (w.mem t.mm).byte (dest + BitVec.ofNat 64 k), t.regs.rax)

/-- A run of the table and the handlers, with what the tracees see of it. -/
inductive Run : List (Entry PidT EmulatedCall (List Byte × Word)) → Tracer World → Prop
  | start (os : World) : Run [] (Tracer.start os)
  /-- Between two steps of the tracer anything can happen to the world. -/
  | elapse {log s} (h : Run log s) (os : World) : Run log { s with os := os }
  | insert {log s s' env pid} (h : Run log s)
      (hrun : insertProcess (kernel env) pid s = .ok true s') : Run (.reset pid :: log) s'
  /-- The process is tracked already. -/
  | keep {log s s' env pid} (h : Run log s)
      (hrun : insertProcess (kernel env) pid s = .ok false s') : Run log s'
  | delete {log s s' pid} (h : Run log s) (hrun : deleteProcess pid s = .ok () s') : Run log s'
  /-- An emulated call of a tracee at its entry stop, which is left alone during the call. -/
  | emulate {log s s' env c t t' m hook call} (h : Run log s) (hc : c ∈ s.processTable)
      (henv : Attends env c.pid t.mm) (hheld : Held c.pid t m s.os)
      (hstate : t.state = .stopped .syscallEntry true) (hhook : hookOf t.regs.origRax = some hook)
      (hcall : hook.call t.regs = some call)
      (hrun : handleSyscall (kernel env) c.addr t.regs s = .ok () s')
      (ht' : s'.os.task c.pid = some t') :
      Run (.step c.pid call (received s'.os t' (hook.dest t.regs) call.size) :: log) s'
  /-- Any other call. -/
  | pass {log s s' env c regs} (h : Run log s) (hc : c ∈ s.processTable)
      (hother : (hookOf regs.origRax).bind (Hook.call regs) = none)
      (hrun : handleSyscall (kernel env) c.addr regs s = .ok () s') : Run log s'

/-! ### What the tracees see -/

/-- The table holds the clocks of `service`, and `service` explains what the tracees have seen. -/
structure Explained (log : List (Entry PidT EmulatedCall (List Byte × Word))) (s : Tracer World) :
    Prop where
  ok : TableOk s
  clocks : ∀ c ∈ s.processTable, c.gettimeData = service.stateAt log c.pid
  explains : service.Explains log

variable {log : List (Entry PidT EmulatedCall (List Byte × Word))} {s s' : Tracer World} {env : Env}
  {pid : PidT} {c : ChildProcess}

theorem explained_start (os : World) : Explained [] (Tracer.start os) where
  ok := tableOk_start os
  clocks _ hc := absurd hc List.not_mem_nil
  explains := Transducer.explains_nil

theorem Explained.insert (h : Explained log s)
    (hrun : insertProcess (kernel env) pid s = .ok true s') :
    Explained (.reset pid :: log) s' := by
  rw [insertProcess_eq] at hrun
  split at hrun
  · cases hrun
  · next hnone =>
    split at hrun
    · cases hrun
      have hfree : hashFind s.processTable pid = none := by simpa using hnone
      have hallocated : TableOk (s.allocated (kernel env) pid) :=
        ⟨h.ok.pids, h.ok.addrs, h.ok.fresh, h.ok.count⟩
      refine ⟨hallocated.inserted hfree, fun c hc => ?_, h.explains.reset pid⟩
      rcases List.mem_cons.mp hc with rfl | hc
      · exact (Transducer.stateAt_reset_self (T := service) pid).symm
      · have hne : pid ≠ c.pid := fun heq => hashFind_eq_none.mp hfree c hc heq.symm
        rw [Transducer.stateAt_reset_of_ne hne]
        exact h.clocks c hc
    · cases hrun

theorem Explained.keep (h : Explained log s)
    (hrun : insertProcess (kernel env) pid s = .ok false s') : Explained log s' := by
  rw [insertProcess_eq] at hrun
  split at hrun
  · cases hrun
    exact h
  · split at hrun <;> cases hrun

theorem Explained.delete (h : Explained log s) (hrun : deleteProcess pid s = .ok () s') :
    Explained log s' := by
  rw [deleteProcess_apply] at hrun
  cases hrun
  refine ⟨h.ok.deleted pid, fun c hc => ?_, h.explains⟩
  rw [h.ok.processTable_deleted] at hc
  exact h.clocks c (List.mem_filter.mp hc).1

/-- A handler that changes no clock keeps everything. -/
theorem Explained.pass (h : Explained log s) (hc : c ∈ s.processTable) {regs : UserRegsStruct}
    (hother : (hookOf regs.origRax).bind (Hook.call regs) = none)
    (hrun : handleSyscall (kernel env) c.addr regs s = .ok () s') : Explained log s' := by
  rw [handleSyscall_eq (kernel env) (h.ok.blockAt_of_mem hc)] at hrun
  have hkept : Within (Helper c.pid)
      (runHook (kernel env) c.addr c.pid regs (hookOf regs.origRax)) := by
    have hopen := (helper_requests (kernel env) c.pid).within_redirectDevRandom regs
    cases hhook : hookOf regs.origRax with
    | none => exact Within.pure _
    | some hook =>
      rw [hhook] at hother
      cases hook
      case openat | «open» | openat2 => exact hopen
      all_goals cases hother
  obtain ⟨hsame, -⟩ := hkept.ok hrun
  refine ⟨h.ok.tableKept (s := s) ⟨hsame.processTable, hsame.entryCount, hsame.nextAddr⟩,
    ?_, h.explains⟩
  rw [hsame.processTable]
  exact h.clocks

/-- The bytes that were overwritten are the bytes that are read back. -/
theorem received_overwrite {w : World} {t : Task} {m : Memory} {dest : Word} {bs : List Byte}
    (hmem : w.mem t.mm = m.overwrite dest bs) (hlen : bs.length ≤ 2 ^ 64) :
    received w t dest bs.length = (bs, t.regs.rax) := by
  unfold received
  congr 1
  apply List.ext_getElem
  · simp
  · intro k hk hk'
    rw [List.getElem_map, List.getElem_range, hmem, Memory.byte_overwrite_add m dest bs hk' hlen]

theorem Explained.emulate (h : Explained log s) (hc : c ∈ s.processTable) {t t' : Task}
    {m : Memory} {hook : Hook} {call : EmulatedCall} (henv : Attends env c.pid t.mm)
    (hheld : Held c.pid t m s.os) (hstate : t.state = .stopped .syscallEntry true)
    (hhook : hookOf t.regs.origRax = some hook) (hcall : hook.call t.regs = some call)
    (hrun : handleSyscall (kernel env) c.addr t.regs s = .ok () s')
    (ht' : s'.os.task c.pid = some t') :
    Explained (.step c.pid call (received s'.os t' (hook.dest t.regs) call.size) :: log) s' := by
  have hblock := h.ok.blockAt_of_mem hc
  have hclockOnly := (within_handleSyscall (kernel env) t.regs hblock).1
  rw [hrun] at hclockOnly
  rw [handleSyscall_eq (kernel env) hblock, hhook] at hrun
  have hstart : Tracked c.pid s.processTable s.os.heap t m
      (s.noted (.handleSyscall c.addr t.regs)) := ⟨hheld, rfl, rfl⟩
  obtain ⟨-, hdone⟩ := (triple_runHook_emulated henv hstate hblock (h.ok.retime_const hc) t.regs
    (emulated_of_call hcall)).ok hstart hrun
  have hsame : t' = t.emulated t.regs (hook.result t.regs c.gettimeData) :=
    Option.some.inj (ht'.symm.trans hdone.held.task)
  have hclock := h.clocks c hc
  -- the call gets what `service` gives for the clock of the caller
  have hreceived : received s'.os t' (hook.dest t.regs) call.size =
      service.out (service.stateAt log c.pid) call := by
    have hlen : (hook.output t.regs c.gettimeData).length = call.size := by
      rw [output_eq_bytes hcall, length_bytes]
    have hsmall : (hook.output t.regs c.gettimeData).length ≤ 2 ^ 64 := by
      rw [hlen]
      cases call with
      | getrandom len => exact len.isLt.le
      | time null => cases null <;> decide
      | _ => decide
    have hmem : s'.os.mem t'.mm =
        m.overwrite (hook.dest t.regs) (hook.output t.regs c.gettimeData) := by
      rw [hsame]
      exact hdone.held.mem
    rw [← hlen, received_overwrite hmem hsmall, output_eq_bytes hcall, ← hclock, hsame]
    show (_, hook.result t.regs c.gettimeData) = _
    rw [result_eq hcall]
    rfl
  refine ⟨TableOk.clockOnly (s := s) h.ok ⟨hclockOnly.processTable, hclockOnly.entryCount,
    hclockOnly.nextAddr⟩, fun d hd => ?_, h.explains.step hreceived⟩
  rw [hdone.table] at hd
  obtain ⟨d₀, hd₀, rfl⟩ := List.mem_map.mp hd
  -- the entry of the caller has advanced; the other entries, which have other pids, have not
  by_cases haddr : d₀.addr = c.addr
  · have heq : d₀ = c := h.ok.eq_of_addr hd₀ hc haddr
    subst heq
    rw [if_pos rfl, Transducer.stateAt_step_self, ← hclock, clock_eq hcall]
    rfl
  · have hne : c.pid ≠ d₀.pid := fun heq => haddr (by rw [h.ok.eq_of_pid hd₀ hc heq.symm])
    rw [if_neg haddr, Transducer.stateAt_step_of_ne hne]
    exact h.clocks d₀ hd₀

theorem run_explained (h : Run log s) : Explained log s := by
  induction h with
  | start os => exact explained_start os
  | elapse h os ih =>
    exact ⟨⟨ih.ok.pids, ih.ok.addrs, ih.ok.fresh, ih.ok.count⟩, ih.clocks, ih.explains⟩
  | insert h hrun ih => exact ih.insert hrun
  | keep h hrun ih => exact ih.keep hrun
  | delete h hrun ih => exact ih.delete hrun
  | emulate h hc henv hheld hstate hhook hcall hrun ht' ih =>
    exact ih.emulate hc henv hheld hstate hhook hcall hrun ht'
  | pass h hc hother hrun ih => exact ih.pass hc hother hrun

/-! ### Two runs -/

/-- In two runs, a process and its image that make the same calls since their latest insertions get
the same bytes and the same return values. -/
theorem run_reproducible {log₁ log₂ : List (Entry PidT EmulatedCall (List Byte × Word))}
    {s₁ s₂ : Tracer World} (h₁ : Run log₁ s₁) (h₂ : Run log₂ s₂) (ρ : PidT ↪ PidT) (pid : PidT)
    (hcalls : (session pid log₁).map Prod.fst = (session (ρ pid) log₂).map Prod.fst) :
    (session pid log₁).map Prod.snd = (session (ρ pid) log₂).map Prod.snd :=
  (run_explained h₁).explains.outputs_eq (run_explained h₂).explains ρ hcalls

/-! ### Mixed calls -/

/-- The sample task under another pid. -/
def Boot.sampleAs (pid : PidT) (hpid : pid ≠ 0) : Boot :=
  { Boot.sample with
    childPid := pid
    childPid_ne_zero := hpid }

variable {pids : List PidT}

/-- One more process is tracked. -/
theorem exists_run_inserted (h : Run log s) (hpids : s.processTable.map ChildProcess.pid = pids)
    {pid : PidT} (hpid : pid ∉ pids) :
    ∃ s', Run (.reset pid :: log) s' ∧ s'.processTable.map ChildProcess.pid = pid :: pids := by
  let s₁ : Tracer World := { s with os := Boot.sample.world }
  have hfree : hashFind s₁.processTable pid = none := by
    refine hashFind_eq_none.mpr fun c hc heq => hpid ?_
    rw [← hpids, ← heq]
    exact List.mem_map_of_mem hc
  have hinsert : insertProcess (kernel (finishing pid)) pid s₁ =
      .ok true ((s₁.allocated (kernel (finishing pid)) pid).inserted pid) := by
    rw [insertProcess_eq, if_neg (by simp [hfree])]
    rfl
  exact ⟨_, (h.elapse Boot.sample.world).insert hinsert, congrArg (pid :: ·) hpids⟩

/-- Two processes are tracked. -/
theorem exists_run_pair {pid pid' : PidT} (hne : pid' ≠ pid) :
    ∃ s, Run [.reset pid', .reset pid] s ∧ s.processTable.map ChildProcess.pid = [pid', pid] := by
  obtain ⟨s₁, h₁, hpids⟩ := exists_run_inserted (Run.start Boot.sample.world)
    (show _ = [] from rfl) (List.not_mem_nil (a := pid))
  exact exists_run_inserted h₁ hpids (by simpa using hne)

/-- A tracked process makes one more call, with good arguments. -/
theorem exists_run_call (h : Run log s) (hpids : s.processTable.map ChildProcess.pid = pids)
    {pid : PidT} (hpid : pid ∈ pids ∧ pid ≠ 0) (regs : UserRegsStruct) {hook : Hook}
    {call : EmulatedCall} (hhook : hookOf regs.origRax = some hook)
    (hcall : hook.call regs = some call)
    (hargs : hook.ArgsOk regs Boot.sample.memory Boot.sample.heap) :
    ∃ o s', Run (.step pid call o :: log) s' ∧ s'.processTable.map ChildProcess.pid = pids := by
  subst hpids
  obtain ⟨hmem, hne⟩ := hpid
  obtain ⟨c, hc, rfl⟩ := List.mem_map.mp hmem
  let b := Boot.sampleAs c.pid hne
  have hrun := h.elapse (b.atEntry regs).os
  have hok := (run_explained hrun).ok
  have henv : Attends (finishing c.pid) c.pid 0 := attends_finishing c.pid
  have hheld : Held c.pid (b.entryTask regs) b.memory (b.atEntry regs).os := held_atEntry b regs
  obtain ⟨s', hreturns, t', ht', -⟩ :=
    (handleSyscall_served_iff henv hok hc hheld rfl hhook).mpr hargs
  have hreturns' : handleSyscall (kernel (finishing c.pid)) c.addr regs _ = .ok () s' := hreturns
  have hclock := (within_handleSyscall (kernel (finishing c.pid)) regs (hok.blockAt_of_mem hc)).1
  rw [hreturns'] at hclock
  refine ⟨_, s', hrun.emulate hc henv hheld rfl hhook hcall hreturns ht', ?_⟩
  -- the handler changes the clock of one entry
  obtain ⟨f, hf⟩ := hclock.processTable
  exact (congrArg (List.map ChildProcess.pid) hf).trans
    (map_retime ChildProcess.pid (fun _ _ => rfl) ..)

/-- Two processes make six calls in turns. -/
theorem exists_run_mixed :
    ∃ o₁ o₂ o₃ o₄ o₅ o₆ s,
      Run [.step 100 .gettimeofday o₆, .step 101 .clockGettime o₅, .step 100 .clockGettime o₄,
        .step 100 (.getrandom 10) o₃, .step 101 .gettimeofday o₂, .step 100 (.time false) o₁,
        .reset 101, .reset 100] s ∧ s.processTable.map ChildProcess.pid = [101, 100] := by
  obtain ⟨_, h, hpids⟩ := @exists_run_pair 100 101 (by decide)
  obtain ⟨o₁, _, h, hpids⟩ := @exists_run_call _ _ _ h hpids 100 (by decide) timeCall _ _ rfl rfl
    (by decide)
  obtain ⟨o₂, _, h, hpids⟩ := @exists_run_call _ _ _ h hpids 101 (by decide) gettimeofdayCall _ _
    rfl rfl (by decide)
  obtain ⟨o₃, _, h, hpids⟩ := @exists_run_call _ _ _ h hpids 100 (by decide)
    { getrandomCall with rdi := 64, rsi := 10 } _ _ rfl rfl (by decide)
  obtain ⟨o₄, _, h, hpids⟩ := @exists_run_call _ _ _ h hpids 100 (by decide) clockGettimeCall _ _
    rfl rfl (by decide)
  obtain ⟨o₅, _, h, hpids⟩ := @exists_run_call _ _ _ h hpids 101 (by decide) clockGettimeCall _ _
    rfl rfl (by decide)
  obtain ⟨o₆, s, h, hpids⟩ := @exists_run_call _ _ _ h hpids 100 (by decide) gettimeofdayCall _ _
    rfl rfl (by decide)
  exact ⟨o₁, o₂, o₃, o₄, o₅, o₆, s, h, hpids⟩

/-- A renaming of pids. -/
def shiftPid : PidT ↪ PidT := ⟨fun pid => pid + 100, fun _ _ h => by simpa using h⟩

/-- In the other run the two processes have other pids and other buffers, and they take turns in
another order. -/
theorem mixedCalls_reproducible :
    ∃ log₁ s₁ log₂ s₂, Run log₁ s₁ ∧ Run log₂ s₂ ∧
      (session 100 log₁).map Prod.fst =
        [.gettimeofday, .clockGettime, .getrandom 10, .time false] ∧
      (session 101 log₁).map Prod.fst = [.clockGettime, .gettimeofday] ∧
      (session 100 log₁).map Prod.snd = (session (shiftPid 100) log₂).map Prod.snd ∧
      (session 101 log₁).map Prod.snd = (session (shiftPid 101) log₂).map Prod.snd := by
  obtain ⟨_, _, _, _, _, _, s₁, h₁, -⟩ := exists_run_mixed
  obtain ⟨_, h, hpids⟩ := @exists_run_pair 201 200 (by decide)
  obtain ⟨o₁, _, h, hpids⟩ := @exists_run_call _ _ _ h hpids 201 (by decide)
    { gettimeofdayCall with rdi := 128 } _ _ rfl rfl (by decide)
  obtain ⟨o₂, _, h, hpids⟩ := @exists_run_call _ _ _ h hpids 201 (by decide)
    { clockGettimeCall with rsi := 128 } _ _ rfl rfl (by decide)
  obtain ⟨o₃, _, h, hpids⟩ := @exists_run_call _ _ _ h hpids 200 (by decide)
    { timeCall with rdi := 128 } _ _ rfl rfl (by decide)
  obtain ⟨o₄, _, h, hpids⟩ := @exists_run_call _ _ _ h hpids 200 (by decide)
    { getrandomCall with rdi := 128, rsi := 10 } _ _ rfl rfl (by decide)
  obtain ⟨o₅, _, h, hpids⟩ := @exists_run_call _ _ _ h hpids 200 (by decide)
    { clockGettimeCall with rsi := 256 } _ _ rfl rfl (by decide)
  obtain ⟨o₆, s₂, h₂, -⟩ := @exists_run_call _ _ _ h hpids 200 (by decide)
    { gettimeofdayCall with rdi := 256 } _ _ rfl rfl (by decide)
  exact ⟨_, s₁, _, s₂, h₁, h₂, rfl, rfl, run_reproducible h₁ h₂ shiftPid 100 rfl,
    run_reproducible h₁ h₂ shiftPid 101 rfl⟩

end Reproduce.Linux
