import Reproduce.Linux.Equiv.Reproducible

/-!
# What the emulated calls deliver

The memory and the result that a tracee finds after an emulated call, byte by byte, and what
`replace_buf` does on a buffer of which nothing more is known than that it is mapped.

`getrandom` keeps to its buffer (`getrandom_delivered`).  `time` writes a whole `struct timespec`
behind a pointer to a `time_t` (`time_returned_iff`), and a copy needs the whole of its last word
(`replaceBuf_exact_iff`).
-/

namespace Reproduce.Linux

open Bytes Effect

/-- The tracked process `c` is the task `t` with memory `m`, at the entry stop of a hooked call and
left alone by everybody else. -/
structure AtCall (env : Env) (c : ChildProcess) (t : Task) (m : Memory) (hook : Hook)
    (s : Tracer World) : Prop where
  attends : Attends env c.pid t.mm
  ok : TableOk s
  tracked : c ∈ s.processTable
  held : Held c.pid t m s.os
  entry : t.state = .stopped .syscallEntry true
  hook : hookOf t.regs.origRax = some hook

variable {env : Env} {c : ChildProcess} {t : Task} {m : Memory} {hook : Hook} {s s' : Tracer World}

namespace AtCall

/-- The call of the handler, up to the switch. -/
theorem run_eq (h : AtCall env c t m hook s) :
    handleSyscall (kernel env) c.addr t.regs s =
      runHook (kernel env) c.addr c.pid t.regs (some hook)
        (s.noted (.handleSyscall c.addr t.regs)) := by
  rw [handleSyscall_eq (kernel env) (h.ok.blockAt_of_mem h.tracked), h.hook]

theorem noted (h : AtCall env c t m hook s) :
    Tracked c.pid s.processTable s.os.heap t m (s.noted (.handleSyscall c.addr t.regs)) :=
  ⟨h.held, rfl, rfl⟩

/-- An emulated call that returns was accepted, and has overwritten its buffer. -/
theorem delivered (h : AtCall env c t m hook s) (hemulated : hook.emulated = true)
    (hrun : handleSyscall (kernel env) c.addr t.regs s = .ok () s') :
    hook.ArgsOk t.regs m s.os.heap ∧
      Tracked c.pid (retime c.addr hook.clock s.processTable) s.os.heap
        (t.emulated t.regs (hook.result t.regs c.gettimeData))
        (m.overwrite (hook.dest t.regs) (hook.output t.regs c.gettimeData)) s' := by
  rw [h.run_eq] at hrun
  have hblock := h.ok.blockAt_of_mem h.tracked
  exact (triple_runHook_emulated h.attends h.entry hblock (h.ok.retime_const h.tracked) t.regs
    hemulated).ok h.noted hrun

/-- A call with good arguments returns. -/
theorem returns (h : AtCall env c t m hook s) (hargs : hook.ArgsOk t.regs m s.os.heap) :
    ∃ s', handleSyscall (kernel env) c.addr t.regs s = .ok () s' := by
  obtain ⟨s', hrun, -⟩ :=
    (handleSyscall_served_iff h.attends h.ok h.tracked h.held h.entry h.hook).mpr hargs
  exact ⟨s', hrun⟩

end AtCall

/-- A first task that is left alone by everybody. -/
theorem atCall_atEntry (b : Boot) {regs : UserRegsStruct} {hook : Hook}
    (hhook : hookOf regs.origRax = some hook) :
    AtCall (finishing b.childPid) ⟨0, b.childPid, initialClock⟩ (b.entryTask regs) b.memory hook
      (b.atEntry regs) where
  attends := attends_finishing b.childPid
  ok := tableOk_atEntry b regs
  tracked := List.mem_singleton.mpr rfl
  held := held_atEntry b regs
  entry := rfl
  hook := hhook

/-! ### `getrandom` -/

/-- The whole words that a copy of `len` bytes touches are accessible. -/
theorem accepts_of_words {m : Memory} {dest : Word} {len : Nat}
    (haccess : ∀ k < 8 * ((len + 7) / 8), m.readable (dest + BitVec.ofNat 64 k) = true ∧
      m.writable (dest + BitVec.ofNat 64 k) = true) : m.Accepts dest len := by
  rw [Memory.accepts_iff_of_mapped fun k hk => haccess k (by omega)]
  intro hpartial k hle hlt
  exact haccess k (by omega)

/-- `getrandom` returns the length of the buffer and fills it with `0x22`; no other byte changes.  A
read behind the staging buffer and a copy loop that does not end would both stop the tracer. -/
theorem getrandom_delivered (h : AtCall env c t m .getrandom s)
    (hlen : (rArg2 t.regs).toNat ≤ PTRDIFF_MAX) (hheap : (rArg2 t.regs).toNat ≤ s.os.heap)
    (haccess : ∀ k < 8 * (((rArg2 t.regs).toNat + 7) / 8),
      m.readable (rArg1 t.regs + BitVec.ofNat 64 k) = true ∧
        m.writable (rArg1 t.regs + BitVec.ofNat 64 k) = true) :
    ∃ s' t', handleSyscall (kernel env) c.addr t.regs s = .ok () s' ∧ s'.os.task c.pid = some t' ∧
      t'.regs.rax = rArg2 t.regs ∧ t'.mm = t.mm ∧
      ∀ a, (s'.os.mem t.mm).byte a =
        if (a - rArg1 t.regs).toNat < (rArg2 t.regs).toNat then 0x22 else m.byte a := by
  have hargs : Hook.ArgsOk t.regs m s.os.heap .getrandom :=
    ⟨fun _ => ⟨hlen, hheap⟩, accepts_of_words haccess⟩
  obtain ⟨s', hrun⟩ := h.returns hargs
  obtain ⟨-, hdone⟩ := h.delivered rfl hrun
  have hmem : s'.os.mem t.mm =
      m.overwrite (rArg1 t.regs) (List.replicate (rArg2 t.regs).toNat 0x22) := hdone.held.mem
  refine ⟨s', _, hrun, hdone.held.task, rfl, rfl, fun a => ?_⟩
  rw [hmem, Memory.byte_overwrite, List.getElem?_replicate]
  split
  · rfl
  · rfl

/-- `getrandom` of ten bytes. -/
def getrandomTenCall : UserRegsStruct := { getrandomCall with rdi := 64, rsi := 10 }

/-- Ten bytes in a memory of all ones: the last word reads like an error. -/
theorem getrandomTenCall_delivered :
    ∃ s' t', handleSyscall (kernel (finishing 100)) 0 getrandomTenCall
        ((Boot.filled 0xff).atEntry getrandomTenCall) = .ok () s' ∧ s'.os.task 100 = some t' ∧
      t'.regs.rax = 10 ∧ t'.mm = 0 ∧
      ∀ a, (s'.os.mem 0).byte a = if (a - 64).toNat < 10 then 0x22 else 0xff := by
  have hcall := @atCall_atEntry (Boot.filled 0xff) getrandomTenCall .getrandom rfl
  exact getrandom_delivered hcall (by decide) (by decide) fun _ _ => ⟨rfl, rfl⟩

/-! ### `time` -/

/-- What `time` promises: it returns, a pointer that is not null receives the value returned, and no
other byte changes. -/
def TimeReturned (env : Env) (c : ChildProcess) (t : Task) (m : Memory) (s : Tracer World) : Prop :=
  ∃ s' t', handleSyscall (kernel env) c.addr t.regs s = .ok () s' ∧ s'.os.task c.pid = some t' ∧
    (rArg1 t.regs ≠ 0 → (s'.os.mem t.mm).wordAt (rArg1 t.regs) = t'.regs.rax) ∧
    ∀ a, (rArg1 t.regs = 0 ∨ 8 ≤ (a - rArg1 t.regs).toNat) → (s'.os.mem t.mm).byte a = m.byte a

/-- The word behind the `time_t` receives the nanoseconds, so the promise is kept on a null pointer,
and where that word can be written and holds the nanoseconds already. -/
theorem time_returned_iff (h : AtCall env c t m .time s) :
    TimeReturned env c t m s ↔
      rArg1 t.regs = 0 ∨ (m.Accepts (rArg1 t.regs) 16 ∧
        m.wordAt (rArg1 t.regs + 8) = c.gettimeData.advance.tvNsec) := by
  constructor
  · rintro ⟨s', t', hrun, ht', -, hframe⟩
    by_cases hnull : rArg1 t.regs = 0
    · exact .inl hnull
    obtain ⟨hargs, hdone⟩ := h.delivered rfl hrun
    have hmem : s'.os.mem t.mm = m.overwrite (rArg1 t.regs) c.gettimeData.advance.bytes := by
      have hheld := hdone.held.mem
      rw [Hook.output, if_neg hnull] at hheld
      exact hheld
    refine .inr ⟨hargs hnull, ?_⟩
    -- the word behind the `time_t` is outside, so it still is what it was
    have hsame : m.wordAt (rArg1 t.regs + 8) = (s'.os.mem t.mm).wordAt (rArg1 t.regs + 8) := by
      refine Memory.wordAt_congr fun j hj => (hframe _ (.inr ?_)).symm
      rw [BitVec.add_assoc, show (8 : Word) = BitVec.ofNat 64 8 from rfl, ← BitVec.ofNat_add,
        Memory.toNat_add_ofNat_sub _ (by omega)]
      omega
    rw [hsame, hmem]
    exact (Memory.wordAt_overwrite_pair m _ _ _).2
  · intro hcondition
    have hargs : Hook.ArgsOk t.regs m s.os.heap .time := fun hnonnull =>
      (hcondition.resolve_left hnonnull).1
    obtain ⟨s', hrun⟩ := h.returns hargs
    obtain ⟨-, hdone⟩ := h.delivered rfl hrun
    refine ⟨s', _, hrun, hdone.held.task, ?_⟩
    have hmem : s'.os.mem t.mm =
        m.overwrite (rArg1 t.regs) (Hook.output t.regs c.gettimeData .time) := hdone.held.mem
    by_cases hnull : rArg1 t.regs = 0
    · rw [Hook.output, if_pos hnull, Memory.overwrite_nil] at hmem
      rw [hmem]
      exact ⟨fun hnonnull => absurd hnull hnonnull, fun a _ => rfl⟩
    · obtain ⟨-, hword⟩ := hcondition.resolve_left hnull
      rw [Hook.output, if_neg hnull] at hmem
      -- what is written behind the `time_t` is what lies there, so only the `time_t` changes
      have hshort : s'.os.mem t.mm =
          m.overwrite (rArg1 t.regs) (wordBytes c.gettimeData.advance.tvSec) := by
        rw [hmem, Timespec.bytes, ← hword]
        exact Memory.overwrite_append_wordAt m _ _
      constructor
      · intro _
        rw [hmem]
        exact (Memory.wordAt_overwrite_pair m _ _ _).1
      · rintro a (hzero | hoff)
        · exact absurd hzero hnull
        · rw [hshort]
          apply Memory.byte_overwrite_of_le
          rw [length_wordBytes]
          exact hoff

/-- In a memory of zeros `time` sets the byte behind its result. -/
theorem not_timeCall_returned :
    AtCall (finishing 100) ⟨0, 100, initialClock⟩ (Boot.sample.entryTask timeCall)
        Boot.sample.memory .time (Boot.sample.atEntry timeCall) ∧
      ¬TimeReturned (finishing 100) ⟨0, 100, initialClock⟩ (Boot.sample.entryTask timeCall)
        Boot.sample.memory (Boot.sample.atEntry timeCall) := by
  have hcall := @atCall_atEntry Boot.sample timeCall .time rfl
  refine ⟨hcall, ?_⟩
  rintro ⟨s', t', hrun, -, -, hframe⟩
  obtain ⟨-, hdone⟩ := hcall.delivered rfl hrun
  have hmem : s'.os.mem 0 = Boot.sample.memory.overwrite 64 initialClock.advance.bytes :=
    hdone.held.mem
  have hbehind : (s'.os.mem 0).byte 72 = 0 := hframe 72 (.inr (by decide))
  rw [hmem] at hbehind
  revert hbehind
  decide

/-- The nanoseconds of the next clock lie at address 72. -/
def Boot.nanosecondsBehind : Boot :=
  { Boot.sample with
    memory := Boot.sample.memory.overwrite 72 (wordBytes initialClock.advance.tvNsec) }

/-- At a null pointer nothing is written, and at address 64 the nanoseconds are written over
themselves. -/
theorem timeCall_returned :
    TimeReturned (finishing 100) ⟨0, 100, initialClock⟩
        (Boot.sample.entryTask { timeCall with rdi := 0 }) Boot.sample.memory
        (Boot.sample.atEntry { timeCall with rdi := 0 }) ∧
      TimeReturned (finishing 100) ⟨0, 100, initialClock⟩
        (Boot.nanosecondsBehind.entryTask timeCall) Boot.nanosecondsBehind.memory
        (Boot.nanosecondsBehind.atEntry timeCall) :=
  ⟨(time_returned_iff (atCall_atEntry Boot.sample rfl)).mpr (.inl rfl),
    (time_returned_iff (atCall_atEntry Boot.nanosecondsBehind rfl)).mpr
      (.inr ⟨by decide, by decide⟩)⟩

/-! ### Copying into a mapped buffer -/

/-- The copy returns; the bytes of the source lie at `dest`, and no other byte has changed. -/
def CopiesExactly (env : Env) (pid : PidT) (t : Task) (m : Memory) (src : List Byte)
    (dest len : Word) (s : Tracer World) : Prop :=
  ∃ s', replaceBuf (kernel env) pid src dest len s = .ok () s' ∧
    ∀ a, (s'.os.mem t.mm).byte a = src[(a - dest).toNat]?.getD (m.byte a)

/-- On a mapped buffer, `replace_buf` needs the rest of the last word as well. -/
theorem replaceBuf_exact_iff {pid : PidT} (henv : Spared env pid t.mm) (hstop : t.isStopped = true)
    (hinitial : t.stop? ≠ some .initial) (hheld : Held pid t m s.os) {src : List Byte} {len : Word}
    (hfits : Fits src len) {dest : Word}
    (hmapped : ∀ k < len.toNat, m.readable (dest + BitVec.ofNat 64 k) = true ∧
      m.writable (dest + BitVec.ofNat 64 k) = true) :
    CopiesExactly env pid t m src dest len s ↔
      (len.toNat % 8 ≠ 0 → ∀ k, len.toNat ≤ k → k < 8 * (len.toNat / 8) + 8 →
        m.readable (dest + BitVec.ofNat 64 k) = true ∧
          m.writable (dest + BitVec.ofNat 64 k) = true) := by
  rw [← Memory.accepts_iff_of_mapped hmapped]
  have htracked : Tracked pid s.processTable s.os.heap t m s := ⟨hheld, rfl, rfl⟩
  have hcopy := @triple_replaceBuf env pid s.processTable s.os.heap t m henv hstop hinitial src len
    hfits dest
  constructor
  · rintro ⟨s', hrun, -⟩
    exact (hcopy.ok htracked hrun).1
  · intro haccepts
    cases hrun : replaceBuf (kernel env) pid src dest len s with
    | ok _ s' =>
      obtain ⟨-, hdone⟩ := hcopy.ok htracked hrun
      refine ⟨s', hrun, fun a => ?_⟩
      rw [hdone.held.mem, Memory.byte_overwrite]
    | error e s' => exact absurd haccepts (hcopy.error htracked hrun).2

/-- One page is mapped. -/
def Boot.onePage : Boot :=
  { Boot.sample with
    memory := ⟨fun _ => 0, fun a => 4096 ≤ a && a < 8192, fun a => 4096 ≤ a && a < 8192⟩ }

/-- The last byte of a page cannot be written without the next page. -/
theorem not_copiesExactly_onePage :
    (∀ k < 1, Boot.onePage.memory.readable (8191 + BitVec.ofNat 64 k) = true ∧
        Boot.onePage.memory.writable (8191 + BitVec.ofNat 64 k) = true) ∧
      ¬CopiesExactly (finishing 100) 100 (Boot.onePage.entryTask getrandomCall) Boot.onePage.memory
        [0x22] 8191 1 (Boot.onePage.atEntry getrandomCall) := by
  refine ⟨fun k hk => ?_, ?_⟩
  · obtain rfl : k = 0 := by omega
    decide
  · rintro ⟨s', hrun, -⟩
    cases hrun

/-- A byte in the middle of a page. -/
theorem copiesExactly_onePage :
    CopiesExactly (finishing 100) 100 (Boot.onePage.entryTask getrandomCall) Boot.onePage.memory
      [0x22] 4096 1 (Boot.onePage.atEntry getrandomCall) := by
  have hmapped : ∀ k < 8, Boot.onePage.memory.readable (4096 + BitVec.ofNat 64 k) = true ∧
      Boot.onePage.memory.writable (4096 + BitVec.ofNat 64 k) = true := by decide
  have hone : (1 : Word).toNat = 1 := rfl
  refine (replaceBuf_exact_iff (attends_finishing 100).spared rfl (by decide)
    (held_atEntry Boot.onePage _)
    ⟨rfl, by decide⟩ fun k hk => hmapped k (by omega)).mpr fun _ k _ hk => hmapped k (by omega)

end Reproduce.Linux
