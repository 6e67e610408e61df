import Reproduce.Tracer.Equiv.Turn

/-!
# The clock counts the calls

For every kernel: a call of `handle_syscall` that returns has advanced the clock of its entry once
when the call is `gettimeofday`, `time` or `clock_gettime`, and not at all otherwise
(`handleSyscall_clock`). So between two turns of the loop the clock of every entry is the initial
clock, advanced as often as `handle_syscall` was called on the entry with one of these (`Timed`).
The trace counts the calls by the address of the entry, which is not used again, so that the count
starts with the insertion.
-/

namespace Reproduce

open Bytes Effect

variable {W : Type} (K : Kernel W)

/-- The calls that read the clock, and advance it. -/
def Hook.readsClock : Hook → Bool
  | .gettimeofday | .time | .clockGettime => true
  | _ => false

/-- A call of `handle_syscall` on the entry at an address that advances its clock. -/
def isClockCall (child : Ptr) : Event W → Bool
  | .call (.handleSyscall p regs) .. => p = child && (hookOf regs.origRax).any Hook.readsClock
  | _ => false

/-- How many calls have advanced the clock of the entry at an address. -/
def clockCalls (child : Ptr) (trace : List (Event W)) : Nat := trace.countP (isClockCall child)

/-- A clock that was advanced `n` times. -/
def Timespec.after (t : Timespec) (n : Nat) : Timespec :=
  ⟨t.tvSec + BitVec.ofNat 64 n, t.tvNsec + BitVec.ofNat 64 n⟩

@[simp] theorem after_zero (t : Timespec) : t.after 0 = t := by
  simp [Timespec.after]

theorem after_succ (t : Timespec) (n : Nat) : t.after (n + 1) = (t.after n).advance := by
  simp [Timespec.after, Timespec.advance, BitVec.ofNat_add, BitVec.add_assoc]

/-! ### The handlers -/

/-- What a handler does to the clock. -/
def clockEffect (hook : Option Hook) : Timespec → Timespec :=
  if hook.any Hook.readsClock then Timespec.advance else id

variable {table : List ChildProcess} {child : Ptr} {pid : PidT} {c : ChildProcess}

/-- A helper keeps the table. -/
theorem triple_helper {α : Type} {m : TracerM W α} (h : Within (Helper pid) m) :
    Triple (fun s => s.processTable = table) m (fun _ s => s.processTable = table)
      (fun _ _ => True) :=
  Triple.intro (fun _ _ _ hs hm => (h.ok hm).1.processTable.trans hs) (fun _ _ _ _ _ => trivial)

theorem triple_deref_table (hc : blockAt table child = some c) :
    Triple (fun s : Tracer W => s.processTable = table) (deref child)
      (fun c' s => c' = c ∧ s.processTable = table) (fun _ _ => True) := by
  intro s hs
  unfold deref
  rw [hs, hc]
  exact ⟨rfl, hs⟩

theorem triple_setClock_table (hc : blockAt table child = some c) (clock : Timespec) :
    Triple (fun s : Tracer W => s.processTable = table) (setClock child clock)
      (fun _ s => s.processTable = retime child (fun _ => clock) table) (fun _ _ => True) := by
  refine Triple.bind (triple_deref_table hc) fun _ s hs => ?_
  rw [← hs.2]
  rfl

theorem triple_writeAndAdvance_table (hc : blockAt table child = some c) (regs : UserRegsStruct)
    (addr : Word) :
    Triple (fun s => s.processTable = table) (writeAndAdvance K child pid regs addr)
      (fun _ s => s.processTable = retime child (fun _ => c.gettimeData.advance) table)
      (fun _ _ => True) := by
  have hrequests := helper_requests K pid
  refine Triple.bind (triple_helper (hrequests.within_childCancelSyscall regs)) fun regs' => ?_
  refine Triple.bind (triple_deref_table hc) fun c₁ => ?_
  rintro s ⟨rfl, hs⟩
  refine Triple.bind (triple_helper (hrequests.within_replaceBuf _ _ _)) (fun _ => ?_) s hs
  refine Triple.bind (triple_deref_table hc) fun c₂ => ?_
  rintro s ⟨rfl, hs⟩
  refine Triple.bind (triple_setClock_table hc _) (fun _ => ?_) s hs
  refine Triple.bind (triple_helper (hrequests.within_childReturns regs' 0)) fun _ => ?_
  exact Triple.pure fun s hs => hs

theorem triple_hookTime_table (hc : blockAt table child = some c) (regs : UserRegsStruct) :
    Triple (fun s => s.processTable = table) (hookTime K child pid regs)
      (fun _ s => s.processTable = retime child (fun _ => c.gettimeData.advance) table)
      (fun _ _ => True) := by
  have hrequests := helper_requests K pid
  have hc' : blockAt (retime child (fun _ => c.gettimeData.advance) table) child =
      some { c with gettimeData := c.gettimeData.advance } := by
    rw [blockAt_retime, hc, Option.map_some, if_pos (blockAt_eq_some hc).2]
  have hwrite : Triple
      (fun s => s.processTable = retime child (fun _ => c.gettimeData.advance) table)
      (writeTime K child pid (rArg1 regs))
      (fun _ s => s.processTable = retime child (fun _ => c.gettimeData.advance) table)
      (fun _ _ => True) := by
    refine Triple.ite (fun _ => ?_) (fun _ => Triple.pure fun s hs => hs)
    refine Triple.bind (triple_deref_table hc') fun c' => ?_
    rintro s ⟨-, hs⟩
    exact triple_helper (hrequests.within_replaceBuf _ _ _) s hs
  refine Triple.bind (triple_helper (hrequests.within_childCancelSyscall regs)) fun regs' => ?_
  refine Triple.bind (triple_deref_table hc) fun c₁ => ?_
  rintro s ⟨rfl, hs⟩
  refine Triple.bind (triple_setClock_table hc _) (fun _ => ?_) s hs
  refine Triple.bind hwrite fun _ => ?_
  refine Triple.bind (triple_deref_table hc') fun c₂ => ?_
  rintro s ⟨-, hs⟩
  refine Triple.bind (triple_helper (hrequests.within_childReturns regs' _)) (fun _ => ?_) s hs
  exact Triple.pure fun s hs => hs

theorem triple_runHook_table (hc : blockAt table child = some c)
    (hone : ∀ f, retime child (fun _ => f c.gettimeData) table = retime child f table)
    (regs : UserRegsStruct) (hook : Option Hook) :
    Triple (fun s => s.processTable = table) (runHook K child pid regs hook)
      (fun _ s => s.processTable = retime child (clockEffect hook) table) (fun _ _ => True) := by
  have hrequests := helper_requests K pid
  have hadvance := hone Timespec.advance
  have hkept : ∀ {m : TracerM W Unit}, Within (Helper pid) m →
      Triple (fun s => s.processTable = table) m
        (fun _ s => s.processTable = retime child id table) (fun _ _ => True) := by
    intro m hm
    rw [retime_id]
    exact triple_helper hm
  match hook with
  | none => exact hkept (Within.pure ())
  | some .getrandom => exact hkept (hrequests.within_hookGetrandom (hrequests.malloc _))
  | some .openat | some .open |
    some .openat2 => exact hkept (hrequests.within_redirectDevRandom regs)
  | some .gettimeofday | some .clockGettime =>
    exact hadvance ▸ triple_writeAndAdvance_table K hc regs _
  | some .time => exact hadvance ▸ triple_hookTime_table K hc regs

/-- A handler that returns has advanced the clock of its entry once, or not at all. -/
theorem handleSyscall_clock {s s' : Tracer W} (hok : TableOk s) (hc : c ∈ s.processTable)
    {regs : UserRegsStruct} (hrun : handleSyscall K c.addr regs s = .ok () s') :
    s'.processTable = retime c.addr (clockEffect (hookOf regs.origRax)) s.processTable := by
  have hblock := hok.blockAt_of_mem hc
  rw [handleSyscall_eq K hblock] at hrun
  have hnoted : (s.noted (.handleSyscall c.addr regs)).processTable = s.processTable := rfl
  exact (triple_runHook_table K hblock (hok.retime_const hc) regs _).ok hnoted hrun

/-! ### The invariant -/

/-- Every clock is the initial clock, advanced once for each call; an address that was not given out
yet has had no calls. -/
structure Timed (s : Tracer W) : Prop where
  ok : TableOk s
  clocks : ∀ c ∈ s.processTable, c.gettimeData = initialClock.after (clockCalls c.addr s.trace)
  unused : ∀ p, s.nextAddr ≤ p → clockCalls p s.trace = 0

theorem clockCalls_cons_of_not {e : Event W} (h : isClockCall child e = false)
    (trace : List (Event W)) : clockCalls child (e :: trace) = clockCalls child trace :=
  List.countP_cons_of_neg (by simp [h])

theorem OnProcess.not_clockCall {e : Event W} (h : OnProcess pid e) (p : Ptr) :
    isClockCall p e = false := by
  match e with
  | .ptrace .. | .wait .. | .malloc .. => rfl
  | .call (.removeVdso _) .. => rfl
  | .call (.insertProcess _) .. | .call (.deleteProcess _) .. | .call (.handleSyscall ..) .. =>
    exact h.elim

/-- What is done for a process counts for no entry. -/
theorem clockCalls_of_extends {s s' : Tracer W} (h : Extends (OnProcess pid) s s') (p : Ptr) :
    clockCalls p s'.trace = clockCalls p s.trace := by
  obtain ⟨new, hnew, hevents⟩ := h
  have hnone : new.countP (isClockCall p) = 0 := by
    rw [List.countP_eq_zero]
    intro e he
    simp [(hevents e he).not_clockCall p]
  rw [clockCalls, hnew, List.countP_append, hnone, Nat.zero_add]
  rfl

namespace Timed

variable {s s' : Tracer W}

theorem start (os : W) : Timed (Tracer.start os) where
  ok := tableOk_start os
  clocks _ hc := absurd hc List.not_mem_nil
  unused _ _ := rfl

/-- The table is as before and no call was added. -/
theorem kept (h : Timed s) (htable : TableKept s s')
    (hcalls : ∀ p, clockCalls p s'.trace = clockCalls p s.trace) : Timed s' where
  ok := h.ok.tableKept htable
  clocks c hc := by
    rw [htable.processTable] at hc
    rw [hcalls]
    exact h.clocks c hc
  unused p hp := by
    rw [htable.nextAddr] at hp
    rw [hcalls]
    exact h.unused p hp

theorem helper (h : Timed s) (hs : Helper pid s s') : Timed s' :=
  h.kept hs.1 (clockCalls_of_extends hs.2)

theorem asked (h : Timed s) (r : Request) : Timed (s.asked K r) :=
  h.kept ⟨rfl, rfl, rfl⟩ fun _ => clockCalls_cons_of_not rfl _

theorem waited (h : Timed s) (target : WaitTarget) : Timed (s.waited K target) :=
  h.kept ⟨rfl, rfl, rfl⟩ fun _ => clockCalls_cons_of_not rfl _

theorem deleted (h : Timed s) (pid : PidT) : Timed (s.deleted pid) where
  ok := h.ok.deleted pid
  clocks c hc := by
    rw [h.ok.processTable_deleted] at hc
    rw [trace_deleted, clockCalls_cons_of_not rfl]
    exact h.clocks c (List.mem_filter.mp hc).1
  unused p hp := by
    have hnext : (s.deleted pid).nextAddr = s.nextAddr := by
      unfold Tracer.deleted
      split <;> rfl
    rw [hnext] at hp
    rw [trace_deleted, clockCalls_cons_of_not rfl]
    exact h.unused p hp

theorem allocated (h : Timed s) (pid : PidT) : Timed (s.allocated K pid) :=
  h.kept ⟨rfl, rfl, rfl⟩ fun _ =>
    (clockCalls_cons_of_not rfl _).trans (clockCalls_cons_of_not rfl _)

/-- A new entry starts with the initial clock, and with no calls. -/
theorem inserted (h : Timed s) (hfind : hashFind s.processTable pid = none) :
    Timed (s.inserted pid) where
  ok := h.ok.inserted hfind
  clocks c hc := by
    rcases List.mem_cons.mp hc with rfl | hc
    · show initialClock = initialClock.after (clockCalls s.nextAddr s.trace)
      rw [h.unused s.nextAddr le_rfl, after_zero]
    · exact h.clocks c hc
  unused p hp := by
    have hlt : s.nextAddr + 1 ≤ p := hp
    exact h.unused p (Nat.le_of_succ_le hlt)

theorem insertProcess {added : Bool} (h : Timed s)
    (hrun : Reproduce.insertProcess K pid s = .ok added s') : Timed s' := by
  rw [insertProcess_eq] at hrun
  split at hrun
  · cases hrun
    exact h
  · next hfind =>
    split at hrun
    · cases hrun
      exact (h.allocated K pid).inserted (Option.not_isSome_iff_eq_none.mp hfind)
    · cases hrun

theorem procInit {scan : Nat} (h : Timed s) (hrun : Reproduce.procInit K scan pid s = .ok () s') :
    Timed s' :=
  h.helper ((helper_procInit K scan pid).ok hrun)

theorem registerForkEvent {status : Status} (h : Timed s)
    (hrun : Reproduce.registerForkEvent K pid status s = .ok () s') : Timed s' := by
  unfold Reproduce.registerForkEvent at hrun
  split at hrun
  · cases register_cases hrun with
    | vanished | known => exact h.asked K _
    | @inserted message q status hmessage hfind hwait hresume =>
      have hinserted :=
        ((h.asked K (.geteventmsg pid)).allocated K (childOf message)).inserted hfind
      exact (hinserted.waited K _).asked K _
  · cases hrun
    exact h

/-- A call of `handle_syscall` counts for the entry it was made on. -/
theorem handleSyscall (h : Timed s) (hc : c ∈ s.processTable) {regs : UserRegsStruct}
    (hrun : Reproduce.handleSyscall K c.addr regs s = .ok () s') : Timed s' := by
  have hhandler := within_handleSyscall K regs (h.ok.blockAt_of_mem hc)
  rw [hrun] at hhandler
  obtain ⟨hclockOnly, hevents⟩ := hhandler
  have htable := handleSyscall_clock K h.ok hc hrun
  have hcalls : ∀ p, clockCalls p s'.trace =
      clockCalls p (s.noted (.handleSyscall c.addr regs)).trace := clockCalls_of_extends hevents
  -- the call counts for no other entry
  have hother : ∀ p ≠ c.addr, clockCalls p s'.trace = clockCalls p s.trace := by
    intro p hp
    rw [hcalls]
    exact clockCalls_cons_of_not (by simp [isClockCall, Ne.symm hp]) _
  constructor
  · exact h.ok.clockOnly ⟨hclockOnly.processTable, hclockOnly.entryCount, hclockOnly.nextAddr⟩
  · intro d hd
    rw [htable] at hd
    obtain ⟨d₀, hd₀, rfl⟩ := List.mem_map.mp hd
    by_cases haddr : d₀.addr = c.addr
    · rw [if_pos haddr]
      show clockEffect (hookOf regs.origRax) d₀.gettimeData = initialClock.after
        (clockCalls d₀.addr _)
      rw [h.clocks d₀ hd₀, haddr, hcalls]
      -- the clock advances exactly with the hooks that read it
      by_cases hreads : (hookOf regs.origRax).any Hook.readsClock = true
      · have hone : clockCalls c.addr (s.noted (.handleSyscall c.addr regs)).trace =
            clockCalls c.addr s.trace + 1 := List.countP_cons_of_pos (by simp [isClockCall, hreads])
        rw [hone, after_succ, clockEffect, if_pos hreads]
      · have hnone : clockCalls c.addr (s.noted (.handleSyscall c.addr regs)).trace =
            clockCalls c.addr s.trace := clockCalls_cons_of_not (by simp [isClockCall, hreads]) _
        rw [hnone, clockEffect, if_neg hreads]
        rfl
    · rw [if_neg haddr, hother _ haddr]
      exact h.clocks d₀ hd₀
  · intro p hp
    have hnext : s'.nextAddr = s.nextAddr := hclockOnly.nextAddr
    rw [hnext] at hp
    -- an address that was not handed out is none of a call
    have hlt : c.addr < p := Nat.lt_of_lt_of_le (h.ok.fresh c hc) hp
    rw [hother p (Nat.ne_of_gt hlt)]
    exact h.unused p hp

/-- One turn of the loop. -/
theorem turned {scan : Nat} (h : Timed s) (hs : Turned K scan s s') : Timed s' := by
  have hwaited := h.waited K none
  cases hs with
  | died hwait hdead => exact hwaited.deleted _
  | execd hwait hlive hexec hinit => exact hwaited.procInit K hinit
  | unexpected hwait hlive hexec hregister hfind hinit hinsert =>
    have hregistered := hwaited.registerForkEvent K hregister
    exact (hregistered.procInit K hinit).insertProcess K hinsert
  | handled hwait hlive hexec hregister hfind hregs hhandle hresume =>
    have hregistered := hwaited.registerForkEvent K hregister
    have hhandled := (hregistered.asked K _).handleSyscall K (hashFind_eq_some hfind).1 hhandle
    rcases hresume with ⟨-, rfl⟩ | ⟨-, rfl⟩
    · exact hhandled.asked K _
    · exact (hhandled.asked K _).deleted _

end Timed

end Reproduce
