import Reproduce.Tracer.Events

/-!
# What the functions of the tracer leave alone

For every kernel, whatever it answers: the helpers of `putils.c` and `vdso.c` do not touch the
process table (`Helper`), `handle_syscall` changes at most the clock of the entry it was given
(`within_handleSyscall`), and both make requests about one process only.

A relation that holds across every request a helper makes holds across the helper.  This is shown
once for all relations: `Pokes` and `Requests` list the requests, and the lemmas of their namespaces
go through the helpers.
-/

namespace Reproduce

open Bytes Effect

variable {W : Type} (K : Kernel W)

/-! ### Relations -/

/-- The trace grew by events with `φ`. -/
def Extends (φ : Event W → Prop) (s s' : Tracer W) : Prop :=
  ∃ new, s'.trace = new ++ s.trace ∧ ∀ e ∈ new, φ e

instance (φ : Event W → Prop) : IsPreorder (Tracer W) (Extends φ) where
  refl s := ⟨[], rfl, fun _ h => nomatch h⟩
  trans := by
    rintro s s' s'' ⟨new, h, hφ⟩ ⟨new', h', hφ'⟩
    refine ⟨new' ++ new, by rw [h', h, List.append_assoc], fun e he => ?_⟩
    rcases List.mem_append.mp he with he | he
    · exact hφ' e he
    · exact hφ e he

theorem Extends.mono {φ ψ : Event W → Prop} (h : ∀ e, φ e → ψ e) {s s' : Tracer W} :
    Extends φ s s' → Extends ψ s s' := by
  rintro ⟨new, hnew, hφ⟩
  exact ⟨new, hnew, fun e he => h e (hφ e he)⟩

/-- Since the list was `l₀`, something with `φ` was put in front of it. -/
def Added {α : Type} (φ : α → Prop) (l₀ l : List α) : Prop :=
  ∃ new, l = new ++ l₀ ∧ ∃ a ∈ new, φ a

theorem Added.append {α : Type} {φ : α → Prop} {l₀ l : List α} (h : Added φ l₀ l)
    (new : List α) : Added φ l₀ (new ++ l) := by
  obtain ⟨old, rfl, a, ha, hφ⟩ := h
  exact ⟨new ++ old, (List.append_assoc ..).symm, a, List.mem_append_right _ ha, hφ⟩

theorem Added.suffix {α : Type} {φ : α → Prop} {l₀ l l' : List α} (h : Added φ l₀ l)
    (hl : l <:+ l') : Added φ l₀ l' := by
  obtain ⟨new, rfl⟩ := hl
  exact h.append new

theorem added_of_suffix {α : Type} {φ : α → Prop} {l₀ l l' : List α} (hl : l₀ <:+ l)
    (h : Added φ l l') : Added φ l₀ l' := by
  obtain ⟨old, rfl⟩ := hl
  obtain ⟨new, rfl, a, ha, hφ⟩ := h
  exact ⟨new ++ old, (List.append_assoc ..).symm, a, List.mem_append_left _ ha, hφ⟩

theorem added_cons {α : Type} {φ : α → Prop} {l₀ l : List α} {a : α} (hl : l₀ <:+ l) :
    Added φ l₀ (a :: l) ↔ Added φ l₀ l ∨ φ a := by
  obtain ⟨old, rfl⟩ := hl
  constructor
  · rintro ⟨new, hnew, b, hb, hφ⟩
    rw [← List.cons_append] at hnew
    rw [← List.append_cancel_right hnew] at hb
    rcases List.mem_cons.mp hb with rfl | hb
    · exact .inr hφ
    · exact .inl ⟨old, rfl, b, hb, hφ⟩
  · rintro (hadded | hφ)
    · exact hadded.suffix (List.suffix_cons _ _)
    · exact ⟨a :: old, rfl, a, List.mem_cons_self, hφ⟩

/-- The process table, its counter and the allocator are as before. -/
structure TableKept (s s' : Tracer W) : Prop where
  processTable : s'.processTable = s.processTable
  entryCount : s'.entryCount = s.entryCount
  nextAddr : s'.nextAddr = s.nextAddr

theorem TableKept.refl (s : Tracer W) : TableKept s s := ⟨rfl, rfl, rfl⟩

theorem TableKept.trans {s s' s'' : Tracer W} (h : TableKept s s') (h' : TableKept s' s'') :
    TableKept s s'' :=
  ⟨h'.processTable.trans h.processTable, h'.entryCount.trans h.entryCount,
    h'.nextAddr.trans h.nextAddr⟩

/-- The table with the clock of the entry at `child` replaced. -/
def retime (child : Ptr) (f : Timespec → Timespec) (table : List ChildProcess) :
    List ChildProcess :=
  table.map fun c => if c.addr = child then { c with gettimeData := f c.gettimeData } else c

theorem retime_id (child : Ptr) (table : List ChildProcess) : retime child id table = table := by
  unfold retime
  rw [List.map_congr_left (g := id), List.map_id]
  intro c _
  split <;> rfl

theorem retime_retime (child : Ptr) (f g : Timespec → Timespec) (table : List ChildProcess) :
    retime child g (retime child f table) = retime child (g ∘ f) table := by
  unfold retime
  rw [List.map_map]
  refine List.map_congr_left fun c _ => ?_
  by_cases h : c.addr = child
  · simp [h]
  · simp [h]

/-- The table has the same entries in the same order, and only the clock of `child` may differ. -/
structure ClockOnly (child : Ptr) (s s' : Tracer W) : Prop where
  processTable : ∃ f, s'.processTable = retime child f s.processTable
  entryCount : s'.entryCount = s.entryCount
  nextAddr : s'.nextAddr = s.nextAddr

theorem TableKept.clockOnly {s s' : Tracer W} (h : TableKept s s') (child : Ptr) :
    ClockOnly child s s' :=
  ⟨⟨id, by rw [retime_id, h.processTable]⟩, h.entryCount, h.nextAddr⟩

theorem ClockOnly.refl (child : Ptr) (s : Tracer W) : ClockOnly child s s :=
  (TableKept.refl s).clockOnly child

theorem ClockOnly.trans {child : Ptr} {s s' s'' : Tracer W} (h : ClockOnly child s s')
    (h' : ClockOnly child s' s'') : ClockOnly child s s'' := by
  obtain ⟨f, hf⟩ := h.processTable
  obtain ⟨g, hg⟩ := h'.processTable
  exact ⟨⟨g ∘ f, by rw [hg, hf, retime_retime]⟩, h'.entryCount.trans h.entryCount,
    h'.nextAddr.trans h.nextAddr⟩

/-! ### Requests, waits, allocations -/

/-- The state after a call is recorded. -/
def Tracer.noted (s : Tracer W) (c : Call) : Tracer W :=
  { s with trace := .call c s.processTable s.os :: s.trace }

theorem note_apply (c : Call) (s : Tracer W) : note c s = .ok () (s.noted c) := rfl

/-- The state after a `ptrace` request. -/
def Tracer.asked (s : Tracer W) (r : Request) : Tracer W :=
  { s with os := (K.ptrace r s.os).2, trace := .ptrace r (K.ptrace r s.os).1 :: s.trace }

theorem ptrace_apply (r : Request) (s : Tracer W) :
    ptrace K r s = .ok (K.ptrace r s.os).1 (s.asked K r) := rfl

theorem triple_ptrace (r : Request) (P : Tracer W → Prop) (E : Halt → Tracer W → Prop) :
    Triple P (ptrace K r)
      (fun answer s => ∃ s₀, P s₀ ∧ (K.ptrace r s₀.os).1 = answer ∧ s = s₀.asked K r) E :=
  fun s hs => ⟨s, hs, rfl, rfl⟩

/-- The state after a `waitpid`. -/
def Tracer.waited (s : Tracer W) (target : WaitTarget) : Tracer W :=
  { s with
    os := (K.waitpid target s.os).2
    trace := .wait target (K.waitpid target s.os).1 :: s.trace }

theorem waitpid_apply (target : WaitTarget) (s : Tracer W) :
    waitpid K target s =
      match (K.waitpid target s.os).1 with
      | none => .error .blocked (s.waited K target)
      | some answer => .ok answer (s.waited K target) := rfl

theorem waitpid_of_some {target : WaitTarget} {s : Tracer W} {answer : Except Errno (PidT × Status)}
    (h : (K.waitpid target s.os).1 = some answer) :
    waitpid K target s = .ok answer (s.waited K target) := by
  rw [waitpid_apply, h]

/-- `PTRACE_RETURN` returns after a success, or after an `ESRCH`. -/
theorem ptraceReturn_eq_ok {r : Request} {s s' : Tracer W} {more : Bool}
    (h : ptraceReturn K r s = .ok more s') :
    s' = s.asked K r ∧
      ((more = true ∧ ∃ reply, (K.ptrace r s.os).1 = .ok reply) ∨
        (more = false ∧ (K.ptrace r s.os).1 = .error .ESRCH)) := by
  rw [ptraceReturn, bind_apply_ok (ptrace_apply K r s)] at h
  cases hanswer : (K.ptrace r s.os).1 with
  | ok reply =>
    rw [hanswer] at h
    cases h
    exact ⟨rfl, .inl ⟨rfl, reply, rfl⟩⟩
  | error e =>
    rw [hanswer] at h
    dsimp only at h
    split at h
    · next he =>
      cases h
      exact ⟨rfl, .inr ⟨rfl, by rw [he]⟩⟩
    · cases h

theorem waitpidOrExit_eq_ok {pid : PidT} {s s' : Tracer W} {status : Status}
    (h : waitpidOrExit K pid s = .ok status s') :
    s' = s.waited K (some pid) ∧
      ∃ q, (K.waitpid (some pid) s.os).1 = some (.ok (q, status)) := by
  obtain ⟨answer, s₁, hwait, h⟩ := bind_eq_ok.mp h
  rw [waitpid_apply] at hwait
  cases hanswer : (K.waitpid (some pid) s.os).1 with
  | none =>
    rw [hanswer] at hwait
    cases hwait
  | some answer' =>
    rw [hanswer] at hwait
    cases hwait
    cases answer with
    | error e => cases h
    | ok p =>
      cases h
      exact ⟨rfl, p.1, rfl⟩

theorem malloc_small (s : Tracer W) {size : Nat} (h : size ≤ PTRDIFF_MAX) :
    malloc K size s = .ok (K.malloc size s.os).1
      { s with
        os := (K.malloc size s.os).2
        trace := .malloc size (K.malloc size s.os).1 :: s.trace } :=
  if_neg (Nat.not_lt.mpr h)

theorem malloc_large (s : Tracer W) {size : Nat} (h : PTRDIFF_MAX < size) :
    malloc K size s = .ok false { s with trace := .malloc size false :: s.trace } :=
  if_pos h

/-! ### Relations that hold across requests -/

variable {R : Tracer W → Tracer W → Prop} {pid : PidT}

/-- `R` holds across every look at the memory of a process, and every change to the
static buffer. -/
structure Looks (R : Tracer W → Tracer W → Prop) (pid : PidT) : Prop where
  peek : ∀ place, Within R (ptrace K (.peek pid place))
  buffer : ∀ s f, R s { s with buffer := f }

/-- `R` holds across every look at the memory of a process and every change to it. -/
structure Pokes (R : Tracer W → Tracer W → Prop) (pid : PidT) : Prop where
  peek : ∀ place, Within R (ptrace K (.peek pid place))
  poke : ∀ addr data, Within R (ptrace K (.pokedata pid addr data))

/-- `R` holds across every request to a process that is handled and every wait for it. -/
structure Drives (R : Tracer W → Tracer W → Prop) (pid : PidT) : Prop extends Pokes K R pid where
  setregs : ∀ regs, Within R (ptrace K (.setregs pid regs))
  resume : Within R (ptrace K (.syscall pid 0))
  wait : Within R (waitpid K (some pid))

/-- `R` holds across everything a helper does. -/
structure Requests (R : Tracer W → Tracer W → Prop) (pid : PidT) : Prop extends Drives K R pid where
  malloc : ∀ size, Within R (malloc K size)
  buffer : ∀ s f, R s { s with buffer := f }

variable {K} [IsPreorder (Tracer W) R]

theorem within_ptraceReturn {r : Request} (h : Within R (ptrace K r)) :
    Within R (ptraceReturn K r) := by
  refine Within.bind h fun answer => ?_
  cases answer with
  | error e => exact Within.ite (fun _ => Within.pure _) (fun _ => Within.throw _)
  | ok _ => exact Within.pure _

theorem within_waitpidOrExit (h : Within R (waitpid K (some pid))) :
    Within R (waitpidOrExit K pid) := by
  refine Within.bind h fun answer => ?_
  cases answer with
  | error e => exact Within.throw _
  | ok p => exact Within.pure _

/-- A checked look goes on from its request. -/
theorem peekReturn_from (place : Peek) (s : Tracer W) :
    R (s.asked K (.peek pid place)) (finalState (peekReturn K pid place s)) := by
  rw [peekReturn, bind_apply_ok (ptrace_apply K _ s)]
  cases (K.ptrace (.peek pid place) s.os).1 with
  | error e => exact Within.ite (fun _ => Within.pure _) (fun _ => Within.throw _) _
  | ok val => exact Within.ite (fun _ => Within.throw _) (fun _ => Within.pure _) _

namespace Pokes

theorem within_peekReturn (h : Pokes K R pid) (place : Peek) :
    Within R (peekReturn K pid place) :=
  fun s => IsTrans.trans _ _ _ (h.peek place s) (peekReturn_from place s)

theorem within_pokeWord (h : Pokes K R pid) (src : List Byte) (dest len i : Word) :
    Within R (pokeWord K pid src dest len i) := by
  refine Within.ite (fun _ => ?_) (fun _ => Within.pure _)
  refine Within.bind (Within.ite (fun _ => Within.pure _) (fun _ => Within.throw _)) fun word => ?_
  refine Within.bind (within_ptraceReturn (h.poke _ _)) fun more => ?_
  exact Within.ite (fun _ => Within.pure _) (fun _ => Within.pure _)

theorem within_pokeTail (h : Pokes K R pid) (src : List Byte) (dest len i : Word) :
    Within R (pokeTail K pid src dest len i) := by
  refine Within.bind (h.peek _) fun answer => ?_
  cases answer with
  | error e => exact Within.ite (fun _ => Within.pure _) (fun _ => Within.throw _)
  | ok word =>
    refine Within.bind (Within.ite (fun _ => Within.pure _) (fun _ => Within.throw _)) fun _ => ?_
    exact Within.bind (within_ptraceReturn (h.poke _ _)) fun _ => Within.pure _

theorem within_replaceBuf (h : Pokes K R pid) (src : List Byte) (dest len : Word) :
    Within R (replaceBuf K pid src dest len) := by
  refine Within.bind (Within.loop (h.within_pokeWord src dest len) _ _) fun answer => ?_
  cases answer with
  | none => exact Within.pure _
  | some i => exact Within.ite (fun _ => h.within_pokeTail _ _ _ _) (fun _ => Within.pure _)

theorem within_skipWord (h : Pokes K R pid) (st : Word × Nat) : Within R (skipWord K pid st) := by
  obtain ⟨pos, zeroCount⟩ := st
  refine Within.ite (fun _ => ?_) (fun _ => Within.pure _)
  refine Within.bind (h.within_peekReturn _) fun answer => ?_
  cases answer with
  | none => exact Within.pure _
  | some val => exact Within.pure _

theorem within_searchWord (h : Pokes K R pid) (st : Word × Word) :
    Within R (searchWord K pid st) := by
  obtain ⟨pos, val⟩ := st
  refine Within.ite (fun _ => Within.pure _) (fun _ => ?_)
  refine Within.ite (fun _ => ?_) (fun _ => ?_)
  · exact Within.bind (within_ptraceReturn (h.poke _ _)) fun _ => Within.pure _
  · refine Within.bind (h.within_peekReturn _) fun answer => ?_
    cases answer with
    | none => exact Within.pure _
    | some val' => exact Within.pure _

/-- `remove_vdso` records its call first. -/
theorem removeVdso_from (h : Pokes K R pid) (scan : Nat) (s : Tracer W) :
    R (s.noted (.removeVdso pid)) (finalState (removeVdso K scan pid s)) := by
  rw [removeVdso, bind_apply_ok (note_apply _ s)]
  refine Within.bind (h.within_peekReturn _) (fun rsp => ?_) _
  cases rsp with
  | none => exact Within.pure _
  | some rsp =>
    refine Within.bind (Within.loop h.within_skipWord _ _) fun pos => ?_
    cases pos with
    | none => exact Within.pure _
    | some pos =>
      refine Within.bind (h.within_peekReturn _) fun val => ?_
      cases val with
      | none => exact Within.pure _
      | some val => exact Within.loop h.within_searchWord _ _

theorem procInit_from (h : Pokes K R pid) (hresume : Within R (ptrace K (.syscall pid 0)))
    (scan : Nat) (s : Tracer W) :
    R (s.noted (.removeVdso pid)) (finalState (procInit K scan pid s)) :=
  Within.bind_from (h.removeVdso_from scan s) fun _ =>
    Within.bind (within_ptraceReturn hresume) fun _ => Within.pure _

theorem within_procInit (h : Pokes K R pid) (hresume : Within R (ptrace K (.syscall pid 0)))
    (hnote : ∀ s, R s (s.noted (.removeVdso pid))) (scan : Nat) :
    Within R (procInit K scan pid) :=
  fun s => IsTrans.trans _ _ _ (hnote s) (h.procInit_from hresume scan s)

end Pokes

namespace Looks

theorem within_storeBuffer (h : Looks K R pid) (i : Nat) (b : Byte) :
    Within R (storeBuffer i b : TracerM W Unit) := by
  intro s
  unfold storeBuffer
  split
  · exact h.buffer s _
  · exact Std.Refl.refl s

theorem within_storeChunk (h : Looks K R pid) (bs : List Byte) (length : Nat) :
    Within R (storeChunk length bs : TracerM W Unit) := by
  -- over the bytes of the chunk
  induction bs generalizing length with
  | nil => exact Within.pure _
  | cons b bs ih => exact Within.bind (h.within_storeBuffer length b) fun _ => ih _

/-- An iteration that has room left looks at its word first. -/
theorem readChunk_from (h : Looks K R pid) {st : Word × Nat} (hroom : st.2 < MAX_BUFFER_SIZE - 1)
    (s : Tracer W) :
    R (s.asked K (.peek pid (.data st.1))) (finalState (readChunk K pid st s)) := by
  obtain ⟨raddr, length⟩ := st
  rw [readChunk, if_pos hroom]
  refine Within.bind_from (peekReturn_from _ s) fun answer => ?_
  cases answer with
  | none => exact Within.pure _
  | some word =>
    refine Within.ite (fun _ => ?_) (fun _ => ?_)
    · exact Within.bind (h.within_storeChunk _ _) fun _ => Within.pure _
    · refine Within.bind (h.within_storeChunk _ _) fun _ => ?_
      exact Within.ite (fun _ => Within.pure _) (fun _ => Within.pure _)

theorem within_readChunk (h : Looks K R pid) (st : Word × Nat) :
    Within R (readChunk K pid st) := by
  intro s
  by_cases hroom : st.2 < MAX_BUFFER_SIZE - 1
  · exact IsTrans.trans _ _ _ (h.peek _ s) (h.readChunk_from hroom s)
  · rw [readChunk, if_neg hroom]
    exact Within.pure _ s

/-- `read_child_c_string` looks at the word at its address first. -/
theorem readChildCString_from (h : Looks K R pid) (raddr : Word) (s : Tracer W) :
    R (s.asked K (.peek pid (.data raddr))) (finalState (readChildCString K raddr pid s)) := by
  have hroom : (raddr, 0).2 < MAX_BUFFER_SIZE - 1 := Nat.succ_pos 1022
  have hfirst := h.readChunk_from hroom s
  refine Within.bind_from (Within.loop_from h.within_readChunk hfirst 127) fun answer => ?_
  cases answer with
  | none => exact Within.pure _
  | some length => exact Within.bind (h.within_storeBuffer _ _) fun _ => Within.pure _

theorem within_readChildCString (h : Looks K R pid) (raddr : Word) :
    Within R (readChildCString K raddr pid) :=
  fun s => IsTrans.trans _ _ _ (h.peek _ s) (h.readChildCString_from raddr s)

end Looks

/-! ### The handlers -/

theorem Requests.within_deref (p : Ptr) : Within R (deref p : TracerM W ChildProcess) := by
  intro s
  unfold deref
  split <;> exact Std.Refl.refl s

namespace Drives

theorem within_childReturns (h : Drives K R pid) (regs : UserRegsStruct) (data : Word) :
    Within R (childReturns K pid regs data) :=
  Within.bind (within_ptraceReturn (h.setregs _)) fun _ => Within.pure _

theorem within_resumeAndWait (h : Drives K R pid) : Within R (resumeAndWait K pid) := by
  refine Within.bind (within_ptraceReturn h.resume) fun more => ?_
  refine Within.ite (fun _ => ?_) (fun _ => Within.pure _)
  refine Within.bind (within_waitpidOrExit h.wait) fun status => ?_
  exact Within.ite (fun _ => Within.throw _) (fun _ => Within.pure _)

theorem within_childCancelSyscall (h : Drives K R pid) (regs : UserRegsStruct) :
    Within R (childCancelSyscall K pid regs) := by
  refine Within.bind (within_ptraceReturn (h.setregs _)) fun more => ?_
  refine Within.ite (fun _ => ?_) (fun _ => Within.pure _)
  exact Within.bind h.within_resumeAndWait fun _ => Within.pure _

theorem within_hookGetrandom (h : Drives K R pid) {regs : UserRegsStruct}
    (hmalloc : Within R (malloc K (rArg2 regs).toNat)) :
    Within R (hookGetrandom K pid regs) := by
  refine Within.bind (h.within_childCancelSyscall regs) fun regs' => ?_
  refine Within.bind hmalloc fun testdata => ?_
  refine Within.ite (fun _ => Within.throw _) (fun _ => ?_)
  refine Within.bind (h.within_replaceBuf _ _ _) fun _ => ?_
  exact Within.bind (h.within_childReturns regs' _) fun _ => Within.pure _

variable {child : Ptr}

theorem within_writeAndAdvance (h : Drives K R pid)
    (hclock : ∀ t, Within R (setClock child t : TracerM W Unit)) (regs : UserRegsStruct)
    (addr : Word) : Within R (writeAndAdvance K child pid regs addr) := by
  refine Within.bind (h.within_childCancelSyscall regs) fun regs' => ?_
  refine Within.bind (Requests.within_deref child) fun c => ?_
  refine Within.bind (h.within_replaceBuf _ _ _) fun _ => ?_
  refine Within.bind (Requests.within_deref child) fun c' => ?_
  refine Within.bind (hclock _) fun _ => ?_
  exact Within.bind (h.within_childReturns regs' _) fun _ => Within.pure _

theorem within_writeTime (h : Drives K R pid) (timeArg : Word) :
    Within R (writeTime K child pid timeArg) := by
  refine Within.ite (fun _ => ?_) (fun _ => Within.pure _)
  exact Within.bind (Requests.within_deref child) fun c => h.within_replaceBuf _ _ _

theorem within_hookTime (h : Drives K R pid)
    (hclock : ∀ t, Within R (setClock child t : TracerM W Unit)) (regs : UserRegsStruct) :
    Within R (hookTime K child pid regs) := by
  refine Within.bind (h.within_childCancelSyscall regs) fun regs' => ?_
  refine Within.bind (Requests.within_deref child) fun c => ?_
  refine Within.bind (hclock _) fun _ => ?_
  refine Within.bind (h.within_writeTime _) fun _ => ?_
  refine Within.bind (Requests.within_deref child) fun c' => ?_
  exact Within.bind (h.within_childReturns regs' _) fun _ => Within.pure _

/-- In an emulated call there is one allocation, the block of `getrandom`. -/
theorem within_runHook (h : Drives K R pid)
    (hclock : ∀ t, Within R (setClock child t : TracerM W Unit)) (regs : UserRegsStruct)
    {hook : Hook} (hemulated : hook.emulated = true)
    (hmalloc : hook = .getrandom → Within R (malloc K (rArg2 regs).toNat)) :
    Within R (runHook K child pid regs (some hook)) := by
  match hook with
  | .getrandom => exact h.within_hookGetrandom (hmalloc rfl)
  | .gettimeofday => exact h.within_writeAndAdvance hclock regs _
  | .time => exact h.within_hookTime hclock regs
  | .clockGettime => exact h.within_writeAndAdvance hclock regs _

end Drives

namespace Requests

omit [IsPreorder (Tracer W) R] in
theorem looks (h : Requests K R pid) : Looks K R pid := ⟨h.peek, h.buffer⟩

theorem within_strcmpEq (str : CharPtr) (literal : List Byte) :
    Within R (strcmpEq str literal : TracerM W Bool) := by
  intro s
  cases str <;> exact Std.Refl.refl s

/-- The path of an open call is read at its second argument. -/
theorem redirectDevRandom_from (h : Requests K R pid) (regs : UserRegsStruct) (s : Tracer W) :
    R (s.asked K (.peek pid (.data (rArg2 regs))))
      (finalState (redirectDevRandom K pid regs s)) := by
  refine Within.bind_from (h.looks.readChildCString_from _ s) fun str => ?_
  refine Within.bind (within_strcmpEq str _) fun isRandom => ?_
  refine Within.bind (within_strcmpEq str _) fun isUrandom => ?_
  refine Within.ite (fun _ => ?_) (fun _ => Within.pure _)
  refine Within.bind (Within.bind h.within_resumeAndWait fun _ => Within.pure _) fun regs' => ?_
  exact Within.bind (h.within_childReturns regs' _) fun _ => Within.pure _

theorem within_redirectDevRandom (h : Requests K R pid) (regs : UserRegsStruct) :
    Within R (redirectDevRandom K pid regs) :=
  fun s => IsTrans.trans _ _ _ (h.peek _ s) (h.redirectDevRandom_from regs s)

variable {child : Ptr}

theorem within_runHook (h : Requests K R pid)
    (hclock : ∀ t, Within R (setClock child t : TracerM W Unit)) (regs : UserRegsStruct)
    (hook : Option Hook) : Within R (runHook K child pid regs hook) := by
  match hook with
  | some .getrandom | some .gettimeofday | some .time | some .clockGettime =>
    exact h.toDrives.within_runHook hclock regs rfl fun _ => h.malloc _
  | some .openat | some .open | some .openat2 => exact h.within_redirectDevRandom regs
  | none => exact Within.pure _

end Requests

/-! ### What a helper may do -/

variable (K)

/-- A request to, a wait for, or an allocation on behalf of one process.  The registers are read in
the event loop only. -/
def OnProcess (pid : PidT) : Event W → Prop
  | .ptrace r _ => r.pid = pid ∧ r ≠ .getregs pid
  | .wait target _ => target = some pid
  | .malloc .. => True
  | .call (.removeVdso p) .. => p = pid
  | .call .. => False

/-- What a helper may do. -/
def Helper (pid : PidT) (s s' : Tracer W) : Prop :=
  TableKept s s' ∧ Extends (OnProcess pid) s s'

instance (pid : PidT) : IsPreorder (Tracer W) (Helper pid) where
  refl s := ⟨.refl s, Std.Refl.refl s⟩
  trans _ _ _ h h' := ⟨h.1.trans h'.1, IsTrans.trans _ _ _ h.2 h'.2⟩

/-- One more event on the process. -/
theorem helper_of_event {pid : PidT} {s s' : Tracer W} {e : Event W} (hkept : TableKept s s')
    (htrace : s'.trace = e :: s.trace) (he : OnProcess pid e) : Helper pid s s' :=
  ⟨hkept, [e], htrace, fun e' he' => by rwa [List.mem_singleton.mp he']⟩

theorem helper_ptrace {r : Request} (hr : r.pid = pid ∧ r ≠ .getregs pid) :
    Within (Helper pid) (ptrace K r) :=
  fun _ => helper_of_event ⟨rfl, rfl, rfl⟩ rfl hr

theorem helper_requests (pid : PidT) : Requests K (Helper pid) pid where
  peek _ := helper_ptrace K ⟨rfl, nofun⟩
  poke _ _ := helper_ptrace K ⟨rfl, nofun⟩
  setregs _ := helper_ptrace K ⟨rfl, nofun⟩
  resume := helper_ptrace K ⟨rfl, nofun⟩
  wait := by
    intro s
    rw [waitpid_apply]
    split <;> exact helper_of_event ⟨rfl, rfl, rfl⟩ rfl rfl
  malloc size := by
    intro s
    unfold malloc
    split <;> exact helper_of_event ⟨rfl, rfl, rfl⟩ rfl trivial
  buffer _ _ := ⟨⟨rfl, rfl, rfl⟩, [], rfl, fun _ h => nomatch h⟩

theorem helper_procInit (scan : Nat) (pid : PidT) : Within (Helper pid) (procInit K scan pid) :=
  (helper_requests K pid).within_procInit (helper_requests K pid).resume
    (fun _ => helper_of_event ⟨rfl, rfl, rfl⟩ rfl rfl) scan

/-- What a handler may do: helpers, and setting the clock of its entry. -/
def Handler (child : Ptr) (pid : PidT) (s s' : Tracer W) : Prop :=
  ClockOnly child s s' ∧ Extends (OnProcess pid) s s'

instance (child : Ptr) (pid : PidT) : IsPreorder (Tracer W) (Handler child pid) where
  refl s := ⟨.refl child s, Std.Refl.refl s⟩
  trans _ _ _ h h' := ⟨h.1.trans h'.1, IsTrans.trans _ _ _ h.2 h'.2⟩

variable {child : Ptr}

theorem Helper.handler {α : Type} {m : TracerM W α} (h : Within (Helper pid) m) :
    Within (Handler child pid) m :=
  h.mono fun _ _ h => ⟨h.1.clockOnly child, h.2⟩

theorem handler_requests (child : Ptr) (pid : PidT) : Requests K (Handler child pid) pid where
  peek place := Helper.handler ((helper_requests K pid).peek place)
  poke addr data := Helper.handler ((helper_requests K pid).poke addr data)
  setregs regs := Helper.handler ((helper_requests K pid).setregs regs)
  resume := Helper.handler (helper_requests K pid).resume
  wait := Helper.handler (helper_requests K pid).wait
  malloc size := Helper.handler ((helper_requests K pid).malloc size)
  buffer s _ := ⟨⟨⟨id, by rw [retime_id]⟩, rfl, rfl⟩, [], rfl, fun _ h => nomatch h⟩

theorem handler_setClock (pid : PidT) (t : Timespec) :
    Within (Handler child pid) (setClock child t : TracerM W Unit) :=
  Within.bind (Requests.within_deref child) fun _ _ =>
    ⟨⟨⟨fun _ => t, rfl⟩, rfl, rfl⟩, [], rfl, fun _ h => nomatch h⟩

/-! ### `handle_syscall` -/

/-- On an entry of the table, `handle_syscall` runs the selected case for the entry's pid. -/
theorem handleSyscall_eq {s : Tracer W} {c : ChildProcess} {regs : UserRegsStruct}
    (h : blockAt s.processTable child = some c) :
    handleSyscall K child regs s =
      runHook K child c.pid regs (hookOf regs.origRax) (s.noted (.handleSyscall child regs)) := by
  have hderef : deref child (s.noted (.handleSyscall child regs)) =
      .ok c (s.noted (.handleSyscall child regs)) := by
    simp [deref, Tracer.noted, h]
  exact (bind_apply_ok (note_apply _ s)).trans (bind_apply_ok hderef)

/-- On a pointer that is not in the table, `handle_syscall` reads freed memory at once. -/
theorem handleSyscall_stale {s : Tracer W} {regs : UserRegsStruct}
    (h : blockAt s.processTable child = none) :
    handleSyscall K child regs s =
      .error .useAfterFree (s.noted (.handleSyscall child regs)) := by
  have hderef : deref child (s.noted (.handleSyscall child regs)) =
      .error .useAfterFree (s.noted (.handleSyscall child regs)) := by
    simp [deref, Tracer.noted, h]
  exact (bind_apply_ok (note_apply _ s)).trans (bind_apply_error hderef)

theorem within_handleSyscall {s : Tracer W} {c : ChildProcess} (regs : UserRegsStruct)
    (h : blockAt s.processTable child = some c) :
    Handler child c.pid (s.noted (.handleSyscall child regs))
      (finalState (handleSyscall K child regs s)) := by
  rw [handleSyscall_eq K h]
  exact (handler_requests K child c.pid).within_runHook (handler_setClock c.pid) regs _ _

end Reproduce
