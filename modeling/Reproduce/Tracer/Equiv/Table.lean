import Reproduce.Tracer.Main
import Reproduce.Tracer.Equiv.Frame

/-!
# The process table

`insert_process` and `delete_process` on a whole state, and what they keep (`TableOk`): the entries
have distinct pids and distinct addresses, and `entry_count` counts them.  In such a table a search
by pid and an access by address meet the same entry (`blockAt_of_hashFind`).
-/

namespace Reproduce

open Effect

variable {W : Type} (K : Kernel W)

structure TableOk (s : Tracer W) : Prop where
  pids : (s.processTable.map ChildProcess.pid).Nodup
  addrs : (s.processTable.map ChildProcess.addr).Nodup
  fresh : ∀ c ∈ s.processTable, c.addr < s.nextAddr
  count : s.entryCount = BitVec.ofNat 32 s.processTable.length

/-! ### Searching -/

variable {table : List ChildProcess} {pid : PidT} {c c' : ChildProcess}

theorem hashFind_eq_some (h : hashFind table pid = some c) : c ∈ table ∧ c.pid = pid :=
  ⟨List.mem_of_find?_eq_some h, by simpa using List.find?_some h⟩

theorem hashFind_eq_none : hashFind table pid = none ↔ ∀ c ∈ table, c.pid ≠ pid := by
  simp [hashFind]

theorem blockAt_eq_some {p : Ptr} (h : blockAt table p = some c) : c ∈ table ∧ c.addr = p :=
  ⟨List.mem_of_find?_eq_some h, by simpa using List.find?_some h⟩

theorem blockAt_eq_none {p : Ptr} : blockAt table p = none ↔ ∀ c ∈ table, c.addr ≠ p := by
  simp [blockAt]

/-- With distinct keys, the entry with a key is found by it. -/
theorem find?_key {α : Type} [DecidableEq α] {key : ChildProcess → α}
    (hkeys : (table.map key).Nodup) (hc : c ∈ table) :
    table.find? (fun d => key d = key c) = some c := by
  induction table with
  | nil => exact absurd hc List.not_mem_nil
  | cons d table ih =>
    rw [List.map_cons, List.nodup_cons] at hkeys
    rcases List.mem_cons.mp hc with rfl | hc
    · simp
    · have hne : key d ≠ key c := fun h => hkeys.1 (h ▸ List.mem_map_of_mem hc)
      rw [List.find?_cons_of_neg (by simpa using hne)]
      exact ih hkeys.2 hc

namespace TableOk

variable {s : Tracer W}

theorem hashFind_of_mem (h : TableOk s) (hc : c ∈ s.processTable) :
    hashFind s.processTable c.pid = some c :=
  find?_key h.pids hc

theorem blockAt_of_mem (h : TableOk s) (hc : c ∈ s.processTable) :
    blockAt s.processTable c.addr = some c :=
  find?_key h.addrs hc

theorem blockAt_of_hashFind (h : TableOk s) (hc : hashFind s.processTable pid = some c) :
    blockAt s.processTable c.addr = some c :=
  h.blockAt_of_mem (hashFind_eq_some hc).1

/-- Two entries with one address are the same entry. -/
theorem eq_of_addr (h : TableOk s) (hc : c ∈ s.processTable) (hc' : c' ∈ s.processTable)
    (haddr : c.addr = c'.addr) : c = c' := by
  have hfind := h.blockAt_of_mem hc
  rw [haddr, h.blockAt_of_mem hc'] at hfind
  exact (Option.some.inj hfind).symm

/-- Two entries with one pid are the same entry. -/
theorem eq_of_pid (h : TableOk s) (hc : c ∈ s.processTable) (hc' : c' ∈ s.processTable)
    (hpid : c.pid = c'.pid) : c = c' := by
  have hfind := h.hashFind_of_mem hc
  rw [hpid, h.hashFind_of_mem hc'] at hfind
  exact (Option.some.inj hfind).symm

end TableOk

theorem tableOk_start (os : W) : TableOk (Tracer.start os) where
  pids := List.nodup_nil
  addrs := List.nodup_nil
  fresh := fun _ h => absurd h List.not_mem_nil
  count := rfl

/-! ### Insertion -/

/-- The state after `insert_process` asked for a block. -/
def Tracer.allocated (s : Tracer W) (pid : PidT) : Tracer W :=
  { s with
    os := (K.malloc sizeofChildProcess s.os).2
    trace := .malloc sizeofChildProcess (K.malloc sizeofChildProcess s.os).1 ::
      .call (.insertProcess pid) s.processTable s.os :: s.trace }

/-- The state after an entry was added. -/
def Tracer.inserted (s : Tracer W) (pid : PidT) : Tracer W :=
  { s with
    processTable := ⟨s.nextAddr, pid, initialClock⟩ :: s.processTable
    nextAddr := s.nextAddr + 1
    entryCount := s.entryCount + 1 }

theorem findProcess_apply (pid : PidT) (s : Tracer W) :
    findProcess pid s = .ok ((hashFind s.processTable pid).map ChildProcess.addr) s := rfl

/-- `insert_process` rejects a pid that is tracked, and otherwise adds an entry or ends
the tracer. -/
theorem insertProcess_eq (pid : PidT) (s : Tracer W) :
    insertProcess K pid s =
      if (hashFind s.processTable pid).isSome then .ok false s
      else if (K.malloc sizeofChildProcess s.os).1 then .ok true ((s.allocated K pid).inserted pid)
      else .error (.exit EXIT_FAILURE) (s.allocated K pid) := by
  refine (bind_apply_ok (findProcess_apply pid s)).trans ?_
  rw [Option.isSome_map]
  split
  · rfl
  · refine (bind_apply_ok (note_apply _ s)).trans ?_
    refine (bind_apply_ok (malloc_small K _ (by decide))).trans ?_
    show (if (K.malloc sizeofChildProcess s.os).1 = true then _ else exitFailure) _ = _
    cases (K.malloc sizeofChildProcess s.os).1 <;> rfl

theorem TableOk.inserted {s : Tracer W} (h : TableOk s)
    (hpid : hashFind s.processTable pid = none) : TableOk (s.inserted pid) where
  pids := by
    refine List.nodup_cons.mpr ⟨fun hmem => ?_, h.pids⟩
    obtain ⟨c, hc, hc'⟩ := List.mem_map.mp hmem
    exact hashFind_eq_none.mp hpid c hc hc'
  addrs := by
    refine List.nodup_cons.mpr ⟨fun hmem => ?_, h.addrs⟩
    obtain ⟨c, hc, hc'⟩ := List.mem_map.mp hmem
    exact absurd hc' (Nat.ne_of_lt (h.fresh c hc))
  fresh := by
    intro c hc
    rcases List.mem_cons.mp hc with rfl | hc
    · exact Nat.lt_succ_self _
    · exact Nat.lt_succ_of_lt (h.fresh c hc)
  count := by
    show s.entryCount + 1 = BitVec.ofNat 32 (s.processTable.length + 1)
    rw [h.count, BitVec.ofNat_add]
    rfl

/-! ### Deletion -/

/-- The state after `delete_process`. -/
def Tracer.deleted (s : Tracer W) (pid : PidT) : Tracer W :=
  match hashFind s.processTable pid with
  | none => s.noted (.deleteProcess pid)
  | some c =>
    { s.noted (.deleteProcess pid) with
      processTable := s.processTable.filter fun d => d.addr ≠ c.addr
      entryCount := s.entryCount - 1 }

theorem deleteProcess_apply (pid : PidT) (s : Tracer W) :
    deleteProcess pid s = .ok () (s.deleted pid) := by
  refine (bind_apply_ok (note_apply _ s)).trans ?_
  refine (bind_apply_ok (findProcess_apply pid _)).trans ?_
  unfold Tracer.deleted
  cases h : hashFind s.processTable pid with
  | none => simp [Tracer.noted, h, pure_apply]
  | some c =>
    simp only [Tracer.noted, h, Option.map_some]
    rfl

@[simp] theorem trace_deleted (pid : PidT) (s : Tracer W) :
    (s.deleted pid).trace = .call (.deleteProcess pid) s.processTable s.os :: s.trace := by
  unfold Tracer.deleted
  split <;> rfl

@[simp] theorem os_deleted (pid : PidT) (s : Tracer W) : (s.deleted pid).os = s.os := by
  unfold Tracer.deleted
  split <;> rfl

/-- A pointer to the entry that was deleted is stale. -/
theorem blockAt_deleted {s : Tracer W} (h : hashFind s.processTable pid = some c) :
    blockAt (s.deleted pid).processTable c.addr = none := by
  rw [blockAt_eq_none, Tracer.deleted, h]
  intro d hd
  simpa using (List.mem_filter.mp hd).2

/-- What is left after a deletion are the entries of the other pids. -/
theorem TableOk.processTable_deleted {s : Tracer W} (h : TableOk s) (pid : PidT) :
    (s.deleted pid).processTable = s.processTable.filter fun c => c.pid ≠ pid := by
  unfold Tracer.deleted
  split
  · next hfind =>
    refine (List.filter_eq_self.mpr fun c hc => ?_).symm
    simpa using hashFind_eq_none.mp hfind c hc
  · next c hfind =>
    obtain ⟨hc, hpid⟩ := hashFind_eq_some hfind
    refine List.filter_congr fun d hd => ?_
    have hsame : d.addr = c.addr ↔ d.pid = pid :=
      ⟨fun heq => h.eq_of_addr hd hc heq ▸ hpid,
        fun heq => by rw [h.eq_of_pid hd hc (heq.trans hpid.symm)]⟩
    simp [hsame]

theorem length_filter_addr {c : ChildProcess} (hc : c ∈ table)
    (haddrs : (table.map ChildProcess.addr).Nodup) :
    (table.filter fun d => d.addr ≠ c.addr).length + 1 = table.length := by
  induction table with
  | nil => exact absurd hc List.not_mem_nil
  | cons d table ih =>
    rw [List.map_cons, List.nodup_cons] at haddrs
    rcases List.mem_cons.mp hc with rfl | hc
    · have hrest : (table.filter fun d => d.addr ≠ c.addr) = table :=
        List.filter_eq_self.mpr fun d hd => by
          have hne : d.addr ≠ c.addr := fun h => haddrs.1 (h ▸ List.mem_map_of_mem hd)
          simpa using hne
      simp only [List.filter_cons, ne_eq, not_true_eq_false, decide_false, Bool.false_eq_true,
        if_false, List.length_cons]
      rw [← hrest]
      simp
    · have hne : d.addr ≠ c.addr := fun h => haddrs.1 (h ▸ List.mem_map_of_mem hc)
      rw [List.filter_cons_of_pos (by simpa using hne), List.length_cons, List.length_cons,
        ih hc haddrs.2]

theorem TableOk.deleted {s : Tracer W} (h : TableOk s) (pid : PidT) : TableOk (s.deleted pid) := by
  unfold Tracer.deleted
  split
  · exact ⟨h.pids, h.addrs, h.fresh, h.count⟩
  · next c hfind =>
    have hsub : (s.processTable.filter fun d => d.addr ≠ c.addr).Sublist s.processTable :=
      List.filter_sublist
    refine ⟨h.pids.sublist (hsub.map _), h.addrs.sublist (hsub.map _),
      fun d hd => h.fresh d (hsub.subset hd), ?_⟩
    show s.entryCount - 1 = _
    rw [h.count, ← length_filter_addr (hashFind_eq_some hfind).1 h.addrs, BitVec.ofNat_add]
    exact BitVec.add_sub_cancel _ _

/-! ### Clocks -/

theorem map_retime {α : Type} (key : ChildProcess → α)
    (hkey : ∀ c t, key { c with gettimeData := t } = key c) (child : Ptr)
    (f : Timespec → Timespec) (table : List ChildProcess) :
    (retime child f table).map key = table.map key := by
  unfold retime
  rw [List.map_map]
  refine List.map_congr_left fun c _ => ?_
  show key (if c.addr = child then _ else _) = _
  split
  · exact hkey c _
  · rfl

theorem blockAt_retime (child : Ptr) (f : Timespec → Timespec)
    (table : List ChildProcess) (p : Ptr) :
    blockAt (retime child f table) p =
      (blockAt table p).map fun c =>
        if c.addr = child then { c with gettimeData := f c.gettimeData } else c := by
  unfold blockAt retime
  rw [List.find?_map]
  congr 2
  funext c
  simp only [Function.comp_apply]
  split <;> rfl

theorem hashFind_retime (child : Ptr) (f : Timespec → Timespec) (table : List ChildProcess)
    (pid : PidT) :
    hashFind (retime child f table) pid =
      (hashFind table pid).map fun c =>
        if c.addr = child then { c with gettimeData := f c.gettimeData } else c := by
  unfold hashFind retime
  rw [List.find?_map]
  congr 2
  funext c
  simp only [Function.comp_apply]
  split <;> rfl

/-- Only one entry has the address, so that its clock can be read off beforehand. -/
theorem TableOk.retime_const {s : Tracer W} (h : TableOk s) (hc : c ∈ s.processTable)
    (f : Timespec → Timespec) :
    retime c.addr (fun _ => f c.gettimeData) s.processTable = retime c.addr f s.processTable := by
  unfold retime
  refine List.map_congr_left fun d hd => ?_
  by_cases haddr : d.addr = c.addr
  · rw [h.eq_of_addr hd hc haddr]
  · rw [if_neg haddr, if_neg haddr]

theorem TableOk.clockOnly {s s' : Tracer W} {child : Ptr} (h : TableOk s)
    (hs : ClockOnly child s s') : TableOk s' := by
  obtain ⟨f, hf⟩ := hs.processTable
  have haddrs : s'.processTable.map ChildProcess.addr = s.processTable.map ChildProcess.addr := by
    rw [hf, map_retime _ fun _ _ => rfl]
  refine ⟨?_, haddrs ▸ h.addrs, fun c hc => ?_, ?_⟩
  · rw [hf, map_retime _ fun _ _ => rfl]
    exact h.pids
  · obtain ⟨d, hd, heq⟩ := List.mem_map.mp (haddrs ▸ List.mem_map_of_mem hc)
    rw [hs.nextAddr, ← heq]
    exact h.fresh d hd
  · rw [hs.entryCount, h.count, hf]
    simp [retime]

theorem TableOk.tableKept {s s' : Tracer W} (h : TableOk s) (hs : TableKept s s') : TableOk s' :=
  h.clockOnly (hs.clockOnly 0)

end Reproduce
