import Mathlib.Data.List.Nodup
import Reproduce.Tracer.Equiv.Table

/-!
# The contract of the process table

Any sequence of `insert_process`, `delete_process` and clock updates through `find_process`, on any
kernel. The entry of a process is what the operations on that process alone make of it
(`entryAfter`); the table holds this entry and no other for the process (`Contract`).

`entry_count` is an `unsigned int`, and there are as many values of `pid_t`.  So it counts the
entries as long as one of the values is not in the table, and only that long (`everyPid_overflows`).
-/

namespace Reproduce

open Effect

variable {W : Type} (K : Kernel W)

/-! ### Operations -/

/-- An operation on the process table. -/
inductive TableOp where
  | insert (pid : PidT)
  | delete (pid : PidT)
  /-- `find_process`, and an update of the clock that it finds. -/
  | update (pid : PidT) (f : Timespec → Timespec)

namespace TableOp

def pid : TableOp → PidT
  | insert pid | delete pid | update pid _ => pid

def perform : TableOp → TracerM W Unit
  | insert pid => do
    let _ ← insertProcess K pid
    pure ()
  | delete pid => deleteProcess pid
  | update pid f => do
    match ← findProcess pid with
    | none => pure ()
    | some child =>
      let c ← deref child
      setClock child (f c.gettimeData)

/-- What an operation makes of the clock of its process; `none` stands for no entry. -/
def effect : TableOp → Option Timespec → Option Timespec
  | insert _, entry => some (entry.getD initialClock)
  | delete _, _ => none
  | update _ f, entry => entry.map f

end TableOp

/-- A sequence of operations, newest first. -/
def performAll : List TableOp → TracerM W Unit
  | [] => pure ()
  | op :: ops => do
    performAll ops
    op.perform K

/-- The clock of a process after a sequence of operations, of which only its own count. -/
def entryAfter (pid : PidT) : List TableOp → Option Timespec
  | [] => none
  | op :: ops => if op.pid = pid then op.effect (entryAfter pid ops) else entryAfter pid ops

/-- The process was inserted, and not deleted since. -/
def InsertedSince (pid : PidT) (ops : List TableOp) : Prop :=
  ∃ newer older, ops = newer ++ .insert pid :: older ∧ .delete pid ∉ newer

theorem insertedSince_insert (pid : PidT) (ops : List TableOp) :
    InsertedSince pid (.insert pid :: ops) :=
  ⟨[], ops, rfl, List.not_mem_nil⟩

theorem insertedSince_cons {pid : PidT} {op : TableOp} {ops : List TableOp}
    (hop : op ≠ .insert pid) :
    InsertedSince pid (op :: ops) ↔ op ≠ .delete pid ∧ InsertedSince pid ops := by
  constructor
  · rintro ⟨newer, older, hops, hkept⟩
    cases newer with
    | nil =>
      injection hops with hfirst
      exact absurd hfirst hop
    | cons op' newer =>
      injection hops with hfirst hrest
      subst hfirst
      rw [List.mem_cons, not_or] at hkept
      exact ⟨Ne.symm hkept.1, newer, older, hrest, hkept.2⟩
  · rintro ⟨hdelete, newer, older, rfl, hkept⟩
    refine ⟨op :: newer, older, rfl, ?_⟩
    rw [List.mem_cons, not_or]
    exact ⟨Ne.symm hdelete, hkept⟩

theorem entryAfter_isSome_iff {pid : PidT} {ops : List TableOp} :
    (entryAfter pid ops).isSome ↔ InsertedSince pid ops := by
  -- over the operations, the newest first
  induction ops with
  | nil =>
    constructor
    · rintro ⟨⟩
    · rintro ⟨newer, older, hops, -⟩
      exact absurd hops (by simp)
  | cons op ops ih =>
    rw [entryAfter]
    by_cases hpid : op.pid = pid
    · subst hpid
      rw [if_pos rfl]
      cases op with
      | insert p =>
        show (some _).isSome = true ↔ InsertedSince p (.insert p :: ops)
        exact ⟨fun _ => insertedSince_insert p ops, fun _ => rfl⟩
      | delete p =>
        rw [insertedSince_cons (by rintro ⟨⟩)]
        exact ⟨by rintro ⟨⟩, fun h => absurd rfl h.1⟩
      | update p f =>
        rw [insertedSince_cons (by rintro ⟨⟩), ← ih, TableOp.effect, Option.isSome_map]
        exact ⟨fun h => ⟨by rintro ⟨⟩, h⟩, fun h => h.2⟩
    · have hother : op ≠ .insert pid ∧ op ≠ .delete pid := by
        constructor
        · rintro rfl
          exact hpid rfl
        · rintro rfl
          exact hpid rfl
      rw [if_neg hpid, insertedSince_cons hother.1, ih]
      exact ⟨fun h => ⟨hother.2, h⟩, fun h => h.2⟩

/-! ### One operation -/

variable {K} {s s' : Tracer W} {op : TableOp}

/-- What one operation does: the table stays well formed, the entries of all other processes stay,
and the clock of its own process becomes what the operation makes of it. -/
structure Performed (op : TableOp) (s s' : Tracer W) : Prop where
  ok : TableOk s'
  others : ∀ p ≠ op.pid, hashFind s'.processTable p = hashFind s.processTable p
  own : (hashFind s'.processTable op.pid).map ChildProcess.gettimeData =
    op.effect ((hashFind s.processTable op.pid).map ChildProcess.gettimeData)

theorem performed_insert (hok : TableOk s) {pid : PidT} {added : Bool}
    (hrun : insertProcess K pid s = .ok added s') : Performed (.insert pid) s s' := by
  rw [insertProcess_eq] at hrun
  cases hfind : hashFind s.processTable pid with
  | some c =>
    rw [hfind, Option.isSome_some, if_pos rfl] at hrun
    cases hrun
    refine ⟨hok, fun _ _ => rfl, ?_⟩
    show (hashFind s.processTable pid).map _ = some (((hashFind s.processTable pid).map _).getD _)
    rw [hfind]
    rfl
  | none =>
    rw [hfind, Option.isSome_none, if_neg Bool.false_ne_true] at hrun
    split at hrun
    · cases hrun
      have hallocated : TableOk (s.allocated K pid) := hok.tableKept ⟨rfl, rfl, rfl⟩
      refine ⟨hallocated.inserted hfind, fun p hp => ?_, ?_⟩
      · -- the new entry stands in front of the others
        have hne : pid ≠ p := Ne.symm hp
        exact List.find?_cons_of_neg (by simpa using hne)
      · show (hashFind (⟨s.nextAddr, pid, initialClock⟩ :: s.processTable) pid).map _ =
          some (((hashFind s.processTable pid).map _).getD _)
        have hnew : hashFind (⟨s.nextAddr, pid, initialClock⟩ :: s.processTable) pid =
            some ⟨s.nextAddr, pid, initialClock⟩ := List.find?_cons_of_pos (by simp)
        rw [hnew, hfind]
        rfl
    · cases hrun

theorem performed_delete (hok : TableOk s) (pid : PidT) :
    Performed (.delete pid) s (s.deleted pid) := by
  refine ⟨hok.deleted pid, fun p hp => ?_, ?_⟩
  · have hp' : p ≠ pid := hp
    rw [hok.processTable_deleted, hashFind, List.find?_filter, hashFind]
    congr 1
    funext c
    by_cases hc : c.pid = p
    · simp [hc, hp']
    · simp [hc]
  · have hnone : hashFind (s.deleted pid).processTable pid = none := by
      rw [hok.processTable_deleted, hashFind_eq_none]
      intro c hc
      simpa using (List.mem_filter.mp hc).2
    show (hashFind (s.deleted pid).processTable pid).map _ = none
    rw [hnone]
    rfl

/-- An update through `find_process`, by pid. -/
theorem update_apply (hok : TableOk s) {c : ChildProcess} (hc : c ∈ s.processTable)
    (f : Timespec → Timespec) :
    (TableOp.update c.pid f).perform K s = .ok ()
      { s with processTable := retime c.addr f s.processTable } := by
  have hfind : findProcess c.pid s = .ok (some c.addr) s := by
    rw [findProcess_apply, hok.hashFind_of_mem hc]
    rfl
  have hderef : deref c.addr s = .ok c s := by
    unfold deref
    rw [hok.blockAt_of_mem hc]
  refine (bind_apply_ok hfind).trans
    ((bind_apply_ok hderef).trans ((bind_apply_ok hderef).trans ?_))
  rw [← hok.retime_const hc f]
  rfl

theorem performed_update (hok : TableOk s) {pid : PidT} {f : Timespec → Timespec}
    (hrun : (TableOp.update pid f).perform K s = .ok () s') : Performed (.update pid f) s s' := by
  cases hfind : hashFind s.processTable pid with
  | none =>
    have hnone : findProcess pid s = .ok none s := by
      rw [findProcess_apply, hfind]
      rfl
    have hskip : (TableOp.update pid f).perform K s = .ok () s := bind_apply_ok hnone
    cases hskip.symm.trans hrun
    refine ⟨hok, fun _ _ => rfl, ?_⟩
    show (hashFind s.processTable pid).map _ = ((hashFind s.processTable pid).map _).map f
    rw [hfind]
    rfl
  | some c =>
    obtain ⟨hc, rfl⟩ := hashFind_eq_some hfind
    cases (update_apply hok hc f).symm.trans hrun
    have hclock : ClockOnly c.addr s { s with processTable := retime c.addr f s.processTable } :=
      ⟨⟨f, rfl⟩, rfl, rfl⟩
    refine ⟨hok.clockOnly hclock, fun p hp => ?_, ?_⟩
    · show hashFind (retime c.addr f s.processTable) p = _
      rw [hashFind_retime]
      cases hother : hashFind s.processTable p with
      | none => rfl
      | some d =>
        obtain ⟨hd, rfl⟩ := hashFind_eq_some hother
        -- entries of different processes lie at different addresses
        have haddr : d.addr ≠ c.addr := fun h => hp (by rw [hok.eq_of_addr hd hc h]; rfl)
        rw [Option.map_some, if_neg haddr]
    · show (hashFind (retime c.addr f s.processTable) c.pid).map _ =
        ((hashFind s.processTable c.pid).map _).map f
      rw [hashFind_retime, hfind, Option.map_some, if_pos rfl]
      rfl

theorem performed (hok : TableOk s) (hrun : op.perform K s = .ok () s') : Performed op s s' := by
  cases op with
  | insert pid =>
    obtain ⟨added, s₁, hinsert, hrun⟩ := bind_eq_ok.mp hrun
    cases hrun
    exact performed_insert hok hinsert
  | delete pid =>
    cases (deleteProcess_apply pid s).symm.trans hrun
    exact performed_delete hok pid
  | update pid f => exact performed_update hok hrun

/-- An operation ends, unless it needs memory for an entry and there is none. -/
theorem perform_ends (hok : TableOk s) (hmemory : (K.malloc sizeofChildProcess s.os).1)
    (op : TableOp) :
    ∃ s', op.perform K s = .ok () s' := by
  cases op with
  | insert pid =>
    by_cases hfind : (hashFind s.processTable pid).isSome
    · exact ⟨s, bind_apply_ok (by rw [insertProcess_eq, if_pos hfind])⟩
    · exact ⟨_, bind_apply_ok (by rw [insertProcess_eq, if_neg hfind, if_pos hmemory])⟩
  | delete pid => exact ⟨_, deleteProcess_apply pid s⟩
  | update pid f =>
    cases hfind : hashFind s.processTable pid with
    | none =>
      have hnone : findProcess pid s = .ok none s := by
        rw [findProcess_apply, hfind]
        rfl
      exact ⟨s, bind_apply_ok hnone⟩
    | some c =>
      obtain ⟨hc, rfl⟩ := hashFind_eq_some hfind
      exact ⟨_, update_apply hok hc f⟩

/-! ### Every sequence -/

/-- The state after a sequence of operations: a well-formed table with the entries of the
abstract map. -/
structure HoldsEntries (ops : List TableOp) (s : Tracer W) : Prop where
  ok : TableOk s
  clocks : ∀ p, (hashFind s.processTable p).map ChildProcess.gettimeData = entryAfter p ops

theorem holds_performAll {os : W} {ops : List TableOp}
    (hrun : performAll K ops (Tracer.start os) = .ok () s) : HoldsEntries ops s := by
  induction ops generalizing s with
  | nil =>
    cases hrun
    exact ⟨tableOk_start os, fun _ => rfl⟩
  | cons op ops ih =>
    obtain ⟨_, s₁, hbefore, hop⟩ := bind_eq_ok.mp hrun
    have hholds := ih hbefore
    have hperformed := performed hholds.ok hop
    refine ⟨hperformed.ok, fun p => ?_⟩
    rw [entryAfter]
    -- the process of the operation, or one that it leaves alone
    by_cases hp : op.pid = p
    · subst hp
      rw [if_pos rfl, hperformed.own, hholds.clocks]
    · rw [if_neg hp, hperformed.others p (Ne.symm hp), hholds.clocks]

/-! ### Counting -/

/-- A table in which a value of `pid_t` is missing has less than 2^32 entries. -/
theorem TableOk.length_lt (h : TableOk s) {p : PidT} (hp : hashFind s.processTable p = none) :
    s.processTable.length < 2 ^ 32 := by
  have hfresh : p ∉ s.processTable.map ChildProcess.pid := by
    intro hmem
    obtain ⟨c, hc, hpid⟩ := List.mem_map.mp hmem
    exact hashFind_eq_none.mp hp c hc hpid
  -- the pids of the table and `p` are different numbers below `2 ^ 32`
  have hnodup : ((p :: s.processTable.map ChildProcess.pid).map BitVec.toNat).Nodup :=
    (List.nodup_cons.mpr ⟨hfresh, h.pids⟩).map BitVec.toNat_injective
  have hrange : (p :: s.processTable.map ChildProcess.pid).map BitVec.toNat ⊆ List.range
      (2 ^ 32) := by
    intro n hn
    obtain ⟨q, -, rfl⟩ := List.mem_map.mp hn
    exact List.mem_range.mpr q.isLt
  have hle := (List.subperm_of_subset hnodup hrange).length_le
  rw [List.length_range, List.length_map, List.length_cons, List.length_map] at hle
  exact hle

/-- `entry_count` is the number of entries, and tells whether there are any. -/
structure CountsEntries (s : Tracer W) : Prop where
  entries : s.entryCount.toNat = s.processTable.length
  empty : isHashTableEmpty s = .ok true s ↔ ∀ p, findProcess p s = .ok none s

theorem TableOk.counts (hok : TableOk s) (hlength : s.processTable.length < 2 ^ 32) :
    CountsEntries s := by
  have hentries : s.entryCount.toNat = s.processTable.length := by
    rw [hok.count, BitVec.toNat_ofNat, Nat.mod_eq_of_lt hlength]
  have hempty : s.entryCount = 0 ↔ s.processTable = [] := by
    rw [← List.length_eq_zero_iff, ← hentries]
    exact ⟨fun h => by rw [h]; rfl, fun h => BitVec.eq_of_toNat_eq h⟩
  refine ⟨hentries, ?_⟩
  constructor
  · intro h p
    have hzero : s.entryCount = 0 := by
      injection h with hzero
      simpa using hzero
    rw [findProcess_apply, hempty.mp hzero]
    rfl
  · intro h
    have hnil : s.processTable = [] := by
      rw [List.eq_nil_iff_forall_not_mem]
      intro c hc
      have hnone := h c.pid
      rw [findProcess_apply, hok.hashFind_of_mem hc] at hnone
      injection hnone with hnone
      cases hnone
    show EStateM.Result.ok (decide (s.entryCount = 0)) s = _
    rw [decide_eq_true (hempty.mpr hnil)]

/-- The contract of the table after a sequence of operations. -/
structure Contract (K : Kernel W) (ops : List TableOp) (s : Tracer W) : Prop where
  /-- A process has at most one entry. -/
  unique : (s.processTable.map ChildProcess.pid).Nodup
  found : ∀ p, (∃ child, findProcess p s = .ok (some child) s) ↔ InsertedSince p ops
  /-- The pointer that is found leads to the entry of the process, with its clock. -/
  clock : ∀ p child, findProcess p s = .ok (some child) s →
    ∃ c, deref child s = .ok c s ∧ c.pid = p ∧ entryAfter p ops = some c.gettimeData
  /-- A second insertion is rejected and changes nothing. -/
  rejected : ∀ p, InsertedSince p ops → insertProcess K p s = .ok false s
  /-- The next operation leaves the entries of all other processes alone. -/
  others : ∀ (op : TableOp) (s' : Tracer W), op.perform K s = .ok () s' → ∀ p ≠ op.pid,
    hashFind s'.processTable p = hashFind s.processTable p
  counts : (∃ p, ¬InsertedSince p ops) → CountsEntries s
  ends : (K.malloc sizeofChildProcess s.os).1 → ∀ op : TableOp, ∃ s', op.perform K s = .ok () s'

theorem performAll_contract {os : W} {ops : List TableOp}
    (hrun : performAll K ops (Tracer.start os) = .ok () s) : Contract K ops s := by
  have hholds := holds_performAll hrun
  have hfound : ∀ p, (hashFind s.processTable p).isSome ↔ InsertedSince p ops := by
    intro p
    rw [← entryAfter_isSome_iff, ← hholds.clocks, Option.isSome_map]
  refine ⟨hholds.ok.pids, fun p => ?_, fun p child hchild => ?_, fun p hp => ?_, fun op s'
    hop p hp => ?_,
    ?_, perform_ends hholds.ok⟩
  · rw [← hfound, findProcess_apply]
    cases hashFind s.processTable p with
    | none => exact ⟨by rintro ⟨child, ⟨⟩⟩, by rintro ⟨⟩⟩
    | some c => exact ⟨fun _ => rfl, fun _ => ⟨c.addr, rfl⟩⟩
  · rw [findProcess_apply] at hchild
    cases hfind : hashFind s.processTable p with
    | none =>
      rw [hfind] at hchild
      cases hchild
    | some c =>
      rw [hfind] at hchild
      cases hchild
      refine ⟨c, ?_, (hashFind_eq_some hfind).2, ?_⟩
      · unfold deref
        rw [hholds.ok.blockAt_of_hashFind hfind]
      · rw [← hholds.clocks, hfind]
        rfl
  · rw [insertProcess_eq, if_pos ((hfound p).mpr hp)]
  · exact (performed hholds.ok hop).others p hp
  · rintro ⟨p, hp⟩
    rw [← hfound, Option.not_isSome_iff_eq_none] at hp
    exact hholds.ok.counts (hholds.ok.length_lt hp)

/-! ### Examples -/

/-- A kernel that grants every allocation. -/
def granting : Kernel Unit where
  ptrace _ w := (.error .ESRCH, w)
  waitpid _ w := (none, w)
  malloc _ w := (true, w)
  uninitialised _ := default

/-- A process is inserted twice, timed, deleted and inserted anew; an absent one is deleted. -/
def reinsertion : List TableOp :=
  [.insert 100, .delete 100, .update 100 Timespec.advance, .insert 100, .delete 101, .insert 100]

theorem reinsertion_contract :
    ∃ s, performAll granting reinsertion (Tracer.start ()) = .ok () s ∧
      Contract granting reinsertion s := by
  have hrun : performAll granting reinsertion (Tracer.start ()) = .ok () _ := rfl
  exact ⟨_, hrun, performAll_contract hrun⟩

/-- Insertions of distinct processes fill the table. -/
theorem performAll_insert {pids : List PidT} (hpids : pids.Nodup) :
    ∃ s, performAll granting (pids.map .insert) (Tracer.start ()) = .ok () s ∧
      s.processTable.map ChildProcess.pid = pids ∧ TableOk s := by
  induction pids with
  | nil => exact ⟨_, rfl, rfl, tableOk_start ()⟩
  | cons p pids ih =>
    obtain ⟨hfresh, hpids⟩ := List.nodup_cons.mp hpids
    obtain ⟨s, hrun, htable, hok⟩ := ih hpids
    have hfind : hashFind s.processTable p = none := by
      rw [hashFind_eq_none]
      intro c hc hpid
      exact hfresh (htable ▸ hpid ▸ List.mem_map_of_mem hc)
    have hallocated : TableOk (s.allocated granting p) := hok.tableKept ⟨rfl, rfl, rfl⟩
    have hinsert : insertProcess granting p s = .ok true ((s.allocated granting p).inserted p) := by
      rw [insertProcess_eq, hfind, Option.isSome_none, if_neg Bool.false_ne_true]
      rfl
    refine ⟨_, (bind_apply_ok hrun).trans (bind_apply_ok hinsert), ?_, hallocated.inserted hfind⟩
    show p :: s.processTable.map ChildProcess.pid = _
    rw [htable]

/-- All values of `pid_t`. -/
def everyPid : List PidT := (List.range (2 ^ 32)).map (BitVec.ofNat 32)

theorem nodup_everyPid : everyPid.Nodup := by
  refine List.Nodup.map_on (fun m hm n hn heq => ?_) List.nodup_range
  have hvalues := congrArg BitVec.toNat heq
  rw [BitVec.toNat_ofNat, BitVec.toNat_ofNat, Nat.mod_eq_of_lt (List.mem_range.mp hm),
    Nat.mod_eq_of_lt (List.mem_range.mp hn)] at hvalues
  exact hvalues

/-- With all of them in the table, the counter is 0. -/
theorem everyPid_overflows :
    ∃ s, performAll granting (everyPid.map .insert) (Tracer.start ()) = .ok () s ∧
      s.entryCount = 0 ∧ s.processTable.length = 2 ^ 32 ∧ ¬CountsEntries s := by
  obtain ⟨s, hrun, htable, hok⟩ := performAll_insert nodup_everyPid
  have hlength : s.processTable.length = 2 ^ 32 := by
    rw [← List.length_map (f := ChildProcess.pid), htable, everyPid, List.length_map,
      List.length_range]
  have hzero : s.entryCount = 0 := by
    rw [hok.count, hlength]
    rfl
  refine ⟨s, hrun, hzero, hlength, fun h => ?_⟩
  have hentries := h.entries
  rw [hzero, hlength] at hentries
  cases hentries

end Reproduce
