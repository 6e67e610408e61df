import Reproduce.Tracer.Equiv.Contract
import Reproduce.UtHash.ProcessTable
import Reproduce.UtHash.Equiv.Add
import Reproduce.UtHash.Equiv.Delete
import Reproduce.UtHash.Equiv.Read

/-!
# The hash implements the process table

Any sequence of `insert_process`, `delete_process` and clock updates through `find_process`, once on
the hash and once on the finite map that the tracer is verified with.  When memory is refused the
program ends; otherwise the hash answers like the map, whatever the hash function does
(`performAll_implements`).  So a process is found with the clock that the operations on it alone
make of its entry (`performAll_lookup`).  Both assume that no memory is granted for `2 ^ 32`
buckets.
-/

namespace Reproduce.UtHash

open Bytes Effect Links

variable {grant : ℕ → ℕ → Bool} {fuel : ℕ} {c c' : Statics} {s : Tracer Unit} {items : List Ptr}
  {p : Ptr} {pid : PidT}

theorem pidBytes_injective : Function.Injective pidBytes := by
  intro pid pid' h
  have hbytes := List.map_inj_left.mp h
  refine BitVec.eq_of_getLsbD_eq fun i hi => ?_
  -- the byte that bit `i` is in
  have hbyte := congrArg (fun b => b.getLsbD (i % 8))
    (hbytes (i / 8) (List.mem_range.mpr (by omega)))
  have hlt : i % 8 < 8 := Nat.mod_lt i (by decide)
  have hsplit : 8 * (i / 8) + i % 8 = i := Nat.div_add_mod i 8
  simpa only [BitVec.getLsbD_extractLsb', hlt, hsplit, decide_true, Bool.true_and] using hbyte

/-- The entry of a process as the table has it. -/
def entry (h : Heap ProcessData) (p : Ptr) : ChildProcess :=
  ⟨p, (h.data p).pid, (h.data p).gettimeData⟩

/-- The hash holds the entries of the table, in the order of insertion, and nothing else is
allocated. -/
structure Refines (grant : ℕ → ℕ → Bool) (c : Statics) (s : Tracer Unit)
    (items : List Ptr) : Prop where
  ok : Ok (processConfig grant) c.heap items
  live : ∀ p, c.heap.live p = true ↔ p ∈ items
  table : s.processTable = (items.map (entry c.heap)).reverse
  nextAddr : s.nextAddr = c.heap.nextElmt
  entryCount : s.entryCount = c.entryCount
  tableOk : Reproduce.TableOk s

theorem onHeap_ok {β : Type} {m : HashM ProcessData β} {b : β} {h : Heap ProcessData}
    (hm : m c.heap = .ok b h) : onHeap m c = .ok b { c with heap := h } := by
  unfold onHeap
  rw [hm]

namespace Refines

variable (hrefines : Refines grant c s items)

include hrefines

theorem mem_table {d : ChildProcess} : d ∈ s.processTable ↔ ∃ p ∈ items, entry c.heap p = d := by
  rw [hrefines.table, List.mem_reverse, List.mem_map]

/-- The search by key is the search by pid. -/
theorem hashFind_eq (pid : PidT) :
    (items.find? fun p => (processConfig grant).key (c.heap.data p) = pidBytes pid) =
      (Reproduce.hashFind s.processTable pid).map ChildProcess.addr := by
  cases hfind : items.find? fun p => (processConfig grant).key (c.heap.data p) = pidBytes pid with
  | none =>
    rw [hashFind_eq_none.mpr, Option.map_none]
    intro d hd hpid
    obtain ⟨p, hp, rfl⟩ := hrefines.mem_table.mp hd
    exact List.find?_eq_none.mp hfind p hp (decide_eq_true (congrArg pidBytes hpid))
  | some p =>
    have hp := List.mem_of_find?_eq_some hfind
    have hkey := List.find?_some hfind
    have hpid : (c.heap.data p).pid = pid := pidBytes_injective (of_decide_eq_true hkey)
    have hentry := hrefines.tableOk.hashFind_of_mem (hrefines.mem_table.mpr ⟨p, hp, rfl⟩)
    rw [show (entry c.heap p).pid = pid from hpid] at hentry
    rw [hentry]
    rfl

theorem blockAt_eq (hp : p ∈ items) : blockAt s.processTable p = some (entry c.heap p) :=
  hrefines.tableOk.blockAt_of_mem (hrefines.mem_table.mpr ⟨p, hp, rfl⟩)

/-! ### The functions -/

theorem findProcess_apply (hfuel : items.length < fuel) (pid : PidT) :
    findProcess grant fuel pid c =
      .ok ((Reproduce.hashFind s.processTable pid).map ChildProcess.addr) c := by
  rw [← hrefines.hashFind_eq]
  exact onHeap_ok (hashFind_apply hrefines.ok hfuel _)

theorem printHashtable_apply (hfuel : items.length < fuel) :
    printHashtable fuel c = .ok (s.processTable.reverse.map ChildProcess.pid) c := by
  refine (bind_apply_ok (onHeap_ok (hashItems_apply hrefines.ok hfuel))).trans ?_
  rw [hrefines.table, List.reverse_reverse, List.map_map, pure_apply, List.map_map]
  rfl

theorem isHashTableEmpty_apply : isHashTableEmpty c = .ok (s.entryCount = 0) c := by
  rw [hrefines.entryCount]
  rfl

end Refines

/-! ### Insertion -/

/-- A run returns with `Q`, or the program ended because it was refused memory. -/
def Ended {β : Type} (grant : ℕ → ℕ → Bool) (r : EStateM.Result Halt Statics β)
    (Q : β → Statics → Prop) : Prop :=
  match r with
  | .ok b c => Q b c
  | .error e c => (e = .exit EXIT_FAILURE ∨ e = .exit UTHASH_FATAL) ∧
    OutOfMemory (processConfig grant) c.heap

theorem Ended.mono {β : Type} {r : EStateM.Result Halt Statics β} {Q R : β → Statics → Prop}
    (hr : Ended grant r Q) (hQ : ∀ b c, Q b c → R b c) : Ended grant r R := by
  cases r with
  | ok b c => exact hQ b c hr
  | error e c => exact hr

theorem Ended.bind {β γ : Type} {m : TableM β} {f : β → TableM γ} {Q : β → Statics → Prop}
    {R : γ → Statics → Prop} (hm : Ended grant (m c) Q)
    (hf : ∀ b c', Q b c' → Ended grant (f b c') R) : Ended grant ((m >>= f) c) R := by
  cases hrun : m c with
  | ok b c' =>
    rw [hrun] at hm
    rw [bind_apply_ok hrun]
    exact hf b c' hm
  | error e c' =>
    rw [hrun] at hm
    rw [bind_apply_error hrun]
    exact hm

theorem Ended.onHeap {β : Type} {m : HashM ProcessData β} {Q : β → Heap ProcessData → Prop}
    (hm : Served (processConfig grant) (m c.heap) Q) :
    Ended grant (onHeap m c) fun b c' => c'.entryCount = c.entryCount ∧ Q b c'.heap := by
  unfold UtHash.onHeap
  cases hrun : m c.heap with
  | ok b h =>
    rw [hrun] at hm
    exact ⟨rfl, hm⟩
  | error e h =>
    rw [hrun] at hm
    exact ⟨.inr hm.1, hm.2⟩

theorem Ended.step {β γ : Type} {m : TableM β} {f : β → TableM γ} {b : β} {R : γ → Statics → Prop}
    (hm : m c = .ok b c') (hf : Ended grant (f b c') R) : Ended grant ((m >>= f) c) R := by
  rw [bind_apply_ok hm]
  exact hf

/-- The block of a new process, which is not in the hash yet. -/
def withNew (h : Heap ProcessData) (pid : PidT) : Heap ProcessData :=
  (h.countMalloc.useElmt.setLive h.nextElmt true).setData h.nextElmt ⟨pid, initialClock⟩

namespace Refines

variable (hrefines : Refines grant c s items)

include hrefines

theorem new_not_mem : c.heap.nextElmt ∉ items := fun hmem => by
  have hlt := hrefines.tableOk.fresh _ (hrefines.mem_table.mpr ⟨_, hmem, rfl⟩)
  rw [hrefines.nextAddr] at hlt
  exact Nat.lt_irrefl _ hlt

theorem data_withNew (pid : PidT) (hp : p ∈ items) :
    (withNew c.heap pid).data p = c.heap.data p := by
  refine Function.update_of_ne ?_ _ _
  rintro rfl
  exact hrefines.new_not_mem hp

/-- The hash does not see the new block. -/
theorem ok_withNew (pid : PidT) : Ok (processConfig grant) (withNew c.heap pid) items := by
  refine hrefines.ok.retouch (fun p hp => ?_) fun p hp => ?_
  · refine (Function.update_of_ne ?_ _ _).trans (hrefines.ok.hashed.live p hp)
    rintro rfl
    exact hrefines.new_not_mem hp
  · exact congrArg (processConfig grant).key (hrefines.data_withNew pid hp)

/-- The hash with the new block is the table with the new entry. -/
theorem inserted {h : Heap ProcessData} (hpid : Reproduce.hashFind s.processTable pid = none)
    (hok : Ok (processConfig grant) h (items ++ [c.heap.nextElmt]))
    (hlive : h.live = (withNew c.heap pid).live) (hdata : h.data = (withNew c.heap pid).data)
    (hnext : h.nextElmt = (withNew c.heap pid).nextElmt) :
    Refines grant ⟨h, c.entryCount + 1⟩ ((s.allocated granting pid).inserted pid)
      (items ++ [c.heap.nextElmt]) where
  ok := hok
  live := fun p => by
    show h.live p = true ↔ _
    rw [hlive, List.mem_append, List.mem_singleton, ← hrefines.live]
    show Function.update c.heap.live c.heap.nextElmt true p = true ↔ _
    by_cases hp : p = c.heap.nextElmt
    · simp [hp]
    · simp [hp]
  table := by
    have hold : ∀ p ∈ items, entry h p = entry c.heap p := fun p hp => by
      simp only [entry, hdata, hrefines.data_withNew pid hp]
    have hnew : entry h c.heap.nextElmt = ⟨c.heap.nextElmt, pid, initialClock⟩ := by
      simp only [entry, hdata, withNew, Heap.setData, Function.update_self]
    show ⟨s.nextAddr, pid, initialClock⟩ :: s.processTable = _
    rw [List.map_append, List.map_congr_left hold, List.map_singleton, hnew, List.reverse_append,
      hrefines.table, hrefines.nextAddr]
    rfl
  nextAddr := by
    show s.nextAddr + 1 = h.nextElmt
    rw [hnext, hrefines.nextAddr]
    rfl
  entryCount := by
    show s.entryCount + 1 = c.entryCount + 1
    rw [hrefines.entryCount]
  tableOk := by
    have hallocated : Reproduce.TableOk (s.allocated granting pid) :=
      hrefines.tableOk.tableKept ⟨rfl, rfl, rfl⟩
    exact hallocated.inserted hpid

end Refines

theorem insertProcess_refines (hbounded : (processConfig grant).Bounded)
    (hrefines : Refines grant c s items) (hfuel : items.length + 1 < fuel) (pid : PidT) :
    Ended grant (insertProcess grant fuel pid c) fun added c' =>
      ∃ s' items', Reproduce.insertProcess granting pid s = .ok added s' ∧
        Refines grant c' s' items' ∧ items'.length ≤ items.length + 1 := by
  rw [insertProcess_eq]
  unfold insertProcess
  refine Ended.step (hrefines.findProcess_apply (Nat.lt_of_succ_lt hfuel) pid) ?_
  rw [Option.isSome_map]
  by_cases hfind : (Reproduce.hashFind s.processTable pid).isSome
  · rw [if_pos hfind, if_pos hfind]
    exact ⟨s, items, rfl, hrefines, Nat.le_succ _⟩
  rw [if_neg hfind, if_neg hfind]
  have hallocate : onHeap (allocate (processConfig grant) sizeofChildProcess) c =
    .ok (grant c.heap.mallocs sizeofChildProcess) { c with heap := c.heap.countMalloc } := rfl
  refine Ended.step hallocate ?_
  cases hgrant : grant c.heap.mallocs sizeofChildProcess with
  | false => exact ⟨.inl rfl, c.heap.mallocs, sizeofChildProcess, rfl, hgrant⟩
  | true =>
    have hpid := Option.not_isSome_iff_eq_none.mp hfind
    have hlive : (withNew c.heap pid).live c.heap.nextElmt = true := Function.update_self ..
    have hdata : (withNew c.heap pid).data c.heap.nextElmt = ⟨pid, initialClock⟩ :=
      Function.update_self ..
    have hkey : ∀ p ∈ items, (processConfig grant).key ((withNew c.heap pid).data p) ≠
        (processConfig grant).key ((withNew c.heap pid).data c.heap.nextElmt) := fun p hp => by
      have hnone := hrefines.hashFind_eq pid
      rw [hpid, Option.map_none, List.find?_eq_none] at hnone
      rw [hrefines.data_withNew pid hp, hdata]
      exact fun hkey => hnone p hp (decide_eq_true hkey)
    have hstore : onHeap (store Heap.setData c.heap.nextElmt ⟨pid, initialClock⟩)
        { c with heap := c.heap.countMalloc.useElmt.setLive c.heap.nextElmt true } =
        .ok () { c with heap := withNew c.heap pid } := onHeap_ok (store_apply hlive)
    refine Ended.step (onHeap_ok rfl) (Ended.step hstore ?_)
    refine Ended.bind (Ended.onHeap (hashAdd_served hbounded (hrefines.ok_withNew pid)
      hrefines.new_not_mem hlive hkey hfuel)) ?_
    rintro _ ⟨h, count⟩ ⟨rfl, hok, hliveSame, hdataSame, hnext⟩
    refine ⟨(s.allocated granting pid).inserted pid, _, if_pos rfl,
      hrefines.inserted hpid hok hliveSame hdataSame hnext, ?_⟩
    rw [List.length_append]
    exact Nat.le_refl _

/-! ### Deletion -/

theorem deleteProcess_refines (hrefines : Refines grant c s items) (hfuel : items.length < fuel)
    (pid : PidT) :
    ∃ c' items', deleteProcess grant fuel pid c = .ok () c' ∧
      Refines grant c' (s.deleted pid) items' ∧ items'.length ≤ items.length := by
  have hrun := hrefines.findProcess_apply hfuel pid
  have htableOk := hrefines.tableOk.deleted pid
  cases hfind : Reproduce.hashFind s.processTable pid with
  | none =>
    rw [hfind] at hrun
    have hdeleted : s.deleted pid = s.noted (.deleteProcess pid) := by
      unfold Tracer.deleted
      rw [hfind]
    refine ⟨c, items, bind_apply_ok hrun, ?_, Nat.le_refl _⟩
    rw [hdeleted] at htableOk ⊢
    exact ⟨hrefines.ok, hrefines.live, hrefines.table, hrefines.nextAddr, hrefines.entryCount,
      htableOk⟩
  | some d =>
    rw [hfind] at hrun
    obtain ⟨p, hp, rfl⟩ := hrefines.mem_table.mp (hashFind_eq_some hfind).1
    obtain ⟨h', hdelete, hok', hsame⟩ := hashDeleteHh_apply hrefines.ok hp
    have hfree : freeElmt p h' = .ok () (h'.setLive p false) := by
      refine store_apply ?_
      rw [hsame.live]
      exact hrefines.ok.hashed.live p hp
    have hdeleted : s.deleted pid = { s.noted (.deleteProcess pid) with
        processTable := s.processTable.filter fun d => d.addr ≠ p
        entryCount := s.entryCount - 1 } := by
      unfold Tracer.deleted
      rw [hfind]
      rfl
    have herase : items.erase p = items.filter fun q => q ≠ p := by
      rw [hrefines.ok.nodup.erase_eq_filter]
      exact List.filter_congr fun q _ => by
        by_cases hq : q = p <;> simp [hq]
    refine ⟨⟨h'.setLive p false, c.entryCount - 1⟩, items.erase p, ?_, ?_, ?_⟩
    · refine (bind_apply_ok hrun).trans ?_
      refine (bind_apply_ok (onHeap_ok hdelete)).trans ?_
      exact bind_apply_ok (onHeap_ok hfree)
    · rw [hdeleted] at htableOk ⊢
      refine ⟨hok'.retouch (fun q hq => ?_) fun _ _ => rfl, fun q => ?_, ?_, ?_, ?_, htableOk⟩
      · have hq' := (hrefines.ok.nodup.mem_erase_iff.mp hq)
        refine (Function.update_of_ne hq'.1 _ _).trans ?_
        exact hok'.hashed.live q hq
      · show Function.update h'.live p false q = true ↔ _
        rw [hrefines.ok.nodup.mem_erase_iff, ← hrefines.live, hsame.live]
        by_cases hq : q = p
        · simp [hq]
        · simp [hq]
      · show s.processTable.filter _ = _
        have hentry : (items.erase p).map (entry (h'.setLive p false)) =
            (items.erase p).map (entry c.heap) := List.map_congr_left fun q _ => by
          simp only [entry, Heap.setLive, hsame.data]
        rw [hentry, hrefines.table, herase, List.filter_reverse, List.filter_map]
        rfl
      · exact hrefines.nextAddr.trans hsame.nextElmt.symm
      · show s.entryCount - 1 = c.entryCount - 1
        rw [hrefines.entryCount]
    · rw [List.length_erase_of_mem hp]
      exact Nat.sub_le _ _

/-! ### Clocks -/

theorem setClock_refines (hrefines : Refines grant c s items) (hp : p ∈ items)
    (f : Timespec → Timespec) :
    ∃ c', (readClock p >>= fun t => setClock p (f t)) c = .ok () c' ∧
      Refines grant c' { s with processTable := retime p f s.processTable } items := by
  have hlive := hrefines.ok.hashed.live p hp
  have hload : onHeap (load Heap.data p) c = .ok (c.heap.data p) c := onHeap_ok (load_apply hlive)
  set data : ProcessData := { c.heap.data p with gettimeData := f (c.heap.data p).gettimeData }
  have hstore : onHeap (store Heap.setData p data) c =
      .ok () { c with heap := c.heap.setData p data } := onHeap_ok (store_apply hlive)
  have hdata : ∀ q, (processConfig grant).key ((c.heap.setData p data).data q) =
      (processConfig grant).key (c.heap.data q) := fun q => by
    by_cases hq : q = p
    · simp [Heap.setData, hq, data, processConfig]
    · simp [Heap.setData, hq]
  have hentry : ∀ q, entry (c.heap.setData p data) q =
      if (entry c.heap q).addr = p then
        { entry c.heap q with gettimeData := f (entry c.heap q).gettimeData }
      else entry c.heap q := fun q => by
    by_cases hq : q = p
    · subst hq
      simp [entry, Heap.setData, data]
    · simp [entry, Heap.setData, hq]
  have hclock : ClockOnly p s { s with processTable := retime p f s.processTable } :=
    ⟨⟨f, rfl⟩, rfl, rfl⟩
  refine ⟨{ c with heap := c.heap.setData p data }, ?_, ?_⟩
  · have hread : readClock p c = .ok (c.heap.data p).gettimeData c := bind_apply_ok hload
    exact (bind_apply_ok hread).trans ((bind_apply_ok hload).trans hstore)
  · refine ⟨hrefines.ok.retouch hrefines.ok.hashed.live fun q _ => hdata q, hrefines.live, ?_,
      hrefines.nextAddr, hrefines.entryCount, hrefines.tableOk.clockOnly hclock⟩
    show retime p f s.processTable = _
    rw [hrefines.table, retime, List.map_reverse, List.map_map]
    exact congrArg List.reverse (List.map_congr_left fun q _ => (hentry q).symm)

/-! ### Every sequence -/

variable (grant fuel) in
/-- An operation on the hash. -/
def perform : TableOp → TableM Unit
  | .insert pid => do
    let _ ← insertProcess grant fuel pid
    pure ()
  | .delete pid => deleteProcess grant fuel pid
  | .update pid f => do
    match ← findProcess grant fuel pid with
    | none => pure ()
    | some child => setClock child (f (← readClock child))

variable (grant fuel) in
/-- A sequence of operations, newest first. -/
def performAll : List TableOp → TableM Unit
  | [] => pure ()
  | op :: ops => do
    performAll ops
    perform grant fuel op

theorem perform_refines (hbounded : (processConfig grant).Bounded)
    (hrefines : Refines grant c s items) (hfuel : items.length + 1 < fuel) (op : TableOp) :
    Ended grant (perform grant fuel op c) fun _ c' =>
      ∃ s' items', op.perform granting s = .ok () s' ∧ Refines grant c' s' items' ∧
        items'.length ≤ items.length + 1 := by
  cases op with
  | insert pid =>
    refine Ended.bind (insertProcess_refines hbounded hrefines hfuel pid) ?_
    rintro added c' ⟨s', items', hs', hrefines', hlength⟩
    exact ⟨s', items', bind_apply_ok hs', hrefines', hlength⟩
  | delete pid =>
    obtain ⟨c', items', hrun, hrefines', hlength⟩ :=
      deleteProcess_refines hrefines (Nat.lt_of_succ_lt hfuel) pid
    show Ended grant (deleteProcess grant fuel pid c) _
    rw [hrun]
    exact ⟨s.deleted pid, items', deleteProcess_apply pid s, hrefines', Nat.le_succ_of_le hlength⟩
  | update pid f =>
    refine Ended.step (hrefines.findProcess_apply (Nat.lt_of_succ_lt hfuel) pid) ?_
    cases hfind : Reproduce.hashFind s.processTable pid with
    | none =>
      have hnone : Reproduce.findProcess pid s = .ok none s := by
        rw [Reproduce.findProcess_apply, hfind]
        rfl
      exact ⟨s, items, bind_apply_ok hnone, hrefines, Nat.le_succ _⟩
    | some d =>
      obtain ⟨hd, rfl⟩ := hashFind_eq_some hfind
      obtain ⟨p, hp, rfl⟩ := hrefines.mem_table.mp hd
      obtain ⟨c', hrun, hrefines'⟩ := setClock_refines hrefines hp f
      show Ended grant ((readClock p >>= fun t => setClock p (f t)) c) _
      rw [hrun]
      exact ⟨_, items, update_apply hrefines.tableOk hd f, hrefines', Nat.le_succ _⟩

/-- Nothing is allocated, and there is no hash. -/
structure Blank (h : Heap ProcessData) : Prop where
  head : h.head = none
  tables : h.tables = fun _ => none
  live : ∀ p, h.live p = false
  nextElmt : h.nextElmt = 0

/-- Memory before the first allocation. -/
def blank : Heap ProcessData where
  head := none
  live := fun _ => false
  data := fun _ => ⟨0, initialClock⟩
  tbl := fun _ => 0
  prev := fun _ => none
  next := fun _ => none
  hhPrev := fun _ => none
  hhNext := fun _ => none
  keylen := fun _ => 0
  hashv := fun _ => 0
  tables := fun _ => none
  nextElmt := 0
  nextTable := 0
  mallocs := 0

theorem blank_blank : Blank blank := ⟨rfl, rfl, fun _ => rfl, rfl⟩

/-- Every block is granted but that of the largest table. -/
def moderate (_ size : ℕ) : Bool := size ≠ 2 ^ 36

theorem moderate_bounded : (processConfig moderate).Bounded := fun _ => rfl

theorem refines_start {h : Heap ProcessData} (hblank : Blank h) :
    Refines grant ⟨h, 0⟩ (Tracer.start ()) [] where
  ok := {
    empty := fun _ => ⟨hblank.head, hblank.tables⟩
    table := fun hne => absurd rfl hne
    nodup := List.nodup_nil
    keys := List.nodup_nil
    hashed := ⟨by simp, by simp, by simp⟩ }
  live := by simp [hblank.live]
  table := rfl
  nextAddr := hblank.nextElmt.symm
  entryCount := rfl
  tableOk := tableOk_start ()

theorem performAll_simulates (hbounded : (processConfig grant).Bounded) {h : Heap ProcessData}
    (hblank : Blank h) {ops : List TableOp} (hfuel : ops.length < fuel) :
    Ended grant (performAll grant fuel ops ⟨h, 0⟩) fun _ c =>
      ∃ s items, Reproduce.performAll granting ops (Tracer.start ()) = .ok () s ∧
        Refines grant c s items ∧ items.length ≤ ops.length := by
  -- over the operations, the newest first
  induction ops with
  | nil => exact ⟨_, [], rfl, refines_start hblank, Nat.le_refl _⟩
  | cons op ops ih =>
    refine Ended.bind (ih (Nat.lt_of_succ_lt hfuel)) ?_
    rintro _ c ⟨s, items, hs, hrefines, hlength⟩
    have hbefore : items.length + 1 < fuel :=
      Nat.lt_of_le_of_lt (Nat.succ_le_succ hlength) hfuel
    have hop := perform_refines hbounded hrefines hbefore op
    cases hrun : perform grant fuel op c with
    | error e c' =>
      rw [hrun] at hop
      exact hop
    | ok _ c' =>
      rw [hrun] at hop
      obtain ⟨s', items', hs', hrefines', hlength'⟩ := hop
      exact ⟨s', items', (bind_apply_ok hs).trans hs', hrefines',
        Nat.le_trans hlength' (Nat.succ_le_succ hlength)⟩

/-- The hash answers like the map. -/
structure SameTable (grant : ℕ → ℕ → Bool) (fuel : ℕ) (c : Statics) (s : Tracer Unit) : Prop where
  find : ∀ pid, ∃ child, findProcess grant fuel pid c = .ok child c ∧
    Reproduce.findProcess pid s = .ok child s
  clock : ∀ child d, deref child s = .ok d s → readClock child c = .ok d.gettimeData c
  freed : ∀ child, deref child s = .error .useAfterFree s →
    readClock child c = .error .useAfterFree c
  entryCount : c.entryCount = s.entryCount
  empty : ∃ b, isHashTableEmpty c = .ok b c ∧ Reproduce.isHashTableEmpty s = .ok b s
  /-- The entries are printed in the order of insertion. -/
  print : printHashtable fuel c = .ok (s.processTable.reverse.map ChildProcess.pid) c
  /-- The integrity check passes. -/
  fsck : hashFsck fuel c.heap = .ok () c.heap
  /-- The memory of the table is given back. -/
  tables : s.processTable = [] → c.heap.tables = fun _ => none

theorem Refines.sameTable (hrefines : Refines grant c s items) (hfuel : items.length < fuel) :
    SameTable grant fuel c s where
  find pid := ⟨_, hrefines.findProcess_apply hfuel pid, rfl⟩
  clock child d hderef := by
    unfold deref at hderef
    cases hblock : blockAt s.processTable child with
    | none =>
      rw [hblock] at hderef
      cases hderef
    | some d' =>
      rw [hblock] at hderef
      cases hderef
      obtain ⟨hd, rfl⟩ := blockAt_eq_some hblock
      obtain ⟨p, hp, rfl⟩ := hrefines.mem_table.mp hd
      exact bind_apply_ok (onHeap_ok (load_apply (hrefines.ok.hashed.live p hp)))
  freed child hderef := by
    unfold deref at hderef
    cases hblock : blockAt s.processTable child with
    | some d =>
      rw [hblock] at hderef
      cases hderef
    | none =>
      have hdead : ¬c.heap.live child = true := fun hlive => by
        have hchild := hrefines.blockAt_eq ((hrefines.live child).mp hlive)
        rw [hblock] at hchild
        cases hchild
      have hload : onHeap (load Heap.data child) c = .error .useAfterFree c := by
        unfold UtHash.onHeap load
        rw [if_neg hdead]
      exact bind_apply_error hload
  entryCount := hrefines.entryCount.symm
  empty := ⟨_, hrefines.isHashTableEmpty_apply, rfl⟩
  print := hrefines.printHashtable_apply hfuel
  fsck := hashFsck_apply hrefines.ok hfuel
  tables hnil := by
    rw [hrefines.table, List.reverse_eq_nil_iff, List.map_eq_nil_iff] at hnil
    exact (hrefines.ok.empty hnil).2

/-- Whatever is done with the table, the hash answers like the map, or the program ends because it
is refused memory. -/
theorem performAll_implements (hbounded : (processConfig grant).Bounded) {h : Heap ProcessData}
    (hblank : Blank h) {ops : List TableOp} (hfuel : ops.length < fuel) :
    Ended grant (performAll grant fuel ops ⟨h, 0⟩) fun _ c =>
      ∃ s, Reproduce.performAll granting ops (Tracer.start ()) = .ok () s ∧
        SameTable grant fuel c s := by
  refine (performAll_simulates hbounded hblank hfuel).mono ?_
  rintro _ c ⟨s, items, hs, hrefines, hlength⟩
  exact ⟨s, hs, hrefines.sameTable (Nat.lt_of_le_of_lt hlength hfuel)⟩

theorem performAll_reinsertion : ∃ c, performAll moderate 7 reinsertion ⟨blank, 0⟩ = .ok () c :=
  ⟨_, rfl⟩

theorem performAll_implements_reinsertion :
    ∃ c, performAll moderate 7 reinsertion ⟨blank, 0⟩ = .ok () c ∧
      ∃ s, Reproduce.performAll granting reinsertion (Tracer.start ()) = .ok () s ∧
        SameTable moderate 7 c s := by
  obtain ⟨c, hrun⟩ := performAll_reinsertion
  have himplements := performAll_implements moderate_bounded blank_blank
    (show reinsertion.length < 7 by decide)
  rw [hrun] at himplements
  exact ⟨c, hrun, himplements⟩

/-- The pointer that is found leads to the clock of the process. -/
def Lookup (grant : ℕ → ℕ → Bool) (fuel : ℕ) (c : Statics) (pid : PidT) (t : Timespec) : Prop :=
  ∃ child, findProcess grant fuel pid c = .ok (some child) c ∧ readClock child c = .ok t c

/-- A process is found with the clock that the operations on it make of its entry. -/
theorem performAll_lookup (hbounded : (processConfig grant).Bounded) {h : Heap ProcessData}
    (hblank : Blank h) {ops : List TableOp} (hfuel : ops.length < fuel) :
    Ended grant (performAll grant fuel ops ⟨h, 0⟩) fun _ c =>
      ∀ pid t, Lookup grant fuel c pid t ↔ entryAfter pid ops = some t := by
  refine (performAll_simulates hbounded hblank hfuel).mono ?_
  rintro _ c ⟨s, items, hs, hrefines, hlength⟩ pid t
  have hsame := hrefines.sameTable (Nat.lt_of_le_of_lt hlength hfuel)
  rw [← (holds_performAll hs).clocks]
  have hfind := hrefines.findProcess_apply (Nat.lt_of_le_of_lt hlength hfuel) pid
  cases hentry : Reproduce.hashFind s.processTable pid with
  | none =>
    rw [hentry] at hfind
    constructor
    · rintro ⟨child, hchild, -⟩
      cases hfind.symm.trans hchild
    · rintro ⟨⟩
  | some d =>
    rw [hentry] at hfind
    have hderef : deref d.addr s = .ok d s := by
      unfold deref
      rw [hrefines.tableOk.blockAt_of_hashFind hentry]
    have hread := hsame.clock _ _ hderef
    constructor
    · rintro ⟨child, hchild, hclock⟩
      cases hfind.symm.trans hchild
      cases hread.symm.trans hclock
      rfl
    · intro ht
      cases ht
      exact ⟨d.addr, hfind, hread⟩

theorem performAll_lookup_reinsertion :
    ∃ c, performAll moderate 7 reinsertion ⟨blank, 0⟩ = .ok () c ∧
      Lookup moderate 7 c 100 initialClock := by
  obtain ⟨c, hrun⟩ := performAll_reinsertion
  have hlookup := performAll_lookup moderate_bounded blank_blank
    (show reinsertion.length < 7 by decide)
  rw [hrun] at hlookup
  exact ⟨c, hrun, (hlookup 100 initialClock).mpr rfl⟩

end Reproduce.UtHash
