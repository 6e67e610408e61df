import Reproduce.Linux.Equiv.Counts
import Reproduce.Linux.Equiv.Handling
import Reproduce.Linux.Equiv.Opens

/-!
# Hooks are applied at entries, and once

The loop keeps no record of whether a process is at the entry or at the exit of a call; it looks at
`orig_rax` only.  A cancelled call ends with the number -1, but an open call keeps its number.

`hooks_at_entry`: in a run in which no open call of a random device is seen away from an entry stop,
every call of `handle_syscall` that has an effect is made at the entry stop of a hooked call, once
for each such call, and the kernel carries out every other call as its task made it.
-/

namespace Reproduce.Linux

open Bytes Effect

section

variable (env : Env) (scan : Nat)

/-- The call of `handle_syscall` that the next turn makes. -/
def handedOver (s : Tracer World) : Option HandlerCall :=
  if s.entryCount = 0 then none
  else
    match receiveStop (kernel env) scan s with
    | .ok (.hook pid child regs) s₁ => some ⟨pid, child, regs, s₁⟩
    | _ => none

/-- The calls of `handle_syscall` before the head that the run reaches after `n` turns,
newest first. -/
def Boot.calls (b : Boot) (C : Tracer World → Tracer World → Prop) [∀ s s', Decidable (C s s')] :
    Nat → List HandlerCall
  | 0 => []
  | n + 1 => ((b.head env scan C n).bind (handedOver env scan)).toList ++ b.calls C n

/-- The condition on a turn: a stop that is handed to `handle_syscall` and is no entry stop is not
one of an open call of a random device, and the process keeps its image. -/
structure Straight (s s' : Tracer World) : Prop where
  path : ∀ x ∈ handedOver env scan s, ¬x.Strays env
  image : ImageStays s s'

instance (s s' : Tracer World) : Decidable (Straight env scan s s') :=
  decidable_of_iff ((∀ x ∈ handedOver env scan s, ¬x.Strays env) ∧ ImageStays s s')
    ⟨fun h => ⟨h.1, h.2⟩, fun h => ⟨h.path, h.image⟩⟩

end

/-- The calls that have an effect are made at entry stops of hooked calls, no two at the same. -/
structure HooksAtEntry (env : Env) (calls : List HandlerCall) : Prop where
  atEntry : ∀ x ∈ calls, x.Intervenes env → x.AtEntry
  once : calls.Pairwise fun x y => x.Intervenes env → y.Intervenes env → x.syscall? ≠ y.syscall?

variable {b : Boot} {env : Env} {scan : Nat} {s s' : Tracer World} {calls : List HandlerCall}
  {x y : HandlerCall}

theorem handedOver_eq_some (h : handedOver env scan s = some x) :
    s.entryCount ≠ 0 ∧
      receiveStop (kernel env) scan s = .ok (.hook x.pid x.child x.regs) x.before := by
  unfold handedOver at h
  split at h
  · cases h
  · next hcount =>
    split at h
    · next pid child regs s₁ hreceive =>
      cases h
      exact ⟨hcount, hreceive⟩
    · cases h

theorem handedOver_of_receiveStop {pid : PidT} {child : Ptr} {regs : UserRegsStruct}
    {s₁ : Tracer World}
    (hcount : s.entryCount ≠ 0)
    (h : receiveStop (kernel env) scan s = .ok (.hook pid child regs) s₁) :
    handedOver env scan s = some ⟨pid, child, regs, s₁⟩ := by
  rw [handedOver, if_neg hcount, h]

theorem mem_calls {C : Tracer World → Tracer World → Prop}
    [∀ s s', Decidable (C s s')] {n : Nat} (h : x ∈ b.calls env scan C n) :
    ∃ s, b.Head env scan C s ∧ handedOver env scan s = some x := by
  induction n with
  | zero => cases h
  | succ n ih =>
    rcases List.mem_append.mp h with hnew | hold
    · obtain ⟨s, hs, hx⟩ := Option.bind_eq_some_iff.mp (Option.mem_toList.mp hnew)
      exact ⟨s, Boot.head_eq_some hs, hx⟩
    · exact ih hold

/-- A turn with a call of `handle_syscall` that comes back to the head. -/
theorem turn_of_handedOver (h : handedOver env scan s = some x)
    (hturn : handleEventTurn (kernel env) scan () s = .ok (.inl ()) s') :
    ∃ s₂ answer, handleSyscall (kernel env) x.child x.regs x.before = .ok () s₂ ∧
      ptraceDelete (kernel env) (.syscall x.pid 0) x.pid s₂ = .ok answer s' := by
  obtain ⟨hcount, hreceive⟩ := handedOver_eq_some h
  -- the table is not empty, and the stop was received
  have hempty : (isHashTableEmpty : TracerM World Bool) s = .ok (decide (s.entryCount = 0)) s := rfl
  rw [handleEventTurn, bind_apply_ok hempty, if_neg (by simpa using hcount),
    bind_apply_ok hreceive] at hturn
  obtain ⟨⟨⟩, s₂, hhandle, hturn⟩ := bind_eq_ok.mp hturn
  obtain ⟨answer, s₃, hresume, hturn⟩ := bind_eq_ok.mp hturn
  cases hturn
  exact ⟨s₂, answer, hhandle, hresume⟩

/-- What a run keeps from head to head: the tasks are regular, and every hooked call that was dealt
with is behind its entry stop. -/
structure Tidy (env : Env) (calls : List HandlerCall) (s : Tracer World) : Prop where
  settled : Settled Task.Regular s
  births : BirthsOk s.os
  hooks : HooksAtEntry env calls
  spent : ∀ x ∈ calls, x.Intervenes env → ∀ t, x.task? = some t → Spent t.birth t.calls s.os

theorem tidy_first (h : Begun b s) : Tidy env [] s := by
  -- the only task is the first child, at its start
  have htask : ∀ q t, s.os.task q = some t → q = b.childPid ∧
      t = { b.task with state := .user } := by
    intro q t ht
    rw [h.task] at ht
    by_cases hq : q = b.childPid
    · subst hq
      rw [Function.update_self] at ht
      exact ⟨rfl, (Option.some.inj ht).symm⟩
    · rw [Function.update_of_ne hq] at ht
      cases ht
  have hregular : Task.Regular { b.task with state := .user } := by
    refine ⟨⟨fun p hp => (nomatch hp), fun hcalling => ?_⟩, fun _ _ => ?_, nofun, nofun⟩
    · rcases hcalling with ⟨fresh, hkernel⟩ | ⟨e, message, hstop⟩
      · cases hkernel
      · cases hstop
    · have hkill : hookOf NR_kill = none := rfl
      exact notEmulated_of_none hkill
  refine ⟨⟨h.ok, fun q t ht => ?_⟩, ⟨fun q t ht => ?_, fun q q' t t' ht ht' _ => ?_⟩,
    ⟨nofun, .nil⟩, nofun⟩
  · obtain ⟨rfl, rfl⟩ := htask q t ht
    refine ⟨hregular, fun hnot => absurd ⟨⟨0, b.childPid, initialClock⟩, ?_, rfl⟩ hnot⟩
    rw [h.table]
    exact .head _
  · obtain ⟨-, rfl⟩ := htask q t ht
    rw [h.births]
    exact Nat.one_pos
  · exact (htask q t ht).1.trans (htask q' t' ht').1.symm

/-- The state in which `handle_syscall` is called. -/
theorem Tidy.received (h : Tidy env calls s) (hx : handedOver env scan s = some x) :
    (Ready Task.Regular x.pid x.child x.regs x.before ∨
      (blockAt x.before.processTable x.child = none ∧ Every Task.Regular x.before.os)) ∧
    ∀ {J : World → Prop}, Lasts J → J s.os → J x.before.os := by
  obtain ⟨hcount, hreceive⟩ := handedOver_eq_some hx
  refine ⟨(settled_receiveStop env norm_regular scan).ok h.settled hreceive, fun hJ hs => ?_⟩
  exact (hJ.within_receiveStop env scan).ok hreceive hs

/-- A call with a stale entry stops the tracer at once. -/
theorem HandlerCall.not_intervenes_of_stale (h : blockAt x.before.processTable x.child = none) :
    ¬x.Intervenes env := by
  refine not_intervenes_of_looked ?_
  rw [HandlerCall.after, handleSyscall_stale (kernel env) h]
  exact looked_noted _ _

theorem Tidy.atEntry (h : Tidy env calls s) (hstraight : Straight env scan s s')
    (hx : handedOver env scan s = some x) (hintervenes : x.Intervenes env) : x.AtEntry := by
  rcases (h.received hx).1 with hready | ⟨hstale, -⟩
  · exact hready.atEntry env (hstraight.path x hx) hintervenes
  · exact absurd hintervenes (HandlerCall.not_intervenes_of_stale hstale)

/-- The next call of `handle_syscall` is no exception. -/
theorem Tidy.hooks_next (h : Tidy env calls s) (hstraight : Straight env scan s s') :
    HooksAtEntry env ((handedOver env scan s).toList ++ calls) := by
  cases hx : handedOver env scan s with
  | none => exact h.hooks
  | some x =>
    have hentry := h.atEntry hstraight hx
    refine ⟨fun y hy => ?_, .cons (fun y hy hintervenes hintervenes' hsame => ?_) h.hooks.once⟩
    · rcases List.mem_cons.mp hy with rfl | hy
      · exact hentry
      · exact h.hooks.atEntry y hy
    · obtain ⟨t, ht, hstop, -⟩ := hentry hintervenes
      obtain ⟨u, hu, -⟩ := h.hooks.atEntry y hy hintervenes'
      -- a call that was dealt with before is spent, but this one is at its entry
      have hkey : t.birth = u.birth ∧ t.calls = u.calls := by
        simpa [HandlerCall.syscall?, ht, hu] using hsame
      have hspent := (h.received hx).2 endures_spent.lasts (h.spent y hy hintervenes' u hu)
      rw [← hkey.1, ← hkey.2] at hspent
      exact hspent.not_entry ht hstop

theorem Tidy.turn (h : Tidy env calls s) (hstraight : Straight env scan s s') :
    Triple (fun s' => s' = s) (handleEventTurn (kernel env) scan ()) (fun _ => Settled Task.Regular)
      (fun _ s' => Every Task.Regular s'.os) := by
  refine settled_turn env norm_regular h.settled fun pid child regs s₁ hcount hreceive hready => ?_
  have hx := handedOver_of_receiveStop hcount hreceive
  exact (hready.settles env (hstraight.path _ hx)).conseq (fun _ hs => hs) (fun _ _ hs => hs.1)
    fun _ _ he => he

/-- A hooked call that has been dealt with is behind its entry stop. -/
theorem Tidy.spent_next (h : Tidy env calls s) (hstraight : Straight env scan s s')
    (hx : handedOver env scan s = some x)
    (hturn : handleEventTurn (kernel env) scan () s = .ok (.inl ()) s')
    (hintervenes : x.Intervenes env) {t : Task} (ht : x.task? = some t) :
    Spent t.birth t.calls s'.os := by
  obtain ⟨hreceived, hlasts⟩ := h.received hx
  obtain ⟨s₂, answer, hhandle, hresume⟩ := turn_of_handedOver hx hturn
  rcases hreceived with hready | ⟨hstale, -⟩
  · have hsince : Since x.pid t.birth t.calls s₂.os :=
      (endures_since.lasts.within_handleSyscall env x.child x.regs).ok hhandle
        ((hlasts endures_birthsOk.lasts h.births).since ht)
    obtain ⟨-, hlooked | hparked⟩ := (hready.settles env (hstraight.path x hx)).ok rfl hhandle
    · -- a handler that only looked has no effect
      refine absurd hintervenes (HandlerCall.not_intervenes_of_looked ?_)
      rw [HandlerCall.after, hhandle]
      exact hlooked
    · have hsteps := (@endures_spent t.birth t.calls).lasts.steps env
      exact (hsteps.within_ptraceDelete (r := .syscall x.pid 0) rfl x.pid).ok hresume
        (hsince.spent hparked)
  · exact absurd hintervenes (HandlerCall.not_intervenes_of_stale hstale)

theorem Tidy.next (h : Tidy env calls s) (hstraight : Straight env scan s s')
    (hturn : handleEventTurn (kernel env) scan () s = .ok (.inl ()) s') :
    Tidy env ((handedOver env scan s).toList ++ calls) s' := by
  have hfinal : finalState (handleEventTurn (kernel env) scan () s) = s' := by
    rw [hturn]
    rfl
  refine ⟨(h.turn hstraight).ok rfl hturn, ?_, h.hooks_next hstraight, fun x hx => ?_⟩
  · rw [← hfinal]
    exact endures_birthsOk.lasts.turn env h.births
  · rcases List.mem_append.mp hx with hnew | hold
    · exact fun hintervenes t => h.spent_next hstraight (Option.mem_toList.mp hnew)
        hturn hintervenes
    · intro hintervenes t ht
      rw [← hfinal]
      exact endures_spent.lasts.turn env (h.spent x hold hintervenes t ht)

/-- Every head of a straight run is tidy. -/
theorem tidy_head {n : Nat} (h : b.head env scan (Straight env scan) n = some s) :
    Tidy env (b.calls env scan (Straight env scan) n) s := by
  induction n generalizing s with
  | zero =>
    obtain ⟨added, s₀, hinsert, hresume⟩ := Boot.head_zero h
    exact tidy_first (begun_first hinsert hresume)
  | succ n ih =>
    obtain ⟨s₀, hs₀, hturn, hstraight⟩ := Boot.head_succ h
    rw [Boot.calls, hs₀]
    exact (ih hs₀).next hstraight hturn

/-- Every call of `handle_syscall` in a straight run that has an effect is made at the entry stop of
a hooked call, no two at the same; it writes to the process that made the call only, and the calls
that are not hooked are carried out as their tasks made them. -/
theorem hooks_at_entry {n : Nat} (h : b.head env scan (Straight env scan) n = some s)
    (hlast : Straight env scan s (finalState (handleEventTurn (kernel env) scan () s))) :
    HooksAtEntry env (b.calls env scan (Straight env scan) (n + 1)) ∧
      WritesStay s (finalState (handleEventTurn (kernel env) scan () s)) ∧
      Every Task.OwnCalls (finalState (handleEventTurn (kernel env) scan () s)).os := by
  have htidy := tidy_head h
  refine ⟨?_, writesStay_turn hlast.image, ?_⟩
  · rw [Boot.calls, h]
    exact htidy.hooks_next hlast
  · have hturn := htidy.turn hlast s rfl
    cases hrun : handleEventTurn (kernel env) scan () s with
    | ok r s' =>
      rw [hrun] at hturn
      exact fun q t ht => (hturn.2.every q t ht).toOwnCalls
    | error e s' =>
      rw [hrun] at hturn
      exact fun q t ht => (hturn q t ht).toOwnCalls

/-- `write`, which is not hooked. -/
def writeCall : UserRegsStruct := { (default : UserRegsStruct) with origRax := 1 }

/-- An `openat` of `"/dev/random"` is redirected.  A signal stops the process right behind it, with
the number of the open call, and then it enters `write`. -/
def signalled : Env :=
  scripted [(1, ⟨[.enter 100 (openRegs 4096 0 .openat)], 100⟩), (6, ⟨[.finish 100 default], 100⟩),
    (9, ⟨[.signal 100 17 none], 100⟩), (14, ⟨[.enter 100 writeCall], 100⟩)]

/-- The signal stop is taken for an entry: the process is stepped to the entry of `write`,
whose registers are replaced by those of the open call, and the kernel carries out `openat`
instead of `write`. -/
theorem not_hooks_at_entry_signalled :
    ∃ s, Boot.random.head signalled 0 (fun _ _ => True) 1 = some s ∧
      ¬HooksAtEntry signalled (Boot.random.calls signalled 0 (fun _ _ => True) 2) ∧
      ¬Every Task.OwnCalls (finalState (handleEventTurn (kernel signalled) 0 () s)).os := by
  have hrun : (Boot.random.head signalled 0 (fun _ _ => True) 1).any (fun s =>
      ((finalState (handleEventTurn (kernel signalled) 0 () s)).os.task 100).any fun t =>
        ∃ p ∈ t.executed, hookOf p.1.origRax = none ∧ p.2 ≠ p.1) = true := by
    decide +kernel
  have hcalls : ∃ x ∈ Boot.random.calls signalled 0 (fun _ _ => True) 2,
      x.Intervenes signalled ∧ x.task?.bind Task.stop? ≠ some .syscallEntry := by
    decide +kernel
  obtain ⟨s, hs, hrun⟩ := (Option.any_eq_true _ _).mp hrun
  obtain ⟨t, ht, hrun⟩ := (Option.any_eq_true _ _).mp hrun
  obtain ⟨p, hp, hhook, hother⟩ := of_decide_eq_true hrun
  obtain ⟨x, hx, hintervenes, hstop⟩ := hcalls
  refine ⟨s, hs, fun hhooks => ?_, fun hown => hother ((hown 100 t ht).own p hp hhook)⟩
  obtain ⟨u, hu, hentry, -⟩ := hhooks.atEntry x hx hintervenes
  rw [hu] at hstop
  exact hstop hentry

/-- The first turn redirects the open call at its entry. -/
theorem openDevice_hooked :
    ∃ s s', Boot.random.head signalled 0 (Straight signalled 0) 0 = some s ∧
      s' = finalState (handleEventTurn (kernel signalled) 0 () s) ∧
      (∃ x ∈ Boot.random.calls signalled 0 (Straight signalled 0) 1, x.Intervenes signalled) ∧
      HooksAtEntry signalled (Boot.random.calls signalled 0 (Straight signalled 0) 1) ∧
      WritesStay s s' ∧ Every Task.OwnCalls s'.os := by
  have hrun : (Boot.random.head signalled 0 (Straight signalled 0) 0).any (fun s =>
      Straight signalled 0 s (finalState (handleEventTurn (kernel signalled) 0 () s))) = true := by
    decide +kernel
  have hcalls : ∃ x ∈ Boot.random.calls signalled 0 (Straight signalled 0) 1,
      x.Intervenes signalled := by
    decide +kernel
  obtain ⟨s, hs, hrun⟩ := (Option.any_eq_true _ _).mp hrun
  exact ⟨s, _, hs, rfl, hcalls, hooks_at_entry hs (of_decide_eq_true hrun)⟩

end Reproduce.Linux
