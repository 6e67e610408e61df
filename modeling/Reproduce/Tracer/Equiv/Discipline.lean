import Reproduce.Linux.Run
import Reproduce.Tracer.Equiv.Parts
import Reproduce.Tracer.Equiv.Phases
import Reproduce.Tracer.Equiv.Steps
import Reproduce.Tracer.Equiv.Turn

/-!
# The discipline of `ptrace`

Only a process that stands at a stop can be asked anything, and only by a request can it leave the
stop.  Two things are told from a trace: which processes are held (`Held`: a wait reported them, and
no resumption succeeded since) and which of their stops are unanswered (`Unanswered`: no resumption
was tried since).  A trace is `Disciplined` when every request is to a process that is held and no
wait is for a process whose stop is unanswered; such a wait would never end.  Moreover a resumption
goes to a process that was taken up since the loop waited last (`Taken`, `Attended`).

`Hand` gathers this for the set of processes that the tracer has in hand.  That set is empty at the
head of the loop, and within a turn it holds the process that is served and, during a registration,
its new child.  The one thing that the kernel has to get right is that a fork event does not name
the process it happened in (`Honest`).
-/

namespace Reproduce

open Bytes Effect

variable {W : Type}

/-! ### What a trace tells -/

/-- A wait reported the process, and no resumption of it succeeded since.  The first process is
stopped when the trace begins. -/
def Held (first p : PidT) : List (Event W) → Prop
  | [] => p = first
  | .wait target (some (.ok (q, _))) :: older => target.getD q = p ∨ Held first p older
  | .ptrace (.syscall q _) (.ok _) :: older => q ≠ p ∧ Held first p older
  | _ :: older => Held first p older

/-- The last report of the process was of a stop, and no resumption of it was tried since. -/
def Unanswered (first p : PidT) : List (Event W) → Prop
  | [] => p = first
  | .wait target (some (.ok (q, status))) :: older =>
    if target.getD q = p then terminated status = false else Unanswered first p older
  | .ptrace (.syscall q _) _ :: older => q ≠ p ∧ Unanswered first p older
  | _ :: older => Unanswered first p older

/-- Every request is to a process that is held, and no wait is for a process whose stop
is unanswered. -/
def Disciplined (first : PidT) : List (Event W) → Prop
  | [] => True
  | .ptrace r _ :: older => Held first r.pid older ∧ Disciplined first older
  | .wait target _ :: older =>
    (∀ p, target = none ∨ target = some p → ¬Unanswered first p older) ∧ Disciplined first older
  | _ :: older => Disciplined first older

/-- Since the loop waited last, a wait reported the process, and no resumption of it succeeded
since.  The first process is stopped when the trace begins. -/
def Taken (first p : PidT) : List (Event W) → Prop
  | [] => p = first
  | .wait none (some (.ok (q, _))) :: _ => q = p
  | .wait none _ :: _ => False
  | .wait (some q) (some (.ok _)) :: older => q = p ∨ Taken first p older
  | .ptrace (.syscall q _) (.ok _) :: older => q ≠ p ∧ Taken first p older
  | _ :: older => Taken first p older

/-- Only processes that were taken up are resumed. -/
def Attended (first : PidT) : List (Event W) → Prop
  | [] => True
  | .ptrace (.syscall p _) _ :: older => Taken first p older ∧ Attended first older
  | _ :: older => Attended first older

/-- A fork event does not name the process it happened in. -/
def NamesOther : Event W → Prop
  | .ptrace (.geteventmsg pid) (.ok message) => childOf message ≠ pid
  | _ => True

instance : DecidablePred (NamesOther : Event W → Prop)
  | .ptrace (.geteventmsg pid) (.ok message) => inferInstanceAs (Decidable (childOf message ≠ pid))
  | .ptrace (.geteventmsg _) (.error _) | .ptrace (.peek ..) _ | .ptrace (.pokedata ..) _
  | .ptrace (.getregs _) _ | .ptrace (.setregs ..) _ | .ptrace (.syscall ..) _ | .wait ..
  | .malloc .. | .call .. => inferInstanceAs (Decidable True)

def Honest (trace : List (Event W)) : Prop := ∀ e ∈ trace, NamesOther e

instance : DecidablePred (Honest : List (Event W) → Prop) :=
  fun trace => inferInstanceAs (Decidable (∀ e ∈ trace, NamesOther e))

theorem Honest.earlier {trace trace' : List (Event W)} (h : Honest trace')
    (hle : trace <:+ trace') : Honest trace :=
  fun e he => h e (hle.subset he)

/-! ### The processes in hand -/

/-- The trace is disciplined, the processes in hand can be asked and resumed, and no other stop is
unanswered. -/
structure Hand (first : PidT) (pids : Set PidT) (trace : List (Event W)) : Prop where
  disciplined : Disciplined first trace
  attended : Attended first trace
  held : ∀ p ∈ pids, Held first p trace
  taken : ∀ p ∈ pids, Taken first p trace
  unanswered : ∀ p, Unanswered first p trace → p ∈ pids

/-- An event that leaves the processes in hand as they are: the tracer's own doings, and requests
to them that do not resume them. -/
def Plain (pids : Set PidT) : Event W → Prop
  | .ptrace (.syscall ..) _ => False
  | .ptrace r _ => r.pid ∈ pids
  | .wait .. => False
  | _ => True

namespace Hand

variable {first p : PidT} {pids : Set PidT} {trace : List (Event W)}

theorem plain {e : Event W} (h : Hand first pids trace) (he : Plain pids e) :
    Hand first pids (e :: trace) := by
  match e with
  | .ptrace (.peek ..) _ | .ptrace (.pokedata ..) _ | .ptrace (.getregs _) _
  | .ptrace (.setregs ..) _ | .ptrace (.geteventmsg _) _ =>
    exact ⟨⟨h.held _ he, h.disciplined⟩, h.attended, h.held, h.taken, h.unanswered⟩
  | .malloc .. | .call .. => exact ⟨h.disciplined, h.attended, h.held, h.taken, h.unanswered⟩

/-- A resumption lets go of the process. -/
theorem resumed {data : Word} {reply : Unit} (h : Hand first pids trace) (hp : p ∈ pids) :
    Hand first (pids \ {p}) (.ptrace (.syscall p data) (.ok reply) :: trace) where
  disciplined := ⟨h.held p hp, h.disciplined⟩
  attended := ⟨h.taken p hp, h.attended⟩
  held q hq := ⟨Ne.symm hq.2, h.held q hq.1⟩
  taken q hq := ⟨Ne.symm hq.2, h.taken q hq.1⟩
  unanswered q hq := ⟨h.unanswered q hq.2, Ne.symm hq.1⟩

/-- A resumption that fails answers the stop as well, but the process can still be asked. -/
theorem refused {data : Word} {e : Errno} (h : Hand first pids trace) (hp : p ∈ pids) :
    Hand first pids (.ptrace (.syscall p data) (.error e) :: trace) ∧
      Hand first (pids \ {p}) (.ptrace (.syscall p data) (.error e) :: trace) :=
  ⟨⟨⟨h.held p hp, h.disciplined⟩, ⟨h.taken p hp, h.attended⟩, h.held, h.taken,
      fun q hq => h.unanswered q hq.2⟩,
    ⟨⟨h.held p hp, h.disciplined⟩, ⟨h.taken p hp, h.attended⟩, fun q hq => h.held q hq.1,
      fun q hq => h.taken q hq.1, fun q hq => ⟨h.unanswered q hq.2, Ne.symm hq.1⟩⟩⟩

variable {target : WaitTarget}

theorem waits {answer : Option (Except Errno (PidT × Status))} (h : Hand first pids trace)
    (htarget : ∀ p, target = none ∨ target = some p → p ∉ pids) :
    Disciplined first (.wait target answer :: trace) :=
  ⟨fun p hp hunanswered => htarget p hp (h.unanswered p hunanswered), h.disciplined⟩

/-- A wait that is not for the processes in hand leaves them taken up. -/
theorem taken_wait {answer : Option (Except Errno (PidT × Status))} (h : Hand first pids trace)
    (htarget : ∀ p, target = none ∨ target = some p → p ∉ pids) {q : PidT} (hq : q ∈ pids) :
    Taken first q (.wait target answer :: trace) := by
  cases target with
  | none => exact absurd hq (htarget q (.inl rfl))
  | some p =>
    match answer with
    | some (.ok _) => exact .inr (h.taken q hq)
    | some (.error _) | none => exact h.taken q hq

/-- A wait takes the process that it reports into the hand. -/
theorem received {status : Status} (h : Hand first pids trace)
    (htarget : ∀ p, target = none ∨ target = some p → p ∉ pids) :
    Hand first (insert (target.getD p) pids) (.wait target (some (.ok (p, status))) :: trace) where
  disciplined := h.waits htarget
  attended := h.attended
  held q hq := hq.imp Eq.symm (h.held q)
  taken q hq := by
    rcases hq with rfl | hq
    · cases target with
      | none => rfl
      | some p => exact .inl rfl
    · exact h.taken_wait htarget hq
  unanswered q hq := by
    by_cases heq : target.getD p = q
    · exact .inl heq.symm
    · exact .inr (h.unanswered q ((if_neg heq).mp hq))

/-- The death of a process leaves no stop to answer. -/
theorem buried {status : Status} (h : Hand first pids trace)
    (htarget : ∀ p, target = none ∨ target = some p → p ∉ pids) (hdead : terminated status = true) :
    Hand first pids (.wait target (some (.ok (p, status))) :: trace) where
  disciplined := h.waits htarget
  attended := h.attended
  held q hq := .inr (h.held q hq)
  taken q hq := h.taken_wait htarget hq
  unanswered q hq := by
    by_cases heq : target.getD p = q
    · rw [Unanswered, if_pos heq, hdead] at hq
      cases hq
    · exact h.unanswered q ((if_neg heq).mp hq)

theorem failed {e : Errno} (h : Hand first pids trace)
    (htarget : ∀ p, target = none ∨ target = some p → p ∉ pids) :
    Hand first pids (.wait target (some (.error e)) :: trace) :=
  ⟨h.waits htarget, h.attended, h.held, fun _ hq => h.taken_wait htarget hq, h.unanswered⟩

end Hand

/-! ### The invariant -/

variable (K : Kernel W) {first pid : PidT} {pids : Set PidT}

/-- The tracer has these processes in hand. -/
def InHand (first : PidT) (pids : Set PidT) (s : Tracer W) : Prop :=
  Honest s.trace → Hand first pids s.trace

/-- What holds where the tracer stops. -/
def Stopped (first : PidT) (_ : Halt) (s : Tracer W) : Prop :=
  Honest s.trace → Disciplined first s.trace ∧ Attended first s.trace

theorem InHand.stopped {s : Tracer W} (h : InHand first pids s) (e : Halt) : Stopped first e s :=
  fun hhonest => ⟨(h hhonest).disciplined, (h hhonest).attended⟩

/-- The processes in hand are given in another way. -/
theorem InHand.congr {s : Tracer W} {pids' : Set PidT} (h : InHand first pids s)
    (hpids : Honest s.trace → pids = pids') : InHand first pids' s :=
  fun hhonest => hpids hhonest ▸ h hhonest

/-- One more event. -/
theorem InHand.step {s s' : Tracer W} {e : Event W} {pids' : Set PidT} (h : InHand first pids s)
    (htrace : s'.trace = e :: s.trace)
    (hstep : Honest s'.trace → Hand first pids s.trace → Hand first pids' (e :: s.trace)) :
    InHand first pids' s' := by
  intro hhonest
  rw [htrace]
  exact hstep hhonest (h (hhonest.earlier (htrace ▸ List.suffix_cons _ _)))

theorem InHand.plain {s s' : Tracer W} (h : InHand first pids s)
    (hs : Extends (Plain pids) s s') : InHand first pids s' := by
  intro hhonest
  exact hs.keeps (fun _ _ he hand => hand.plain he) (h (hhonest.earlier hs.suffix))

theorem preserves_plain {α : Type} {m : TracerM W α} (h : Within (Extends (Plain pids)) m) :
    Within (Preserves (InHand first pids)) m :=
  h.mono fun _ _ hs hin => hin.plain hs

theorem triple_inHand {α : Type} {m : TracerM W α} (h : Within (Extends (Plain pids)) m) :
    Triple (InHand first pids) m (fun _ => InHand first pids) (Stopped first) :=
  (preserves_plain h).triple fun e _ hs => hs.stopped e

/-! ### Requests and waits -/

theorem plain_pokes (hpid : pid ∈ pids) : Pokes K (Extends (Plain pids)) pid where
  peek _ := extends_ptrace K fun _ => hpid
  poke _ _ := extends_ptrace K fun _ => hpid

theorem plain_insertProcess (p : PidT) : Within (Extends (Plain pids)) (insertProcess K p) :=
  extends_insertProcess K (fun _ _ => trivial) fun _ _ => trivial

theorem plain_deleteProcess (p : PidT) :
    Within (Extends (Plain pids)) (deleteProcess p : TracerM W Unit) :=
  extends_deleteProcess fun _ _ => trivial

/-- A resumption answers the stop.  Unless it succeeds, the process can still be asked. -/
theorem triple_resume_inHand (hpid : pid ∈ pids) :
    Triple (InHand first pids) (ptrace K (.syscall pid 0))
      (fun answer s => InHand first (pids \ {pid}) s ∧
        ∀ e, answer = .error e → InHand first pids s) (Stopped first) := by
  refine (triple_ptrace K _ _ _).conseq (fun _ hs => hs) ?_ fun _ _ he => he
  rintro answer _ ⟨s, hs, hanswer, rfl⟩
  have htrace : (s.asked K (.syscall pid 0)).trace =
      .ptrace (.syscall pid 0) answer :: s.trace := by
    rw [Tracer.asked, hanswer]
  cases answer with
  | ok reply => exact ⟨hs.step htrace fun _ h => h.resumed hpid, fun _ he => nomatch he⟩
  | error e =>
    exact ⟨hs.step htrace fun _ h => (h.refused hpid).2,
      fun _ _ => hs.step htrace fun _ h => (h.refused hpid).1⟩

theorem triple_resumeReturn_inHand (hpid : pid ∈ pids) :
    Triple (InHand first pids) (ptraceReturn K (.syscall pid 0))
      (fun more s => InHand first (pids \ {pid}) s ∧ (more = false → InHand first pids s))
      (Stopped first) := by
  refine Triple.bind (triple_resume_inHand K hpid) fun answer => ?_
  cases answer with
  | ok reply => exact Triple.pure fun s hs => ⟨hs.1, fun h => nomatch h⟩
  | error e =>
    exact Triple.ite (fun _ => Triple.pure fun s hs => ⟨hs.1, fun _ => hs.2 e rfl⟩)
      (fun _ => Triple.throw fun s hs => hs.1.stopped _)

/-- The wait for one process takes it into the hand. -/
theorem triple_waitpidOrExit_inHand :
    Triple (fun s => InHand first pids s ∧ (Honest s.trace → pid ∉ pids)) (waitpidOrExit K pid)
      (fun _ => InHand first (insert pid pids)) (Stopped first) := by
  rintro s ⟨hs, hpid⟩
  have htarget : Honest s.trace → ∀ p, some pid = none ∨ some pid = some p → p ∉ pids := by
    rintro hhonest p (hnone | hsome)
    · cases hnone
    · exact Option.some.inj hsome ▸ hpid hhonest
  have hstopped : Stopped first .blocked (s.waited K (some pid)) := fun hhonest =>
    have hearlier := hhonest.earlier (List.suffix_cons _ _)
    ⟨(hs hearlier).waits (htarget hearlier), (hs hearlier).attended⟩
  rw [waitpidOrExit]
  cases hanswer : (K.waitpid (some pid) s.os).1 with
  | none =>
    have hblocked : waitpid K (some pid) s = .error .blocked (s.waited K (some pid)) := by
      rw [waitpid_apply, hanswer]
    rw [bind_apply_error hblocked]
    exact hstopped
  | some answer =>
    rw [bind_apply_ok (waitpid_of_some K hanswer)]
    cases answer with
    | error e => exact hstopped
    | ok report =>
      obtain ⟨q, status⟩ := report
      have htrace : (s.waited K (some pid)).trace =
          .wait (some pid) (some (.ok (q, status))) :: s.trace := by
        rw [Tracer.waited, hanswer]
      exact hs.step htrace fun hhonest h =>
        h.received (htarget (hhonest.earlier (htrace ▸ List.suffix_cons _ _)))

/-! ### Helpers and handlers -/

theorem triple_resumeAndWait_inHand :
    Triple (InHand first {pid}) (resumeAndWait K pid) (fun _ => InHand first {pid})
      (Stopped first) := by
  refine Triple.bind (triple_resumeReturn_inHand K (Set.mem_singleton pid)) fun more => ?_
  refine Triple.ite (fun hmore => ?_) (fun hmore => ?_)
  · -- it was let go, and comes back with the wait
    rw [Set.sdiff_self]
    refine Triple.bind ((triple_waitpidOrExit_inHand K).conseq
      (fun s hs => ⟨hs.1, fun _ => Set.notMem_empty pid⟩) (fun _ _ hs => hs) fun _ _ he => he)
      fun status => ?_
    rw [insert_empty_eq]
    exact Triple.ite (fun _ => Triple.throw fun s hs => hs.stopped _)
      (fun _ => Triple.pure fun _ hs => hs)
  · exact Triple.pure fun s hs => hs.2 (Bool.not_eq_true _ ▸ hmore)

theorem triple_childCancelSyscall_inHand (regs : UserRegsStruct) :
    Triple (InHand first {pid}) (childCancelSyscall K pid regs) (fun _ => InHand first {pid})
      (Stopped first) := by
  have hset : Within (Extends (Plain {pid}))
      (ptraceReturn K (.setregs pid { regs with origRax := -1 })) :=
    within_ptraceReturn (extends_ptrace K fun _ => Set.mem_singleton pid)
  refine Triple.bind (triple_inHand hset) fun more => ?_
  refine Triple.ite (fun _ => ?_) (fun _ => Triple.pure fun _ hs => hs)
  exact Triple.bind (triple_resumeAndWait_inHand K) fun _ => Triple.pure fun _ hs => hs

/-- A handler gives the process back as it got it. -/
theorem triple_runHook_inHand (child : Ptr) (regs : UserRegsStruct) :
    Triple (InHand first {pid}) (runHook K child pid regs (hookOf regs.origRax))
      (fun _ => InHand first {pid}) (Stopped first) := by
  have hpid := Set.mem_singleton pid
  have hphases : Phases K child pid regs (InHand first {pid}) (InHand first {pid})
      (Stopped first) := {
    look := ⟨fun _ => preserves_plain (extends_ptrace K fun _ => hpid), fun _ _ hs => hs⟩
    cancel := fun _ _ _ => triple_childCancelSyscall_inHand K regs
    proceed := fun _ _ _ => triple_resumeAndWait_inHand K
    change := ⟨fun place => preserves_plain ((plain_pokes K hpid).peek place),
      fun addr data => preserves_plain ((plain_pokes K hpid).poke addr data)⟩
    returns := fun _ _ => preserves_plain (extends_ptrace K fun _ => hpid)
    malloc := fun size => preserves_plain (extends_malloc K (fun _ _ => trivial) size)
    clock := fun t => preserves_plain (extends_setClock child t)
    before := fun e _ hs => hs.stopped e
    after := fun e _ hs => hs.stopped e }
  exact hphases.triple_runHook.conseq (fun _ hs => hs)
    (fun _ _ hs => hs.elim (fun h => h.2) id) fun _ _ he => he

/-- `proc_init` looks at the process and resumes it. -/
theorem triple_procInit_inHand (scan : Nat) :
    Triple (InHand first {pid}) (procInit K scan pid) (fun _ => InHand first ∅)
      (Stopped first) := by
  have hpokes := plain_pokes K (Set.mem_singleton pid)
  have hremove : Within (Extends (Plain {pid})) (removeVdso K scan pid) := fun s =>
    IsTrans.trans _ _ _ (extends_note (fun _ _ => trivial) s) (hpokes.removeVdso_from scan s)
  refine Triple.bind (triple_inHand hremove) fun _ => ?_
  refine Triple.bind (triple_resumeReturn_inHand K (Set.mem_singleton pid)) fun _ => ?_
  rw [Set.sdiff_self]
  exact Triple.pure fun s hs => hs.1

/-! ### Registration -/

/-- Nothing is to show once a fork event has named its own process. -/
theorem triple_dishonest_inHand {α : Type} {m : TracerM W α} {Q : Set PidT}
    (h : Within (Extends fun _ => True) m) :
    Triple (fun s => ¬Honest s.trace) m (fun _ => InHand first Q) (Stopped first) := by
  have hkept : ∀ {s s' : Tracer W}, Extends (fun _ => True) s s' → ¬Honest s.trace →
      ¬Honest s'.trace := by
    intro s s' hextends hs hhonest
    exact hs (hhonest.earlier hextends.suffix)
  exact Triple.intro (fun _ _ _ hs hm hhonest => absurd hhonest (hkept (h.ok hm) hs))
    (fun _ _ _ hs hm hhonest => absurd hhonest (hkept (h.error hm) hs))

/-- The new process is waited for and resumed; the one that forked stays in hand. -/
theorem triple_registerNewChild_inHand :
    Triple (InHand first {pid}) (registerNewChild K pid) (fun _ => InHand first {pid})
      (Stopped first) := by
  refine Triple.bind (Q := fun answer s => InHand first {pid} s ∧ ∀ message, answer = .ok message →
    Honest s.trace → childOf message ≠ pid) ?_ fun answer => ?_
  · refine (triple_ptrace K _ (InHand first {pid}) _).conseq (fun _ hs => hs) ?_ fun _ _ he => he
    rintro answer _ ⟨s, hs, hanswer, rfl⟩
    refine ⟨hs.plain (extends_one rfl (Set.mem_singleton pid)), fun message hmessage hhonest => ?_⟩
    refine hhonest (.ptrace (.geteventmsg pid) (.ok message)) ?_
    rw [Tracer.asked, hanswer, hmessage]
    exact List.mem_cons_self
  cases answer with
  | error e =>
    exact Triple.ite (fun _ => Triple.pure fun s hs => hs.1)
      (fun _ => Triple.throw fun s hs => hs.1.stopped _)
  | ok message =>
    by_cases hne : childOf message = pid
    · have hsteps : Steps K (Extends fun _ : Event W => True) :=
        steps_extends (fun _ _ _ => trivial) (fun _ _ => trivial) (fun _ _ => trivial)
          fun _ _ _ _ => trivial
      refine Triple.conseq
        (triple_dishonest_inHand (Within.bind (hsteps.within_insertProcess _) fun added => ?_))
        (fun s hs hhonest => hs.2 message rfl hhonest hne) (fun _ _ hs => hs) fun _ _ he => he
      refine Within.ite (fun _ => ?_) (fun _ => Within.pure _)
      refine Within.bind (within_waitpidOrExit (hsteps.wait _)) fun status => ?_
      exact Within.bind (within_ptraceReturn (hsteps.ptrace _ rfl)) fun _ => Within.pure _
    · have hchild : childOf message ∉ ({pid} : Set PidT) := fun hmem =>
        hne (Set.mem_singleton_iff.mp hmem)
      refine Triple.bind ((triple_inHand (plain_insertProcess K (childOf message))).conseq
        (fun s hs => hs.1) (fun _ _ hs => hs) fun _ _ he => he) fun added => ?_
      refine Triple.ite (fun _ => ?_) (fun _ => Triple.pure fun _ hs => hs)
      refine Triple.bind ((triple_waitpidOrExit_inHand K).conseq (fun s hs => ⟨hs, fun _ => hchild⟩)
        (fun _ _ hs => hs) fun _ _ he => he) fun status => ?_
      refine Triple.bind (triple_resumeReturn_inHand K (Set.mem_insert _ _)) fun more => ?_
      rw [Set.insert_sdiff_self_of_notMem hchild]
      exact Triple.pure fun s hs => hs.1

/-! ### One turn -/

/-- What the tracer has in hand when it has received a stop. -/
def Dealt (first : PidT) : Dispatch → Tracer W → Prop
  | .next, s | .stop, s => InHand first ∅ s
  | .hook pid _ _, s => InHand first {pid} s

theorem triple_lookUpStop_inHand (scan : Nat) :
    Triple (InHand first {pid}) (lookUpStop K scan pid) (Dealt first) (Stopped first) := by
  refine Triple.bind (Q := fun _ => InHand first {pid}) (fun _ hs => hs) fun child => ?_
  cases child with
  | none =>
    refine Triple.bind (triple_procInit_inHand K scan) fun _ => ?_
    refine Triple.bind (triple_inHand (plain_insertProcess K pid)) fun _ => ?_
    exact Triple.pure fun _ hs => hs
  | some child =>
    have hread : Within (Extends (Plain {pid})) (ptraceDelete K (.getregs pid) pid) := by
      refine Within.bind (extends_ptrace K fun _ => Set.mem_singleton pid) fun answer => ?_
      cases answer with
      | ok regs => exact Within.pure _
      | error e =>
        refine Within.ite (fun _ => ?_) (fun _ => Within.throw _)
        exact Within.bind (plain_deleteProcess pid) fun _ => Within.pure _
    refine Triple.bind (triple_inHand hread) fun reply => ?_
    cases reply with
    | some regs => exact Triple.pure fun _ hs => hs
    | none => exact fun _ hs => hs

/-- A death leaves nothing in hand; any other stop is served. -/
theorem triple_dispatchStop_inHand (scan : Nat) (status : Status) :
    Triple (fun s => InHand first {pid} s ∧ (terminated status = true → InHand first ∅ s))
      (dispatchStop K scan pid status) (Dealt first) (Stopped first) := by
  refine Triple.ite (fun hdead => ?_) (fun _ => Triple.ite (fun _ => ?_) (fun _ => ?_))
  · refine Triple.bind ((triple_inHand (plain_deleteProcess pid)).conseq
      (fun s hs => hs.2 hdead) (fun _ _ hs => hs) fun _ _ he => he) fun _ => ?_
    exact Triple.pure fun _ hs => hs
  · refine Triple.bind ((triple_procInit_inHand K scan).conseq
      (fun s hs => hs.1) (fun _ _ hs => hs) fun _ _ he => he) fun _ => ?_
    exact Triple.pure fun _ hs => hs
  · have hregister : Triple (InHand first {pid}) (registerForkEvent K pid status)
        (fun _ => InHand first {pid}) (Stopped first) :=
      Triple.ite (fun _ => triple_registerNewChild_inHand K) (fun _ => Triple.pure fun _ hs => hs)
    refine Triple.bind (hregister.conseq (fun s hs => hs.1) (fun _ _ hs => hs) fun _ _ he => he)
      fun _ => ?_
    exact triple_lookUpStop_inHand K scan

/-- The loop waits with nothing in hand. -/
theorem triple_receiveStop_inHand (scan : Nat) :
    Triple (InHand first ∅) (receiveStop K scan) (Dealt first) (Stopped first) := by
  have htarget : ∀ target : WaitTarget, ∀ p : PidT, target = none ∨ target = some p →
      p ∉ (∅ : Set PidT) := fun _ p _ => Set.notMem_empty p
  intro s hs
  have hstopped : Stopped first .blocked (s.waited K none) := fun hhonest =>
    have hhand := hs (hhonest.earlier (List.suffix_cons _ _))
    ⟨hhand.waits (htarget none), hhand.attended⟩
  rw [receiveStop]
  cases hanswer : (K.waitpid none s.os).1 with
  | none =>
    have hblocked : waitpid K none s = .error .blocked (s.waited K none) := by
      rw [waitpid_apply, hanswer]
    rw [bind_apply_error hblocked]
    exact hstopped
  | some answer =>
    rw [bind_apply_ok (waitpid_of_some K hanswer)]
    have htrace : (s.waited K none).trace = .wait none (some answer) :: s.trace := by
      rw [Tracer.waited, hanswer]
    cases answer with
    | error e =>
      have hleave : Triple (InHand first ∅)
          (if e = .ECHILD then pure .stop else exitFailure : TracerM W Dispatch) (Dealt first)
          (Stopped first) :=
        Triple.ite (fun _ => Triple.pure fun _ hs => hs)
          (fun _ => Triple.throw fun s hs => hs.stopped _)
      exact hleave _ (hs.step htrace fun _ h => h.failed (htarget none))
    | ok report =>
      obtain ⟨pid, status⟩ := report
      refine triple_dispatchStop_inHand K scan status _ ⟨?_, fun hdead => ?_⟩
      · refine hs.step htrace fun _ h => ?_
        rw [← insert_empty_eq pid]
        exact h.received (htarget none)
      · exact hs.step htrace fun _ h => h.buried (htarget none) hdead

/-- The entry that is handed on is that of the process in hand. -/
theorem pid_of_handed {scan : Nat} {s s' : Tracer W} {child : Ptr} {regs : UserRegsStruct}
    {c : ChildProcess} (hok : TableOk s')
    (hreceive : receiveStop K scan s = .ok (.hook pid child regs) s')
    (hblock : blockAt s'.processTable child = some c) : c.pid = pid := by
  obtain ⟨s₁, c', hfind, rfl, ⟨-, rfl⟩ | rfl⟩ := receiveStop_hook hreceive
  · cases (hok.blockAt_of_hashFind (s := s₁.asked K (.getregs pid)) hfind).symm.trans hblock
    exact (hashFind_eq_some hfind).2
  · rw [blockAt_deleted (s := s₁.asked K (.getregs pid)) hfind] at hblock
    cases hblock

theorem triple_handleSyscall_inHand (child : Ptr) (regs : UserRegsStruct) :
    Triple (fun s => InHand first {pid} s ∧
        ∀ c, blockAt s.processTable child = some c → c.pid = pid)
      (handleSyscall K child regs) (fun _ => InHand first {pid}) (Stopped first) := by
  rintro s ⟨hs, hpid⟩
  have hnoted : InHand first {pid} (s.noted (.handleSyscall child regs)) :=
    hs.plain (extends_one rfl trivial)
  cases hblock : blockAt s.processTable child with
  | some c =>
    rw [handleSyscall_eq K hblock, hpid c hblock]
    exact triple_runHook_inHand K child regs _ hnoted
  | none =>
    rw [handleSyscall_stale K hblock]
    exact hnoted.stopped _

/-- The tracer is at the head of its loop. -/
def AtHead (first : PidT) (s : Tracer W) : Prop := TableOk s ∧ InHand first ∅ s

/-- A turn begins and ends with nothing in hand. -/
theorem triple_handleEventTurn_inHand (scan : Nat) :
    Triple (AtHead first) (handleEventTurn K scan ())
      (fun r s => r.elim (fun _ => AtHead first s) (fun _ => InHand first ∅ s))
      (Stopped first) := by
  refine Triple.bind (Q := fun _ => AtHead first) (fun _ hs => hs) fun empty => ?_
  refine Triple.ite (fun _ => Triple.pure fun s hs => hs.2) (fun _ => ?_)
  -- the table is in order when the stop has been received, so the entry is that of the process
  have hreceive : Triple (AtHead first) (receiveStop K scan)
      (fun dispatch s => (TableOk s ∧ Dealt first dispatch s) ∧
        ∀ pid child regs, dispatch = .hook pid child regs →
          ∀ c, blockAt s.processTable child = some c → c.pid = pid) (Stopped first) := by
    refine Triple.intro (fun s dispatch s' hs hrun => ?_)
      fun s e s' hs hrun => (triple_receiveStop_inHand K scan).error hs.2 hrun
    have hok := (tableOk_parts.triple_receiveStop scan).ok hs.1 hrun
    refine ⟨⟨hok, (triple_receiveStop_inHand K scan).ok hs.2 hrun⟩, ?_⟩
    rintro pid child regs rfl c hblock
    exact pid_of_handed K hok hrun hblock
  refine Triple.bind hreceive fun dispatch => ?_
  match dispatch with
  | .next => exact Triple.pure fun s hs => hs.1
  | .stop => exact Triple.pure fun s hs => hs.1.2
  | .hook pid child regs =>
    have hpid := Set.mem_singleton pid
    refine Triple.bind (((triple_handleSyscall_inHand K child regs).frame
      (tableOk_parts.handle child regs)).conseq
      (fun s hs => ⟨⟨hs.1.2, hs.2 pid child regs rfl⟩, hs.1.1⟩) (fun _ _ hs => hs)
      fun _ _ he => he) fun _ => ?_
    have hresume : Triple (InHand first {pid}) (ptraceDelete K (.syscall pid 0) pid)
        (fun _ => InHand first ∅) (Stopped first) := by
      refine Triple.bind (triple_resume_inHand K hpid) fun answer => ?_
      rw [Set.sdiff_self]
      cases answer with
      | ok reply => exact Triple.pure fun s hs => hs.1
      | error e =>
        refine Triple.ite (fun _ => ?_) (fun _ => Triple.throw fun s hs => hs.1.stopped _)
        refine Triple.bind ((triple_inHand (plain_deleteProcess pid)).conseq
          (fun s hs => hs.1) (fun _ _ hs => hs) fun _ _ he => he) fun _ => ?_
        exact Triple.pure fun _ hs => hs
    refine Triple.bind (hresume.frame (tableOk_parts.triple_ptraceDelete
      (tableOk_parts.resume pid) pid)) fun _ => ?_
    exact Triple.pure fun s hs => ⟨hs.2, hs.1⟩

/-! ### Every run -/

theorem inHand_start (first : PidT) (os : W) : InHand first {first} (Tracer.start os) :=
  fun _ => ⟨trivial, trivial, fun _ hp => hp, fun _ hp => hp, fun _ hp => hp⟩

theorem triple_traceChild_inHand (scan n : Nat) :
    Triple (fun s => InHand first {first} s ∧ TableOk s) (traceChild K scan n first)
      (fun _ => InHand first ∅) (Stopped first) := by
  refine Triple.bind ((triple_inHand (plain_insertProcess K first)).frame
    (tableOk_parts.insert first)) fun _ => ?_
  refine Triple.bind ((triple_resume_inHand K (Set.mem_singleton first)).frame
    (tableOk_parts.resume first)) fun answer => ?_
  rw [Set.sdiff_self]
  cases answer with
  | error e => exact Triple.pure fun s hs => hs.1.1
  | ok reply =>
    have hloop : Triple (AtHead first) (handleEvent K scan n) (fun _ => InHand first ∅)
        (Stopped first) :=
      Triple.loop (I := fun _ => AtHead first) (fun _ => triple_handleEventTurn_inHand K scan)
        (fun _ _ hs => hs.2.stopped _) n ()
    exact hloop.conseq (fun s hs => ⟨hs.2, hs.1.1⟩) (fun _ _ hs => hs) fun _ _ he => he

/-- In every run the tracer asks only processes that it holds, and never waits for one whose stop
it has not answered; and when it returns, every stop has been answered. -/
theorem traceChild_disciplined (scan n : Nat) (childPid : PidT) (os : W)
    (hhonest : Honest (finalState (traceChild K scan n childPid (Tracer.start os))).trace) :
    Disciplined childPid (finalState (traceChild K scan n childPid (Tracer.start os))).trace ∧
      ∀ s, traceChild K scan n childPid (Tracer.start os) = .ok () s →
        ∀ p, ¬Unanswered childPid p s.trace := by
  have hrun := triple_traceChild_inHand K scan n (Tracer.start os)
    ⟨inHand_start childPid os, tableOk_start os⟩
  cases hend : traceChild K scan n childPid (Tracer.start os) with
  | error e s =>
    rw [hend] at hrun hhonest
    exact ⟨(hrun hhonest).1, fun _ hs => nomatch hs⟩
  | ok a s =>
    rw [hend] at hrun hhonest
    refine ⟨(hrun hhonest).disciplined, ?_⟩
    rintro _ ⟨⟩ p hp
    exact (hrun hhonest).unanswered p hp

/-- The first task forks, and it and its child are killed. -/
def forkAndDie : Linux.Env :=
  Linux.scripted [(1, ⟨[.enter 100 Linux.forkCall], 100⟩),
    (4, ⟨[.fork 100 101 .fork false false 0], 100⟩), (10, ⟨[.die 100 9], 100⟩),
    (11, ⟨[.die 101 9], 101⟩)]

theorem forkAndDie_disciplined :
    Disciplined 100 (finalState (Linux.Boot.sample.run forkAndDie 0 5)).trace ∧
      ∀ s, Linux.Boot.sample.run forkAndDie 0 5 = .ok () s → ∀ p, ¬Unanswered 100 p s.trace :=
  traceChild_disciplined (Linux.kernel forkAndDie) 0 5 100 Linux.Boot.sample.world
    (by decide +kernel)

end Reproduce
