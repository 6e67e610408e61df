import Reproduce.Tracer.Equiv.Frame

/-!
# The phases of a handler

A handler looks at its process, deals with the system call once, by cancelling it or by letting it
run, and only then changes the process.  `Phases` lists what has to be shown about the parts, with
one predicate before the call is dealt with and one after it; `Phases.triple_runHook` goes through
the handlers.
-/

namespace Reproduce

open Bytes Effect

variable {W : Type} (K : Kernel W)

/-- The number is one of the open calls, or none of the hooked ones. -/
def NotEmulated (nr : Word) : Prop := ∀ hook, hookOf nr = some hook → hook.emulated = false

/-- What the parts of a handler keep: `P` holds until the system call is dealt with, `Q` from then
on, and `E` where the tracer stops. -/
structure Phases (child : Ptr) (pid : PidT) (regs : UserRegsStruct) (P Q : Tracer W → Prop)
    (E : Halt → Tracer W → Prop) : Prop where
  look : Looks K (Preserves P) pid
  cancel : ∀ hook, hookOf regs.origRax = some hook → hook.emulated = true →
    Triple P (childCancelSyscall K pid regs) (fun _ => Q) E
  proceed : ∀ hook, hookOf regs.origRax = some hook → hook.emulated = false →
    Triple P (resumeAndWait K pid) (fun _ => Q) E
  change : Pokes K (Preserves Q) pid
  returns : ∀ regs' : UserRegsStruct, NotEmulated regs'.origRax →
    Within (Preserves Q) (ptrace K (.setregs pid regs'))
  malloc : ∀ size, Within (Preserves Q) (malloc K size)
  clock : ∀ t, Within (Preserves Q) (setClock child t : TracerM W Unit)
  before : ∀ e s, P s → E e s
  after : ∀ e s, Q s → E e s

variable {K} {child : Ptr} {pid : PidT} {regs : UserRegsStruct} {P Q : Tracer W → Prop}
  {E : Halt → Tracer W → Prop}

/-- A cancelled call has the number -1. -/
theorem notEmulated_cancelled : NotEmulated (-1) := by
  intro hook hhook
  rw [hookOf_neg_one] at hhook
  cases hhook

theorem notEmulated_of_open {nr : Word} {hook : Hook} (hhook : hookOf nr = some hook)
    (hopen : hook.emulated = false) : NotEmulated nr := by
  intro hook' hhook'
  cases hhook.symm.trans hhook'
  exact hopen

theorem notEmulated_of_none {nr : Word} (hhook : hookOf nr = none) : NotEmulated nr := by
  intro hook hhook'
  cases hhook.symm.trans hhook'

/-- A cancelled call has the number -1, however the requests were answered. -/
theorem childCancelSyscall_eq_ok {s s' : Tracer W} {regs' : UserRegsStruct}
    (h : childCancelSyscall K pid regs s = .ok regs' s') :
    regs' = { regs with origRax := -1 } := by
  obtain ⟨more, s₁, -, h⟩ := bind_eq_ok.mp h
  split at h
  · obtain ⟨_, s₂, -, h⟩ := bind_eq_ok.mp h
    cases h
    rfl
  · cases h
    rfl

namespace Phases

theorem triple_deref (h : Phases K child pid regs P Q E) :
    Triple Q (deref child : TracerM W ChildProcess) (fun _ => Q) E :=
  (Requests.within_deref child).triple h.after

/-- The registers that are set at the end have the number of an open call or -1. -/
theorem triple_childReturns (h : Phases K child pid regs P Q E) {regs' : UserRegsStruct}
    (hregs : NotEmulated regs'.origRax) (data : Word) :
    Triple Q (childReturns K pid regs' data >>= fun _ => pure ()) (fun _ => Q) E := by
  have hset : Within (Preserves Q) (childReturns K pid regs' data) :=
    Within.bind (within_ptraceReturn (h.returns (wReturn regs' data) hregs)) fun _ => Within.pure _
  exact Within.triple (Within.bind hset fun _ => Within.pure _) h.after

theorem triple_replaceBuf (h : Phases K child pid regs P Q E) (src : List Byte) (dest len : Word) :
    Triple Q (replaceBuf K pid src dest len) (fun _ => Q) E :=
  (h.change.within_replaceBuf src dest len).triple h.after

/-- An emulated call is cancelled first, and the rest goes on with the number -1. -/
theorem triple_cancel (h : Phases K child pid regs P Q E) {hook : Hook}
    (hhook : hookOf regs.origRax = some hook) (hemulated : hook.emulated = true)
    {rest : UserRegsStruct → TracerM W Unit}
    (hrest : Triple Q (rest { regs with origRax := -1 }) (fun _ => Q) E) :
    Triple P (childCancelSyscall K pid regs >>= rest) (fun _ => Q) E := by
  have hcancel := (h.cancel hook hhook hemulated).value
    (V := fun regs' => regs' = { regs with origRax := -1 }) fun _ _ _ hrun =>
      childCancelSyscall_eq_ok hrun
  refine Triple.bind hcancel fun regs' => ?_
  rintro s ⟨rfl, hs⟩
  exact hrest s hs

theorem triple_hookGetrandom (h : Phases K child pid regs P Q E)
    (hhook : hookOf regs.origRax = some .getrandom) :
    Triple P (hookGetrandom K pid regs) (fun _ => Q) E := by
  refine h.triple_cancel hhook rfl ?_
  refine Triple.bind ((h.malloc _).triple h.after) fun testdata => ?_
  refine Triple.ite (fun _ => Triple.throw fun s hs => h.after _ s hs) (fun _ => ?_)
  refine Triple.bind (h.triple_replaceBuf _ _ _) fun _ => ?_
  exact h.triple_childReturns notEmulated_cancelled _

theorem triple_writeAndAdvance (h : Phases K child pid regs P Q E) {hook : Hook}
    (hhook : hookOf regs.origRax = some hook) (hemulated : hook.emulated = true) (addr : Word) :
    Triple P (writeAndAdvance K child pid regs addr) (fun _ => Q) E := by
  refine h.triple_cancel hhook hemulated ?_
  refine Triple.bind h.triple_deref fun c => ?_
  refine Triple.bind (h.triple_replaceBuf _ _ _) fun _ => ?_
  refine Triple.bind h.triple_deref fun c' => ?_
  refine Triple.bind ((h.clock _).triple h.after) fun _ => ?_
  exact h.triple_childReturns notEmulated_cancelled _

theorem triple_hookTime (h : Phases K child pid regs P Q E)
    (hhook : hookOf regs.origRax = some .time) :
    Triple P (hookTime K child pid regs) (fun _ => Q) E := by
  refine h.triple_cancel hhook rfl ?_
  refine Triple.bind h.triple_deref fun c => ?_
  refine Triple.bind ((h.clock _).triple h.after) fun _ => ?_
  have hwrite : Triple Q (writeTime K child pid (rArg1 regs)) (fun _ => Q) E :=
    Triple.ite (fun _ => Triple.bind h.triple_deref fun c' => h.triple_replaceBuf _ _ _)
      (fun _ => Triple.pure fun _ hs => hs)
  refine Triple.bind hwrite fun _ => ?_
  refine Triple.bind h.triple_deref fun c' => ?_
  exact h.triple_childReturns notEmulated_cancelled _

/-- The path is read before the call is dealt with. -/
theorem triple_redirectDevRandom (h : Phases K child pid regs P Q E) {hook : Hook}
    (hhook : hookOf regs.origRax = some hook) (hopen : hook.emulated = false) :
    Triple P (redirectDevRandom K pid regs) (fun _ s => P s ∨ Q s) E := by
  refine Triple.bind ((h.look.within_readChildCString _).triple h.before) fun str => ?_
  refine Triple.bind ((Requests.within_strcmpEq str _).triple h.before) fun isRandom => ?_
  refine Triple.bind ((Requests.within_strcmpEq str _).triple h.before) fun isUrandom => ?_
  refine Triple.ite (fun _ => ?_) (fun _ => Triple.pure fun _ hs => .inl hs)
  refine Triple.bind
    (Triple.bind (h.proceed hook hhook hopen) (R := fun regs' s => regs' = regs ∧ Q s)
    fun _ => Triple.pure fun _ hs => ⟨rfl, hs⟩) fun regs' => ?_
  rintro s ⟨rfl, hs⟩
  exact (h.triple_childReturns (notEmulated_of_open hhook hopen) _).conseq (fun _ hs => hs)
    (fun _ _ hs => .inr hs) (fun _ _ he => he) s hs

/-- Only a call that is not emulated may have been left alone. -/
theorem triple_runHook (h : Phases K child pid regs P Q E) :
    Triple P (runHook K child pid regs (hookOf regs.origRax))
      (fun _ s => (NotEmulated regs.origRax ∧ P s) ∨ Q s) E := by
  have hweak : ∀ {m : TracerM W Unit}, Triple P m (fun _ => Q) E →
      Triple P m (fun _ s => (NotEmulated regs.origRax ∧ P s) ∨ Q s) E :=
    fun hm => hm.conseq (fun _ hs => hs) (fun _ _ hs => .inr hs) (fun _ _ he => he)
  have hopen : ∀ {hook : Hook}, hookOf regs.origRax = some hook → hook.emulated = false →
      Triple P (redirectDevRandom K pid regs)
        (fun _ s => (NotEmulated regs.origRax ∧ P s) ∨ Q s) E :=
    fun hhook hopen => (h.triple_redirectDevRandom hhook hopen).conseq (fun _ hs => hs)
      (fun _ _ hs => hs.imp_left fun hP => ⟨notEmulated_of_open hhook hopen, hP⟩) (fun _ _ he => he)
  cases hhook : hookOf regs.origRax with
  | none => exact Triple.pure fun _ hs => .inl ⟨notEmulated_of_none hhook, hs⟩
  | some hook =>
    cases hook with
    | getrandom => exact hweak (h.triple_hookGetrandom hhook)
    | gettimeofday => exact hweak (h.triple_writeAndAdvance hhook rfl _)
    | time => exact hweak (h.triple_hookTime hhook)
    | clockGettime => exact hweak (h.triple_writeAndAdvance hhook rfl _)
    | openat | «open» | openat2 => exact hopen hhook rfl

end Phases

end Reproduce
