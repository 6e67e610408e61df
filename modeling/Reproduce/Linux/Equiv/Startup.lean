import Reproduce.Linux.Run
import Reproduce.Linux.Startup

/-!
# The start of a run is safe

In every order of steps, with signals from outside and with deaths of either process, the program
runs only under a tracer that has set its options, made the entry and entered `handle_event`; the
one exception is a tracer that ended before it had set the options, which lets its child go
(`startup_safe`).  Without signals from outside, `insert_process` finds the child in the state in
which a `Boot` starts (`startup_boot`).

`Acted` lists what each act requires and changes.  The invariant (`Startup.Inv`) says for each place
in the tracer what the child can be like, where `P` are the signals that the child may receive.
-/

namespace Reproduce.Linux

open TaskState

/-! ### What an act does -/

inductive Acted (s : Startup) : Act → Startup → Prop
  | traceMe (hpc : s.pc = .traceMe) (hchild : s.child = some user) :
      Acted s (.traceMe true) { s with pc := .killSelf, traced := true }
  | refused (hpc : s.pc = .traceMe) (hchild : s.child = some user) :
      Acted s (.traceMe false) { s with child := some (zombie failedStatus) }
  | killSelf (hpc : s.pc = .killSelf) (hchild : s.child = some user) :
      Acted s .killSelf { s with
        pc := .execvp
        child := some (if s.traced then stopped (.signal SIGSTOP) false else user) }
  | execvp (hpc : s.pc = .execvp) (hchild : s.child = some user) :
      Acted s (.execvp true) { s with
        pc := .program
        child := some (if s.traced then stopped s.execStop false else user) }
  | notExecuted (hpc : s.pc = .execvp) (hchild : s.child = some user) :
      Acted s (.execvp false) { s with child := some (zombie failedStatus) }
  | stopReported {stop : Stop} (htracer : s.tracer = .waitpid)
      (hchild : s.child = some (stopped stop false)) :
      Acted s (.waitpid true) { s with
        tracer := .check stop.status
        child := some (stopped stop true) }
  | deathReported {status : Status} (htracer : s.tracer = .waitpid)
      (hchild : s.child = some (zombie status)) :
      Acted s (.waitpid true) { s with tracer := .check status, child := none }
  | waitFailed (htracer : s.tracer = .waitpid) : Acted s (.waitpid false) (s.quit (some 1))
  | exited {status : Status} (htracer : s.tracer = .check status)
      (hdead : terminated status = true) : Acted s .check (s.quit (some 0))
  | alive {status : Status} (htracer : s.tracer = .check status)
      (hlive : terminated status = false) : Acted s .check { s with tracer := .setOptions }
  | setOptions {stop : Stop} {reported : Bool} (htracer : s.tracer = .setOptions)
      (hchild : s.child = some (stopped stop reported)) :
      Acted s (.setOptions true) { s with tracer := .insertProcess, options := true }
  | noOptions (htracer : s.tracer = .setOptions) : Acted s (.setOptions false) (s.quit (some 1))
  | insertProcess (htracer : s.tracer = .insertProcess) :
      Acted s (.insertProcess true) { s with tracer := .resume, entry := true }
  | noMemory (htracer : s.tracer = .insertProcess) :
      Acted s (.insertProcess false) (s.quit (some 1))
  | resume {stop : Stop} {reported : Bool} (htracer : s.tracer = .resume)
      (hchild : s.child = some (stopped stop reported)) :
      Acted s (.resume true) { s with tracer := .handleEvent, child := some user }
  | notResumed (htracer : s.tracer = .resume) : Acted s (.resume false) (s.quit (some 1))
  | takeStop {stop : Stop} (htracer : s.tracer = .handleEvent)
      (hchild : s.child = some (stopped stop false)) :
      Acted s .takeReport { s with child := some (stopped stop true) }
  | takeDeath {status : Status} (htracer : s.tracer = .handleEvent)
      (hchild : s.child = some (zombie status)) : Acted s .takeReport { s with child := none }
  | goOn {stop : Stop} (htracer : s.tracer = .handleEvent)
      (hchild : s.child = some (stopped stop true)) : Acted s .goOn { s with child := some user }
  | endLoop {code : Option Nat} (htracer : s.tracer = .handleEvent) :
      Acted s (.endLoop code) (s.quit code)
  | signal {sig : BitVec 8} (htraced : s.traced = true) (hchild : s.child = some user) :
      Acted s (.signal sig) { s with child := some (stopped (.signal sig) false) }
  | syscallStop {entry : Bool} (htracer : s.tracer = .handleEvent)
      (hchild : s.child = some user) : Acted s (.syscallStop entry) { s with
        child := some (stopped (if entry then .syscallEntry else .syscallExit) false) }
  | die {state : TaskState} {status : Status} (hchild : s.child = some state)
      (hstatus : terminated status = true) :
      Acted s (.die status) { s with child := some (zombie status) }
  | killTracer : Acted s .killTracer (s.quit none)

theorem acted_of_apply {s s' : Startup} {a : Act} (h : a.apply s = some s') : Acted s a s' := by
  unfold Act.apply at h
  cases a with
  | traceMe ok =>
    obtain ⟨⟨hpc, hchild⟩, h⟩ := Option.ite_none_right_eq_some.mp h
    cases ok with
    | true => exact Option.some.inj h ▸ .traceMe hpc hchild
    | false => exact Option.some.inj h ▸ .refused hpc hchild
  | killSelf =>
    obtain ⟨⟨hpc, hchild⟩, h⟩ := Option.ite_none_right_eq_some.mp h
    exact Option.some.inj h ▸ .killSelf hpc hchild
  | execvp ok =>
    obtain ⟨⟨hpc, hchild⟩, h⟩ := Option.ite_none_right_eq_some.mp h
    cases ok with
    | true => exact Option.some.inj h ▸ .execvp hpc hchild
    | false => exact Option.some.inj h ▸ .notExecuted hpc hchild
  | waitpid ok =>
    obtain ⟨htracer, h⟩ := Option.ite_none_right_eq_some.mp h
    cases ok with
    | false => exact Option.some.inj h ▸ .waitFailed htracer
    | true =>
      rw [if_pos rfl] at h
      split at h
      · next hchild => exact Option.some.inj h ▸ .stopReported htracer hchild
      · next hchild => exact Option.some.inj h ▸ .deathReported htracer hchild
      · cases h
  | check =>
    dsimp only at h
    split at h
    · next status htracer =>
      cases hdead : terminated status with
      | true =>
        rw [hdead] at h
        exact Option.some.inj h ▸ .exited htracer hdead
      | false =>
        rw [hdead] at h
        exact Option.some.inj h ▸ .alive htracer hdead
    · cases h
  | setOptions ok =>
    obtain ⟨htracer, h⟩ := Option.ite_none_right_eq_some.mp h
    cases ok with
    | false => exact Option.some.inj h ▸ .noOptions htracer
    | true =>
      rw [if_pos rfl] at h
      split at h
      · next hchild => exact Option.some.inj h ▸ .setOptions htracer hchild
      · cases h
  | insertProcess granted =>
    obtain ⟨htracer, h⟩ := Option.ite_none_right_eq_some.mp h
    cases granted with
    | true => exact Option.some.inj h ▸ .insertProcess htracer
    | false => exact Option.some.inj h ▸ .noMemory htracer
  | resume ok =>
    obtain ⟨htracer, h⟩ := Option.ite_none_right_eq_some.mp h
    cases ok with
    | false => exact Option.some.inj h ▸ .notResumed htracer
    | true =>
      rw [if_pos rfl] at h
      split at h
      · next hchild => exact Option.some.inj h ▸ .resume htracer hchild
      · cases h
  | takeReport =>
    obtain ⟨htracer, h⟩ := Option.ite_none_right_eq_some.mp h
    split at h
    · next hchild => exact Option.some.inj h ▸ .takeStop htracer hchild
    · next hchild => exact Option.some.inj h ▸ .takeDeath htracer hchild
    · cases h
  | goOn =>
    dsimp only at h
    split at h
    · next htracer hchild => exact Option.some.inj h ▸ .goOn htracer hchild
    · cases h
  | endLoop code =>
    obtain ⟨htracer, h⟩ := Option.ite_none_right_eq_some.mp h
    exact Option.some.inj h ▸ .endLoop htracer
  | signal sig =>
    obtain ⟨⟨htraced, hchild, -⟩, h⟩ := Option.ite_none_right_eq_some.mp h
    exact Option.some.inj h ▸ .signal htraced hchild
  | syscallStop entry =>
    obtain ⟨⟨htracer, -, hchild⟩, h⟩ := Option.ite_none_right_eq_some.mp h
    exact Option.some.inj h ▸ .syscallStop htracer hchild
  | die status =>
    dsimp only at h
    split at h
    · next hchild =>
      obtain ⟨⟨-, hstatus⟩, h⟩ := Option.ite_none_right_eq_some.mp h
      exact Option.some.inj h ▸ .die hchild hstatus
    · cases h
  | killTracer =>
    dsimp only at h
    split at h
    · cases h
    · exact Option.some.inj h ▸ .killTracer

/-! ### The invariant -/

namespace Startup

/-- The child before its first report. -/
inductive Early (P : BitVec 8 → Prop) (s : Startup) : Prop
  | untraced (hpc : s.pc = .traceMe) (htraced : s.traced = false) (hchild : s.child = some user)
  | running (hpc : s.pc = .killSelf) (htraced : s.traced = true) (hchild : s.child = some user)
  | stopped {sig : BitVec 8} (hpc : s.pc ≠ .program) (hsig : P sig)
      (hchild : s.child = some (stopped (.signal sig) false))
  | dead {status : Status} (hpc : s.pc ≠ .program) (hchild : s.child = some (zombie status))
      (hstatus : terminated status = true)

/-- The child after its first report, before it is resumed. -/
inductive Parked (P : BitVec 8 → Prop) (s : Startup) : Prop
  | stopped {sig : BitVec 8} (hpc : s.pc ≠ .program) (hsig : P sig)
      (hchild : s.child = some (stopped (.signal sig) true))
  | dead {status : Status} (hpc : s.pc ≠ .program) (hchild : s.child = some (zombie status))

/-- What holds while the tracer is at a place. -/
def InvAt (P : BitVec 8 → Prop) (s : Startup) : TracerPc → Prop
  | .waitpid => s.options = false ∧ s.entry = false ∧ s.Early P
  | .check status => s.options = false ∧ s.entry = false ∧
      (terminated status = true ∧ s.child = none ∧ s.pc ≠ .program ∨
        terminated status = false ∧ s.Parked P)
  | .setOptions => s.options = false ∧ s.entry = false ∧ s.Parked P
  | .insertProcess => s.options = true ∧ s.entry = false ∧ s.Parked P
  | .resume => s.options = true ∧ s.entry = true ∧ s.Parked P
  | .handleEvent => s.options = true ∧ s.entry = true
  | .ended code => (s.options = true → ∀ state, s.child = some state → state.isZombie = true) ∧
      (code = some 0 → s.entry = false → s.child = none ∧ s.pc ≠ .program)

def Inv (P : BitVec 8 → Prop) (s : Startup) : Prop := s.InvAt P s.tracer

variable {P : BitVec 8 → Prop} {s s' : Startup}

theorem Inv.holds (h : s.Inv P) {place : TracerPc} (htracer : s.tracer = place) :
    s.InvAt P place := htracer ▸ h

theorem Inv.of_place {place : TracerPc} (htracer : s.tracer = place) (h : s.InvAt P place) :
    s.Inv P := by
  subst htracer
  exact h

theorem isZombie_killed (state : TaskState) : state.killed.isZombie = true := by
  cases state <;> rfl

/-- The tracer ends. -/
theorem inv_quit {code : Option Nat}
    (hgone : code = some 0 → s.entry = false → s.child = none ∧ s.pc ≠ .program) :
    (s.quit code).Inv P := by
  refine ⟨fun hoptions state hchild => ?_, fun hcode hentry => ?_⟩
  · have hmap : s.child.map (if s.options then TaskState.killed else TaskState.released) =
        some state := hchild
    rw [show s.options = true from hoptions] at hmap
    obtain ⟨old, -, rfl⟩ := Option.map_eq_some_iff.mp hmap
    exact isZombie_killed old
  · obtain ⟨hchild, hpc⟩ := hgone hcode hentry
    refine ⟨?_, hpc⟩
    show s.child.map _ = none
    rw [hchild]
    rfl

theorem Parked.not_running (h : s.Parked P) : s.child ≠ some user := by
  cases h with
  | stopped hpc hsig hchild => simp [hchild]
  | dead hpc hchild => simp [hchild]

/-- A step of the child. -/
theorem Inv.of_child (h : s.Inv P) {state : TaskState} (hchild : s.child = some state)
    (htracer : s'.tracer = s.tracer) (hoptions : s'.options = s.options)
    (hentry : s'.entry = s.entry) (hearly : s.Early P → s'.Early P)
    (hparked : s.Parked P → s'.Parked P)
    (hdead : state.isZombie = true → ∀ state', s'.child = some state' → state'.isZombie = true) :
    s'.Inv P := by
  cases hplace : s.tracer with
  | waitpid =>
    obtain ⟨ho, he, hs⟩ := h.holds hplace
    exact .of_place (htracer.trans hplace) ⟨hoptions.trans ho, hentry.trans he, hearly hs⟩
  | check status =>
    obtain ⟨ho, he, ⟨-, hnone, -⟩ | ⟨hlive, hs⟩⟩ := h.holds hplace
    · simp [hchild] at hnone
    · exact .of_place (htracer.trans hplace)
        ⟨hoptions.trans ho, hentry.trans he, .inr ⟨hlive, hparked hs⟩⟩
  | setOptions | insertProcess | resume =>
    obtain ⟨ho, he, hs⟩ := h.holds hplace
    exact .of_place (htracer.trans hplace) ⟨hoptions.trans ho, hentry.trans he, hparked hs⟩
  | handleEvent =>
    obtain ⟨ho, he⟩ := h.holds hplace
    exact .of_place (htracer.trans hplace) ⟨hoptions.trans ho, hentry.trans he⟩
  | ended code =>
    obtain ⟨hkilled, hgone⟩ := h.holds hplace
    refine .of_place (htracer.trans hplace) ⟨fun ho => ?_, fun hcode he => ?_⟩
    · exact hdead (hkilled (hoptions ▸ ho) state hchild)
    · obtain ⟨hnone, -⟩ := hgone hcode (hentry ▸ he)
      simp [hchild] at hnone

/-- A step of the child while it runs. -/
theorem Inv.of_running (h : s.Inv P) (hchild : s.child = some user)
    (htracer : s'.tracer = s.tracer) (hoptions : s'.options = s.options)
    (hentry : s'.entry = s.entry) (hearly : s.Early P → s'.Early P) : s'.Inv P :=
  h.of_child hchild htracer hoptions hentry hearly
    (fun hparked => absurd hchild hparked.not_running) nofun

theorem Parked.congr (h : s.Parked P) (hpc : s'.pc = s.pc) (hchild : s'.child = s.child) :
    s'.Parked P := by
  cases h with
  | stopped hp hsig hc => exact .stopped (hpc ▸ hp) hsig (hchild.trans hc)
  | dead hp hc => exact .dead (hpc ▸ hp) (hchild.trans hc)

/-- A step of the loop. -/
theorem Inv.of_loop (h : s.Inv P) (hplace : s.tracer = .handleEvent)
    (htracer : s'.tracer = s.tracer) (hoptions : s'.options = s.options)
    (hentry : s'.entry = s.entry) : s'.Inv P := by
  obtain ⟨ho, he⟩ := h.holds hplace
  exact .of_place (htracer.trans hplace) ⟨hoptions.trans ho, hentry.trans he⟩

theorem Parked.die (h : s.Parked P) (status : Status) :
    Parked P { s with child := some (zombie status) } := by
  cases h with
  | stopped hpc hsig hchild => exact .dead hpc rfl
  | dead hpc hchild => exact .dead hpc rfl

theorem Early.die (h : s.Early P) {status : Status} (hstatus : terminated status = true) :
    Early P { s with child := some (zombie status) } := by
  cases h with
  | untraced hpc htraced hchild => exact .dead (by simp [hpc]) rfl hstatus
  | running hpc htraced hchild => exact .dead (by simp [hpc]) rfl hstatus
  | stopped hpc hsig hchild => exact .dead hpc rfl hstatus
  | dead hpc hchild hold => exact .dead hpc rfl hstatus

/-- An act keeps the invariant, when the signals from outside are among `P`. -/
theorem Inv.acted (h : s.Inv P) (hstop : P SIGSTOP) {a : Act}
    (hsignal : ∀ sig, a = .signal sig → P sig) (hacted : Acted s a s') : s'.Inv P := by
  cases hacted with
  | traceMe hpc hchild => exact h.of_running hchild rfl rfl rfl fun _ => .running rfl rfl hchild
  | refused hpc hchild =>
    exact h.of_running hchild rfl rfl rfl fun _ => .dead (by simp [hpc]) rfl rfl
  | killSelf hpc hchild =>
    refine h.of_running hchild rfl rfl rfl fun hearly => ?_
    cases hearly with
    | untraced hpc' => simp [hpc] at hpc'
    | running hpc' htraced =>
      refine .stopped nofun hstop ?_
      dsimp only
      rw [htraced]
      rfl
    | stopped _ _ hchild' => simp [hchild] at hchild'
    | dead _ hchild' => simp [hchild] at hchild'
  | execvp hpc hchild =>
    refine h.of_running hchild rfl rfl rfl fun hearly => ?_
    cases hearly with
    | untraced hpc' => simp [hpc] at hpc'
    | running hpc' => simp [hpc] at hpc'
    | stopped _ _ hchild' => simp [hchild] at hchild'
    | dead _ hchild' => simp [hchild] at hchild'
  | notExecuted hpc hchild =>
    exact h.of_running hchild rfl rfl rfl fun _ => .dead (by simp [hpc]) rfl rfl
  | @stopReported stop htracer hchild =>
    obtain ⟨ho, he, hearly⟩ := h.holds htracer
    refine ⟨ho, he, .inr ?_⟩
    cases hearly with
    | untraced _ _ hchild' => simp [hchild] at hchild'
    | running _ _ hchild' => simp [hchild] at hchild'
    | stopped hpc hsig hchild' =>
      obtain rfl : stop = .signal _ := by simpa [hchild] using hchild'
      exact ⟨terminated_stopStatus _ _, .stopped hpc hsig rfl⟩
    | dead _ hchild' => simp [hchild] at hchild'
  | @deathReported status htracer hchild =>
    obtain ⟨ho, he, hearly⟩ := h.holds htracer
    refine ⟨ho, he, .inl ?_⟩
    cases hearly with
    | untraced _ _ hchild' => simp [hchild] at hchild'
    | running _ _ hchild' => simp [hchild] at hchild'
    | stopped _ _ hchild' => simp [hchild] at hchild'
    | dead hpc hchild' hstatus =>
      obtain rfl : status = _ := by simpa [hchild] using hchild'
      exact ⟨hstatus, rfl, hpc⟩
  | waitFailed htracer => exact inv_quit nofun
  | exited htracer hdead =>
    refine inv_quit fun _ _ => ?_
    rcases (h.holds htracer).2.2 with ⟨-, hgone⟩ | ⟨hlive, -⟩
    · exact hgone
    · simp [hdead] at hlive
  | alive htracer hlive =>
    obtain ⟨ho, he, ⟨hdead, -⟩ | ⟨-, hparked⟩⟩ := h.holds htracer
    · simp [hlive] at hdead
    · exact ⟨ho, he, hparked.congr rfl rfl⟩
  | setOptions htracer hchild =>
    obtain ⟨-, he, hparked⟩ := h.holds htracer
    exact ⟨rfl, he, hparked.congr rfl rfl⟩
  | noOptions htracer => exact inv_quit nofun
  | insertProcess htracer =>
    obtain ⟨ho, -, hparked⟩ := h.holds htracer
    exact ⟨ho, rfl, hparked.congr rfl rfl⟩
  | noMemory htracer => exact inv_quit nofun
  | resume htracer hchild =>
    obtain ⟨ho, he, -⟩ := h.holds htracer
    exact ⟨ho, he⟩
  | notResumed htracer => exact inv_quit nofun
  | takeStop htracer hchild => exact h.of_loop htracer rfl rfl rfl
  | takeDeath htracer hchild => exact h.of_loop htracer rfl rfl rfl
  | goOn htracer hchild => exact h.of_loop htracer rfl rfl rfl
  | endLoop htracer =>
    obtain ⟨-, he⟩ := h.holds htracer
    refine inv_quit fun _ hentry => ?_
    simp [he] at hentry
  | @signal sig htraced hchild =>
    refine h.of_running hchild rfl rfl rfl fun hearly => ?_
    cases hearly with
    | untraced _ htraced' => simp [htraced] at htraced'
    | running hpc => exact .stopped (by simp [hpc]) (hsignal sig rfl) rfl
    | stopped _ _ hchild' => simp [hchild] at hchild'
    | dead _ hchild' => simp [hchild] at hchild'
  | syscallStop htracer hchild => exact h.of_loop htracer rfl rfl rfl
  | @die state status hchild hstatus =>
    refine h.of_child hchild rfl rfl rfl (fun hearly => hearly.die hstatus)
      (fun hparked => hparked.die status) ?_
    rintro - _ ⟨⟩
    rfl
  | killTracer => exact inv_quit nofun

theorem inv_start (childPid : PidT) : (start childPid).Inv P :=
  ⟨rfl, rfl, .untraced rfl rfl rfl⟩

/-- Every order of acts keeps the invariant. -/
theorem inv_run (hstop : P SIGSTOP) {acts : List Act} (hsignals : ∀ sig, .signal sig ∈ acts → P sig)
    (h : s.Inv P) : (s.run acts).Inv P := by
  refine List.foldlRecOn acts act h fun s hs a ha => ?_
  unfold act
  cases happly : a.apply s with
  | none => exact hs
  | some s' =>
    refine hs.acted hstop (fun sig hsig => ?_) (acted_of_apply happly)
    subst hsig
    exact hsignals sig ha

/-! ### Safety -/

/-- What holds in every state of the start. -/
structure Safe (s : Startup) : Prop where
  /-- The program runs in the loop, with options and an entry, or after a tracer that had not set
  the options. -/
  supervised : s.pc = .program → s.child = some user →
    (s.tracer = .handleEvent ∧ s.options = true ∧ s.entry = true) ∨
      ∃ code, s.tracer = .ended code ∧ s.options = false
  /-- `insert_process` finds the child in a signal stop that was reported, or dead. -/
  handed : s.tracer = .insertProcess → s.pc ≠ .program ∧
    ∃ state, s.child = some state ∧
      ((∃ sig, state = stopped (.signal sig) true) ∨ state.isZombie = true)
  /-- A tracer that has set the options leaves no live child behind. -/
  killed : ∀ code, s.tracer = .ended code → s.options = true →
    ∀ state, s.child = some state → state.isZombie = true
  /-- A tracer that returns 0 before it has made the entry has reaped a child that never executed
  the program. -/
  exited : s.tracer = .ended (some 0) → s.entry = false → s.child = none ∧ s.pc ≠ .program
  /-- As long as the child lives, one of the two can go on. -/
  advances : s.tracer ≠ .handleEvent → (∀ code, s.tracer ≠ .ended code) →
    (∀ state, s.child = some state → state.isZombie = false) →
    ∃ a : Act, a.advances = true ∧ (a.apply s).isSome = true

theorem parked_cases (h : s.Parked P) : s.pc ≠ .program ∧ ∃ state, s.child = some state ∧
    ((∃ sig, P sig ∧ state = stopped (.signal sig) true) ∨ state.isZombie = true) := by
  cases h with
  | stopped hpc hsig hchild => exact ⟨hpc, _, hchild, .inl ⟨_, hsig, rfl⟩⟩
  | dead hpc hchild => exact ⟨hpc, _, hchild, .inr rfl⟩

theorem Inv.supervised (h : s.Inv P) (hpc : s.pc = .program) (hchild : s.child = some user) :
    (s.tracer = .handleEvent ∧ s.options = true ∧ s.entry = true) ∨
      ∃ code, s.tracer = .ended code ∧ s.options = false := by
  cases hplace : s.tracer with
  | waitpid =>
    obtain ⟨-, -, hearly⟩ := h.holds hplace
    cases hearly with
    | untraced hpc' => simp [hpc] at hpc'
    | running hpc' => simp [hpc] at hpc'
    | stopped hpc' => exact absurd hpc hpc'
    | dead hpc' => exact absurd hpc hpc'
  | check status =>
    rcases (h.holds hplace).2.2 with ⟨-, hnone, -⟩ | ⟨-, hparked⟩
    · simp [hchild] at hnone
    · exact absurd hchild hparked.not_running
  | setOptions | insertProcess | resume =>
    exact absurd hchild (h.holds hplace).2.2.not_running
  | handleEvent => exact .inl ⟨rfl, h.holds hplace⟩
  | ended code =>
    refine .inr ⟨code, rfl, ?_⟩
    -- with the options set, the child would have been killed
    by_contra hoptions
    cases (h.holds hplace).1 (by simpa using hoptions) user hchild

theorem Inv.advances (h : s.Inv P) (hloop : s.tracer ≠ .handleEvent)
    (hrunning : ∀ code, s.tracer ≠ .ended code)
    (hlive : ∀ state, s.child = some state → state.isZombie = false) :
    ∃ a : Act, a.advances = true ∧ (a.apply s).isSome = true := by
  have hstopped : s.Parked P → ∃ sig, s.child = some (stopped (.signal sig) true) := by
    intro hparked
    obtain ⟨-, state, hchild, ⟨sig, -, rfl⟩ | hdead⟩ := parked_cases hparked
    · exact ⟨sig, hchild⟩
    · simp [hlive state hchild] at hdead
  cases hplace : s.tracer with
  | waitpid =>
    obtain ⟨-, -, hearly⟩ := h.holds hplace
    cases hearly with
    | untraced hpc htraced hchild => exact ⟨.traceMe true, rfl, by simp [Act.apply, hpc, hchild]⟩
    | running hpc htraced hchild => exact ⟨.killSelf, rfl, by simp [Act.apply, hpc, hchild]⟩
    | stopped hpc hsig hchild => exact ⟨.waitpid true, rfl, by simp [Act.apply, hplace, hchild]⟩
    | dead hpc hchild => cases hlive _ hchild
  | check status => exact ⟨.check, rfl, by simp [Act.apply, hplace]⟩
  | setOptions =>
    obtain ⟨sig, hchild⟩ := hstopped (h.holds hplace).2.2
    exact ⟨.setOptions true, rfl, by simp [Act.apply, hplace, hchild]⟩
  | insertProcess => exact ⟨.insertProcess true, rfl, by simp [Act.apply, hplace]⟩
  | resume =>
    obtain ⟨sig, hchild⟩ := hstopped (h.holds hplace).2.2
    exact ⟨.resume true, rfl, by simp [Act.apply, hplace, hchild]⟩
  | handleEvent => exact absurd hplace hloop
  | ended code => exact absurd hplace (hrunning code)

theorem Inv.safe (h : s.Inv P) : s.Safe where
  supervised := h.supervised
  handed hplace := by
    obtain ⟨hpc, state, hchild, hstate⟩ := parked_cases (h.holds hplace).2.2
    exact ⟨hpc, state, hchild, hstate.imp_left fun ⟨sig, _, hsig⟩ => ⟨sig, hsig⟩⟩
  killed _ hplace := (h.holds hplace).1
  exited hplace := (h.holds hplace).2 rfl
  advances := h.advances

end Startup

open Startup

/-- In every order of steps the start of a run is safe. -/
theorem startup_safe (childPid : PidT) (acts : List Act) : ((start childPid).run acts).Safe :=
  (inv_run (P := fun _ => True) trivial (fun _ _ => trivial) (inv_start childPid)).safe

/-- Without signals from outside, `insert_process` finds the child as a `Boot` has it, or dead. -/
theorem startup_boot (b : Boot) {acts : List Act} (hsignals : ∀ sig, .signal sig ∉ acts)
    (hplace : ((start b.childPid).run acts).tracer = .insertProcess) :
    ∃ state, ((start b.childPid).run acts).child = some state ∧
      (state = b.task.state ∨ state.isZombie = true) := by
  have hinv := inv_run (P := fun sig => sig = SIGSTOP) rfl
    (fun sig hsig => absurd hsig (hsignals sig)) (inv_start b.childPid)
  obtain ⟨-, state, hchild, hstate⟩ := parked_cases (hinv.holds hplace).2.2
  refine ⟨state, hchild, hstate.imp_left ?_⟩
  rintro ⟨sig, rfl, rfl⟩
  rfl

end Reproduce.Linux
