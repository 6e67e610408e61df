import Reproduce.Linux.Task

/-!
# The start of a run

`main.c` from `fork` to `handle_event`.  The child asks to be traced, stops itself and executes the
program; the tracer waits for the stop, sets the trace options, makes the entry and lets the child
go on.  Both go on at their own pace, the child may receive signals, and either may be killed.

An `Act` is one step of either of them or of the outside, `Act.apply` says when it can happen.  Of
`handle_event` only what it does to this child is there: it takes reports and resumes it.
-/

namespace Reproduce.Linux

def SIGKILL : BitVec 8 := 9

/-- The status of a process that was killed by `SIGKILL`. -/
def killedStatus : Status := 9

/-- The status of a process that returned 1 from `main`. -/
def failedStatus : Status := 0x100

/-- Where the child is in `main`. -/
inductive ChildPc where
  | traceMe
  /-- `kill(getpid(), SIGSTOP)` -/
  | killSelf
  | execvp
  /-- The program runs in place of `main`. -/
  | program
  deriving DecidableEq, Repr

/-- Where the tracer is in `main`. -/
inductive TracerPc where
  | waitpid
  /-- `WIFEXITED(status) || WIFSIGNALED(status)` -/
  | check (status : Status)
  | setOptions
  | insertProcess
  /-- The first `PTRACE_SYSCALL`. -/
  | resume
  | handleEvent
  /-- The process has exited with a code, or was killed. -/
  | ended (code : Option Nat)
  deriving DecidableEq

structure Startup where
  /-- What `fork` returned to the tracer. -/
  childPid : PidT
  tracer : TracerPc
  pc : ChildPc
  /-- The state of the child, as long as it is not reaped. -/
  child : Option TaskState
  traced : Bool
  /-- The trace options are set. -/
  options : Bool
  /-- The child has got its entry. -/
  entry : Bool
  deriving DecidableEq

inductive Act where
  /-- `ptrace(PTRACE_TRACEME)` -/
  | traceMe (ok : Bool)
  | killSelf
  | execvp (ok : Bool)
  | waitpid (ok : Bool)
  | check
  /-- `ptrace(PTRACE_SETOPTIONS)` -/
  | setOptions (ok : Bool)
  | insertProcess (granted : Bool)
  | resume (ok : Bool)
  /-- `handle_event` gets a report. -/
  | takeReport
  /-- `handle_event` resumes the child. -/
  | goOn
  /-- `handle_event` returns, or ends the tracer. -/
  | endLoop (code : Option Nat)
  /-- A signal from outside is about to be delivered. -/
  | signal (sig : BitVec 8)
  /-- The child enters or leaves a system call, after `PTRACE_SYSCALL`. -/
  | syscallStop (entry : Bool)
  | die (status : Status)
  | killTracer
  deriving DecidableEq

namespace TaskState

/-- The tracer has ended with `PTRACE_O_EXITKILL` set. -/
def killed : TaskState → TaskState
  | zombie status => zombie status
  | _ => zombie killedStatus

/-- The tracer has ended without it: the process is detached and goes on. -/
def released : TaskState → TaskState
  | stopped .. => user
  | state => state

def isZombie : TaskState → Bool
  | zombie _ => true
  | _ => false

end TaskState

namespace Startup

def start (childPid : PidT) : Startup where
  childPid := childPid
  tracer := .waitpid
  pc := .traceMe
  child := some .user
  traced := false
  options := false
  entry := false

/-- The tracer ends. -/
def quit (s : Startup) (code : Option Nat) : Startup :=
  { s with
    tracer := .ended code
    traced := false
    child := s.child.map (if s.options then TaskState.killed else TaskState.released) }

/-- The stop in which a traced process comes out of `execve`. -/
def execStop (s : Startup) : Stop :=
  if s.options then .event .exec s.childPid else .signal SIGTRAP

end Startup

open Startup

/-- The state after an act, if the act can happen. -/
def Act.apply (s : Startup) : Act → Option Startup
  | .traceMe ok =>
    if s.pc = .traceMe ∧ s.child = some .user then
      some (if ok then { s with pc := .killSelf, traced := true }
        else { s with child := some (.zombie failedStatus) })
    else none
  | .killSelf =>
    if s.pc = .killSelf ∧ s.child = some .user then
      -- without a tracer the stop is one of job control, which only delays the process
      some { s with
        pc := .execvp
        child := some (if s.traced then .stopped (.signal SIGSTOP) false else .user) }
    else none
  | .execvp ok =>
    if s.pc = .execvp ∧ s.child = some .user then
      some (if ok then
          { s with
            pc := .program
            child := some (if s.traced then .stopped s.execStop false else .user) }
        else { s with child := some (.zombie failedStatus) })
    else none
  | .waitpid ok =>
    if s.tracer = .waitpid then
      if ok then
        match s.child with
        | some (.stopped stop false) =>
          some { s with
            tracer := .check stop.status
            child := some (.stopped stop true) }
        | some (.zombie status) => some { s with tracer := .check status, child := none }
        -- there is nothing to report yet
        | _ => none
      else some (s.quit (some 1))
    else none
  | .check =>
    match s.tracer with
    | .check status =>
      -- "Target process exited."
      some (if terminated status then s.quit (some 0) else { s with tracer := .setOptions })
    | _ => none
  | .setOptions ok =>
    if s.tracer = .setOptions then
      if ok then
        match s.child with
        | some (.stopped ..) => some { s with tracer := .insertProcess, options := true }
        | _ => none
      else some (s.quit (some 1))
    else none
  | .insertProcess granted =>
    if s.tracer = .insertProcess then
      some (if granted then { s with tracer := .resume, entry := true } else s.quit (some 1))
    else none
  | .resume ok =>
    if s.tracer = .resume then
      if ok then
        match s.child with
        | some (.stopped ..) => some { s with tracer := .handleEvent, child := some .user }
        | _ => none
      else some (s.quit (some 1))
    else none
  | .takeReport =>
    if s.tracer = .handleEvent then
      match s.child with
      | some (.stopped stop false) => some { s with child := some (.stopped stop true) }
      | some (.zombie _) => some { s with child := none }
      | _ => none
    else none
  | .goOn =>
    match s.tracer, s.child with
    | .handleEvent, some (.stopped _ true) => some { s with child := some .user }
    | _, _ => none
  | .endLoop code => if s.tracer = .handleEvent then some (s.quit code) else none
  | .signal sig =>
    if s.traced ∧ s.child = some .user ∧ sig ≠ SIGKILL then
      some { s with child := some (.stopped (.signal sig) false) }
    else none
  | .syscallStop entry =>
    if s.tracer = .handleEvent ∧ s.traced ∧ s.child = some .user then
      some { s with
        child := some (.stopped (if entry then .syscallEntry else .syscallExit) false) }
    else none
  | .die status =>
    match s.child with
    | some state =>
      if !state.isZombie ∧ terminated status then
        some { s with child := some (.zombie status) }
      else none
    | none => none
  | .killTracer =>
    match s.tracer with
    | .ended _ => none
    | _ => some (s.quit none)

/-- A step of one of the programs towards `handle_event`. -/
def Act.advances : Act → Bool
  | .traceMe ok | .waitpid ok | .setOptions ok | .insertProcess ok | .resume ok => ok
  | .killSelf | .check => true
  | _ => false

namespace Startup

/-- An act that cannot happen is passed over. -/
def act (s : Startup) (a : Act) : Startup := (a.apply s).getD s

def run (s : Startup) (acts : List Act) : Startup := acts.foldl act s

end Startup

end Reproduce.Linux
