import Reproduce.Tracer.Syscalls
import Reproduce.Tracer.Vdso

/-!
# The event loop

`events.c`.  One iteration of `handle_event` is cut where it hands a stop to `handle_syscall`:
`receiveStop` is everything before that call, and says by a `Dispatch` how the iteration goes on.
-/

namespace Reproduce

open Bytes

variable {W : Type} (K : Kernel W)

def registerNewChild (pid : PidT) : TracerM W Unit := do
  match ← ptrace K (.geteventmsg pid) with
  | .error e => if e = .ESRCH then pure () else exitFailure
  -- the message is an `unsigned long`, the pid its lower half
  | .ok (newChild : Word) =>
    -- a child that is tracked already is left to the loop
    if ← insertProcess K (newChild.setWidth 32) then
      let _ ← waitpidOrExit K (newChild.setWidth 32)
      let _ ← ptraceReturn K (.syscall (newChild.setWidth 32) 0)
      pure ()
    else
      pure ()

/-- The branch for fork, vfork and clone events. -/
def registerForkEvent (pid : PidT) (status : Status) : TracerM W Unit :=
  if wifstopped status && isForkEvent (eventOf status) then registerNewChild K pid else pure ()

/-- How an iteration goes on. -/
inductive Dispatch where
  /-- `continue` -/
  | next
  /-- `break` -/
  | stop
  /-- `handle_syscall(child, &regs)` for the process `pid`, then its resumption. -/
  | hook (pid : PidT) (child : Ptr) (regs : UserRegsStruct)
  deriving DecidableEq

/-- `find_process` and what follows it up to the call of `handle_syscall`. -/
def lookUpStop (scan : Nat) (pid : PidT) : TracerM W Dispatch := do
  match ← findProcess pid with
  -- the "unexpected process" of the source
  | none =>
    procInit K scan pid
    let _ ← insertProcess K pid
    pure .next
  | some child =>
    match ← ptraceDelete K (.getregs pid) pid with
    | some (regs : UserRegsStruct) => pure (.hook pid child regs)
    -- `regs` was never assigned
    | none => fun s => .ok (.hook pid child (K.uninitialised s.os)) s

/-- The part of an iteration that follows a successful `waitpid`. -/
def dispatchStop (scan : Nat) (pid : PidT) (status : Status) : TracerM W Dispatch := do
  -- `WIFEXITED(status) || WIFSIGNALED(status)`
  if terminated status then
    deleteProcess pid
    pure .next
  else if wifstopped status && eventOf status = PTRACE_EVENT_EXEC then
    procInit K scan pid
    pure .next
  else
    registerForkEvent K pid status
    lookUpStop K scan pid

def receiveStop (scan : Nat) : TracerM W Dispatch := do
  match ← waitpid K none with
  -- no child is left, although the table has entries
  | .error e => if e = .ECHILD then pure .stop else exitFailure
  | .ok (pid, status) => dispatchStop K scan pid status

/-- One turn of the `while` loop, with its guard. -/
def handleEventTurn (scan : Nat) (_ : Unit) : TracerM W (Unit ⊕ Unit) := do
  if ← isHashTableEmpty then
    pure (.inr ())
  else
    match ← receiveStop K scan with
    | .next => pure (.inl ())
    | .stop => pure (.inr ())
    | .hook pid child regs =>
      handleSyscall K child regs
      let _ ← ptraceDelete K (.syscall pid 0) pid
      pure (.inl ())

def handleEvent (scan n : Nat) : TracerM W Unit :=
  Effect.loop .outOfFuel (handleEventTurn K scan) n ()

end Reproduce
