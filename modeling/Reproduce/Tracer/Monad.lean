import Reproduce.Bytes.Memory
import Reproduce.Effect.Triple
import Reproduce.Os.Kernel

/-!
# The tracer as a stateful program

The functions of the tracer are programs over its own state (the process table of `hashtable.c`, the
static buffer of `read_child_c_string`) and the world of a `Kernel`.  They stop (`Halt`) when the C
program exits or crashes.

Every request to the kernel and every call of the four functions listed in `Call` is recorded in
`trace`, newest first; a call is recorded together with the process table and the world at that
moment.  The tracer never reads the trace.
-/

namespace Reproduce

open Bytes

/-- `struct timespec`; both fields are of type `long`. -/
structure Timespec where
  tvSec : Word
  tvNsec : Word
  deriving DecidableEq

/-- The 16 bytes of a `struct timespec` in memory. -/
def Timespec.bytes (t : Timespec) : List Byte := wordBytes t.tvSec ++ wordBytes t.tvNsec

/-- The address of an allocated block. -/
abbrev Ptr := Nat

/-- `struct child_process`, together with the address that `malloc` gave it. -/
structure ChildProcess where
  addr : Ptr
  pid : PidT
  gettimeData : Timespec
  deriving DecidableEq

/-- How the tracer can stop without returning from `handle_event`. -/
inductive Halt where
  /-- `exit(status)` -/
  | exit (status : Nat)
  /-- A null pointer was dereferenced. -/
  | nullDereference
  /-- A freed block was dereferenced. -/
  | useAfterFree
  /-- An array was accessed outside its bounds. -/
  | outOfBounds
  /-- A `waitpid` that never returns. -/
  | blocked
  /-- A loop did not end within the number of iterations granted to it. -/
  | outOfFuel
  deriving DecidableEq, Repr

/-- The recorded function calls. -/
inductive Call where
  | insertProcess (pid : PidT)
  | deleteProcess (pid : PidT)
  | removeVdso (pid : PidT)
  | handleSyscall (child : Ptr) (regs : UserRegsStruct)

inductive Event (W : Type) where
  | ptrace (r : Request) (answer : Except Errno r.Reply)
  /-- `none` for a wait that blocks for ever. -/
  | wait (target : WaitTarget) (answer : Option (Except Errno (PidT × Status)))
  | malloc (size : Nat) (granted : Bool)
  | call (c : Call) (table : List ChildProcess) (os : W)

/-- The state of the tracer process and of the world around it. -/
structure Tracer (W : Type) where
  /-- The entries of the hash table, newest first.  They are the allocated blocks: an entry is freed
  when it leaves the table. -/
  processTable : List ChildProcess
  /-- `static unsigned int entry_count` -/
  entryCount : BitVec 32
  /-- The address of the next block.  Addresses are not used twice, so that a stale pointer never
  looks valid. -/
  nextAddr : Ptr
  /-- `static char buffer[MAX_BUFFER_SIZE]` of `read_child_c_string`. -/
  buffer : Nat → Byte
  os : W
  trace : List (Event W)

abbrev TracerM (W : Type) := EStateM Halt (Tracer W)

variable {W : Type} (K : Kernel W)

def EXIT_FAILURE : Nat := 1

/-- `exit(EXIT_FAILURE)` -/
def exitFailure {α : Type} : TracerM W α := throw (.exit EXIT_FAILURE)

/-- Record a function call. -/
def note (c : Call) : TracerM W Unit :=
  modify fun s => { s with trace := .call c s.processTable s.os :: s.trace }

def ptrace (r : Request) : TracerM W (Except Errno r.Reply) := fun s =>
  .ok (K.ptrace r s.os).1
    { s with os := (K.ptrace r s.os).2, trace := .ptrace r (K.ptrace r s.os).1 :: s.trace }

def waitpid (target : WaitTarget) : TracerM W (Except Errno (PidT × Status)) := fun s =>
  let s' :=
    { s with
      os := (K.waitpid target s.os).2
      trace := .wait target (K.waitpid target s.os).1 :: s.trace }
  match (K.waitpid target s.os).1 with
  | none => .error .blocked s'
  | some answer => .ok answer s'

/-- The largest object size. -/
def PTRDIFF_MAX : Nat := 2 ^ 63 - 1

/-- `malloc` refuses every size above `PTRDIFF_MAX`. -/
def malloc (size : Nat) : TracerM W Bool := fun s =>
  if PTRDIFF_MAX < size then .ok false { s with trace := .malloc size false :: s.trace }
  else .ok (K.malloc size s.os).1
    { s with os := (K.malloc size s.os).2, trace := .malloc size (K.malloc size s.os).1 :: s.trace }

/-- The wait for one process that the helpers make: a failing `waitpid` ends the tracer. -/
def waitpidOrExit (pid : PidT) : TracerM W Status := do
  match ← waitpid K (some pid) with
  | .error _ => exitFailure
  | .ok (_, status) => pure status

/-- The macro `PTRACE_RETURN`.  `false` stands for its `return`, taken on `ESRCH`. -/
def ptraceReturn (r : Request) : TracerM W Bool := do
  match ← ptrace K r with
  | .ok _ => pure true
  | .error e => if e = .ESRCH then pure false else exitFailure

/-- A `PEEK` whose result is compared with -1 and not with `errno`: `none` stands for the early
return on `ESRCH`.  A word of eight `0xff` bytes is taken for an error with `errno` 0. -/
def peekReturn (pid : PidT) (place : Peek) : TracerM W (Option Word) := do
  match ← ptrace K (.peek pid place) with
  | .ok (val : Word) => if val = -1 then exitFailure else pure (some val)
  | .error e => if e = .ESRCH then pure none else exitFailure

end Reproduce
