import Reproduce.Abi.Registers
import Reproduce.Abi.Status

/-!
# The system calls the tracer makes

A `Kernel` answers the tracer's `ptrace` requests, its `waitpid` calls and its allocations, out of a
world `W` that holds everything the tracer does not: the tracees, their memory, the scheduler.  What
a theorem says about every `Kernel` it says about every way the operating system can answer.
-/

namespace Reproduce

open Bytes

/-- `pid_t` -/
abbrev PidT := BitVec 32

inductive Errno where
  | EPERM
  | ESRCH
  | EINTR
  | EIO
  | ECHILD
  | EFAULT
  | EBUSY
  | EINVAL
  deriving DecidableEq, Repr

/-- Where a `PEEK` request reads: `PTRACE_PEEKUSER` at an offset of the user area, or
`PTRACE_PEEKDATA` at an address. -/
inductive Peek where
  | user (offset : Nat)
  | data (addr : Word)
  deriving DecidableEq

/-- A `ptrace` request. -/
inductive Request where
  | peek (pid : PidT) (place : Peek)
  | pokedata (pid : PidT) (addr data : Word)
  | getregs (pid : PidT)
  | setregs (pid : PidT) (regs : UserRegsStruct)
  /-- `PTRACE_SYSCALL`; `data` is the signal to deliver. -/
  | syscall (pid : PidT) (data : Word)
  | geteventmsg (pid : PidT)
  deriving DecidableEq

namespace Request

/-- The process a request is about. -/
def pid : Request → PidT
  | peek pid _ | pokedata pid _ _ | getregs pid | setregs pid _ | syscall pid _
  | geteventmsg pid => pid

/-- What a successful request hands back. -/
@[reducible] def Reply : Request → Type
  | peek .. | geteventmsg .. => Word
  | getregs _ => UserRegsStruct
  | pokedata .. | setregs .. | syscall .. => Unit

end Request

/-- The process `waitpid` is asked for: any child (`-1`), or one pid. -/
abbrev WaitTarget := Option PidT

structure Kernel (W : Type) where
  ptrace : (r : Request) → W → Except Errno r.Reply × W
  /-- `none` means that the call blocks for ever. -/
  waitpid : WaitTarget → W → Option (Except Errno (PidT × Status)) × W
  /-- Whether an allocation of the given size is granted. -/
  malloc : Nat → W → Bool × W
  /-- What a local variable holds before it is assigned. -/
  uninitialised : W → UserRegsStruct

end Reproduce
