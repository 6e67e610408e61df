import Reproduce.Abi.Registers

/-!
# System call numbers

The x86-64 numbers that `handle_syscall` switches on, and the switch itself as a decoding of the
number (`hookOf`).  The numbers of the process-creating calls and of `execve` are here for the
kernel model.
-/

namespace Reproduce

open Bytes

def NR_getrandom : Word := 318
def NR_gettimeofday : Word := 96
def NR_time : Word := 201
def NR_clock_gettime : Word := 228
def NR_open : Word := 2
def NR_openat : Word := 257
def NR_openat2 : Word := 437

def NR_clone : Word := 56
def NR_fork : Word := 57
def NR_vfork : Word := 58
def NR_clone3 : Word := 435
def NR_execve : Word := 59
def NR_execveat : Word := 322

/-- The cases of the `switch` in `handle_syscall`. -/
inductive Hook where
  | getrandom
  | gettimeofday
  | time
  | clockGettime
  | openat
  | open
  | openat2
  deriving DecidableEq, Repr

/-- The case that a system call number selects. -/
def hookOf (nr : Word) : Option Hook :=
  if nr = NR_getrandom then some .getrandom
  else if nr = NR_gettimeofday then some .gettimeofday
  else if nr = NR_time then some .time
  else if nr = NR_clock_gettime then some .clockGettime
  else if nr = NR_openat then some .openat
  else if nr = NR_open then some .open
  else if nr = NR_openat2 then some .openat2
  else none

/-- The calls that are cancelled and emulated, as opposed to the open family. -/
def Hook.emulated : Hook → Bool
  | .getrandom | .gettimeofday | .time | .clockGettime => true
  | .openat | .open | .openat2 => false

/-- A cancelled call has number -1, which is no hook. -/
@[simp] theorem hookOf_neg_one : hookOf (-1) = none := by decide

end Reproduce
