import Reproduce.Linux.Kernel
import Reproduce.Tracer.Main

/-!
# Runs of the tracer on Linux

`main` reaches its first `PTRACE_SYSCALL` with one traced task, which stopped itself by a `SIGSTOP`
(`Boot`).  A run is a run of `traceChild` from there, in any environment.
-/

namespace Reproduce.Linux

open Bytes Effect

/-- `kill`, by which the first task stops itself. -/
def NR_kill : Word := 62

/-- What is left open about the first traced task. -/
structure Boot where
  childPid : PidT
  childPid_ne_zero : childPid ≠ 0
  regs : UserRegsStruct
  memory : Memory
  fds : List Nat
  /-- The largest block that `malloc` grants. -/
  heap : Nat
  garbage : UserRegsStruct

namespace Boot

variable (b : Boot)

def task : Task where
  tgid := b.childPid
  mm := 0
  regs := { b.regs with origRax := NR_kill }
  state := .stopped (.signal SIGSTOP) true
  fds := b.fds
  birth := 0
  starts := 0
  earlyPokes := 0
  calls := 0
  entered := b.regs
  executed := []
  children := []
  signals := []

def world : World where
  task := Function.update (fun _ => none) b.childPid (some b.task)
  pids := [b.childPid]
  mem := fun _ => b.memory
  nextMm := 1
  births := 1
  tick := 0
  heap := b.heap
  garbage := b.garbage
  history := []
  writes := []

/-- The outcome of a run. -/
def run (env : Env) (scan n : Nat) : EStateM.Result Halt (Tracer World) Unit :=
  traceChild (kernel env) scan n b.childPid (Tracer.start b.world)

/-- The first task at the entry of a system call, which has been reported. -/
def entryTask (regs : UserRegsStruct) : Task :=
  { b.task with
    state := .stopped .syscallEntry true
    regs := regs
    calls := 1
    entered := regs }

/-- The first task is tracked and stands at the entry of a system call. -/
def atEntry (regs : UserRegsStruct) : Tracer World where
  processTable := [⟨0, b.childPid, initialClock⟩]
  entryCount := 1
  nextAddr := 1
  buffer := fun _ => 0
  os := b.world.setTask b.childPid (some (b.entryTask regs))
  trace := []

/-- A first task with pid 100 and zero registers, all of whose memory is zero and accessible. -/
def sample : Boot where
  childPid := 100
  childPid_ne_zero := by decide
  regs := default
  memory := ⟨fun _ => 0, fun _ => true, fun _ => true⟩
  fds := [0, 1, 2]
  heap := 4096
  garbage := default

/-- The sample task with every byte of its memory set. -/
def filled (b : Byte) : Boot :=
  { sample with memory := ⟨fun _ => b, fun _ => true, fun _ => true⟩ }

end Boot

/-! ### Sample calls -/

def timeCall : UserRegsStruct :=
  { (default : UserRegsStruct) with origRax := NR_time, rdi := 64 }

def clockGettimeCall : UserRegsStruct :=
  { (default : UserRegsStruct) with origRax := NR_clock_gettime, rsi := 64 }

def forkCall : UserRegsStruct := { (default : UserRegsStruct) with origRax := NR_fork }

def cloneCall : UserRegsStruct := { (default : UserRegsStruct) with origRax := NR_clone }

def execveCall : UserRegsStruct := { (default : UserRegsStruct) with origRax := NR_execve }

/-- What happens before the queries that are listed.  Any other query finds the world as it was, and
a wait for any child reports process 100. -/
def scripted (slots : List (Nat × Slot)) : Env :=
  fun n _ => (slots.lookup n).getD ⟨[], 100⟩

end Reproduce.Linux
