import Reproduce.Abi.Syscall
import Reproduce.Bytes.Memory
import Reproduce.Os.Kernel

/-!
# Traced tasks

A model of the Linux side of `ptrace`: the tasks that are traced, their memory, and what they can do
between two calls of the tracer.

A `Task` is a thread.  It runs in user mode, or is inside a system call, or is stopped and waits for
the tracer, or is dead and waits to be reaped.  A `Move` is one thing that happens without the
tracer: a task enters or finishes a system call, creates a process, executes a program, is about to
receive a signal, dies, or memory changes.  `Move.apply` says when a move can happen.

The fields of a task from `birth` on are a history that no move and no request looks at.
-/

namespace Reproduce.Linux

open Bytes

/-- The `PTRACE_EVENT` stops that the tracer asks for. -/
inductive PtraceEvent where
  | fork
  | vfork
  | clone
  | exec
  deriving DecidableEq, Repr

def PtraceEvent.number : PtraceEvent → BitVec 8
  | fork => 1
  | vfork => 2
  | clone => 3
  | exec => 4

inductive Stop where
  /-- The `SIGSTOP` with which an automatically attached task begins. -/
  | initial
  | syscallEntry
  | syscallExit
  /-- An event stop with its message: the pid of the new process, or the former pid of the thread
  that executed a program. -/
  | event (e : PtraceEvent) (message : PidT)
  /-- A signal is about to be delivered. -/
  | signal (sig : BitVec 8)
  deriving DecidableEq

/-- The status that `waitpid` reports for a stop. -/
def Stop.status : Stop → Status
  | initial => stopStatus 0 SIGSTOP
  | syscallEntry | syscallExit => stopStatus 0 SIGTRAP
  | event e _ => stopStatus e.number SIGTRAP
  | signal sig => stopStatus 0 sig

inductive TaskState where
  | user
  /-- Inside a system call; `fresh` until it has stopped for an event of its own. -/
  | kernel (fresh : Bool)
  | stopped (stop : Stop) (reported : Bool)
  | zombie (status : Status)
  deriving DecidableEq

structure Task where
  /-- The thread group: the pid of the leader. -/
  tgid : PidT
  /-- The address space. -/
  mm : Nat
  regs : UserRegsStruct
  state : TaskState
  /-- The open descriptors. -/
  fds : List Nat
  /-- The serial number of the task's creation. -/
  birth : Nat
  /-- How often the task was resumed from its first stop. -/
  starts : Nat
  /-- How many words were poked while the task was in its first stop. -/
  earlyPokes : Nat
  /-- How many system calls the task has entered. -/
  calls : Nat
  /-- The registers with which the task itself entered its last system call. -/
  entered : UserRegsStruct
  /-- The system calls the kernel carried out, newest first: the registers with which the task
  entered the call, and those with which the tracer let it go on. -/
  executed : List (UserRegsStruct × UserRegsStruct)
  /-- The births of the tasks this one created. -/
  children : List Nat
  /-- The signals delivered, newest first. -/
  signals : List (BitVec 8)

namespace Task

def isStopped (t : Task) : Bool :=
  match t.state with
  | .stopped .. => true
  | _ => false

def isDead (t : Task) : Bool :=
  match t.state with
  | .zombie _ => true
  | _ => false

/-- The stop a task is in. -/
def stop? (t : Task) : Option Stop :=
  match t.state with
  | .stopped stop _ => some stop
  | _ => none

end Task

/-- One thing that happens without the tracer. -/
inductive Move where
  /-- A running task makes a system call with these registers. -/
  | enter (pid : PidT) (regs : UserRegsStruct)
  /-- A task in a system call reaches its end with these registers. -/
  | finish (pid : PidT) (regs : UserRegsStruct)
  /-- A task in a creating call creates `child`, in the same thread group if `thread` and in the
  same address space if `share`, with stack pointer `rsp`. -/
  | fork (pid child : PidT) (e : PtraceEvent) (thread share : Bool) (rsp : Word)
  /-- A task in `execve` replaces the program of its thread group. -/
  | exec (pid leader : PidT) (regs : UserRegsStruct) (image : Memory)
  /-- A running task is about to receive a signal, either right where the tracer resumed it (`none`)
  or after it ran on. -/
  | signal (pid : PidT) (sig : BitVec 8) (regs : Option UserRegsStruct)
  /-- A task exits or is killed. -/
  | die (pid : PidT) (status : Status)
  /-- The memory of an address space changes. -/
  | store (mm : Nat) (memory : Memory)

/-- Who answers, and what is asked of him: the calls that take time. -/
inductive Query where
  | ptrace (r : Request)
  | wait (target : WaitTarget)

/-- What happens before a query is answered, and which process a `waitpid` for any child reports. -/
structure Slot where
  moves : List Move
  report : PidT

/-- Everything that is left open: what happens before each query.  A theorem about every `Env` is a
theorem about every order of events. -/
abbrev Env := Nat → Query → Slot

structure World where
  task : PidT → Option Task
  /-- The pids that have been in use. -/
  pids : List PidT
  mem : Nat → Memory
  nextMm : Nat
  births : Nat
  /-- The number of queries answered. -/
  tick : Nat
  /-- The largest block that `malloc` grants. -/
  heap : Nat
  garbage : UserRegsStruct
  /-- The moves that took place, with the number of the query they preceded, newest first. -/
  history : List (Nat × Move)
  /-- The registers and words that were written into tasks: the pid, and the address space that the
  task had at that time. -/
  writes : List (PidT × Nat)

namespace World

def setTask (w : World) (pid : PidT) (t : Option Task) : World :=
  { w with task := Function.update w.task pid t }

def setMem (w : World) (mm : Nat) (m : Memory) : World :=
  { w with mem := Function.update w.mem mm m }

/-- The task with a pid, if it is stopped. -/
def stopped (w : World) (pid : PidT) : Option Task :=
  (w.task pid).filter Task.isStopped

/-- The task with a pid, if it is in a given state. -/
def inState (w : World) (pid : PidT) (state : TaskState) : Option Task :=
  (w.task pid).filter fun t => t.state = state

/-- Every other task of a thread group is dead. -/
def aloneInGroup (w : World) (pid tgid : PidT) : Bool :=
  w.pids.all fun q => q = pid || (w.task q).all fun t => t.tgid ≠ tgid || t.isDead

/-- No other task of a thread group is left. -/
def lastInGroup (w : World) (pid tgid : PidT) : Bool :=
  w.pids.all fun q => q = pid || (w.task q).all fun t => t.tgid ≠ tgid

end World

/-! ### Moves -/

def ENOSYS : Word := 38

def isCreation (nr : Word) : Bool :=
  nr = NR_clone || nr = NR_fork || nr = NR_vfork || nr = NR_clone3

def isExecve (nr : Word) : Bool := nr = NR_execve || nr = NR_execveat

/-- The lowest descriptor that is not open. -/
def lowestFree (fds : List Nat) : Nat :=
  -- one of the first `fds.length + 1` numbers is free
  ((List.range (fds.length + 1)).find? fun n => n ∉ fds).getD fds.length

/-- The open calls of the hooks. -/
def isOpen (nr : Word) : Bool :=
  match hookOf nr with
  | some h => !h.emulated
  | none => false

namespace Task

/-- A task enters a system call. -/
def enter (t : Task) (regs : UserRegsStruct) : Task :=
  { t with
    state := .stopped .syscallEntry false
    regs := { regs with rax := -ENOSYS }
    entered := { regs with rax := -ENOSYS }
    calls := t.calls + 1 }

/-- A task reaches the end of a system call.  A call with number -1 was skipped and changes nothing;
an open that succeeds returns the lowest free descriptor; `rt_sigreturn` restores a register file
whose `orig_rax` is -1; every other call keeps the number. -/
def finish (t : Task) (regs : UserRegsStruct) : Task :=
  if t.regs.origRax = -1 then
    { t with state := .stopped .syscallExit false }
  else if isOpen t.regs.origRax && !regs.rax.msb then
    { t with
      state := .stopped .syscallExit false
      regs := { t.regs with rax := BitVec.ofNat 64 (lowestFree t.fds) }
      fds := lowestFree t.fds :: t.fds }
  else
    { t with
      state := .stopped .syscallExit false
      regs := { regs with origRax := if regs.origRax = -1 then -1 else t.regs.origRax } }

/-- A task created `child`, whose serial number is `birth`. -/
def forking (t : Task) (e : PtraceEvent) (child : PidT) (birth : Nat) : Task :=
  { t with
    -- the event stop lies inside the call, which ends after it
    state := .stopped (.event e child) false
    children := birth :: t.children }

/-- The new task: a copy in its first stop. -/
def newborn (t : Task) (tgid : PidT) (mm : Nat) (rsp : Word) (birth : Nat) : Task where
  tgid := tgid
  mm := mm
  regs := { t.regs with rax := 0, rsp := rsp }
  state := .stopped .initial false
  fds := t.fds
  birth := birth
  starts := 0
  earlyPokes := 0
  calls := 0
  entered := t.entered
  executed := []
  children := []
  signals := []

/-- The task of a thread group after `t` executed a program in it; `old` was the leader. -/
def exec (t old : Task) (pid : PidT) (mm : Nat) (regs : UserRegsStruct) : Task :=
  { t with
    mm := mm
    regs := { regs with origRax := t.regs.origRax }
    state := .stopped (.event .exec pid) false
    -- what is counted goes on under the pid of the leader
    birth := old.birth
    starts := old.starts
    earlyPokes := old.earlyPokes
    calls := old.calls
    children := old.children ++ t.children }

/-- A task is about to receive a signal. -/
def signal (t : Task) (sig : BitVec 8) (regs : Option UserRegsStruct) : Task :=
  { t with
    state := .stopped (.signal sig) false
    -- a handler is entered with no call to be restarted
    regs := regs.elim t.regs fun r => { r with origRax := -1 } }

end Task

/-- The world after `t` created a process. -/
def World.fork (w : World) (pid child : PidT) (t : Task) (e : PtraceEvent) (thread share : Bool)
    (rsp : Word) : World :=
  let newTask :=
    t.newborn (if thread then t.tgid else child) (if share then t.mm else w.nextMm) rsp w.births
  { (((w.setMem w.nextMm (w.mem t.mm)).setTask pid
      (some (t.forking e child w.births))).setTask child (some newTask)) with
    pids := child :: w.pids
    nextMm := w.nextMm + 1
    births := w.births + 1 }

/-- The world after `t` executed a program. -/
def World.exec (w : World) (pid leader : PidT) (t old : Task) (regs : UserRegsStruct)
    (image : Memory) : World :=
  { (((w.setMem w.nextMm image).setTask pid none).setTask leader
      (some (t.exec old pid w.nextMm regs))) with
    nextMm := w.nextMm + 1 }

/-- The world after a move, if the move can happen. -/
def Move.apply (w : World) : Move → Option World
  | .enter pid regs => do
    let t ← w.inState pid .user
    some (w.setTask pid (some (t.enter regs)))
  | .finish pid regs => do
    let t ← (w.inState pid (.kernel true)).or (w.inState pid (.kernel false))
    some (w.setTask pid (some (t.finish regs)))
  | .fork pid child e thread share rsp => do
    let t ← w.inState pid (.kernel true)
    if isCreation t.regs.origRax ∧ e ≠ .exec ∧ child ≠ 0 ∧ (w.task child).isNone ∧
        (thread → share) then
      some (w.fork pid child t e thread share rsp)
    else none
  | .exec pid leader regs image => do
    let t ← w.inState pid (.kernel true)
    let old ← w.task leader
    if isExecve t.regs.origRax ∧ t.tgid = leader ∧ old.tgid = leader ∧
        (pid = leader ∨ old.isDead) ∧ w.aloneInGroup pid leader then
      some (w.exec pid leader t old regs image)
    else none
  | .signal pid sig regs => do
    let t ← w.inState pid .user
    some (w.setTask pid (some (t.signal sig regs)))
  | .die pid status => do
    let t ← w.task pid
    if !t.isDead ∧ terminated status then
      some (w.setTask pid (some { t with state := .zombie status }))
    else none
  | .store mm memory => some (w.setMem mm memory)

namespace World

/-- One move happens, if it can. -/
def move (w : World) (m : Move) : World :=
  match m.apply w with
  -- a move that cannot happen is passed over
  | none => w
  | some w' => { w' with history := (w.tick, m) :: w.history }

def runMoves (w : World) (moves : List Move) : World := moves.foldl move w

/-- What happens before a query. -/
def advance (w : World) (slot : Slot) : World :=
  { w.runMoves slot.moves with tick := w.tick + 1 }

end World

end Reproduce.Linux
