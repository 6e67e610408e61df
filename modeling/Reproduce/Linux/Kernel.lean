import Reproduce.Linux.Task

/-!
# The kernel's answers

What a `ptrace` request and a `waitpid` do, once the moves that precede them have happened.  Every
request needs a stopped task and is answered `ESRCH` otherwise.
-/

namespace Reproduce.Linux

open Bytes

/-- The task after `PTRACE_SYSCALL`, which delivers the signal `data` when the stop is for one.
From an entry stop the kernel carries out the call that the registers name now, unless it is -1. -/
def Task.resume (t : Task) (stop : Stop) (data : Word) : Task :=
  match stop with
  | .initial => { t with state := .user, starts := t.starts + 1 }
  | .syscallEntry =>
    { t with
      state := .kernel true
      executed := if t.regs.origRax = -1 then t.executed else (t.entered, t.regs) :: t.executed }
  | .syscallExit => { t with state := .user }
  | .event .. => { t with state := .kernel false }
  | .signal _ =>
    { t with
      state := .user
      signals := if data = 0 then t.signals else data.setWidth 8 :: t.signals }

namespace World

/-- A word or a register set is written into a task. -/
def recordWrite (w : World) (pid : PidT) (mm : Nat) : World :=
  { w with writes := (pid, mm) :: w.writes }

/-- A poke into a task in its first stop is counted. -/
def countPoke (w : World) (pid : PidT) (t : Task) : World :=
  if t.stop? = some .initial then
    w.setTask pid (some { t with earlyPokes := t.earlyPokes + 1 })
  else w

/-- A request on a stopped task. -/
def perform (w : World) (t : Task) : (r : Request) → Except Errno r.Reply × World
  | .peek _ (.user offset) =>
    match t.regs.atOffset offset with
    | some v => (.ok v, w)
    | none => (.error Errno.EIO, w)
  | .peek _ (.data addr) =>
    match (w.mem t.mm).peek addr with
    | some v => (.ok v, w)
    | none => (.error Errno.EIO, w)
  | .pokedata pid addr data =>
    match (w.mem t.mm).poke addr data with
    | some m => (.ok (), ((w.setMem t.mm m).countPoke pid t).recordWrite pid t.mm)
    | none => (.error Errno.EIO, w)
  | .getregs _ => (.ok t.regs, w)
  | .setregs pid regs =>
    (.ok (), (w.setTask pid (some { t with regs := regs })).recordWrite pid t.mm)
  | .syscall pid data =>
    match t.stop? with
    | some stop => (.ok (), w.setTask pid (some (t.resume stop data)))
    | none => (.error .ESRCH, w)
  | .geteventmsg _ =>
    match t.stop? with
    | some (.event _ message) => (.ok (message.setWidth 64), w)
    -- only an event stop has a message
    | _ => (.error .EINVAL, w)

/-- The status of a task that `waitpid` has not seen yet.  A dead task is reaped by it; the death of
a thread group leader is reported when the group has no other task left. -/
def report (w : World) (pid : PidT) : Option (Except Errno (PidT × Status)) × World :=
  match w.task pid with
  | none => (none, w)
  | some t =>
    match t.state with
    | .stopped stop false =>
      (some (.ok (pid, stop.status)), w.setTask pid (some { t with state := .stopped stop true }))
    | .zombie status =>
      if t.tgid = pid ∧ !w.lastInGroup pid pid then (none, w)
      else (some (.ok (pid, status)), w.setTask pid none)
    -- a task that runs has no status, nor has one whose stop was reported
    | _ => (none, w)

end World

variable (env : Env)

def World.ptrace (r : Request) (w : World) : Except Errno r.Reply × World :=
  let w := w.advance (env w.tick (.ptrace r))
  match w.stopped r.pid with
  | some t => w.perform t r
  | none => (.error .ESRCH, w)

def World.waitpid (target : WaitTarget) (w : World) :
    Option (Except Errno (PidT × Status)) × World :=
  let slot := env w.tick (.wait target)
  let w := w.advance slot
  match target with
  | some pid => if (w.task pid).isNone then (some (.error .ECHILD), w) else w.report pid
  | none =>
    if w.pids.all fun q => (w.task q).isNone then (some (.error .ECHILD), w)
    else w.report slot.report

/-- The Linux kernel in an environment. -/
def kernel : Kernel World where
  ptrace := World.ptrace env
  waitpid := World.waitpid env
  malloc size w := (decide (size ≤ w.heap), w)
  uninitialised w := w.garbage

end Reproduce.Linux
