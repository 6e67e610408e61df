import Mathlib.Data.BitVec
import Mathlib.Tactic.IntervalCases

/-!
# Wait statuses

The status word that `waitpid` fills in, with the macros of `<sys/wait.h>` and the event number that
`handle_event` takes from it, and the status words of ptrace stops.
-/

namespace Reproduce

abbrev Status := BitVec 32

def wifexited (status : Status) : Bool := status &&& 0x7f = 0

/-- `((signed char) ((status & 0x7f) + 1) >> 1) > 0` -/
def wifsignaled (status : Status) : Bool :=
  (0 : BitVec 8).slt ((((status &&& 0x7f) + 1).setWidth 8).sshiftRight 1)

def wifstopped (status : Status) : Bool := status &&& 0xff = 0x7f

/-- The process is gone: it exited or was killed by a signal. -/
def terminated (status : Status) : Bool := wifexited status || wifsignaled status

/-- `(status >> 16) & 0xffff` -/
def eventOf (status : Status) : Status := (status >>> 16) &&& 0xffff

def PTRACE_EVENT_FORK : Status := 1
def PTRACE_EVENT_VFORK : Status := 2
def PTRACE_EVENT_CLONE : Status := 3
def PTRACE_EVENT_EXEC : Status := 4

/-- A fork, vfork or clone event. -/
def isForkEvent (event : Status) : Bool :=
  event = PTRACE_EVENT_FORK || event = PTRACE_EVENT_VFORK || event = PTRACE_EVENT_CLONE

def SIGTRAP : BitVec 8 := 5
def SIGSTOP : BitVec 8 := 19

/-- The status of a stop by `sig` in which event `event` is reported. -/
def stopStatus (event sig : BitVec 8) : Status :=
  (event.setWidth 32 <<< 16) ||| (sig.setWidth 32 <<< 8) ||| 0x7f

/-! ### The macros on stops -/

theorem stopStatus_and_lowByte (event sig : BitVec 8) : stopStatus event sig &&& 0xff = 0x7f := by
  apply BitVec.eq_of_getLsbD_eq
  intro i hi
  simp only [stopStatus, BitVec.getLsbD_and, BitVec.getLsbD_or, BitVec.getLsbD_shiftLeft]
  interval_cases i <;> simp

@[simp] theorem wifstopped_stopStatus (event sig : BitVec 8) :
    wifstopped (stopStatus event sig) = true := by
  rw [wifstopped, stopStatus_and_lowByte]
  rfl

/-- A process that is stopped is not gone. -/
theorem terminated_of_wifstopped {status : Status} (h : wifstopped status = true) :
    terminated status = false := by
  have hlow : status &&& 0xff = 0x7f := by simpa [wifstopped] using h
  have hsig : status &&& 0x7f = 0x7f := by
    calc status &&& 0x7f = (status &&& 0xff) &&& 0x7f := by rw [BitVec.and_assoc]; rfl
      _ = 0x7f := by rw [hlow]; rfl
  rw [terminated, wifexited, wifsignaled, hsig]
  rfl

@[simp] theorem terminated_stopStatus (event sig : BitVec 8) :
    terminated (stopStatus event sig) = false :=
  terminated_of_wifstopped (wifstopped_stopStatus event sig)

@[simp] theorem eventOf_stopStatus (event sig : BitVec 8) :
    eventOf (stopStatus event sig) = event.setWidth 32 := by
  apply BitVec.eq_of_getLsbD_eq
  intro i hi
  simp only [eventOf, stopStatus, BitVec.getLsbD_and, BitVec.getLsbD_or, BitVec.getLsbD_shiftLeft,
    BitVec.getLsbD_ushiftRight, BitVec.getLsbD_setWidth]
  interval_cases i <;> simp

end Reproduce
