import Reproduce.Tracer.Putils

/-!
# The hooked system calls

`syscalls.c`.
-/

namespace Reproduce

open Bytes

variable {W : Type} (K : Kernel W)

/-- `"/dev/random"` -/
def devRandom : List Byte :=
  [0x2f, 0x64, 0x65, 0x76, 0x2f, 0x72, 0x61, 0x6e, 0x64, 0x6f, 0x6d]

/-- `"/dev/urandom"` -/
def devUrandom : List Byte :=
  [0x2f, 0x64, 0x65, 0x76, 0x2f, 0x75, 0x72, 0x61, 0x6e, 0x64, 0x6f, 0x6d]

/-- `stdin->_fileno` -/
def stdinFileno : Word := 0

def redirectDevRandom (pid : PidT) (regs : UserRegsStruct) : TracerM W Unit := do
  let str ← readChildCString K (rArg2 regs) pid
  if (← strcmpEq str devRandom) || (← strcmpEq str devUrandom) then
    let regs ← childContinueSyscall K pid regs
    let _ ← childReturns K pid regs stdinFileno
    pure ()
  else
    pure ()

/-- `tv_sec += 1; tv_nsec += 1` -/
def Timespec.advance (t : Timespec) : Timespec := ⟨t.tvSec + 1, t.tvNsec + 1⟩

/-- `sizeof(child->gettime_data)` -/
def sizeofTimespec : Word := 16

def hookGetrandom (pid : PidT) (regs : UserRegsStruct) : TracerM W Unit := do
  let bufAddr := rArg1 regs
  let bufLen := rArg2 regs
  let regs ← childCancelSyscall K pid regs
  let testdata ← malloc K bufLen.toNat
  -- `memset` of a null block
  if !testdata && bufLen ≠ 0 then
    throw .nullDereference
  else
    replaceBuf K pid (List.replicate bufLen.toNat 0x22) bufAddr bufLen
    let _ ← childReturns K pid regs bufLen
    pure ()

/-- The cases `gettimeofday` and `clock_gettime`: the clock is written out and then advanced. -/
def writeAndAdvance (child : Ptr) (pid : PidT) (regs : UserRegsStruct) (addr : Word) :
    TracerM W Unit := do
  let regs ← childCancelSyscall K pid regs
  let c ← deref child
  replaceBuf K pid c.gettimeData.bytes addr sizeofTimespec
  let c ← deref child
  setClock child c.gettimeData.advance
  let _ ← childReturns K pid regs 0
  pure ()

def hookGettimeofday (child : Ptr) (pid : PidT) (regs : UserRegsStruct) : TracerM W Unit :=
  writeAndAdvance K child pid regs (rArg1 regs)

def hookClockGettime (child : Ptr) (pid : PidT) (regs : UserRegsStruct) : TracerM W Unit :=
  writeAndAdvance K child pid regs (rArg2 regs)

/-- `if (time_arg != 0)` -/
def writeTime (child : Ptr) (pid : PidT) (timeArg : Word) : TracerM W Unit :=
  if timeArg ≠ 0 then do
    let c ← deref child
    replaceBuf K pid c.gettimeData.bytes timeArg sizeofTimespec
  else
    pure ()

/-- The case `time`: the clock is advanced and then written out. -/
def hookTime (child : Ptr) (pid : PidT) (regs : UserRegsStruct) : TracerM W Unit := do
  let timeArg := rArg1 regs
  let regs ← childCancelSyscall K pid regs
  let c ← deref child
  setClock child c.gettimeData.advance
  writeTime K child pid timeArg
  let c ← deref child
  let _ ← childReturns K pid regs c.gettimeData.tvSec
  pure ()

/-- The `switch`. -/
def runHook (child : Ptr) (childPid : PidT) (regs : UserRegsStruct) :
    Option Hook → TracerM W Unit
  | some .getrandom => hookGetrandom K childPid regs
  | some .gettimeofday => hookGettimeofday K child childPid regs
  | some .time => hookTime K child childPid regs
  | some .clockGettime => hookClockGettime K child childPid regs
  | some .openat => redirectDevRandom K childPid regs
  | some .open => redirectDevRandom K childPid regs
  | some .openat2 => redirectDevRandom K childPid regs
  | none => pure ()

def handleSyscall (child : Ptr) (regs : UserRegsStruct) : TracerM W Unit := do
  note (.handleSyscall child regs)
  let childPid := (← deref child).pid
  runHook K child childPid regs (hookOf (rSyscall regs))

end Reproduce
