import Reproduce.Abi.Syscall
import Reproduce.Tracer.HashTable

/-!
# Helpers around `ptrace`

`putils.h` and `putils.c`.  A `struct user_regs_struct *` that a helper writes through is returned
by it; a helper that is left early by `PTRACE_RETURN` returns what it has written so far, and its
caller carries on.
-/

namespace Reproduce

open Bytes

variable {W : Type} (K : Kernel W)

/-- The macro `PTRACE_DELETE`.  Its `continue` sits in a `do { … } while (0)` and so ends the macro
only: after `delete_process` the caller carries on (`none`). -/
def ptraceDelete (r : Request) (pid : PidT) : TracerM W (Option r.Reply) := do
  match ← ptrace K r with
  | .ok reply => pure (some reply)
  | .error e =>
    if e = .ESRCH then
      deleteProcess pid
      pure none
    else
      exitFailure

/-! ### Injected system calls -/

def childExecSyscall (pid : PidT) (regs : UserRegsStruct) : TracerM W UserRegsStruct := do
  if ← ptraceReturn K (.setregs pid regs) then
    if ← ptraceReturn K (.syscall pid 0) then
      let status ← waitpidOrExit K pid
      if terminated status then
        exitFailure
      else
        match ← ptrace K (.getregs pid) with
        | .ok (regs' : UserRegsStruct) => pure regs'
        | .error e => if e = .ESRCH then pure regs else exitFailure
    else pure regs
  else pure regs

/-- The cascade of conditional argument writes; `num_args` is the length of the list. -/
def writeArgs (regs : UserRegsStruct) (args : List Word) : UserRegsStruct :=
  let regs := if h : 0 < args.length then wArg1 regs args[0] else regs
  let regs := if h : 1 < args.length then wArg2 regs args[1] else regs
  let regs := if h : 2 < args.length then wArg3 regs args[2] else regs
  let regs := if h : 3 < args.length then wArg4 regs args[3] else regs
  let regs := if h : 4 < args.length then wArg5 regs args[4] else regs
  if h : 5 < args.length then wArg6 regs args[5] else regs

def childSyscall (pid : PidT) (regs : UserRegsStruct) (syscallNumber : Word) (args : List Word) :
    TracerM W (UserRegsStruct × Word) := do
  let regs ← childExecSyscall K pid (writeArgs (wSyscall regs syscallNumber) args)
  pure (regs, rReturn regs)

/-! ### Reading a string -/

def MAX_BUFFER_SIZE : Nat := 1024

/-- A `char *` into the static buffer, or `NULL`. -/
inductive CharPtr where
  | null
  | buffer
  deriving DecidableEq, Repr

/-- `buffer[i] = b` -/
def storeBuffer (i : Nat) (b : Byte) : TracerM W Unit := fun s =>
  if i < MAX_BUFFER_SIZE then .ok () { s with buffer := Function.update s.buffer i b }
  else .error .outOfBounds s

/-- `for (unsigned i = 0; i < bytesRead; i++) buffer[length + i] = p[i];` -/
def storeChunk (length : Nat) : List Byte → TracerM W Unit
  | [] => pure ()
  | b :: bs => do
    storeBuffer length b
    storeChunk (length + 1) bs

/-- The bytes of a word before its first NUL, `strnlen(p, sizeof(long))` of them. -/
def stringBytes (word : Word) : List Byte := (wordBytes word).takeWhile fun b => b ≠ 0

/-- One iteration of the loop of `read_child_c_string`, on `raddr` and `length`.  It ends the loop
with `none` for the early `return NULL`, or with the final `length`. -/
def readChunk (pid : PidT) (st : Word × Nat) : TracerM W ((Word × Nat) ⊕ Option Nat) := do
  let (raddr, length) := st
  if length < MAX_BUFFER_SIZE - 1 then
    match ← peekReturn K pid (.data raddr) with
    | none => pure (.inr none)
    | some result =>
      let chunk := stringBytes result
      if MAX_BUFFER_SIZE - 1 ≤ length + chunk.length then
        -- the clamp sets `done` as well
        let bytesRead := MAX_BUFFER_SIZE - 1 - length
        storeChunk length (chunk.take bytesRead)
        pure (.inr (some (length + bytesRead)))
      else
        storeChunk length chunk
        -- `bytesRead == sizeof(long)`: the string goes on in the next word
        if chunk.length = 8 then
          pure (.inl (raddr + BitVec.ofNat 64 chunk.length, length + chunk.length))
        else
          pure (.inr (some (length + chunk.length)))
  else
    pure (.inr (some length))

/-- Every iteration that continues stores eight bytes, so the loop ends within 128 iterations. -/
def readChildCString (raddr : Word) (pid : PidT) : TracerM W CharPtr := do
  match ← Effect.loop .outOfFuel (readChunk K pid) 128 (raddr, 0) with
  | none => pure .null
  | some length =>
    storeBuffer length 0
    pure .buffer

/-- The string in a buffer: the bytes from index `i` up to the first NUL, `n` of them at most. -/
def stringFrom (buffer : Nat → Byte) (i : Nat) : Nat → List Byte
  | 0 => []
  | n + 1 => if buffer i = 0 then [] else buffer i :: stringFrom buffer (i + 1) n

/-- `strcmp(str, literal) == 0` -/
def strcmpEq (str : CharPtr) (literal : List Byte) : TracerM W Bool := fun s =>
  match str with
  | .null => .error .nullDereference s
  | .buffer => .ok (stringFrom s.buffer 0 MAX_BUFFER_SIZE = literal) s

/-! ### Returning a value and copying a buffer -/

def childReturns (pid : PidT) (regs : UserRegsStruct) (data : Word) :
    TracerM W UserRegsStruct := do
  let regs := wReturn regs data
  let _ ← ptraceReturn K (.setregs pid regs)
  pure regs

/-- `*(unsigned long *)(src + i)` -/
def srcWord (src : List Byte) (i : Nat) : TracerM W Word :=
  if i + 8 ≤ src.length then pure (ofBytes fun j => (src.drop i).getD j 0)
  else throw .outOfBounds

/-- The last word: the bytes of `src` from `i` on, then the old bytes of the word. -/
def tailWord (src : List Byte) (i len : Nat) (word : Word) : TracerM W Word :=
  if len ≤ src.length then
    pure (ofBytes fun j => if i + j < len then src.getD (i + j) 0 else getByte word j)
  else throw .outOfBounds

/-- One iteration of the `for` loop of `replace_buf`, on `i`.  It ends the loop with `none` for the
early return, or with the final `i`. -/
def pokeWord (pid : PidT) (src : List Byte) (dest len : Word) (i : Word) :
    TracerM W (Word ⊕ Option Word) := do
  if i + 8 ≤ len then
    let word ← srcWord src i.toNat
    if ← ptraceReturn K (.pokedata pid (dest + i) word) then
      pure (.inl (i + 8))
    else
      pure (.inr none)
  else
    pure (.inr (some i))

/-- The read-modify-write of the last, partial word. -/
def pokeTail (pid : PidT) (src : List Byte) (dest len i : Word) : TracerM W Unit := do
  match ← ptrace K (.peek pid (.data (dest + i))) with
  -- this peek looks at `errno` alone, so a word of all ones is no error
  | .error e => if e = .ESRCH then pure () else exitFailure
  | .ok (word : Word) =>
    let word ← tailWord src i.toNat len.toNat word
    let _ ← ptraceReturn K (.pokedata pid (dest + i) word)
    pure ()

/-- The loop makes `len / 8` iterations that continue; for `len` above `2^64 - 8` its counter wraps
around and it does not end. -/
def replaceBuf (pid : PidT) (src : List Byte) (dest len : Word) : TracerM W Unit := do
  match ← Effect.loop .outOfFuel (pokeWord K pid src dest len) (len.toNat / 8 + 1) 0 with
  | none => pure ()
  | some i => if i < len then pokeTail K pid src dest len i else pure ()

/-! ### Cancelling a call and letting it run -/

/-- `PTRACE_SYSCALL`, then the wait for the next stop, which is never looked at beyond the exit
check. -/
def resumeAndWait (pid : PidT) : TracerM W Unit := do
  if ← ptraceReturn K (.syscall pid 0) then
    let status ← waitpidOrExit K pid
    if terminated status then exitFailure else pure ()
  else pure ()

def childCancelSyscall (pid : PidT) (regs : UserRegsStruct) : TracerM W UserRegsStruct := do
  let regs := { regs with origRax := -1 }
  if ← ptraceReturn K (.setregs pid regs) then
    resumeAndWait K pid
    pure regs
  else
    pure regs

def childContinueSyscall (pid : PidT) (regs : UserRegsStruct) : TracerM W UserRegsStruct := do
  resumeAndWait K pid
  pure regs

end Reproduce
