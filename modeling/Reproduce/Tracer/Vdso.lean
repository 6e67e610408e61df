import Reproduce.Tracer.Putils

/-!
# Hiding the vDSO

`vdso.c` and `proc_init.c`.  The two loops of `remove_vdso` run until they find what they look for
or a `PEEK` fails; `scan` bounds the number of words each of them looks at.
-/

namespace Reproduce

open Bytes

variable {W : Type} (K : Kernel W)

def AT_NULL : Word := 0
def AT_IGNORE : Word := 1
def AT_SYSINFO_EHDR : Word := 33

/-- One iteration of the loop that skips to the auxiliary vector, on `pos` and `zeroCount`. -/
def skipWord (pid : PidT) (st : Word × Nat) : TracerM W ((Word × Nat) ⊕ Option Word) := do
  let (pos, zeroCount) := st
  if zeroCount < 2 then
    match ← peekReturn K pid (.data (pos + 8)) with
    | none => pure (.inr none)
    | some val =>
      pure (.inl (pos + 8, if val = AT_NULL then zeroCount + 1 else zeroCount))
  else
    pure (.inr (some pos))

/-- One iteration of the search for `AT_SYSINFO_EHDR`, on `pos` and `val`. -/
def searchWord (pid : PidT) (st : Word × Word) : TracerM W ((Word × Word) ⊕ Unit) := do
  let (pos, val) := st
  if val = AT_NULL then
    pure (.inr ())
  else if val = AT_SYSINFO_EHDR then
    let _ ← ptraceReturn K (.pokedata pid pos AT_IGNORE)
    pure (.inr ())
  else
    match ← peekReturn K pid (.data (pos + 16)) with
    -- the process no longer exists
    | none => pure (.inr ())
    | some val' => pure (.inl (pos + 16, val'))

def removeVdso (scan : Nat) (pid : PidT) : TracerM W Unit := do
  note (.removeVdso pid)
  match ← peekReturn K pid (.user (8 * RSP)) with
  | none => pure ()
  | some rsp =>
    match ← Effect.loop .outOfFuel (skipWord K pid) scan (rsp, 0) with
    | none => pure ()
    | some pos =>
      match ← peekReturn K pid (.data (pos + 8)) with
      | none => pure ()
      | some val => Effect.loop .outOfFuel (searchWord K pid) scan (pos + 8, val)

def procInit (scan : Nat) (pid : PidT) : TracerM W Unit := do
  removeVdso K scan pid
  let _ ← ptraceReturn K (.syscall pid 0)
  pure ()

end Reproduce
