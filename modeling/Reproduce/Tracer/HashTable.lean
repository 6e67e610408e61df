import Reproduce.Tracer.Monad

/-!
# The process table

`hashtable.c`.  The uthash macros are taken for what they document, a finite map keyed by pid:
`HASH_FIND_INT` returns the entry with the key, `HASH_ADD_INT` adds an entry without looking for
the key, `HASH_DEL` removes the entry it is given.
-/

namespace Reproduce

open Bytes

variable {W : Type} (K : Kernel W)

/-- The clock that `insert_process` gives every new entry. -/
def initialClock : Timespec := ⟨1718099106, 516453925⟩

/-- `sizeof(struct child_process)` -/
def sizeofChildProcess : Nat := 80

/-- `HASH_FIND_INT` -/
def hashFind (table : List ChildProcess) (pid : PidT) : Option ChildProcess :=
  table.find? fun c => c.pid = pid

/-- The block at an address, if it is allocated. -/
def blockAt (table : List ChildProcess) (p : Ptr) : Option ChildProcess :=
  table.find? fun c => c.addr = p

def findProcess (pid : PidT) : TracerM W (Option Ptr) := fun s =>
  .ok ((hashFind s.processTable pid).map ChildProcess.addr) s

def insertProcess (pid : PidT) : TracerM W Bool := do
  if (← findProcess pid).isSome then
    pure false
  else
    note (.insertProcess pid)
    if ← malloc K sizeofChildProcess then
      modify fun s =>
        { s with
          processTable := ⟨s.nextAddr, pid, initialClock⟩ :: s.processTable
          nextAddr := s.nextAddr + 1
          entryCount := s.entryCount + 1 }
      pure true
    else
      exitFailure

def deleteProcess (pid : PidT) : TracerM W Unit := do
  note (.deleteProcess pid)
  match ← findProcess pid with
  -- a process without an entry is passed over
  | none => pure ()
  | some proc =>
    modify fun s =>
      { s with
        processTable := s.processTable.filter fun c => c.addr ≠ proc
        entryCount := s.entryCount - 1 }

def isHashTableEmpty : TracerM W Bool := fun s => .ok (s.entryCount = 0) s

/-! ### Access through a pointer -/

/-- `*p` -/
def deref (p : Ptr) : TracerM W ChildProcess := fun s =>
  match blockAt s.processTable p with
  | some c => .ok c s
  | none => .error .useAfterFree s

/-- `p->gettime_data = t` -/
def setClock (p : Ptr) (t : Timespec) : TracerM W Unit := do
  let _ ← deref p
  modify fun s =>
    { s with
      processTable := s.processTable.map fun c =>
        if c.addr = p then { c with gettimeData := t } else c }

end Reproduce
