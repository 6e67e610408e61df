import Reproduce.Tracer.HashTable
import Reproduce.UtHash.Jenkins
import Reproduce.UtHash.Macros

/-!
# The process table as a hash

`hashtable.c` with the macros of `uthash.h` in place, over the heap that they work on.  The key of a
process is the `pid_t` in its entry, four bytes in memory.
-/

namespace Reproduce.UtHash

open Bytes

/-- `struct child_process` without its hash handle. -/
structure ProcessData where
  pid : PidT
  gettimeData : Timespec

/-- The bytes of a `pid_t` in memory. -/
def pidBytes (pid : PidT) : List Byte := (List.range 4).map fun j => pid.extractLsb' (8 * j) 8

/-- `HASH_FIND_INT` and `HASH_ADD_INT` on the field `pid`. -/
def processConfig (grant : Nat → Nat → Bool) : Config ProcessData where
  key := fun d => pidBytes d.pid
  key_length := fun _ => by
    rw [pidBytes, List.length_map, List.length_range]
    decide
  hashFunction := hashJen
  grant := grant

/-- `static struct child_process *process_table`, with what it leads to, and
`static unsigned int entry_count`. -/
structure Statics where
  heap : Heap ProcessData
  entryCount : BitVec 32

abbrev TableM := EStateM Halt Statics

/-- A part of the program that works on the heap only. -/
def onHeap {β : Type} (m : HashM ProcessData β) : TableM β := fun c =>
  match m c.heap with
  | .ok b h => .ok b { c with heap := h }
  | .error e h => .error e { c with heap := h }

variable (grant : Nat → Nat → Bool) (fuel : Nat)

def findProcess (pid : PidT) : TableM (Option Ptr) :=
  onHeap (hashFind (processConfig grant) fuel (pidBytes pid))

def insertProcess (pid : PidT) : TableM Bool := do
  if (← findProcess grant fuel pid).isSome then
    pure false
  else if ← onHeap (allocate (processConfig grant) sizeofChildProcess) then
    let proc ← onHeap newElmt
    onHeap (store Heap.setData proc ⟨pid, initialClock⟩)
    onHeap (hashAdd (processConfig grant) fuel proc)
    modify fun c => { c with entryCount := c.entryCount + 1 }
    pure true
  else
    throw (.exit EXIT_FAILURE)

def deleteProcess (pid : PidT) : TableM Unit := do
  match ← findProcess grant fuel pid with
  | none => pure ()
  | some proc =>
    onHeap (hashDeleteHh proc)
    onHeap (freeElmt proc)
    modify fun c => { c with entryCount := c.entryCount - 1 }

/-- `print_hashtable`: the pids that it prints. -/
def printHashtable : TableM (List PidT) := do
  let entries ← onHeap (hashItems fuel)
  return entries.map ProcessData.pid

def isHashTableEmpty : TableM Bool := fun c => .ok (c.entryCount = 0) c

/-- `p->gettime_data` -/
def readClock (p : Ptr) : TableM Timespec := do
  let data ← onHeap (load Heap.data p)
  return data.gettimeData

/-- `p->gettime_data = t` -/
def setClock (p : Ptr) (t : Timespec) : TableM Unit := do
  let data ← onHeap (load Heap.data p)
  onHeap (store Heap.setData p { data with gettimeData := t })

end Reproduce.UtHash
