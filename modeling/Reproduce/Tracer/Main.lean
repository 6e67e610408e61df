import Reproduce.Tracer.Events

/-!
# The main program

`main.c`, from the point at which the tracer knows its first child: the child has stopped itself and
has the trace options.
-/

namespace Reproduce

variable {W : Type} (K : Kernel W)

/-- The tracer process before it tracks anything. -/
def Tracer.start (os : W) : Tracer W where
  processTable := []
  entryCount := 0
  nextAddr := 0
  buffer := fun _ => 0
  os := os
  trace := []

def traceChild (scan n : Nat) (childPid : PidT) : TracerM W Unit := do
  -- the answer is not looked at: the table is empty
  let _ ← insertProcess K childPid
  match ← ptrace K (.syscall childPid 0) with
  | .ok _ => handleEvent K scan n
  -- `return 1`
  | .error _ => pure ()

end Reproduce
