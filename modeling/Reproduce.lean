import Reproduce.Bytes.LittleEndian
import Reproduce.Bytes.Memory
import Reproduce.Bytes.Words
import Reproduce.Bytes.CString
import Reproduce.Effect.Triple
import Reproduce.Effect.Unless
import Reproduce.Keyed.Transducer
import Reproduce.Links.Doubly
import Reproduce.Links.Buckets
import Reproduce.Abi.Registers
import Reproduce.Abi.Status
import Reproduce.Abi.Syscall
import Reproduce.Os.Kernel
import Reproduce.Tracer.Monad
import Reproduce.Tracer.HashTable
import Reproduce.Tracer.Putils
import Reproduce.Tracer.Vdso
import Reproduce.Tracer.Syscalls
import Reproduce.Tracer.Events
import Reproduce.Tracer.Main
import Reproduce.UtHash.Jenkins
import Reproduce.UtHash.Heap
import Reproduce.UtHash.Macros
import Reproduce.UtHash.ProcessTable
import Reproduce.UtHash.Equiv.Memory
import Reproduce.UtHash.Equiv.Invariant
import Reproduce.UtHash.Equiv.Read
import Reproduce.UtHash.Equiv.Expand
import Reproduce.UtHash.Equiv.Add
import Reproduce.UtHash.Equiv.Delete
import Reproduce.UtHash.Equiv.Sequence
import Reproduce.Linux.Task
import Reproduce.Linux.Kernel
import Reproduce.Linux.Run
import Reproduce.Linux.Startup
import Reproduce.Tracer.Equiv.Frame
import Reproduce.Tracer.Equiv.Phases
import Reproduce.Tracer.Equiv.Parts
import Reproduce.Tracer.Equiv.Peeked
import Reproduce.Tracer.Equiv.Bounds
import Reproduce.Tracer.Equiv.Table
import Reproduce.Tracer.Equiv.Justified
import Reproduce.Tracer.Equiv.Contract
import Reproduce.Tracer.Equiv.Steps
import Reproduce.Tracer.Equiv.Turn
import Reproduce.Tracer.Equiv.Clock
import Reproduce.Tracer.Equiv.Discipline
import Reproduce.Tracer.Equiv.Hidden
import Reproduce.Tracer.Equiv.LiveEntry
import Reproduce.Tracer.Equiv.Survival
import Reproduce.UtHash.Equiv.ProcessTable
import Reproduce.Linux.Equiv.Moves
import Reproduce.Linux.Equiv.Fate
import Reproduce.Linux.Equiv.Amiss
import Reproduce.Linux.Equiv.Quiet
import Reproduce.Linux.Equiv.Counts
import Reproduce.Linux.Equiv.Emulation
import Reproduce.Linux.Equiv.Held
import Reproduce.Linux.Equiv.Protocol
import Reproduce.Linux.Equiv.Injected
import Reproduce.Linux.Equiv.Copy
import Reproduce.Linux.Equiv.Path
import Reproduce.Linux.Equiv.Arguments
import Reproduce.Linux.Equiv.Reproducible
import Reproduce.Linux.Equiv.Runs
import Reproduce.Linux.Equiv.Settled
import Reproduce.Linux.Equiv.Signals
import Reproduce.Linux.Equiv.Stale
import Reproduce.Linux.Equiv.Images
import Reproduce.Linux.Equiv.Regular
import Reproduce.Linux.Equiv.Handling
import Reproduce.Linux.Equiv.Delivered
import Reproduce.Linux.Equiv.Times
import Reproduce.Linux.Equiv.Opens
import Reproduce.Linux.Equiv.Hooks
import Reproduce.Linux.Equiv.Descriptors
import Reproduce.Linux.Equiv.Vdso
import Reproduce.Linux.Equiv.Watched
import Reproduce.Linux.Equiv.Creations
import Reproduce.Linux.Equiv.Tallied
import Reproduce.Linux.Equiv.Unseen
import Reproduce.Linux.Equiv.Told
import Reproduce.Linux.Equiv.Story
import Reproduce.Linux.Equiv.Hangs
import Reproduce.Linux.Equiv.Execs
import Reproduce.Linux.Equiv.Startup
import Reproduce.Linux.Equiv.Grown
import Reproduce.Linux.Equiv.Nursed
import Reproduce.Linux.Equiv.Scans
import Reproduce.Linux.Equiv.Adopted
