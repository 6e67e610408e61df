import Reproduce.Bytes.LittleEndian

/-!
# The register file of a tracee

`struct user_regs_struct` of `<sys/user.h>`, in its order, and the accessors of `putils.c`.
-/

namespace Reproduce

open Bytes

structure UserRegsStruct where
  r15 : Word
  r14 : Word
  r13 : Word
  r12 : Word
  rbp : Word
  rbx : Word
  r11 : Word
  r10 : Word
  r9 : Word
  r8 : Word
  rax : Word
  rcx : Word
  rdx : Word
  rsi : Word
  rdi : Word
  origRax : Word
  rip : Word
  cs : Word
  eflags : Word
  rsp : Word
  ss : Word
  fsBase : Word
  gsBase : Word
  ds : Word
  es : Word
  fs : Word
  gs : Word
  deriving DecidableEq, Inhabited

/-! ### Read registers -/

def rSyscall (regs : UserRegsStruct) : Word := regs.origRax

def rArg1 (regs : UserRegsStruct) : Word := regs.rdi

def rArg2 (regs : UserRegsStruct) : Word := regs.rsi

def rArg3 (regs : UserRegsStruct) : Word := regs.rdx

def rArg4 (regs : UserRegsStruct) : Word := regs.rcx

def rArg5 (regs : UserRegsStruct) : Word := regs.r8

def rArg6 (regs : UserRegsStruct) : Word := regs.r9

def rReturn (regs : UserRegsStruct) : Word := regs.rax

/-! ### Write registers -/

def wSyscall (regs : UserRegsStruct) (data : Word) : UserRegsStruct := { regs with origRax := data }

def wArg1 (regs : UserRegsStruct) (data : Word) : UserRegsStruct := { regs with rdi := data }

def wArg2 (regs : UserRegsStruct) (data : Word) : UserRegsStruct := { regs with rsi := data }

def wArg3 (regs : UserRegsStruct) (data : Word) : UserRegsStruct := { regs with rdx := data }

def wArg4 (regs : UserRegsStruct) (data : Word) : UserRegsStruct := { regs with rcx := data }

def wArg5 (regs : UserRegsStruct) (data : Word) : UserRegsStruct := { regs with r8 := data }

def wArg6 (regs : UserRegsStruct) (data : Word) : UserRegsStruct := { regs with r9 := data }

def wReturn (regs : UserRegsStruct) (data : Word) : UserRegsStruct := { regs with rax := data }

/-! ### The word at an offset of the user area -/

/-- The number of `RSP` in `<sys/reg.h>`. -/
def RSP : Nat := 19

/-- The registers in the order of the user area. -/
def UserRegsStruct.toList (regs : UserRegsStruct) : List Word :=
  [regs.r15, regs.r14, regs.r13, regs.r12, regs.rbp, regs.rbx, regs.r11, regs.r10, regs.r9,
    regs.r8, regs.rax, regs.rcx, regs.rdx, regs.rsi, regs.rdi, regs.origRax, regs.rip, regs.cs,
    regs.eflags, regs.rsp, regs.ss, regs.fsBase, regs.gsBase, regs.ds, regs.es, regs.fs, regs.gs]

/-- The register at a byte offset of the user area, for offsets that are multiples of 8. -/
def UserRegsStruct.atOffset (regs : UserRegsStruct) (offset : Nat) : Option Word :=
  if offset % 8 = 0 then regs.toList[offset / 8]? else none

@[simp] theorem atOffset_rsp (regs : UserRegsStruct) :
    regs.atOffset (8 * RSP) = some regs.rsp := rfl

end Reproduce
