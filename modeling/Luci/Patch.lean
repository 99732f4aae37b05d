import Luci.Redirect

/-!
# Patches of glibc

`Patch` (`src/comp/glibc/patch.cpp`) changes the code of a function in place. The code is given by
the addresses at which it will run, which the composed view shows. A patch function that returns
false has written nothing.
-/

namespace Luci.Patch

open VirtualMemory

/-- The instruction at the start of a function that is called indirectly. -/
def endbr64 (code : Nat → UInt8) (a : Nat) : Bool :=
  code a = 0xf3 && code (a + 1) = 0x0f && code (a + 2) = 0x1e && code (a + 3) = 0xfa

/-- A patch function for the code at an address with a size and its argument. -/
abbrev Function := (Nat → UInt8) → (address size arg : Nat) → Option (Nat → UInt8)

/-- `Patch::apply` (`src/comp/glibc/patch.cpp:34-61`); `composed` tells if there is a view. -/
def apply (func : Function) (composed : Bool) : Function := fun code address size arg =>
  if composed then
    if endbr64 code address then func code (address + 4) (subWord size 4) arg
    else func code address size arg
  else none

/-- The instructions that `redirect_fork_syscall` looks for; they depend on the version of glibc. -/
def forkSyscall (since234 : Bool) : List UInt8 :=
  -- mov $0x1200011,%edi
  [0xbf, 0x11, 0x00, 0x20, 0x01] ++
    -- lea 0x2d0(%rax),%r10
    (if since234 then [0x4c, 0x8d, 0x90, 0xd0, 0x02, 0x00, 0x00] else []) ++
    -- mov $0x38,%eax; syscall
    [0xb8, 0x38, 0x00, 0x00, 0x00, 0x0f, 0x05]

/-- The call of the replacement. -/
def forkCall (since234 : Bool) (arg : Nat) : List UInt8 :=
  -- movabs $arg, %rax; callq *%rax
  [0x48, 0xb8, byteOf arg 0, byteOf arg 1, byteOf arg 2, byteOf arg 3, byteOf arg 4, byteOf arg 5,
    byteOf arg 6, byteOf arg 7, 0xff, 0xd0] ++
    -- nop (7 byte)
    (if since234 then [0x0f, 0x1f, 0x80, 0x00, 0x00, 0x00, 0x00] else [])

/-- The search of `redirect_fork_syscall` (`src/comp/glibc/patch.cpp:101-113`). -/
def findForkSyscall (since234 : Bool) (code : Nat → UInt8) : Nat → Nat → Option Nat
  | _, 0 => none
  | a, n + 1 =>
    if (List.range (forkSyscall since234).length).map (fun i => code (a + i)) =
        forkSyscall since234 then some a
    else findForkSyscall since234 code (a + 1) n

/-- `redirect_fork_syscall` (`src/comp/glibc/patch.cpp:99-144`). -/
def redirectForkSyscall (since234 : Bool) : Function := fun code address size arg =>
  (findForkSyscall since234 code address size).map fun a =>
    overlay code a (forkCall since234 arg).length fun i => (forkCall since234 arg).getD i 0

/-- Write `nop` instructions. -/
def nopSlide (code : Nat → UInt8) (address : Nat) : Nat → (Nat → UInt8)
  | 0 => code
  | n + 1 => nopSlide (overlay code address 1 fun _ => 0x90) (address + 1) n

/-- `nops_jmp` (`src/comp/glibc/patch.cpp:146-172`). -/
def nopsJmp : Function := fun code address size arg =>
  if size < 14 then none
  else
    some (overlay (nopSlide code address (size - 14)) (address + (size - 14)) 14
      (Redirect.absoluteJump arg))

end Luci.Patch
