import Luci.Misc.DownStack

/-!
# The stack of a new process

`Process::init` (`src/process.cpp`) builds the stack with which a program is started: the
strings, the auxiliary vectors, the two arrays of pointers and the number of arguments. If the
stack is that of the kernel, `Loader::run` (`src/loader.cpp`) only reorders the pointers to the
environment strings.
-/

namespace Luci

open VirtualMemory DownStack

/-- A string without its terminator. -/
structure CString where
  bytes : List UInt8
  free : 0 ∉ bytes
  deriving DecidableEq

/-- The bytes of a string with the terminator. -/
def CString.terminated (s : CString) : List UInt8 := s.bytes ++ [0]

/-- `Process` (`src/process.hpp`) with the memory its stack is in. The auxiliary vectors are in
the order in which the hash map yields them. -/
structure Process where
  argc : Int
  argv : Nat
  envp : Nat
  env : List CString
  aux : List (UInt64 × UInt64)
  stackPointer : Nat
  memory : Nat → UInt8

/-- `Auxiliary::AT_NULL`. -/
def atNull : UInt64 := 0

/-- `static_cast<int>(size)`. -/
def intOfSize (size : Nat) : Int :=
  if size % 2 ^ 32 < 2 ^ 31 then (size % 2 ^ 32 : Nat) else ((size % 2 ^ 32 : Nat) : Int) - 2 ^ 32

/-- An auxiliary vector below the last one, the type at the lower address. -/
def pushAuxiliary (s : DownStack) (entry : UInt64 × UInt64) : DownStack :=
  (s.pushWord entry.2.toNat).pushWord entry.1.toNat

/-- `Process::init` (`src/process.cpp:57-117`); `none` is the failed assertion. -/
def Process.init (p : Process) (arg : List CString) : Option Process :=
  if p.stackPointer % 8 = 0 then
    -- End marker
    let s : DownStack := ⟨(p.stackPointer + 2 ^ 64 - 8) % 2 ^ 64,
      overlay p.memory p.stackPointer 8 (byteOf 0)⟩
    -- environment strings
    let (envStr, s) := pushBlocks (p.env.reverse.map CString.terminated) s
    -- argument strings
    let (argStr, s) := pushBlocks (arg.reverse.map CString.terminated) s
    -- padding
    let s : DownStack := { s with pointer := s.pointer - s.pointer % 16 }
    -- Auxiliary vectors
    let s := p.aux.foldl pushAuxiliary (pushAuxiliary s (atNull, 0))
    -- environment pointer
    let s := (s.pushWord 0).pushWords envStr
    let envp := s.pointer
    -- argument array
    let s := (s.pushWord 0).pushWords argStr
    let argv := s.pointer
    -- Set argument count
    let argc := intOfSize arg.length
    let s := s.pushWord (wordOfInt argc)
    some { p with
      argc := argc
      argv := argv
      envp := envp
      stackPointer := s.pointer
      memory := s.memory }
  else none

/-! ## The environment on the stack of the kernel -/

/-- `while (this->envp[envc] != nullptr) envc++`; `none` is a read behind the memory. -/
def countEntries : List Nat → Option Nat
  | [] => none
  | entry :: entries => if entry = 0 then some 0 else (countEntries entries).map (· + 1)

/-- `*(this->envp[index]) == '\0'`; `none` is a read outside, or the use of a null pointer. -/
def emptyEntry (isEmpty : Nat → Bool) (envp : List Nat) (index : Nat) : Option Bool :=
  match envp[index]? with
  | none => none
  | some entry => if entry = 0 then none else some (isEmpty entry)

/-- `while (*(this->envp[--envc]) == '\0' && envc > curr) {}`. -/
def skipEmpty (isEmpty : Nat → Bool) (envp : List Nat) (curr : Nat) : Nat → Option Nat
  | 0 => none
  | envc + 1 =>
    match emptyEntry isEmpty envp envc with
    | none => none
    | some empty => if empty ∧ curr < envc then skipEmpty isEmpty envp curr envc else some envc

/-- Exchange two pointers. -/
def swapEntries (envp : List Nat) (curr envc : Nat) : Option (List Nat) :=
  match envp[envc]?, envp[curr]? with
  | some tmp, some entry => some ((envp.set envc entry).set curr tmp)
  | _, _ => none

/-- The loop over the entries (`src/loader.cpp:606-612`); `none` if it takes more iterations than
allowed. -/
def reorderFrom (isEmpty : Nat → Bool) : Nat → Nat → Nat → List Nat → Option (List Nat)
  | 0, curr, envc, envp => if curr < envc then none else some envp
  | fuel + 1, curr, envc, envp =>
    if curr < envc then
      match emptyEntry isEmpty envp curr with
      | none => none
      | some false => reorderFrom isEmpty fuel (curr + 1) envc envp
      | some true =>
        match skipEmpty isEmpty envp curr envc with
        | none => none
        | some envc =>
          match swapEntries envp curr envc with
          | none => none
          | some envp => reorderFrom isEmpty fuel (curr + 1) envc envp
    else some envp

/-- The reordering of the environment in `Loader::run` (`src/loader.cpp:595-613`): empty entries
are moved to the end. The list is the memory from `envp` on, `isEmpty` tells whether a string is
empty. -/
def reorderEnvironment (isEmpty : Nat → Bool) (envp : List Nat) : Option (List Nat) :=
  match countEntries envp with
  | none => none
  | some envc => reorderFrom isEmpty envc 0 envc envp

end Luci
