import Luci.MemorySegment
import Luci.Misc.Range

/-!
# Redirections

Redirecting code at run time (`src/redirect.cpp`): a trap instruction is written at
the address, the signal handler continues at the target, and once every task has
trapped the instruction is replaced by a jump.

Code is changed through the compositing buffer of its segment. The state has both
views of the code by address: `composed` is what the buffers hold (and the active
code where there is no buffer), `active` is what the processor executes. Writing
through `compose_pointer` changes the first, `MemorySegment::finalize` makes it
active. Whether a buffer can be had and whether the system calls of `finalize`
succeed is answered by the environment of each call.

Every function is one step on the state: its critical section is not interrupted.
-/

namespace Luci.Redirect

open VirtualMemory

/-- `Redirect::Mode` (`src/redirect.hpp`). -/
inductive Mode where
  | debugTrap
  | breakpointTrap
  | invalidOpcode
  | invalidOpcodeHack
  | generalProtectionFault
  /-- `MODE_NONE`. -/
  | disabled
  | notConfigured
  deriving DecidableEq, Repr

/-- Signal numbers. -/
inductive Signal where
  | sigtrap
  | sigill
  | sigsegv
  | other (number : Nat)
  deriving DecidableEq, Repr

/-- The instruction used in a mode. -/
structure Trap where
  instructions : List UInt8
  size : Nat
  offset : Nat
  signal : Signal
  deriving DecidableEq, Repr

/-- `traps` (`src/redirect.cpp:23-35`), which has no element from `MODE_NONE` on. -/
def traps : Mode → Option Trap
  | .debugTrap => some ⟨[0xcc, 0x00], 1, 1, .sigtrap⟩
  | .breakpointTrap => some ⟨[0xf1, 0x00], 1, 1, .sigtrap⟩
  | .invalidOpcode => some ⟨[0x0f, 0x0b], 2, 0, .sigill⟩
  | .invalidOpcodeHack => some ⟨[0x06, 0x00], 1, 0, .sigill⟩
  | .generalProtectionFault => some ⟨[0xf4, 0x00], 1, 0, .sigsegv⟩
  | .disabled => none
  | .notConfigured => none

/-- `trap.instructions[i]`. -/
def Trap.instruction (trap : Trap) (i : Nat) : UInt8 := trap.instructions.getD i 0

/-- `RedirectionEntry::Type`. -/
inductive EntryType where
  | onlyDynamic
  | makeStatic
  | madeStatic
  deriving DecidableEq, Repr

/-- `RedirectionEntry` (`src/redirect.cpp:42-67`). -/
structure RedirectionEntry where
  fromObject : Nat
  toAddress : Nat
  type : EntryType
  previousOpcode : Nat → UInt8
  tids : List Nat

/-- The members of an object that redirections use. -/
structure CodeObject where
  base : Nat
  memoryMap : List MemorySegment

/-- The static variables of `src/redirect.cpp`, the objects and their code. -/
structure State where
  mode : Mode
  objects : Nat → CodeObject
  composed : Nat → UInt8
  active : Nat → UInt8
  entries : Nat → Option RedirectionEntry

/-- What `MemorySegment::compose` provides. -/
inductive Composition where
  | unavailable
  /-- The segment is writable, or has been made writable before the process started. -/
  | inPlace
  | buffered
  deriving DecidableEq, Repr

/-- The outcome of the system calls on segments during a call. -/
structure Env where
  compose : MemorySegment → Composition
  mprotect : MemorySegment → Bool
  mremap : MemorySegment → Bool

/-! ## Code and segments -/

/-- `Object::compose_pointer` (`src/object/base.hpp:141-160`): the segment whose buffer
shows the address. -/
def composePointer (e : Env) (o : CodeObject) (ptr : Nat) : Option MemorySegment :=
  (o.memoryMap.find? fun seg => seg.contains ptr).filter fun seg =>
    e.compose seg ≠ .unavailable

/-- Write `n` bytes through the pointer composed for an address. -/
def State.store (e : Env) (seg : MemorySegment) (address n : Nat) (bytes : Nat → UInt8)
    (s : State) : State :=
  { s with
    composed := overlay s.composed address n bytes
    active :=
      if e.compose seg = .inPlace then overlay s.active address n bytes else s.active }

/-- Remapping the buffer to the target makes the composed code active. -/
def State.remap (seg : MemorySegment) (s : State) : State :=
  { s with active := fun p =>
      if seg.pageStart ≤ p ∧ p < seg.pageEnd then s.composed p else s.active p }

/-- `MemorySegment::finalize` (`src/memory_segment.cpp:131-167`). -/
def State.finalize (e : Env) (seg : MemorySegment) (s : State) : Bool × State :=
  if e.compose seg = .buffered then
    (e.mprotect seg && e.mremap seg, if e.mremap seg then s.remap seg else s)
  else (e.mprotect seg, s)

/-- `redirection_entries.insert`. -/
def State.insert (address : Nat) (entry : RedirectionEntry) (s : State) : State :=
  { s with entries := fun a => if a = address then some entry else s.entries a }

/-- `redirection_entries.erase`. -/
def State.erase (address : Nat) (s : State) : State :=
  { s with entries := fun a => if a = address then none else s.entries a }

/-! ## Static redirections -/

/-- `check_relative_jump` (`src/redirect.cpp:108-111`). -/
def checkRelativeJump (source target : Nat) : Bool :=
  let source := (source + 5) % 2 ^ 64
  (if source < target then target - source else source - target) < 2 ^ 32

/-- The bytes of the relative jump (`src/redirect.cpp:127-134`). -/
def relativeJump (source target : Nat) (i : Nat) : UInt8 :=
  if i = 0 then 0xe9 else byteOf (subWord (subWord target source) 5 % 2 ^ 32) (i - 1)

/-- The bytes of the absolute jump (`src/redirect.cpp:136-153`). -/
def absoluteJump (target : Nat) (i : Nat) : UInt8 :=
  [0xff, 0x25, 0x00, 0x00, 0x00, 0x00].getD i (byteOf target (i - 6))

/-- The number of bytes of the jump from `source` to `target`. -/
def jumpSize (source target : Nat) : Nat := if checkRelativeJump source target then 5 else 14

/-- The bytes of the jump from `source` to `target`. -/
def jump (source target : Nat) : Nat → UInt8 :=
  if checkRelativeJump source target then relativeJump source target else absoluteJump target

/-- `static_redirect` (`src/redirect.cpp:120-157`). -/
def staticRedirect (e : Env) (object source target : Nat) (s : State) : Bool × State :=
  match composePointer e (s.objects object) source with
  | none => (false, s)
  | some seg =>
    (s.store e seg source (jumpSize source target) (jump source target)).finalize e seg

/-! ## The signal handler -/

/-- `all_tasks` (`src/redirect.cpp:93-101`): `tasks` are the numeric names in
`/proc/self/task`, `helper` is the handler thread. -/
def allTasks (tasks : List Nat) (helper : Option Nat) (tids : List Nat) : Bool :=
  tasks.all fun tid => some tid = helper || tids.contains tid

/-- The registered part of `trap_handler` for an entry to be made static
(`src/redirect.cpp:193-208`). -/
def promote (e : Env) (address tid : Nat) (tasks : List Nat) (helper : Option Nat)
    (entry : RedirectionEntry) (s : State) : State :=
  if tid ∈ entry.tids then s
  else
    let entry := { entry with tids := tid :: entry.tids }
    let s := s.insert address entry
    if allTasks tasks helper entry.tids then
      let (installed, s) := staticRedirect e entry.fromObject address entry.toAddress s
      if installed then s.insert address { entry with type := .madeStatic } else s
    else s

/-- `trap_handler` (`src/redirect.cpp:165-214`); the result is the new instruction
pointer. -/
def trapHandler (e : Env) (signal : Signal) (rip tid : Nat) (tasks : List Nat)
    (helper : Option Nat) (s : State) : Nat × State :=
  match traps s.mode with
  | none => (rip, s)
  | some trap =>
    let trapAddress := subWord rip trap.offset
    if signal ≠ trap.signal then (rip, s)
    else if ∃ i < trap.size, s.active (trapAddress + i) ≠ trap.instruction i then (rip, s)
    else
      match s.entries trapAddress with
      | none => (rip, s)
      | some entry =>
        if entry.type = .makeStatic then
          (entry.toAddress, promote e trapAddress tid tasks helper entry s)
        else (entry.toAddress, s)

/-! ## Adding and removing redirections -/

/-- The arguments of `Redirect::add`; the address is relative to the object. -/
structure AddCall where
  fromObject : Nat
  fromAddress : Nat
  toAddress : Nat
  fromSize : Nat
  makeStatic : Bool
  finalize : Bool

namespace AddCall

/-- `from_address + from_object.base`. -/
def address (call : AddCall) (s : State) : Nat :=
  (call.fromAddress + (s.objects call.fromObject).base) % 2 ^ 64

/-- `bytes_to_preserve`. -/
def bytesToPreserve (call : AddCall) (trap : Trap) (address : Nat) : Nat :=
  if call.makeStatic then if checkRelativeJump address call.toAddress then 5 else 16
  else trap.size

/-- The type of the entry to be added (`src/redirect.cpp:265-274`). -/
def type (call : AddCall) (trap : Trap) (address : Nat) : EntryType :=
  if call.makeStatic ∧ call.bytesToPreserve trap address ≤ call.fromSize then .makeStatic
  else .onlyDynamic

/-- The entry with the bytes of the composed code. -/
def entry (call : AddCall) (trap : Trap) (address : Nat) (code : Nat → UInt8) :
    RedirectionEntry where
  fromObject := call.fromObject
  toAddress := call.toAddress
  type := call.type trap address
  previousOpcode := fun i =>
    if i < call.bytesToPreserve trap address then code (address + i) else 0
  tids := []

/-- The end of `Redirect::add`: save the opcode, insert the entry and write the trap
instruction (`src/redirect.cpp:300-325`). -/
def install (e : Env) (call : AddCall) (trap : Trap) (address : Nat) (s : State) :
    Bool × State :=
  match composePointer e (s.objects call.fromObject) address with
  | none => (false, s)
  | some seg =>
    let s := (s.insert address (call.entry trap address s.composed)).store e seg address
      trap.size trap.instruction
    (true, if call.finalize then (s.finalize e seg).2 else s)

/-- Does the entry have the object, the target and the type of the call? -/
def matchesEntry (call : AddCall) (trap : Trap) (address : Nat) (val : RedirectionEntry) : Bool :=
  val.fromObject = call.fromObject ∧ val.toAddress = call.toAddress ∧
    val.type = call.type trap address

end AddCall

/-- `Redirect::add` (`src/redirect.cpp:257-326`). -/
def add (e : Env) (call : AddCall) (s : State) : Bool × State :=
  match traps s.mode with
  | none => (false, s)
  | some trap =>
    let address := call.address s
    match s.entries address with
    | none => call.install e trap address s
    | some val =>
      if val.type = .madeStatic then
        if call.type trap address = .makeStatic then
          if val.toAddress = call.toAddress then (true, s)
          else
            -- In case it is not the correct target we can directly change the jump
            staticRedirect e call.fromObject address call.toAddress
              (s.insert address { val with toAddress := call.toAddress })
        else call.install e trap address s
      else if call.matchesEntry trap address val then (true, s)
      else call.install e trap address (s.erase address)

/-- `Redirect::remove` (`src/redirect.cpp:335-362`). -/
def remove (e : Env) (address : Nat) (finalize : Bool) (s : State) : Bool × State :=
  if s.mode = .disabled then (false, s)
  else
    match s.entries address with
    | none => (false, s)
    | some val =>
      let source := s.objects val.fromObject
      match composePointer e source ((address + source.base) % 2 ^ 64) with
      | none => (true, s.erase address)
      | some seg =>
        let bytesToBeRecovered :=
          if val.type = .madeStatic then if checkRelativeJump address val.toAddress then 5 else 16
          else 1
        let s := (s.store e seg ((address + source.base) % 2 ^ 64) bytesToBeRecovered
          val.previousOpcode).erase address
        (true, if finalize then (s.finalize e seg).2 else s)

/-- `Redirect::is_set` (`src/redirect.cpp:364-375`), with the target it stores. -/
def isSet (address : Nat) (s : State) : Option Nat :=
  if s.mode = .disabled then none else (s.entries address).map (·.toAddress)

/-! ## Other forms of `Redirect::add` -/

/-- `NAMESPACE_BASE`. -/
def namespaceBase : Nat := 0

/-- An identity of the lookup list: its namespace, and its versions from the current one to the
first one. -/
structure LoadedFile where
  ns : Nat
  versions : List Nat

/-- `Loader::resolve_object` (`src/loader.cpp:701-713`); the end of a segment counts as well. -/
def resolveObject (lookup : List LoadedFile) (s : State) (addr ns : Nat) : Option Nat :=
  lookup.findSome? fun file =>
    if file.ns ≠ ns then none
    else file.versions.find? fun o => (s.objects o).memoryMap.any fun mem =>
      decide (mem.address ≤ addr ∧ addr ≤ (mem.address + mem.size) % 2 ^ 64)

/-- `Redirect::add` for an address (`src/redirect.cpp:328-333`): the address is handed on as it
is. -/
def addAddress (e : Env) (lookup : List LoadedFile) (source target fromSize : Nat)
    (makeStatic finalize : Bool) (s : State) : Bool × State :=
  if s.mode = .disabled then (false, s)
  else
    match resolveObject lookup s source namespaceBase with
    | none => (false, s)
    | some object => add e ⟨object, source, target, fromSize, makeStatic, finalize⟩ s

/-- What redirections use of a symbol. -/
structure CodeSymbol where
  valid : Bool
  object : Nat
  pointer : Nat
  size : Nat

/-- `Redirect::add` for a symbol (`src/redirect.hpp:61-64`). -/
def addSymbol (e : Env) (symbol : CodeSymbol) (target : Nat) (makeStatic finalize : Bool)
    (s : State) : Bool × State :=
  if symbol.valid then
    add e ⟨symbol.object, symbol.pointer, target, symbol.size, makeStatic, finalize⟩ s
  else (false, s)

/-- `Redirect::add` for two symbols (`src/redirect.hpp:73-76`). -/
def addSymbols (e : Env) (symbol target : CodeSymbol) (makeStatic finalize : Bool) (s : State) :
    Bool × State :=
  if symbol.valid && target.valid then
    add e ⟨symbol.object, symbol.pointer, target.pointer, symbol.size, makeStatic, finalize⟩ s
  else (false, s)

end Luci.Redirect
