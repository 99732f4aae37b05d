import Luci.State

/-!
# Memory segments

The segments of an object's `memory_map` (`src/memory_segment.cpp`): construction
from a segment, a section or for common symbols, mapping, the compositing buffer,
and setting the final protection. The operations take a segment and return the
changed one together with the result of the source function.
-/

namespace Luci

open VirtualMemory

/-- Subtraction of machine words. -/
def subWord (a b : Nat) : Nat := (a + 2 ^ 64 - b) % 2 ^ 64

/-- The end of the user address space; no mapping goes beyond it. -/
def userLimit : Nat := 2 ^ 47

namespace MemorySegment

/-- `target.address()`. -/
def address (seg : MemorySegment) : Nat := (seg.base + seg.offset) % 2 ^ 64

/-- `target.page_start()`. -/
def pageStart (seg : MemorySegment) : Nat :=
  seg.address - seg.address % VirtualMemory.pageSize

/-- `target.page_size()`. -/
def pageSize (seg : MemorySegment) : Nat :=
  let tmp := (seg.address - seg.pageStart + seg.size + VirtualMemory.pageSize - 1) % 2 ^ 64
  tmp - tmp % VirtualMemory.pageSize

/-- `target.page_end()`. -/
def pageEnd (seg : MemorySegment) : Nat := (seg.pageStart + seg.pageSize) % 2 ^ 64

/-- `target.contains(ptr)`. -/
def contains (seg : MemorySegment) (ptr : Nat) : Bool :=
  seg.address ≤ ptr && ptr < (seg.base + seg.offset + seg.size) % 2 ^ 64

/-- The size of the pages does not wrap around. -/
def Fits (seg : MemorySegment) : Prop :=
  seg.address % VirtualMemory.pageSize + seg.size + VirtualMemory.pageSize ≤ 2 ^ 64

/-- The target ends in the user address space, so none of the sums above wraps around. -/
def Bounded (seg : MemorySegment) : Prop := seg.address + seg.size ≤ userLimit

instance (seg : MemorySegment) : Decidable seg.Bounded := Nat.decLe _ _

/-- `target.writable()`. -/
def writable (seg : MemorySegment) : Bool := seg.protection.write

/-- The status of a new segment. -/
def initialStatus (premapped : Bool) : SegmentStatus := if premapped then .mapped else .notMapped

/-- The constructor for segments (`src/memory_segment.cpp:13-17`); `none` is its assertion. -/
def ofSegment (premapped : Bool) (segment : Segment) (base offsetDelta : Nat) :
    Option MemorySegment :=
  let seg : MemorySegment := {
    sourceOffset := (segment.offset + offsetDelta) % 2 ^ 64
    sourceSize := subWord segment.size offsetDelta
    base := base
    offset := (segment.virtAddr + offsetDelta) % 2 ^ 64
    size := subWord segment.virtSize offsetDelta
    protection := ⟨segment.readable || segment.type = .gnuRelro, segment.writeable,
      segment.executable⟩
    effectiveProtection := .none
    fd := none
    privanon := false
    relro := segment.type = .gnuRelro
    status := initialStatus premapped
    buffer := 0 }
  if seg.sourceSize ≤ seg.size then some seg else none

/-- The constructor for sections (`src/memory_segment.cpp:19-23`); `none` is its assertion. -/
def ofSection (premapped : Bool) (sec : Section) (targetOffset targetSizeDelta base : Nat) :
    Option MemorySegment :=
  let seg : MemorySegment := {
    sourceOffset := sec.offset
    sourceSize := if sec.type = .nobits then 0 else sec.size
    base := base
    offset := targetOffset
    size := (sec.size + targetSizeDelta) % 2 ^ 64
    protection := ⟨true, true, sec.executable⟩
    effectiveProtection := .none
    fd := none
    privanon := false
    relro := false
    status := initialStatus premapped
    buffer := 0 }
  if sec.alignment ≠ 0 ∧ seg.address % sec.alignment = 0 then some seg else none

/-- The constructor for pure BSS (`src/memory_segment.cpp:25-27`). -/
def ofBss (targetOffset targetSize base : Nat) : MemorySegment where
  sourceOffset := 0
  sourceSize := 0
  base := base
  offset := targetOffset
  size := targetSize
  protection := ⟨true, true, false⟩
  effectiveProtection := .none
  fd := none
  privanon := false
  relro := false
  status := .notMapped
  buffer := 0

end MemorySegment

/-! ## System calls on memory -/

/-- `mmap` with `MAP_FIXED_NOREPLACE`. -/
def mmapFixed (e : Env) (start length : Nat) (protection : Protection) (backing : Backing) :
    LoaderM Bool := do
  let ok ← syscall e
  let s ← get
  if ok && start + length ≤ userLimit && s.vm.isFree start length then do
    set { s with vm := s.vm.map start length protection backing }
    return true
  else return false

/-- A private mapping shows a copy: a new anonymous backing with this content. -/
def newBacking (content : Nat → UInt8) : LoaderM Backing := do
  let s ← get
  let backing := s.vm.newAnonymous.1
  set { s with vm :=
    { s.vm.newAnonymous.2 with
      content := fun b => if b = backing then content else s.vm.newAnonymous.2.content b } }
  return backing

/-- `mmap` of anonymous memory at an address the kernel picks. -/
def mmapAnywhere (e : Env) (length : Nat) (protection : Protection) (content : Nat → UInt8) :
    LoaderM (Option Nat) := do
  let start := e.world.mmapAddress (← get).ticks
  let backing ← newBacking content
  if ← mmapFixed e start length protection backing then return some start else return none

/-- `mprotect`. -/
def mprotect (e : Env) (start length : Nat) (protection : Protection) : LoaderM Bool := do
  if ← syscall e then do
    modify fun s => { s with vm := s.vm.protect start length protection }
    return true
  else return false

/-- `munmap`. -/
def munmap (e : Env) (start length : Nat) : LoaderM Bool := do
  if ← syscall e then do
    modify fun s => { s with vm := s.vm.unmap start length }
    return true
  else return false

/-- `mremap` with `MREMAP_MAYMOVE | MREMAP_FIXED`. -/
def mremap (e : Env) (source length destination : Nat) : LoaderM Bool := do
  if ← syscall e then do
    modify fun s => { s with vm := s.vm.move source length destination }
    return true
  else return false

/-- The bytes an address range shows. -/
def Loader.snapshot (s : Loader) (start : Nat) : Nat → UInt8 := fun i =>
  match s.vm.locate (start + i) with
  | some (b, o) => s.vm.content b o
  | none => 0

/-- `Memory::copy` of `n` bytes to `address`; a fault ends the run. -/
def copyBytes (address n : Nat) (bytes : Nat → UInt8) : LoaderM Unit := do
  let s ← get
  let vm ← Exec.orAbort (Vm.writeBytes bytes n s.vm address)
  set { s with vm := vm }

/-- Read a number of `n` bytes; a fault ends the run. -/
def readMemory (n address : Nat) : LoaderM Nat := do
  let s ← get
  Exec.orAbort (s.vm.readNat n address)

/-- Write a number of `n` bytes; a fault ends the run. -/
def writeMemory (n address value : Nat) : LoaderM Unit := do
  let s ← get
  let vm ← Exec.orAbort (s.vm.writeNat n address value)
  set { s with vm := vm }

/-! ## Operations -/

/-- `use_data_alias` (`src/object/dynamic.hpp:30-32`, `src/object/base.hpp`). -/
def Loader.useDataAlias (s : Loader) (o : Object) : Bool :=
  o.kind = .dynamic && (s.identity o.file).any fun i => i.flags.updatable

namespace MemorySegment

/-- The end of `MemorySegment::map`: the mapping itself and the copy of the contents
(`src/memory_segment.cpp:79-100`). -/
def place (e : Env) (o : Object) (seg : MemorySegment) (protection : Protection)
    (backing : Backing) (copy : Bool) : LoaderM (Bool × MemorySegment) := do
  if ← mmapFixed e seg.pageStart seg.pageSize protection backing then do
    Exec.onlyIf (copy && 0 < seg.sourceSize)
      (copyBytes seg.address seg.sourceSize fun i => o.elf.bytes (seg.sourceOffset + i))
    return (true, { seg with effectiveProtection := protection, status := .mapped })
  else return (false, seg)

/-- `MemorySegment::map` (`src/memory_segment.cpp:34-101`). -/
def map (e : Env) (o : Object) (seg : MemorySegment) : LoaderM (Bool × MemorySegment) := do
  let s ← get
  let copy := o.data.fd.isNone ||
    (0 < seg.sourceSize &&
      seg.sourceOffset % VirtualMemory.pageSize ≠ seg.address % VirtualMemory.pageSize) ||
    seg.writable || seg.relro
  let protection := if copy then seg.protection.union .writeOnly else seg.protection
  if seg.writable && s.useDataAlias o then
    -- Shared memory for updatable writable sections (if set, it is already initialized)
    match seg.fd with
    | some fd => seg.place e o protection (.memoryFile fd) false
    | none => do
      -- Only first version
      Exec.require (s.filePrevious o.ref).isNone
      match ← openDescriptor e with
      | none => return (false, seg)
      | some fd =>
        if ← syscall e then do
          modify fun s => { s with vm := s.vm.newMemoryFile fd }
          { seg with fd := some fd }.place e o protection (.memoryFile fd) true
        else return (false, { seg with fd := some fd })
  else if copy || seg.sourceSize = 0 then do
    -- Anonymous mapping if not aliased and writable, empty or not aligned
    let backing ← newBacking fun _ => 0
    seg.place e o protection backing copy
  else do
    -- File backed mapping
    let pageOffset := seg.address % VirtualMemory.pageSize
    Exec.require (pageOffset ≤ seg.sourceOffset)
    let backing ← newBacking fun i => o.elf.bytes (seg.sourceOffset - pageOffset + i)
    seg.place e o protection backing false

/-- `compose` for a mapped segment without a buffer (`src/memory_segment.cpp:111-127`). -/
def composeMapped (e : Env) (seg : MemorySegment) : LoaderM (Nat × MemorySegment) := do
  let s ← get
  -- Compositing is only used for non-writable segments
  if seg.effectiveProtection.write then return (seg.address, seg)
  else do
    let changed ←
      if s.processStarted then pure false
      else mprotect e seg.pageStart seg.pageSize (seg.effectiveProtection.union .writeOnly)
    if changed then
      return (seg.address,
        { seg with effectiveProtection := seg.effectiveProtection.union .writeOnly })
    else
      match ← mmapAnywhere e seg.pageSize ⟨true, true, false⟩ (s.snapshot seg.pageStart) with
      | some buffer =>
        return (buffer + seg.offset % VirtualMemory.pageSize, { seg with buffer := buffer })
      | none => return (seg.offset % VirtualMemory.pageSize, seg)

/-- `MemorySegment::compose` (`src/memory_segment.cpp:104-129`). -/
def compose (e : Env) (o : Object) (seg : MemorySegment) : LoaderM (Nat × MemorySegment) := do
  if seg.buffer ≠ 0 then return (seg.buffer + seg.offset % VirtualMemory.pageSize, seg)
  else if seg.status = .mapped then seg.composeMapped e
  else do
    let (ok, seg) ← seg.map e o
    if ok then seg.composeMapped e else return (0, seg)

/-- `MemorySegment::finalize` (`src/memory_segment.cpp:131-167`). -/
def finalize (e : Env) (force : Bool) (seg : MemorySegment) : LoaderM (Bool × MemorySegment) := do
  if !force && seg.status = .inactive then return (true, seg)
  else if seg.buffer ≠ 0 then do
    -- Adjust permissions
    let isProtected ← mprotect e seg.buffer seg.pageSize seg.protection
    let effectiveProtection := if isProtected then seg.protection else seg.effectiveProtection
    -- Remap
    let moved ← mremap e seg.buffer seg.pageSize seg.pageStart
    let seg := { seg with effectiveProtection := effectiveProtection }
    if moved then return (isProtected, { seg with privanon := true, buffer := 0 })
    else return (false, seg)
  else if seg.status = .notMapped then return (false, seg)
  else if !force && seg.effectiveProtection = seg.protection then return (true, seg)
  else if ← mprotect e seg.pageStart seg.pageSize seg.protection then
    return (true, { seg with effectiveProtection := seg.protection })
  else return (false, seg)

/-- `MemorySegment::unmap` (`src/memory_segment.cpp:255-278`). -/
def unmap (e : Env) (seg : MemorySegment) : LoaderM (Bool × MemorySegment) := do
  if seg.status = .notMapped then return (false, seg)
  else if ← munmap e seg.pageStart seg.pageSize then do
    Exec.onlyIf (seg.buffer ≠ 0) (do let _ ← munmap e seg.buffer seg.pageSize)
    return (true,
      { seg with buffer := 0, status := .notMapped, effectiveProtection := .none })
  else return (false, seg)

end MemorySegment

/-- Run an operation on every segment of an object's `memory_map` and collect whether all
succeeded (`Object::map` and `Object::finalize`, `src/object/base.cpp:131-143`). -/
def forSegments (uid : Nat) (f : MemorySegment → LoaderM (Bool × MemorySegment)) :
    List MemorySegment → List MemorySegment → LoaderM Bool
  | _, [] => return true
  | done, seg :: rest => do
    let (ok, seg) ← f seg
    modify (Loader.setMemoryMap uid (done ++ seg :: rest))
    let others ← forSegments uid f (done ++ [seg]) rest
    return ok && others

/-- The loop of `Object::compose_pointer` (`src/object/base.hpp:150-158`); a null pointer is 0. -/
def composePointerIn (e : Env) (o : Object) (ptr : Nat) :
    List MemorySegment → List MemorySegment → LoaderM Nat
  | _, [] => return 0
  | done, seg :: rest => do
    if seg.contains ptr then do
      let (buffer, composed) ← seg.compose e o
      modify (Loader.setMemoryMap o.uid (done ++ composed :: rest))
      return if buffer = 0 then 0 else buffer + ptr - seg.address
    else composePointerIn e o ptr (done ++ [seg]) rest

/-- `Object::compose_pointer` (`src/object/base.hpp:141-160`). -/
def Object.composePointer (e : Env) (o : Object) (ptr : Nat) : LoaderM Nat := do
  let s ← get
  composePointerIn e o ptr [] (s.memoryMap o.uid)

/-- `Object::map` (`src/object/base.cpp:131-136`). -/
def Object.map (e : Env) (o : Object) : LoaderM Bool := do
  let s ← get
  forSegments o.uid (MemorySegment.map e o) [] (s.memoryMap o.uid)

/-- `Object::finalize` (`src/object/base.cpp:138-143`). -/
def Object.finalize (e : Env) (o : Object) : LoaderM Bool := do
  let s ← get
  forSegments o.uid (MemorySegment.finalize e false) [] (s.memoryMap o.uid)

end Luci
