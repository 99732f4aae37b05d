import Luci.MemorySegment

/-!
# The life cycle of a segment

A segment of an old version can be disabled (`src/memory_segment.cpp:169-252`): its contents are
moved to the back buffer, and the pages that stay behind are registered with `userfaultfd`. The
first access to them is reported to the helper thread, which copies the contents back
(`src/loader_helper.cpp:172-252`).

Pages that are registered and have no contents are those of a hollow backing. A registration
alone has no effect here: every page of a private anonymous copy has contents.
-/

namespace Luci

open VirtualMemory

/-- The loader, and the backings whose pages have no contents yet. -/
structure Memory where
  loader : Loader
  hollow : List Backing

/-- A computation with memory that can be hollow. -/
abbrev MemoryM (α : Type) := Exec Memory α

/-- A computation that does not use hollow memory. -/
def inMemory {α : Type} (x : LoaderM α) : MemoryM α := fun m =>
  (x m.loader).map fun result => (result.1, { m with loader := result.2 })

/-- The byte an address shows; there is none while an access is a userfault. -/
def Memory.visible (m : Memory) (address : Nat) : Option UInt8 :=
  match m.loader.vm.locate address with
  | some (b, o) => if b ∈ m.hollow then none else some (m.loader.vm.content b o)
  | none => none

/-- `mremap` with `MREMAP_MAYMOVE | MREMAP_FIXED | MREMAP_DONTUNMAP` of pages that are registered
with `userfaultfd`; nothing can be mapped at address 0. -/
def mremapDontunmap (e : Env) (source length destination : Nat) : MemoryM Bool := do
  let ok ← inMemory (syscall e)
  if ok && destination ≠ 0 then do
    let left ← inMemory (newBacking fun _ => 0)
    modify fun m =>
      { loader := { m.loader with vm := m.loader.vm.moveLeaving source length destination left }
        hollow := left :: m.hollow }
    return true
  else return false

/-- `ioctl` with `UFFDIO_COPY`; it fails if there are pages already. -/
def uffdioCopy (e : Env) (destination : Nat) (bytes : Nat → UInt8) : MemoryM Bool := do
  let ok ← inMemory (syscall e)
  let m ← get
  match m.loader.vm.locate destination with
  | some (b, _) =>
    if ok && b ∈ m.hollow then do
      set { loader := { m.loader with vm := { m.loader.vm with
              content := fun b' => if b' = b then bytes else m.loader.vm.content b' } }
            hollow := m.hollow.filter (· ≠ b) : Memory }
      return true
    else return false
  | none => return false

namespace MemorySegment

/-- Let the segment be a private mapping, and find the range its contents can be moved to
(`src/memory_segment.cpp:194-211`). -/
def privatize (e : Env) (o : Object) (seg : MemorySegment) :
    LoaderM (Option Nat × MemorySegment) := do
  if !seg.privanon then do
    -- Create private mapping
    let (composed, seg) ← seg.compose e o
    if composed = 0 then return (none, seg)
    else do
      -- save old memory address
      let pageStart := seg.buffer
      -- Set private mapping
      let (ok, seg) ← seg.finalize e false
      return (if ok then some pageStart else none, seg)
  else do
    let pageStart ← mmapAnywhere e seg.pageSize .none fun _ => 0
    return (pageStart, seg)

/-- Move the contents of the segment to a range, and leave memory that is watched
(`src/memory_segment.cpp:213-236`). -/
def withdraw (e : Env) (seg : MemorySegment) (pageStart : Nat) :
    MemoryM (Bool × MemorySegment) := do
  -- Register userfaultfd
  if ← inMemory (syscall e) then
    -- Move mapping again, but do not unmap old code
    if ← mremapDontunmap e seg.pageStart seg.pageSize pageStart then do
      -- Compose buffer shall be writeable (and not executable)
      let _ ← inMemory (mprotect e pageStart seg.pageSize ⟨true, true, false⟩)
      return (true, { seg with
        buffer := pageStart
        status := .inactive
        effectiveProtection := seg.protection })
    else return (false, seg)
  else return (false, seg)

/-- `MemorySegment::disable` (`src/memory_segment.cpp:169-233`) with
`DETECT_OUTDATED_VIA_USERFAULTFD`. -/
def disable (e : Env) (o : Object) (seg : MemorySegment) : MemoryM (Bool × MemorySegment) := do
  if seg.status = .notMapped then return (false, seg)
  else if seg.status = .inactive then return (true, seg)
  else do
    match ← inMemory (seg.privatize e o) with
    | (none, seg) => return (false, seg)
    | (some pageStart, seg) => seg.withdraw e pageStart

/-- `MemorySegment::enable` (`src/memory_segment.cpp:235-252`). -/
def enable (e : Env) (seg : MemorySegment) : LoaderM (Bool × MemorySegment) := do
  if seg.status ≠ .inactive then return (false, seg)
  else if seg.buffer = 0 then return (false, seg)
  else seg.finalize e true

/-- `Loader::userfault_handle` (`src/loader_helper.cpp:216-243`) for the segment with the address
of the fault. -/
def reactivate (e : Env) (o : Object) (seg : MemorySegment) : MemoryM (Bool × MemorySegment) := do
  let m ← get
  let bytes := if seg.buffer = 0 then
      fun i => o.elf.bytes (seg.sourceOffset - (seg.address - seg.pageStart) + i)
    else m.loader.snapshot seg.buffer
  if ← uffdioCopy e seg.pageStart bytes then return (true, { seg with status := .reactivated })
  else return (false, seg)

end MemorySegment

/-! ## Sequences of operations -/

/-- What can be done with a segment. -/
inductive SegmentOperation where
  | map
  /-- `compose`, and a write of `n` bytes at an offset through the pointer it returns. -/
  | compose (offset n : Nat) (bytes : Nat → UInt8)
  | finalize
  | disable
  /-- An access to an address of the segment. -/
  | access
  | enable
  | unmap
  /-- The program is started. -/
  | start

/-- A segment and its memory, with what its contents should be: those it was mapped with, and
what was written since. -/
structure SegmentState where
  memory : Memory
  seg : MemorySegment
  contents : Nat → UInt8

/-- `compose` and a write through the pointer; without a pointer there is no write. -/
def MemorySegment.composeWrite (e : Env) (o : Object) (offset n : Nat) (bytes : Nat → UInt8)
    (seg : MemorySegment) : LoaderM (Bool × MemorySegment) := do
  let (composed, seg) ← seg.compose e o
  if composed = 0 then return (false, seg)
  else do
    copyBytes (composed + offset) n bytes
    return (true, seg)

/-- An access to the segment is a userfault if its memory is hollow. -/
def MemorySegment.access (e : Env) (o : Object) (seg : MemorySegment) :
    MemoryM (Bool × MemorySegment) := do
  let m ← get
  let (b, _) ← Exec.orAbort (m.loader.vm.locate seg.address)
  if b ∈ m.hollow then seg.reactivate e o else return (true, seg)

namespace SegmentState

/-- Run an operation on the segment; its result says what the contents are now. -/
def apply (st : SegmentState) (x : MemoryM (Bool × MemorySegment))
    (contents : Bool → Memory → Nat → UInt8) : Option (Bool × SegmentState) :=
  (x st.memory).map fun result =>
    (result.1.1, ⟨result.2, result.1.2, contents result.1.1 result.2⟩)

/-- Perform an operation; the result is that of the source function. -/
def perform (e : Env) (o : Object) (st : SegmentState) :
    SegmentOperation → Option (Bool × SegmentState)
  | .map => st.apply (inMemory (st.seg.map e o)) fun ok m =>
      if ok then m.loader.snapshot st.seg.address else st.contents
  | .compose offset n bytes => st.apply (inMemory (st.seg.composeWrite e o offset n bytes)) fun ok _ =>
      if ok then overlay st.contents offset n bytes else st.contents
  | .finalize => st.apply (inMemory (st.seg.finalize e false)) fun _ _ => st.contents
  | .disable => st.apply (st.seg.disable e o) fun _ _ => st.contents
  | .access => st.apply (st.seg.access e o) fun _ _ => st.contents
  | .enable => st.apply (inMemory (st.seg.enable e)) fun _ _ => st.contents
  | .unmap => st.apply (inMemory (st.seg.unmap e)) fun _ _ => st.contents
  | .start => some (true, { st with memory := { st.memory with
      loader := { st.memory.loader with processStarted := true } } })

end SegmentState

end Luci
