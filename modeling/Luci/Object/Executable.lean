import Luci.Object.Base

/-!
# Executables

`ObjectExecutable::preload_segments` (`src/object/executable.cpp`): the load
segments become memory segments, the relocation read-only part being split off,
thread local storage is registered, and on an update the memory files of the
previous version are taken over.
-/

namespace Luci

/-- The relocation read-only segment; the last one counts. -/
def Elf.relro (elf : Elf) : Option Segment :=
  (elf.segments.filter fun s => s.type = .gnuRelro && s.virtSize = s.size).getLast?

/-- The memory segments of one load segment (`src/object/executable.cpp:33-49`); `none` is
a failed assertion. -/
def Segment.toMemory (premapped : Bool) (base : Nat) (relro : Option Segment) (segment : Segment) :
    Option (List MemorySegment) :=
  if segment.virtSize = 0 then some []
  else
    match relro.filter fun r => segment.offset = r.offset && segment.virtAddr = r.virtAddr &&
      segment.alignment = 0x1000 with
    | some r => do
      let head ← MemorySegment.ofSegment premapped r base 0
      -- Rest of data section (if any)
      if segment.virtSize ≠ r.virtSize then do
        guard ((r.virtAddr + r.virtSize) % VirtualMemory.pageSize = 0)
        let tail ← MemorySegment.ofSegment premapped segment base r.virtSize
        some [head, tail]
      else some [head]
    | none => do
      let seg ← MemorySegment.ofSegment premapped segment base 0
      some [seg]

/-- One iteration of the loop over the segments (`src/object/executable.cpp:30-58`). -/
def preloadSegment (r : ObjectRef) (premapped : Bool) (base : Nat) (relro : Option Segment)
    (segment : Segment) : LoaderM Unit :=
  match segment.type with
  | .load => do
    let segments ← Exec.orAbort (segment.toMemory premapped base relro)
    modify fun s => s.setMemoryMap r.uid (s.memoryMap r.uid ++ segments)
  | .tls => do
    let i ← getIdentity r.file
    if 0 < segment.virtSize && i.tlsModuleId = 0 then
      addTlsModule r.file segment.virtSize segment.alignment segment.virtAddr segment.size
    else pure ()
  | _ => pure ()

/-- Take over the memory files of the previous version (`src/object/executable.cpp:68-72`). -/
def shareDescriptors (segments previous : List MemorySegment) : List MemorySegment :=
  segments.zipWith (fun seg prev => if prev.fd.isSome then { seg with fd := prev.fd } else seg)
    previous

/-- `ObjectExecutable::preload_segments` (`src/object/executable.cpp:13-76`). -/
def preloadSegments (r : ObjectRef) (setupRelro : Bool) : LoaderM Bool := do
  let i ← getIdentity r.file
  let o ← getObject r
  let relro := if setupRelro then o.elf.relro else none
  Exec.forEach (preloadSegment r i.flags.premapped o.base relro) o.elf.segments
  let s ← get
  let segments := s.memoryMap r.uid
  match s.filePrevious r with
  | some previous =>
    if segments.length ≠ (s.memoryMap previous.uid).length then return false
    else do
      modify (Loader.setMemoryMap r.uid (shareDescriptors segments (s.memoryMap previous.uid)))
      return !segments.isEmpty
  | none => return !segments.isEmpty

end Luci
