import Luci.MemorySegment
import Luci.Misc.Range
import Luci.Symbol

/-!
# Objects

What all classes of objects share (`src/object/base.cpp`), the addresses the loader
hands out to them (`Loader::next_address`), and the registration of thread local
storage (`TLS::add_module`).
-/

namespace Luci

/-- `BASEADDRESS` of the Makefile. -/
def baseAddress : Nat := 0x6ffff0000000
/-- `LIBADDRESS` of the Makefile. -/
def libAddress : Nat := 0x600000000000
/-- `PDCADDRESS` of the Makefile. -/
def pdcAddress : Nat := 0x400000

/-- `Object::memory_range` (`src/object/base.cpp:121-129`). -/
def memoryRange (segments : List MemorySegment) : Option (Nat × Nat) :=
  match segments.head?, segments.getLast? with
  | some front, some back => some (front.pageStart, back.pageEnd)
  | _, _ => none

/-- The highest end of an object below the loader, or `next` (`src/loader.cpp:718-723`). -/
def Loader.highestEnd (s : Loader) (next : Nat) : Nat :=
  (s.lookup.flatMap ObjectIdentity.versions).foldl (fun next o =>
    match memoryRange (s.memoryMap o.uid) with
    | some (_, stop) =>
      if next < stop ∧ (baseAddress < libAddress ∨ stop < baseAddress) then stop else next
    | none => next) next

/-- `Math::align_up` of a machine word to the next page. -/
def alignPage (value : Nat) : Nat := alignUp value VirtualMemory.pageSize % 2 ^ 64

theorem pageSize_dvd_alignPage (value : Nat) : VirtualMemory.pageSize ∣ alignPage value :=
  (Nat.dvd_mod_iff (by decide)).mpr (dvd_alignUp _ _ (by decide))

/-- The end of everything known, or the default address (`src/loader.cpp:717-727`). -/
def Loader.knownEnd (e : Env) (s : Loader) : Nat :=
  let next := s.highestEnd s.nextLibraryAddress
  if next = 0 then (if e.config.positionIndependent then libAddress else pdcAddress) else next

/-- `Loader::next_address` (`src/loader.cpp:716-732`). -/
def nextAddress (e : Env) (size : Nat) : LoaderM Nat := do
  let s ← get
  let next := alignPage (s.knownEnd e)
  set { s with nextLibraryAddress := alignPage ((next + size) % 2 ^ 64) }
  return next

/-- `Loader::reset_address` (`src/loader.cpp:734-736`). -/
def resetAddress (addr : Nat) : LoaderM Unit :=
  modify fun s => { s with nextLibraryAddress := min s.nextLibraryAddress (alignPage addr) }

/-- `Object::dynamic_address` (`src/object/base.cpp:109-115`). -/
def Object.dynamicAddress (o : Object) : Nat :=
  match o.elf.segments.find? fun segment => segment.type = .dynamic with
  | some segment => (if o.elf.header.type = .exec then 0 else o.base) + segment.virtAddr
  | none => 0

/-- The end of `Object::~Object` (`src/object/base.cpp:50-68`): unmap the segments, release the
addresses and the file. -/
def Object.release (e : Env) (o : Object) : LoaderM Unit := do
  let s ← get
  let _ ← forSegments o.uid (MemorySegment.unmap e) [] (s.memoryMap o.uid)
  modify (Loader.setMemoryMap o.uid [])
  resetAddress o.base
  unmapFile o.data.addr o.data.size
  -- a descriptor of -1 is not closed
  match o.data.fd with
  | some fd => closeDescriptor (some fd)
  | none => pure ()

/-- A version is taken out of the chain. -/
def ObjectIdentity.removeVersion (uid : Nat) (i : ObjectIdentity) : ObjectIdentity :=
  { i with versions := i.versions.filter fun v => v.uid ≠ uid }

/-- `Object::~Object` (`src/object/base.cpp:25-68`). -/
def Object.destroy (e : Env) (o : Object) : LoaderM Unit := do
  modify (Loader.modifyIdentity o.file (ObjectIdentity.removeVersion o.uid))
  o.release e

/-- `TLS::add_module` (`src/tls.cpp:18-43`): the module id, the offset and the new state. -/
def Tls.addModule (tls : Tls) (object size align image imageSize : Nat) : Nat × Int × Tls :=
  if tls.gen = 0 then
    -- Alignment of initial TLS is the maximum alignment of its modules
    let initialAlign := if tls.initialAlign < align then align else tls.initialAlign
    let initialSize := tls.initialSize + alignUp size initialAlign
    (tls.modules.length + 1, initialSize,
      { tls with
        initialCount := tls.initialCount + 1
        initialAlign := initialAlign
        initialSize := initialSize
        modules := tls.modules ++ [⟨object, size, align, image, imageSize, initialSize⟩] })
  else
    -- dynamic modules have no fixed offset
    (tls.modules.length + 1, 0,
      { tls with modules := tls.modules ++ [⟨object, size, align, image, imageSize, 0⟩] })

/-- The module id and the offset of the thread local storage. -/
def ObjectIdentity.setTls (moduleId : Nat) (offset : Int) (i : ObjectIdentity) : ObjectIdentity :=
  { i with tlsModuleId := moduleId, tlsOffset := offset }

/-- Register thread local storage for an identity and note its module id and offset. -/
def addTlsModule (file size align image imageSize : Nat) : LoaderM Unit := do
  Exec.require (0 < size && imageSize ≤ size)
  let s ← get
  let (moduleId, offset, tls) := s.tls.addModule file size align image imageSize
  modify (Loader.modifyIdentity file (ObjectIdentity.setTls moduleId offset))
  modify fun s => { s with tls := tls }

/-- The identity a program works on. -/
def getIdentity (file : Nat) : LoaderM ObjectIdentity := do
  let s ← get
  Exec.orAbort (s.identity file)

/-- The object a program works on. -/
def getObject (r : ObjectRef) : LoaderM Object := do
  let s ← get
  Exec.orAbort (s.object r)

end Luci
