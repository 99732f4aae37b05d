import Luci.Elf
import Luci.Misc.Exec
import Luci.Misc.KeyedList

/-!
# The state of the loader

The records of `Loader`, `ObjectIdentity`, `Object` and `MemorySegment`. Objects
and identities are addressed by numbers instead of pointers: an identity by its
`id`, a version of it by an `ObjectRef`. An identity holds its versions as a
list, newest first, so `current` is its head and `file_previous` the next
element.

The members the source declares `mutable` (`memory_map`, `relocations`,
`datarel_content`) are tables of the loader state, indexed by the number of the
object or identity they belong to.

External code is a parameter: `Libs` has the functions of `elfo`, `bean` and
`dlh`, `World` what the operating system answers during one call.
-/

namespace Luci

open VirtualMemory

/-- `ObjectIdentity::Flags` (`src/object/identity.hpp`). -/
structure Flags where
  bindNow : Bool
  bindNot : Bool
  bindGlobal : Bool
  bindDeep : Bool
  persistent : Bool
  updatable : Bool
  updateOutdated : Bool
  immutableSource : Bool
  ignoreMtime : Bool
  skipIdentical : Bool
  initialized : Bool
  premapped : Bool
  executedBinary : Bool
  deriving DecidableEq, Repr

/-- `Flags() : value(0)`. -/
def Flags.zero : Flags :=
  ⟨false, false, false, false, false, false, false, false, false, false, false, false, false⟩

/-- `NAMESPACE_BASE`. -/
def namespaceBase : Nat := 0

/-- `Loader::Config`, the members the modelled functions read. -/
structure Config where
  positionIndependent : Bool
  dynamicUpdate : Bool
  dynamicDlupdate : Bool
  dependencyCheck : Bool
  forceUpdate : Bool
  skipIdentical : Bool
  dynamicWeak : Bool
  useMtime : Bool
  checkRelocationContent : Bool
  updateOutdatedRelocations : Bool
  relaxComparison : Int
  debugger : Bool
  deriving DecidableEq, Repr

/-- The default member initialisers of `Loader::Config`. -/
def Config.default : Config :=
  ⟨false, false, false, false, false, false, false, false, false, false, 0, true⟩

/-- `VersionedSymbol::Version` (`src/symbol.hpp`); a null pointer is `none`. -/
structure Version where
  name : Option String
  file : Option String
  hash : Nat
  filehash : Nat
  valid : Bool
  weak : Bool
  deriving DecidableEq, Repr

/-- `Version(bool valid)`. -/
def Version.ofValid (valid : Bool) : Version := ⟨none, none, 0, 0, valid, false⟩

/-- The address of an `Object`: a version of an identity. -/
structure ObjectRef where
  file : Nat
  uid : Nat
  deriving DecidableEq, Repr

/-- `VersionedSymbol`: a symbol with the object whose table it belongs to. -/
structure VersionedSymbol where
  symbol : Symbol
  object : ObjectRef
  version : Version
  deriving DecidableEq, Repr

/-- `MemorySegment::Status`. -/
inductive SegmentStatus where
  | notMapped
  | mapped
  | inactive
  | reactivated
  deriving DecidableEq, Repr

/-- `MemorySegment` (`src/memory_segment.hpp`); `source.object` is the object whose
`memory_map` it belongs to, and a descriptor of -1 is `none`. -/
structure MemorySegment where
  sourceOffset : Nat
  sourceSize : Nat
  base : Nat
  offset : Nat
  size : Nat
  protection : Protection
  effectiveProtection : Protection
  fd : Option Nat
  /-- `target.flags`: is the mapping private and anonymous? -/
  privanon : Bool
  relro : Bool
  status : SegmentStatus
  buffer : Nat
  deriving DecidableEq, Repr

/-- The classes derived from `Object`. -/
inductive ObjectKind where
  | executable
  | dynamic
  | relocatable
  deriving DecidableEq, Repr

/-- `Object::status`. -/
inductive ObjectStatus where
  | mapped
  | preparing
  | prepared
  deriving DecidableEq, Repr

/-- `Object::Data`. -/
structure Data where
  modificationTime : Nat × Nat
  size : Nat
  fd : Option Nat
  addr : Nat
  hash : Nat
  deriving DecidableEq, Repr

/-- `Object` with the members of `ObjectDynamic` and `ObjectRelocatable`. Sections
are given by their index. -/
structure Object where
  uid : Nat
  file : Nat
  kind : ObjectKind
  elf : Elf
  data : Data
  base : Nat
  globalOffsetTable : Nat
  status : ObjectStatus
  dependencies : List Nat
  rpath : List String
  runpath : List String
  /-- Is `binary_hash` set? -/
  binaryHash : Bool
  debugHash : Option String
  soname : Option String
  offset : Nat
  preprepared : Bool
  relocationTables : List Nat
  initSections : List Nat
  ehSection : Option Nat
  offsetSections : List Nat
  symbols : List (Symbol × ObjectRef)

/-- `Object::Object` with the default member initialisers (`src/object/base.hpp`). -/
def Object.construct (uid file : Nat) (kind : ObjectKind) (elf : Elf) (data : Data) : Object where
  uid := uid
  file := file
  kind := kind
  elf := elf
  data := data
  base := 0
  globalOffsetTable := 0
  status := .mapped
  dependencies := []
  rpath := []
  runpath := []
  binaryHash := false
  debugHash := none
  soname := none
  offset := 0
  preprepared := false
  relocationTables := []
  initSections := []
  ehSection := none
  offsetSections := []
  symbols := []

/-- The address of an object. -/
def Object.ref (o : Object) : ObjectRef := ⟨o.file, o.uid⟩

/-- `ObjectIdentity::hook`; functions are given by their symbol. -/
structure Hook where
  serialize : Option VersionedSymbol
  deserialize : Option VersionedSymbol
  object : Option ObjectRef
  updatePoint : Bool
  deriving DecidableEq, Repr

/-- `ObjectIdentity`. -/
structure ObjectIdentity where
  id : Nat
  ns : Nat
  name : String
  path : String
  flags : Flags
  base : Nat
  dynamic : Nat
  tlsModuleId : Nat
  tlsOffset : Int
  /-- `current` and its `file_previous` chain. -/
  versions : List Object
  wd : Option Nat
  hook : Hook

/-- `ObjectIdentity::current`. -/
def ObjectIdentity.current (i : ObjectIdentity) : Option Object := i.versions.head?

/-- `TLS::Module`. -/
structure TlsModule where
  object : Nat
  size : Nat
  align : Nat
  image : Nat
  imageSize : Nat
  offset : Int
  deriving DecidableEq, Repr

/-- `TLS`, the members `add_module` uses. -/
structure Tls where
  gen : Nat
  initialCount : Nat
  initialAlign : Nat
  initialSize : Nat
  modules : List TlsModule
  deriving DecidableEq, Repr

/-- What the loader has done so far that the outside can observe. -/
inductive Event where
  /-- `Loader::open` returned this identity. -/
  | opened (file : Nat)
  /-- The initializers of an object were called. -/
  | init (object : ObjectRef)
  /-- The pre-initializers of an object were called. -/
  | preinit (object : ObjectRef)
  /-- A serialize hook was called with this argument. -/
  | serialize (function : VersionedSymbol) (argument : Nat)
  /-- A deserialize hook was called. -/
  | deserialize (function : VersionedSymbol)
  deriving DecidableEq, Repr

/-- System calls on the descriptors and whole-file mappings of `Object::Data`. -/
inductive FileEvent where
  | opened (fd : Nat)
  | closed (fd : Option Nat)
  | mapped (addr size : Nat)
  | unmapped (addr size : Nat)
  deriving DecidableEq, Repr

/-- `Loader`. -/
structure Loader where
  lookup : List ObjectIdentity
  /-- The iterator `dependencies`; `none` is `lookup.end()`. -/
  dependencies : Option Nat
  nextNamespace : Nat
  nextLibraryAddress : Nat
  target : Option Nat
  processStarted : Bool
  updatePending : Bool
  tls : Tls
  /-- `Object::memory_map`, by `uid`. -/
  memoryMap : Nat → List MemorySegment
  /-- `Object::relocations`, by `uid`. -/
  relocations : Nat → List (Relocation × VersionedSymbol)
  /-- `ObjectIdentity::datarel_content`, by `id`. -/
  datarelContent : Nat → List ((Option Nat × Nat) × Nat)
  vm : Vm
  /-- What happened to descriptors and mappings of whole files. -/
  files : List FileEvent
  /-- The next unused address of an identity or object, and the next descriptor. -/
  fresh : Nat
  /-- The number of system calls made. -/
  ticks : Nat
  events : List Event

/-- The members of a loader before anything is loaded. -/
def Loader.initial : Loader where
  lookup := []
  dependencies := none
  nextNamespace := 0
  nextLibraryAddress := 0
  target := none
  processStarted := false
  updatePending := false
  tls := ⟨0, 0, 1, 0, []⟩
  memoryMap _ := []
  relocations _ := []
  datarelContent _ := []
  vm := Vm.empty
  files := []
  fresh := 0
  ticks := 0
  events := []

/-- External code: `elfo`'s symbol tables and `Relocator`, `bean`, and hashes. -/
structure Libs where
  /-- `dynamic_symbols.index(name, hash, gnu_hash, version_index)`; 0 is `STN_UNDEF`. -/
  symbolIndex : Elf → String → Nat → Nat
  /-- `ELF_Def::hash`. -/
  elfHash : String → Nat
  /-- The content hash `XXHash64` with a seed from the name. -/
  contentHash : String → Elf → Nat
  /-- `Bean::patchable` of the difference between the new and the old file. -/
  beanPatchable : Elf → Elf → Bool → Int → Bool
  /-- `Relocator::address`, given the global offset table and the base. -/
  address : Relocation → Nat → Nat → Nat
  /-- `Relocator::is_copy`. -/
  isCopy : Relocation → Bool
  /-- The number of bytes `Relocator` reads and writes (except for copies). -/
  width : Relocation → Nat
  /-- `Relocator::value_internal`: base, PLT entry, TLS module and offset. -/
  valueInternal : Relocation → Nat → Nat → Nat → Nat → Int → Nat
  /-- `Relocator::value_external`: base, symbol, its object's base, PLT entry, TLS module
  and offset. -/
  valueExternal : Relocation → Nat → Nat → Symbol → Nat → Nat → Nat → Int → Nat
  /-- `Relocator::valid_value`. -/
  validValue : Relocation → Nat → Bool
  /-- `String::split_inplace` at colons. -/
  splitInplace : String → List String
  /-- `String::replace_inplace`: a string, what to replace, and by what. -/
  replaceInplace : String → String → String → String

/-- What the operating system and the program answer during one call of the loader.
System calls are numbered by `Loader.ticks`. -/
structure World where
  /-- The files; `none` if there is no such file. -/
  file : String → Option File
  /-- `File::absolute` of a directory. -/
  absolute : String → Option String
  /-- `lstat`: does it succeed and is it a symbolic link? -/
  link : String → Option Bool
  /-- Does a system call succeed? -/
  succeeds : Nat → Bool
  /-- The address a mapping without a fixed address gets. -/
  mmapAddress : Nat → Nat
  /-- The watch descriptor for a path. -/
  watchDescriptor : String → Nat
  /-- The answer of the debug hash socket for a file. -/
  debugHash : String → Elf → Option String
  /-- `AT_PLATFORM` (or its default). -/
  platform : String
  /-- The address of `_dlresolve`. -/
  dlresolve : Nat
  /-- The address an indirect function returns. -/
  ifunc : Nat → Nat
  /-- The function `symbol_trampoline.set` returns for a symbol. -/
  trampoline : VersionedSymbol → Nat

/-- The constant surroundings of a call. -/
structure Env where
  libs : Libs
  config : Config
  libraryPathRuntime : List String
  libraryPathConfig : List String
  libraryPathDefault : List String
  libraryExclude : List String
  world : World

/-- The same loader in another world. -/
def Env.withWorld (e : Env) (world : World) : Env := { e with world := world }

/-! ## Access -/

/-- Write to a version of an identity. -/
def ObjectIdentity.modifyVersion (uid : Nat) (f : Object → Object) (i : ObjectIdentity) :
    ObjectIdentity :=
  { i with versions := KeyedList.update Object.uid uid f i.versions }

namespace Loader

/-- Dereference a pointer to an identity. -/
def identity (s : Loader) (i : Nat) : Option ObjectIdentity :=
  KeyedList.lookup ObjectIdentity.id s.lookup i

/-- `current` of an identity. -/
def current (s : Loader) (i : Nat) : Option Object :=
  (s.identity i).bind ObjectIdentity.current

/-- Dereference a pointer to an object. -/
def object (s : Loader) (r : ObjectRef) : Option Object :=
  (s.identity r.file).bind fun i => KeyedList.lookup Object.uid i.versions r.uid

/-- `Object::is_latest_version` (`src/object/base.cpp:117-119`). -/
def isLatestVersion (s : Loader) (r : ObjectRef) : Bool :=
  (s.current r.file).any fun o => o.uid = r.uid

/-- The object after `r` in the chain of versions, `file_previous`. -/
def filePrevious (s : Loader) (r : ObjectRef) : Option Object :=
  (s.identity r.file).bind fun i => ((i.versions.dropWhile fun o => o.uid ≠ r.uid).drop 1).head?

/-- Write to an identity. -/
def modifyIdentity (i : Nat) (f : ObjectIdentity → ObjectIdentity) (s : Loader) : Loader :=
  { s with lookup := KeyedList.update ObjectIdentity.id i f s.lookup }

/-- Write to an object. -/
def modifyObject (r : ObjectRef) (f : Object → Object) (s : Loader) : Loader :=
  s.modifyIdentity r.file (ObjectIdentity.modifyVersion r.uid f)

/-- Replace the `memory_map` of an object. -/
def setMemoryMap (uid : Nat) (segments : List MemorySegment) (s : Loader) : Loader :=
  { s with memoryMap := fun u => if u = uid then segments else s.memoryMap u }

/-- `HashMap::insert` into the relocation cache of an object. -/
def insertRelocation (uid : Nat) (r : Relocation) (sym : VersionedSymbol) (s : Loader) : Loader :=
  { s with relocations := fun u =>
      if u = uid then (r, sym) :: (s.relocations u).filter fun entry => entry.1 ≠ r
      else s.relocations u }

end Loader

/-- Programs over the loader state. -/
abbrev LoaderM (α : Type) := Exec Loader α

/-- The outcome of the next system call. -/
def syscall (e : Env) : LoaderM Bool := do
  let s ← get
  set { s with ticks := s.ticks + 1 }
  return e.world.succeeds s.ticks

/-- A system call that returns a new descriptor, or fails. -/
def openDescriptor (e : Env) : LoaderM (Option Nat) := do
  if ← syscall e then do
    let s ← get
    set { s with fresh := s.fresh + 1, files := s.files ++ [FileEvent.opened s.fresh] }
    return some s.fresh
  else return none

/-- `Syscall::close`; -1 is `none`. -/
def closeDescriptor (fd : Option Nat) : LoaderM Unit :=
  modify fun s => { s with files := s.files ++ [FileEvent.closed fd] }

/-- Map a whole file; the address is picked by the kernel. -/
def mapFile (e : Env) (size : Nat) : LoaderM (Option Nat) := do
  let addr := e.world.mmapAddress (← get).ticks
  if ← syscall e then do
    modify fun s => { s with files := s.files ++ [FileEvent.mapped addr size] }
    return some addr
  else return none

/-- Unmap a whole file. -/
def unmapFile (addr size : Nat) : LoaderM Unit :=
  modify fun s => { s with files := s.files ++ [FileEvent.unmapped addr size] }

end Luci
