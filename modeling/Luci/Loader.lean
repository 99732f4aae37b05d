import Luci.Object.Identity

/-!
# The loader

`Loader` (`src/loader.cpp`, `src/loader_helper.cpp`): opening of files with their
dependencies, `dlopen`, relocation of everything that is loaded, updates after file
modifications, and the preparation for the start of the program. The recursion from
`open` into the dependencies takes its depth as fuel.
-/

namespace Luci

/-! ## Opening -/

/-- The arguments of `Loader::open`; a namespace of `none` is `NAMESPACE_NEW`. -/
structure OpenCall where
  filepath : String
  flags : Flags
  priority : Bool
  ns : Option Nat
  memory : Option MemoryImage
  type : ElfType
  altname : Option String

/-- A recursive call of `open`. -/
abbrev OpenRec := OpenCall → LoaderM (Option Nat)

/-- The call of `open` for a file in a directory (`src/loader.cpp:162-172`). -/
def OpenCall.inDirectory (filename : String) (flags : Flags) (priority : Bool) (ns : Option Nat)
    (directory : String) : OpenCall :=
  ⟨directory ++ "/" ++ filename, flags, priority, ns, none, .none, none⟩

/-- A loaded library with this name (`src/loader.cpp:136-139`). -/
def Loader.findLibrary (s : Loader) (ns : Option Nat) (name : String) : Option Nat :=
  ns.bind fun ns => (s.lookup.find? fun i => ns = i.ns && name = i.name).map ObjectIdentity.id

/-- `Loader::library` (`src/loader.cpp:132-159`). -/
def library (e : Env) (openRec : OpenRec) (filename : String) (flags : Flags) (priority : Bool)
    (rpath runpath : List String) (ns : Option Nat) (load : Bool) : LoaderM (Option Nat) := do
  let s ← get
  match s.findLibrary ns (basename filename) with
  | some i => return some i
  | none =>
    if !load then return none
    else if filename = basename filename then
      -- only file name provided - look for it in search paths
      Exec.firstOf (fun directory => openRec (.inDirectory filename flags priority ns directory))
        (rpath ++ e.libraryPathRuntime ++ runpath ++ e.libraryPathConfig ++ e.libraryPathDefault)
    else
      -- Full path
      openRec ⟨filename, flags, priority, ns, none, .none, none⟩

/-- `Loader::library` as `preload_libraries` calls it. -/
def libraryCall (e : Env) (openRec : OpenRec) : LibraryCall := fun lib flags rpath runpath ns =>
  library e openRec lib flags false rpath runpath (some ns) true

/-- The namespace of a new identity (`src/loader.cpp:178-179`). -/
def chooseNamespace (ns : Option Nat) : LoaderM Nat :=
  match ns with
  | some ns => return ns
  | none => do
    let s ← get
    set { s with nextNamespace := s.nextNamespace + 1 }
    return s.nextNamespace

/-- `lookup.emplace(priority ? dependencies : lookup.end(), ...)`; `none` if the iterator
dangles. -/
def Loader.emplace (s : Loader) (priority : Bool) (i : ObjectIdentity) :
    Option (List ObjectIdentity) :=
  match priority, s.dependencies with
  | true, some before => KeyedList.insertBefore ObjectIdentity.id before i s.lookup
  | _, _ => some (s.lookup ++ [i])

/-- The new identity in the lookup list (`src/loader.cpp:211-215`). -/
def emplaceIdentity (e : Env) (a : OpenCall) (ns : Nat) : LoaderM Nat := do
  let id ← freshAddress
  let i ← Exec.orAbort (ObjectIdentity.construct e id ns a.flags a.filepath a.altname)
  let s ← get
  let lookup ← Exec.orAbort (s.emplace a.priority i)
  set { s with
    lookup := lookup
    dependencies := if !a.priority && s.dependencies.isNone then some id else s.dependencies }
  return id

/-- `lookup.pop_back()` with `ObjectIdentity::~ObjectIdentity` (`src/object/identity.cpp:322-333`);
the chain of versions goes with the identity. -/
def popBack (e : Env) : LoaderM Unit := do
  let s ← get
  let last ← Exec.orAbort s.lookup.getLast?
  Exec.onlyIf e.config.dynamicUpdate (do let _ ← syscall e)
  Exec.forEach (Object.release e) last.versions
  modify fun s => { s with lookup := s.lookup.dropLast }

/-- The branch for ELF files (`src/loader.cpp:209-225`). -/
def openElf (e : Env) (openRec : OpenRec) (a : OpenCall) (ns : Nat) : LoaderM (Option Nat) := do
  let i ← emplaceIdentity e a ns
  match ← load e (libraryCall e openRec) i a.memory a.type with
  | some _ => do
    logEvent (.opened i)
    return some i
  | none => do
    popBack e
    return none

/-- The entries of a static library (`src/loader.cpp:196-206`): the result is that of the last
entry. An entry is copied to memory if that succeeds. -/
def openEntries (e : Env) (openRec : OpenRec) (a : OpenCall) (ns : Nat) :
    Option Nat → List ArchiveEntry → LoaderM (Option Nat)
  | obj, [] => return obj
  | obj, entry :: entries =>
    if entry.regular then do
      let addr ← mapFile e entry.image.size
      let obj ← openRec { a with
        ns := some ns
        memory := some ⟨addr.getD 0x1000, entry.image⟩
        type := .none
        altname := some entry.name }
      openEntries e openRec a ns obj entries
    else openEntries e openRec a ns obj entries

/-- The format of what is to be opened (`src/loader.cpp:187`); `none` if it does not exist. -/
def OpenCall.format (e : Env) (a : OpenCall) : Option Format :=
  match a.memory, e.world.file a.filepath with
  | some m, _ => some (if a.type ≠ .none then .elf else m.image.format)
  | none, some file => some (if a.type ≠ .none then .elf else file.image.format)
  | none, none => none

/-- The body of `Loader::open` (`src/loader.cpp:175-230`). -/
def openStep (e : Env) (openRec : OpenRec) (a : OpenCall) : LoaderM (Option Nat) :=
  match a.format e with
  | none => return none
  | some format => do
    let ns ← chooseNamespace a.ns
    match format with
    | .ar =>
      match (e.world.file a.filepath).bind File.archive with
      | some entries => openEntries e openRec a ns none entries
      | none => return none
    | .elf => openElf e openRec a ns
    | .other => return none

/-- `Loader::open` with a bound for the depth of the recursion. -/
def openFile (e : Env) : Nat → OpenRec
  | 0, _ => Exec.abort
  | n + 1, a => openStep e (openFile e n) a

/-! ## Relocation and initialization of what is loaded -/

/-- The depth the recursions into dependencies may reach: each identity is entered at most
once, and left again by a call that finds it marked. -/
def Loader.depth (s : Loader) : Nat := s.lookup.length + 1

/-- `prepare()` of an identity, called from outside. -/
def prepareFrom (e : Env) (file : Nat) : LoaderM Bool := do
  let s ← get
  prepareIdentity e s.depth file

/-- `initialize()` of an identity, called from outside. -/
def initializeFrom (file : Nat) : LoaderM Bool := do
  let s ← get
  initializeIdentity s.depth file

/-- The flags that `dlopen` sets (`src/loader.cpp:236-241`). -/
def Flags.dlopen (config : Config) (flags : Flags) (old : Flags) : Flags :=
  { old with
    bindNow := flags.bindNow
    bindGlobal := flags.bindGlobal
    bindDeep := flags.bindDeep
    persistent := flags.persistent
    updatable := config.dynamicDlupdate }

/-- `Loader::dlopen` (`src/loader.cpp:233-255`); a file of `none` stands for the program. -/
def dlopen (e : Env) (fuel : Nat) (file : Option String) (flags : Flags) (ns : Option Nat)
    (load : Bool) : LoaderM (Option Nat) := do
  let s ← get
  let o ← match file with
    | none => pure s.target
    | some file => library e (openFile e fuel) file flags false [] [] ns load
  match o with
  | none => return none
  | some i => do
    modify (Loader.modifyIdentity i fun o => { o with flags := flags.dlopen e.config o.flags })
    if !load then return some i
    else if ← prepareFrom e i then
      if ← initializeFrom i then return some i else return none
    else return none

/-- The identities from the last to the first, `reverse(lookup)`. -/
def Loader.reversed (s : Loader) : List Nat := (s.lookup.map ObjectIdentity.id).reverse

/-- `Loader::relocate` (`src/loader.cpp:258-285`); the trampolines are left out. -/
def relocateLoaded (e : Env) (update : Bool) : LoaderM Bool := do
  let s ← get
  -- Pre-Prepare
  Exec.forEach (preprepareIdentity e) s.reversed
  -- Prepare
  if ← Exec.allOf (prepareFrom e) s.reversed then
    -- Optional: Update relocations
    if ← if update then Exec.allOf (updateIdentity e) s.reversed else pure true then
      -- Protect memory
      Exec.allOf (finalizeIdentity e) s.reversed
    else return false
  else return false

/-- `Loader::update` (`src/loader.cpp:288-298`). -/
def updateLoaded (e : Env) : LoaderM Unit := do
  let ok ← relocateLoaded e true
  Exec.require ok
  modify fun s => { s with updatePending := false }

/-- `Loader::prepare` (`src/loader.cpp:327-386`), without the set-up of glibc and of the main
thread except that dynamic modules have no initial thread local storage from here on. -/
def prepareLoaded (e : Env) (start : ObjectRef) : LoaderM Bool := do
  if ← relocateLoaded e false then do
    modify fun s => { s with tls := { s.tls with gen := max s.tls.gen 1 } }
    logEvent (.preinit start)
    let s ← get
    if ← Exec.allOf initializeFrom s.reversed then do
      let o ← getObject start
      let _ ← o.finalize e
      return true
    else return false
  else return false

/-- The binary is first in the list (`src/loader.cpp:565-567`). -/
def Loader.moveFront (file : Nat) (s : Loader) : Loader :=
  { s with lookup := (s.lookup.filter fun i => i.id = file) ++ s.lookup.filter fun i => i.id ≠ file }

/-- `Loader::run` (`src/loader.cpp:530-634`) up to the start of the program; the variant with
arguments does not mark a relocatable object. -/
def run (e : Env) (withArguments : Bool) (file : Nat) : LoaderM Bool := do
  modify fun s => { s with target := some file }
  let start ← getCurrent file
  let s ← get
  Exec.require (s.filePrevious start.ref).isNone
  if (s.memoryMap start.uid).isEmpty then return false
  else do
    modify (Loader.modifyIdentity file fun i => { i with flags := { i.flags with
      initialized := i.flags.initialized || !withArguments || start.elf.header.type ≠ .rel } })
    modify (Loader.moveFront file)
    if ← prepareLoaded e start.ref then do
      modify fun s => { s with processStarted := true }
      return true
    else do
      modify (Loader.modifyIdentity file fun i =>
        { i with flags := { i.flags with initialized := false } })
      return false

/-! ## File modifications -/

/-- `load` of an identity, called from outside. -/
def loadFrom (e : Env) (fuel file : Nat) (memory : Option MemoryImage) : LoaderM (Option ObjectRef) :=
  load e (libraryCall e (openFile e fuel)) file memory .none

/-- `Loader::filemodification_load_helper` (`src/loader_helper.cpp:87-112`). An entry that is
itself an archive is searched for again, without end. -/
def filemodificationLoadHelper (e : Env) (fuel file : Nat) : LoaderM Bool := do
  let i ← getIdentity file
  match e.world.file i.path with
  | none => return false
  | some content =>
    match content.image.format with
    | .elf => do
      let object ← loadFrom e fuel file none
      return object.isSome
    | .ar =>
      match (content.archive.getD []).find? fun entry => entry.regular && entry.name = i.name with
      | none => return false
      | some entry => do
        let addr ← mapFile e entry.image.size
        match entry.image.format with
        | .elf => do
          let object ← loadFrom e fuel file (some ⟨addr.getD 0x1000, entry.image⟩)
          return object.isSome
        | .ar => Exec.abort
        | .other => return false
    | .other => return false

/-- The identities of the worklist one after the other; was one of them updated? -/
def loadAll (e : Env) (fuel : Nat) : List Nat → LoaderM Bool
  | [] => return false
  | file :: files => do
    let updated ← filemodificationLoadHelper e fuel file
    let others ← loadAll e fuel files
    return updated || others

/-- `Loader::filemodification_load` (`src/loader_helper.cpp:114-155`) for the due entries of the
worklist. -/
def filemodificationLoad (e : Env) (fuel : Nat) (due : List Nat) : LoaderM Unit := do
  if ← loadAll e fuel due then do
    let s ← get
    -- Check for update hooks
    if s.lookup.any fun i => i.hook.updatePoint then
      modify fun s => { s with updatePending := true }
    else updateLoaded e
  else pure ()

/-! ## Lookup of an address -/

/-- `Loader::resolve_object` (`src/loader.cpp:701-713`); the end of a segment counts as well. -/
def Loader.resolveObject (s : Loader) (addr ns : Nat) : Option Object :=
  s.lookup.findSome? fun file =>
    if file.ns ≠ ns then none
    else file.versions.find? fun o => (s.memoryMap o.uid).any fun mem =>
      decide (mem.address ≤ addr ∧ addr ≤ (mem.address + mem.size) % 2 ^ 64)

/-- What `_dl_find_object` finds, without the pointer to the exception header; `linkMap` is the
identity. -/
structure DlFindObject where
  mapStart : Nat
  mapEnd : Nat
  linkMap : Nat
  object : Object

/-- `_dl_find_object` (`src/comp/glibc/rtld/global.cpp:130-148`). -/
def Loader.dlFindObject (s : Loader) (address : Nat) : Option DlFindObject :=
  s.lookup.findSome? fun file => file.versions.findSome? fun obj =>
    ((s.memoryMap obj.uid).find? fun mem => mem.contains address).map fun mem =>
      ⟨mem.address, (mem.address + mem.size) % 2 ^ 64, file.id, obj⟩

end Luci
