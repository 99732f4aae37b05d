import Luci.Object.Relocatable

/-!
# Object identities

An `ObjectIdentity` (`src/object/identity.cpp`) stands for a file in the process and
holds its versions. `load` opens the file and creates a new version, which becomes the
current one half-way through `create`; `prepare` and `initialize` descend into the
dependencies, `update` and `finalize` go through the versions.
-/

namespace Luci

/-- `ObjectIdentity::Info`. -/
inductive Info where
  | errorOpen
  | errorStat
  | errorMap
  | errorElf
  | identicalTime
  | identicalHash
  | updateDisabled
  | updateIncompatible
  | failedPreloading
  | failedMapping
  | successLoad
  | successUpdate
  deriving DecidableEq, Repr

/-! ## Construction -/

/-- The part of a path behind the last slash, `StrPtr::find_last('/')`. -/
def basename (path : String) : String :=
  String.ofList (path.toList.reverse.takeWhile (· ≠ '/')).reverse

/-- The part of a path before the last slash, `none` without a slash. -/
def dirname (path : String) : Option String :=
  if '/' ∈ path.toList then
    some (String.ofList ((path.toList.reverse.dropWhile (· ≠ '/')).drop 1).reverse)
  else none

/-- `PATH_MAX`. -/
def pathMax : Nat := 4096

/-- `String::copy` of at most `max` characters. -/
def copyString (text : String) (max : Nat) : String := String.ofList (text.toList.take max)

/-- The path of a new identity (`src/object/identity.cpp:271-292`). -/
def absolutePath (e : Env) (path : String) : String :=
  match e.world.absolute ((dirname path).getD ".") with
  | some directory =>
    if (e.world.file (basename path)).isSome then
      let buffer := if directory = "" then "" else directory ++ "/"
      buffer ++ copyString (basename path) (pathMax - buffer.length)
    else copyString path pathMax
  | none => copyString path pathMax

/-- The flags of a new identity (`src/object/identity.cpp:253-261` and `305-315`); `none` is a
failed assertion. -/
def Flags.adjust (e : Env) (path : String) (flags : Flags) : Option Flags :=
  if !e.config.dynamicUpdate then some { flags with updatable := false, immutableSource := true }
  else if flags.updatable then do
    guard (!flags.initialized && !flags.premapped)
    some { flags with
      updateOutdated := flags.updateOutdated || e.config.updateOutdatedRelocations
      skipIdentical := e.config.skipIdentical
      immutableSource := flags.immutableSource || e.world.link path = some true }
  else some flags

/-- `ObjectIdentity::ObjectIdentity` (`src/object/identity.cpp:250-319`). -/
def ObjectIdentity.construct (e : Env) (id ns : Nat) (flags : Flags) (path : String)
    (altname : Option String) : Option ObjectIdentity := do
  let path := absolutePath e path
  let flags ← flags.adjust e path
  some {
    id := id
    ns := ns
    name := altname.getD (basename path)
    path := path
    flags := flags
    base := 0
    dynamic := 0
    tlsModuleId := 0
    tlsOffset := 0
    versions := []
    wd := none
    hook := ⟨none, none, none, false⟩ }

/-! ## Opening the file -/

/-- An ELF image in memory, given instead of a file. -/
structure MemoryImage where
  addr : Nat
  image : Image

/-- What `open` hands to `create`. -/
structure Opened where
  data : Data
  elf : Elf
  type : ElfType

/-- The check of the ELF header (`src/object/identity.cpp:203-214`). -/
def checkElf (i : ObjectIdentity) (data : Data) (elf : Elf) (type : ElfType) :
    LoaderM (Except Info Opened) := do
  if data.size < headerSize || !supported elf.header then do
    Exec.onlyIf (!i.flags.premapped) (unmapFile data.addr data.size)
    closeDescriptor data.fd
    return .error .errorElf
  else return .ok ⟨data, elf, if type = .none then elf.header.type else type⟩

/-- A memory file for the copy, so that a debugger finds it
(`src/object/identity.cpp:161-178`). -/
def debuggerFile (e : Env) : LoaderM (Option Nat) := do
  if e.config.debugger then
    match ← openDescriptor e with
    | some fd =>
      if ← syscall e then return some fd
      else do
        closeDescriptor (some fd)
        return none
    | none => do
      closeDescriptor none
      return none
  else return none

/-- The content of the file in memory (`src/object/identity.cpp:151-197`): descriptor and
address. -/
def mapContent (e : Env) (i : ObjectIdentity) (fd size : Nat) :
    LoaderM (Option (Option Nat × Nat)) := do
  match ← mapFile e size with
  | none => do
    closeDescriptor (some fd)
    return none
  | some addr =>
    if i.flags.immutableSource then return some (some fd, addr)
    else do
      let newFd ← debuggerFile e
      match ← mapFile e size with
      | some copy => do
        unmapFile addr size
        closeDescriptor (some fd)
        return some (newFd, copy)
      | none => do
        closeDescriptor (some fd)
        return none

/-- A version with this modification time and size was loaded before. -/
def ObjectIdentity.sameTime (e : Env) (i : ObjectIdentity) (time : Nat × Nat) (size : Nat) : Bool :=
  e.config.useMtime && !i.flags.ignoreMtime && i.flags.skipIdentical &&
    i.versions.any fun o => o.data.modificationTime = time && o.data.size = size

/-- Opening a file (`src/object/identity.cpp:121-199`). -/
def openPath (e : Env) (i : ObjectIdentity) (type : ElfType) : LoaderM (Except Info Opened) := do
  Exec.require (i.path ≠ "" && !i.flags.premapped)
  match e.world.file i.path with
  | none => return .error .errorOpen
  | some file =>
    match ← openDescriptor e with
    | none => return .error .errorOpen
    | some fd =>
      if ← syscall e then
        -- Check if already loaded (using modification time)
        if i.sameTime e file.modificationTime file.image.size then do
          closeDescriptor (some fd)
          return .error .identicalTime
        else
          match ← mapContent e i fd file.image.size with
          | none => return .error .errorMap
          | some (fd, addr) =>
            checkElf i ⟨file.modificationTime, file.image.size, fd, addr, 0⟩ file.image.elf type
      else do
        closeDescriptor (some fd)
        return .error .errorStat

/-- `ObjectIdentity::open` (`src/object/identity.cpp:112-225`). -/
def openObject (e : Env) (file : Nat) (memory : Option MemoryImage) (type : ElfType) :
    LoaderM (Except Info Opened) := do
  let i ← getIdentity file
  -- Not updatable: Allow only one (current) version
  if !i.flags.updatable && i.current.isSome then return .error .updateDisabled
  else
    match memory with
    | some m => checkElf i ⟨(0, 0), m.image.size, none, m.addr, 0⟩ m.image.elf type
    | none => openPath e i type

/-! ## Creating a version -/

/-- A version with this content hash and size was loaded before
(`src/object/identity.cpp:338-350`). -/
def ObjectIdentity.sameHash (i : ObjectIdentity) (hash size : Nat) : Bool :=
  i.versions.any fun o => o.data.hash = hash && o.data.size = size

/-- The new object by the type of the file (`src/object/identity.cpp:375-398`). -/
def constructObject (e : Env) (file : Nat) (op : Opened) : LoaderM (Option Object) :=
  match op.type with
  | .exec =>
    if op.elf.segments.any fun s => s.type = .dynamic then do
      let o ← constructDynamic e file op.elf op.data false
      return some o
    else do
      let uid ← freshAddress
      return some (Object.construct uid file .executable op.elf op.data)
  | .dyn => do
    let o ← constructDynamic e file op.elf op.data true
    return some o
  | .rel => do
    let o ← constructRelocatable e file op.elf op.data
    return some o
  | _ => return none

/-- `patchable` of the classes; `none` is a failed assertion. -/
def Object.patchable (e : Env) (s : Loader) (o : Object) (previous : Option Object) : Option Bool :=
  match o.kind with
  | .executable => some false
  | .dynamic => o.patchableDynamic e s previous
  | .relocatable => some (o.patchableRelocatable previous)

/-- `Object::query_debug_hash` (`src/object/base.cpp:70-107`). -/
def Object.queryDebugHash (e : Env) (i : ObjectIdentity) (o : Object) : Option String :=
  o.debugHash.or (e.world.debugHash i.path o.elf)

/-- The comparison of DWARF hashes (`src/object/identity.cpp:457-465`): is the new version
compatible? Both objects remember their hash. -/
def checkDebugHash (e : Env) (i : ObjectIdentity) (o current : Object) : LoaderM Bool := do
  if e.config.forceUpdate then return true
  else
    match o.queryDebugHash e i with
    | none => return true
    | some hash => do
      modify (Loader.modifyObject ⟨i.id, current.uid⟩ fun c =>
        { c with debugHash := c.queryDebugHash e i })
      match current.queryDebugHash e i with
      | none => return true
      | some currentHash => return decide (hash = currentHash)

/-- The checks of a new version against the current one (`src/object/identity.cpp:407-466`):
may it be employed? -/
def checkUpdate (e : Env) (file : Nat) (o : Object) : LoaderM Bool := do
  let s ← get
  let i ← getIdentity file
  match i.current with
  | none => return true
  | some current => do
    Exec.require current.binaryHash
    if ← Exec.orAbort (o.patchable e s (some current)) then checkDebugHash e i o current
    else return false

/-- `preload` of the classes. -/
def preload (e : Env) (library : LibraryCall) (r : ObjectRef) (kind : ObjectKind) : LoaderM Bool :=
  match kind with
  | .executable => preloadSegments r false
  | .dynamic => do
    if ← preloadSegments r true then preloadLibraries e library r else return false
  | .relocatable => preloadRelocatable e r

/-- `preprepare` of the classes. -/
def preprepareObject (e : Env) (o : Object) : LoaderM Unit :=
  match o.kind with
  | .relocatable => preprepareRelocatable e o.ref
  | _ => pure ()

/-- `prepare` of the classes. -/
def prepareObject (e : Env) (o : Object) : LoaderM Bool :=
  match o.kind with
  | .executable => return true
  | .dynamic => prepareDynamic e o.ref
  | .relocatable => prepareRelocatable e o.ref

/-- Set the status of an object. -/
def setStatus (r : ObjectRef) (status : ObjectStatus) : LoaderM Unit :=
  modify (Loader.modifyObject r fun o => { o with status := status })

/-- A version becomes the current one. -/
def ObjectIdentity.addVersion (o : Object) (i : ObjectIdentity) : ObjectIdentity :=
  { i with versions := o :: i.versions }

/-- `current = o`. -/
def install (o : Object) : LoaderM Unit :=
  modify (Loader.modifyIdentity o.file (ObjectIdentity.addVersion o))

/-- `flags.bind_now = 1`. -/
def ObjectIdentity.setBindNow (i : ObjectIdentity) : ObjectIdentity :=
  { i with flags := { i.flags with bindNow := true } }

/-- Fix the relocations of a new version (`src/object/identity.cpp:495-503`). The result of
`prepare` is only logged. -/
def prepareVersion (e : Env) (o : Object) : LoaderM Unit := do
  -- Lazy evaluation is not possible for updated files!
  modify (Loader.modifyIdentity o.file ObjectIdentity.setBindNow)
  preprepareObject e o
  let _ ← prepareObject e o

/-- Preparation of a version of an initialized identity (`src/object/identity.cpp:493-508`). -/
def prepareUpdate (e : Env) (o : Object) (type : ElfType) : LoaderM Unit := do
  let s ← get
  let isUpdate := (s.filePrevious o.ref).isSome
  Exec.require (isUpdate || type = .exec || o.base = o.data.addr)
  Exec.onlyIf isUpdate (prepareVersion e o)
  setStatus o.ref .prepared

/-- The end of `create` for a version that is mapped (`src/object/identity.cpp:488-533`). -/
def finishCreate (e : Env) (o : Object) (type : ElfType) : LoaderM Info := do
  let i ← getIdentity o.file
  Exec.onlyIf i.flags.initialized (prepareUpdate e o type)
  modify (Loader.modifyIdentity o.file fun i =>
    { i with base := o.base, dynamic := o.dynamicAddress })
  let s ← get
  return if (s.filePrevious o.ref).isNone then .successLoad else .successUpdate

/-- Preload and map a version that has become the current one
(`src/object/identity.cpp:468-485`); `none` if both succeeded. -/
def preloadAndMap (e : Env) (library : LibraryCall) (o : Object) : LoaderM (Option Info) := do
  if ← preload e library o.ref o.kind then do
    let i ← getIdentity o.file
    let o ← getObject o.ref
    if i.flags.premapped then return none
    else if ← o.map e then return none
    else return some .failedMapping
  else return some .failedPreloading

/-- `create` from the installation of the new version on (`src/object/identity.cpp:468-533`). -/
def employ (e : Env) (library : LibraryCall) (o : Object) (type : ElfType) :
    LoaderM (Option ObjectRef × Info) := do
  -- Add to list
  install o
  match ← preloadAndMap e library o with
  | some info => do
    o.destroy e
    return (none, info)
  | none => do
    let info ← finishCreate e o type
    return (some o.ref, info)

/-- `create` for a constructed object (`src/object/identity.cpp:404-533`). -/
def createObject (e : Env) (library : LibraryCall) (file : Nat) (o : Object) (type : ElfType) :
    LoaderM (Option ObjectRef × Info) := do
  let i ← getIdentity file
  -- If dynamic updates are enabled, compare hashes
  if i.flags.updatable && type ≠ .rel then do
    let o := { o with binaryHash := true, debugHash :=
      if !e.config.forceUpdate && i.current.isSome then o.queryDebugHash e i else none }
    if ← checkUpdate e file o then employ e library o type
    else do
      o.destroy e
      return (none, .updateIncompatible)
  else employ e library o type

/-- `ObjectIdentity::create` (`src/object/identity.cpp:336-533`). -/
def create (e : Env) (library : LibraryCall) (file : Nat) (op : Opened) :
    LoaderM (Option ObjectRef × Info) := do
  let i ← getIdentity file
  -- Hash file contents
  let hashed := i.flags.updatable && i.flags.skipIdentical
  let hash := if hashed then e.libs.contentHash i.name op.elf else 0
  if hashed && i.sameHash hash op.data.size then return (none, .identicalHash)
  else
    match ← constructObject e file { op with data := { op.data with hash := hash } } with
    | none => return (none, .errorElf)
    | some o => createObject e library file o op.type

/-! ## Loading -/

/-- `inotify_add_watch`: the new watch descriptor, or -1. There is nothing to watch without the
file. -/
def addWatch (e : Env) (path : String) : LoaderM (Option Nat) := do
  let ok ← syscall e
  return if ok && (e.world.file path).isSome then some (e.world.watchDescriptor path) else none

/-- `ObjectIdentity::watch` (`src/object/identity.cpp:228-248`). -/
def watch (e : Env) (file : Nat) (force closeExisting : Bool) : LoaderM Bool := do
  let i ← getIdentity file
  if i.flags.updatable && (i.wd.isNone || force) then do
    Exec.onlyIf (i.wd.isSome && closeExisting) (do let _ ← syscall e)
    let wd ← addWatch e i.path
    modify (Loader.modifyIdentity file fun i => { i with wd := wd })
    return wd.isSome
  else return i.wd.isSome

/-- The hooks of the current version, keeping a hook it does not define
(`src/object/identity.cpp:63-80`). -/
def Hook.refresh (e : Env) (hook : Hook) (current : Object) : Hook :=
  let find := fun name => current.resolveSymbol e.libs name (Version.ofName e.libs none)
  { serialize := (find "__luci_serialize").or hook.serialize
    deserialize := (find "__luci_deserialize").or hook.deserialize
    object := some current.ref
    updatePoint := (find "__luci_update").isSome }

/-- `ObjectIdentity::hook_refresh` (`src/object/identity.cpp:63-80`). -/
def hookRefresh (e : Env) (file : Nat) : LoaderM Unit :=
  modify (Loader.modifyIdentity file fun i =>
    if i.flags.updatable then
      { i with hook :=
        match i.current with
        | some current => i.hook.refresh e current
        | none => { i.hook with object := none } }
    else i)

/-- Clean up on failure, otherwise watch the file (`src/object/identity.cpp:92-99`). -/
def afterCreate (e : Env) (file : Nat) (data : Data) (object : Option ObjectRef) :
    LoaderM Unit := do
  let i ← getIdentity file
  if object.isNone && data.fd.isSome then do
    Exec.onlyIf (!i.flags.premapped) (unmapFile data.addr data.size)
    closeDescriptor data.fd
  else do
    let _ ← watch e file i.flags.executedBinary i.flags.executedBinary

/-- The initial hook (`src/object/identity.cpp:104-105`). -/
def initialHook (e : Env) (file : Nat) : LoaderM Unit := do
  let i ← getIdentity file
  Exec.onlyIf i.hook.object.isNone (hookRefresh e file)

/-- `ObjectIdentity::load` (`src/object/identity.cpp:83-108`). -/
def load (e : Env) (library : LibraryCall) (file : Nat) (memory : Option MemoryImage)
    (type : ElfType) : LoaderM (Option ObjectRef) := do
  match ← openObject e file memory type with
  | .error _ => do
    initialHook e file
    return none
  | .ok op => do
    let (object, _) ← create e library file op
    afterCreate e file op.data object
    initialHook e file
    return object

/-! ## Preparation, update and initialization -/

/-- `assert(current != nullptr)`. -/
def getCurrent (file : Nat) : LoaderM Object := do
  let s ← get
  Exec.orAbort (s.current file)

/-- `ObjectIdentity::preprepare` (`src/object/identity.cpp:536-539`). -/
def preprepareIdentity (e : Env) (file : Nat) : LoaderM Unit := do
  let o ← getCurrent file
  preprepareObject e o

/-- `ObjectIdentity::prepare` (`src/object/identity.cpp:542-568`). -/
def prepareIdentity (e : Env) : Nat → Nat → LoaderM Bool
  | 0, _ => Exec.abort
  | n + 1, file => do
    let o ← getCurrent file
    match o.status with
    | .mapped => do
      setStatus o.ref .preparing
      -- First initialize all dependencies
      if ← Exec.allOf (prepareIdentity e n) o.dependencies then
        if ← prepareObject e o then do
          setStatus o.ref .prepared
          return true
        else return false
      else return false
    -- Circular dependency
    | .preparing => return true
    | .prepared => return true

/-- `update` of the classes. -/
def updateObject (e : Env) (o : Object) : LoaderM Bool :=
  match o.kind with
  | .executable => return true
  | .dynamic => updateDynamic e o.ref
  | .relocatable => updateRelocatable e o.ref

/-- Append to the log. -/
def logEvent (event : Event) : LoaderM Unit :=
  modify fun s => { s with events := s.events ++ [event] }

/-- Call the serialize hook; the argument tells whether there is a newer version
(`src/object/identity.cpp:574-579`). -/
def callSerialize (i : ObjectIdentity) : LoaderM Unit :=
  match i.hook.serialize with
  | some function =>
    logEvent (.serialize function (if i.current.map Object.ref = i.hook.object then 0 else 1))
  | none => pure ()

/-- Call the deserialize hook (`src/object/identity.cpp:592-596`). -/
def callDeserialize (i : ObjectIdentity) : LoaderM Unit :=
  match i.hook.deserialize with
  | some function => logEvent (.deserialize function)
  | none => pure ()

/-- `ObjectIdentity::update` (`src/object/identity.cpp:571-599`). -/
def updateIdentity (e : Env) (file : Nat) : LoaderM Bool := do
  let i ← getIdentity file
  callSerialize i
  -- Perform updates
  let success ← Exec.eachOf (updateObject e)
    (if i.flags.updateOutdated then i.versions else i.versions.take 1)
  -- Update hooks to latest object
  hookRefresh e file
  let i ← getIdentity file
  callDeserialize i
  return success

/-- `ObjectIdentity::finalize` (`src/object/identity.cpp:602-609`). -/
def finalizeIdentity (e : Env) (file : Nat) : LoaderM Bool := do
  let i ← getIdentity file
  Exec.eachOf (Object.finalize e) i.versions

/-- `flags.initialized = 1`. -/
def ObjectIdentity.markInitialized (i : ObjectIdentity) : ObjectIdentity :=
  { i with flags := { i.flags with initialized := true } }

/-- `ObjectIdentity::initialize` (`src/object/identity.cpp:612-627`); `initialize` of the
classes calls the initializers and returns true. -/
def initializeIdentity : Nat → Nat → LoaderM Bool
  | 0, _ => Exec.abort
  | n + 1, file => do
    let o ← getCurrent file
    let i ← getIdentity file
    if i.flags.initialized then return true
    else do
      modify (Loader.modifyIdentity file ObjectIdentity.markInitialized)
      -- First initialize all dependencies
      if ← Exec.allOf (initializeIdentity n) o.dependencies then do
        logEvent (.init o.ref)
        return true
      else return false

end Luci
