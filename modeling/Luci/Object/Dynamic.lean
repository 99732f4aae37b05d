import Luci.Object.Executable

/-!
# Dynamic objects

`ObjectDynamic` (`src/object/dynamic.cpp`): construction, loading of the needed
libraries, relocation, update of outdated relocations, and the check whether a new
version can replace the current one. Updates of code in older versions
(`UPDATE_MODE_CODEREL`) and the glibc specific fixes are left out.
-/

namespace Luci

/-- A new address for an object or identity. -/
def freshAddress : LoaderM Nat := do
  let s ← get
  set { s with fresh := s.fresh + 1 }
  return s.fresh

/-- The space for the load segments (`src/object/dynamic.cpp:51-54`). -/
def Elf.maxSize (elf : Elf) : Nat :=
  elf.segments.foldl (fun size segment =>
    let stop := (segment.virtAddr + segment.virtSize) % 2 ^ 64
    if segment.type = .load ∧ size < stop then stop else size) 0

/-- The constructor takes over the name given in the file (`src/object/dynamic.cpp:37-42`). -/
def setSoname (file : Nat) (soname : Option String) : LoaderM Unit :=
  match soname with
  | some soname =>
    if soname ≠ "" then modify (Loader.modifyIdentity file fun i => { i with name := soname })
    else pure ()
  | none => pure ()

/-- `ObjectDynamic::ObjectDynamic` (`src/object/dynamic.cpp:23-59`). -/
def constructDynamic (e : Env) (file : Nat) (elf : Elf) (data : Data) (positionIndependent : Bool) :
    LoaderM Object := do
  let uid ← freshAddress
  let o := { Object.construct uid file .dynamic elf data with globalOffsetTable := elf.pltgot }
  setSoname file elf.getSoname
  let i ← getIdentity file
  if !positionIndependent then return o
  else if i.flags.premapped then return { o with base := subWord data.addr elf.virtOffset }
  else do
    let base ← nextAddress e elf.maxSize
    return { o with base := base }

/-! ## Needed libraries -/

/-- `ObjectDynamic::addpath` (`src/object/dynamic.cpp:74-127`): the entries it appends. A name
longer than the path makes the size of the origin buffer wrap around. -/
def addpath (e : Env) (i : ObjectIdentity) (paths : String) : LoaderM (List String) := do
  if '$' ∈ paths.toList then do
    Exec.require (i.name.length + 1 ≤ i.path.length)
    let origin := String.ofList (i.path.toList.take (i.path.length - i.name.length - 1))
    let replace := fun text (token, value) => e.libs.replaceInplace text token value
    -- every component is the whole string
    let expanded := [("$ORIGIN", origin), ("$\x7bORIGIN\x7d", origin), ("$LIB", "lib64"),
      ("$\x7bLIB\x7d", "lib64"), ("$PLATFORM", e.world.platform),
      ("$\x7bPLATFORM\x7d", e.world.platform)].foldl replace paths
    return (e.libs.splitInplace paths).map fun _ => expanded
  else return e.libs.splitInplace paths

/-- The switch over the dynamic section in `preload_libraries`
(`src/object/dynamic.cpp:145-189`); the needed libraries are collected by `neededLibraries`. -/
def preloadDyn (e : Env) (r : ObjectRef) (dyn : Dyn) : LoaderM Unit :=
  match dyn with
  | .soname name => modify (Loader.modifyObject r fun o => { o with soname := some name })
  | .rpath paths => do
    let i ← getIdentity r.file
    let entries ← addpath e i paths
    modify (Loader.modifyObject r fun o => { o with rpath := o.rpath ++ entries })
  | .runpath paths => do
    let i ← getIdentity r.file
    let entries ← addpath e i paths
    modify (Loader.modifyObject r fun o => { o with runpath := o.runpath ++ entries })
  | .flags value =>
    modify (Loader.modifyIdentity r.file fun i =>
      { i with flags := { i.flags with bindNow := i.flags.bindNow || value &&& dfBindNow ≠ 0 } })
  | .flags1 value =>
    modify (Loader.modifyIdentity r.file fun i =>
      { i with flags := { i.flags with
        bindNow := i.flags.bindNow || value &&& df1Now ≠ 0
        bindGlobal := i.flags.bindGlobal || value &&& df1Global ≠ 0 } })
  | _ => pure ()

/-- The `DT_NEEDED` entries. -/
def Elf.neededLibraries (elf : Elf) : List String :=
  elf.dynamicTable.filterMap fun
    | .needed library => some library
    | _ => none

/-- The flags of a dependency (`src/object/dynamic.cpp:191-197`). -/
def Flags.inherit (config : Config) (flags : Flags) : Flags :=
  { flags with
    immutableSource := false
    ignoreMtime := false
    initialized := false
    premapped := false
    updatable := config.dynamicUpdate }

/-- `Loader::library`, as it is called for dependencies: file name, flags, search paths and
namespace. -/
abbrev LibraryCall := String → Flags → List String → List String → Nat → LoaderM (Option Nat)

/-- One iteration of the loop over the needed libraries (`src/object/dynamic.cpp:199-212`). -/
def preloadLibrary (e : Env) (library : LibraryCall) (r : ObjectRef) (flags : Flags) (lib : String) :
    LoaderM Bool := do
  if lib ∈ e.libraryExclude then return true
  else do
    let i ← getIdentity r.file
    let o ← getObject r
    match ← library lib flags o.rpath o.runpath i.ns with
    | none => return false
    | some dep => do
      modify (Loader.modifyObject r fun o => { o with dependencies := o.dependencies ++ [dep] })
      return true

/-- `ObjectDynamic::preload_libraries` (`src/object/dynamic.cpp:140-215`). -/
def preloadLibraries (e : Env) (library : LibraryCall) (r : ObjectRef) : LoaderM Bool := do
  let o ← getObject r
  Exec.forEach (preloadDyn e r) o.elf.dynamicTable
  let i ← getIdentity r.file
  Exec.eachOf (preloadLibrary e library r (i.flags.inherit e.config)) o.elf.neededLibraries

/-! ## Relocation -/

/-- The segment of an object that contains an address. -/
def Loader.segmentAt (s : Loader) (uid address : Nat) : Option (Nat × MemorySegment) :=
  match (s.memoryMap uid).findIdx? fun seg => seg.contains address with
  | some n => ((s.memoryMap uid)[n]?).map fun seg => (n, seg)
  | none => none

/-- `base + (seg != nullptr ? seg->compose() - seg->target.address() : 0)`. -/
def composeBase (e : Env) (o : Object) (seg : Option (Nat × MemorySegment)) : LoaderM Nat :=
  match seg with
  | some (n, seg) => do
    let (buffer, seg) ← seg.compose e o
    modify fun s => s.setMemoryMap o.uid ((s.memoryMap o.uid).set n seg)
    return subWord (o.base + buffer) seg.address
  | none => return o.base

/-- `Relocator::fix_value_internal` and `fix_value_external`: write the value, or copy the
symbol it is the address of. -/
def fixValue (e : Env) (reloc : Relocation) (got base : Nat) (symbolSize value : Nat) :
    LoaderM Unit := do
  let target := e.libs.address reloc got base
  if e.libs.isCopy reloc then do
    let s ← get
    copyBytes target symbolSize (s.snapshot value)
  else writeMemory (e.libs.width reloc) target value

/-- Write to the remembered contents of an identity. -/
def Loader.insertContent (file : Nat) (key : Option Nat × Nat) (value : Nat) (s : Loader) : Loader :=
  { s with datarelContent := fun f =>
      if f = file then (key, value) :: (s.datarelContent f).filter fun entry => entry.1 ≠ key
      else s.datarelContent f }

/-- Note the value of a relocation in shared data (`file.datarel_content[datarel_key] = r`). -/
def noteContent (file : Nat) (key : Option (Nat × Nat)) (value : Nat) : LoaderM Unit :=
  match key with
  | some (fd, offset) => modify (Loader.insertContent file (some fd, offset) value)
  | none => pure ()

/-- Is the value of a relocation to be written: always for a copy, otherwise if it is to be
fixed and not there already? -/
def outdatedValue (e : Env) (o : Object) (reloc : Relocation) (fix : Bool) (value : Nat) :
    LoaderM Bool :=
  if e.libs.isCopy reloc then return true
  else if fix then do
    let old ← readMemory (e.libs.width reloc) (e.libs.address reloc o.globalOffsetTable o.base)
    return decide (old ≠ value % 256 ^ e.libs.width reloc)
  else return false

/-- Write a relocation value unless it is there already (`src/object/dynamic.cpp:385-390`
and `405-411`). -/
def applyValue (e : Env) (o : Object) (seg : Option (Nat × MemorySegment))
    (key : Option (Nat × Nat)) (reloc : Relocation) (fix : Bool) (symbolSize value : Nat) :
    LoaderM Unit := do
  if ← outdatedValue e o reloc fix value then do
    let base ← composeBase e o seg
    fixValue e reloc o.globalOffsetTable base symbolSize value
    noteContent o.file key value
  else pure ()

/-- The key under which the content of a relocation target is remembered
(`src/object/dynamic.cpp:361-376`). -/
def datarelKey (e : Env) (s : Loader) (o : Object) (address : Nat)
    (seg : Option (Nat × MemorySegment)) : Option (Nat × Nat) :=
  if e.config.checkRelocationContent && s.isLatestVersion o.ref then
    seg.bind fun (_, seg) => seg.fd.map fun fd => (fd, address - seg.address)
  else none

/-- The remembered content, if the program has changed it. -/
def changedContent (o : Object) (address : Nat) (key : Option (Nat × Nat)) :
    LoaderM (Option Nat) := do
  let s ← get
  match key.bind fun (fd, offset) =>
      (s.datarelContent o.file).find? fun entry => entry.1 = (some fd, offset) with
  | some (_, cached) => do
    let value ← readMemory 8 address
    return if value ≠ cached then some cached else none
  | none => return none

/-- The query for the symbol of a relocation (`src/object/dynamic.cpp:393-399`); `none` if the
symbol index is out of range. -/
def Object.neededSymbol (e : Env) (o : Object) (i : ObjectIdentity) (reloc : Relocation) :
    Option (Symbol × Query) :=
  (o.elf.dynamicSymbols[reloc.symbolIndex]?).map fun (sym, versionIndex) =>
    -- COPY Relocations have a defined symbol with the same name
    let mode : ResolveSymbolMode :=
      if e.libs.isCopy reloc then .exceptObject
      else if i.flags.bindDeep then .objectFirst else .default
    (sym, ⟨sym.name, o.elf.getVersion e.libs versionIndex, i.ns, some i.id, mode⟩)

/-- The second half of `relocate`: resolve the symbol, remember it and write the value
(`src/object/dynamic.cpp:392-420`). -/
def relocateSymbol (e : Env) (o : Object) (i : ObjectIdentity)
    (seg : Option (Nat × MemorySegment)) (key : Option (Nat × Nat)) (reloc : Relocation)
    (fix : Bool) : LoaderM (Nat × Bool) := do
  let s ← get
  let (needSymbol, query) ← Exec.orAbort (o.neededSymbol e i reloc)
  match ← Exec.orAbort (s.resolveSymbol e query) with
  | some symbol => do
    -- Update / add symbol to cache
    modify (Loader.insertRelocation o.uid reloc symbol)
    let symobj ← getObject symbol.object
    let symfile ← getIdentity symbol.object.file
    let value := e.libs.valueExternal reloc o.globalOffsetTable o.base symbol.symbol symobj.base 0
      symfile.tlsModuleId symfile.tlsOffset
    applyValue e o seg key reloc fix symbol.symbol.size value
    return (value, false)
  | none => return (0, needSymbol.bind ≠ .stbWeak)

/-- `ObjectDynamic::relocate` (`src/object/dynamic.cpp:350-422`): the returned pointer and
whether `fatal` was set. -/
def relocate (e : Env) (r : ObjectRef) (reloc : Relocation) (fix : Bool) : LoaderM (Nat × Bool) := do
  let s ← get
  let o ← getObject r
  let i ← getIdentity r.file
  let address := e.libs.address reloc o.globalOffsetTable o.base
  let seg := s.segmentAt o.uid address
  let key := datarelKey e s o address seg
  match ← changedContent o address key with
  | some cached => return (cached, false)
  | none =>
    if reloc.symbolIndex = 0 then do
      -- Local symbol
      let value := e.libs.valueInternal reloc o.globalOffsetTable o.base 0 i.tlsModuleId i.tlsOffset
      applyValue e o seg key reloc fix 0 value
      return (value, false)
    else relocateSymbol e o i seg key reloc fix

/-- Relocate one after the other until a fatal error; was there one? -/
def relocateAll (e : Env) (r : ObjectRef) : List Relocation → LoaderM Bool
  | [] => return false
  | reloc :: relocs => do
    let (_, fatal) ← relocate e r reloc true
    if fatal then return true else relocateAll e r relocs

/-- `*reinterpret_cast<uintptr_t *>(address) += base`. -/
def incrementWord (base address : Nat) : LoaderM Unit := do
  let value ← readMemory 8 address
  writeMemory 8 address (value + base)

/-- The PLT relocations (`src/object/dynamic.cpp:249-263`); was there a fatal error? -/
def preparePlt (e : Env) (r : ObjectRef) (o : Object) : LoaderM Bool := do
  -- got[0] is pointer to _DYNAMIC
  writeMemory 8 (o.base + o.globalOffsetTable + 8) o.uid
  writeMemory 8 (o.base + o.globalOffsetTable + 16) e.world.dlresolve
  let i ← getIdentity r.file
  if i.flags.bindNow then relocateAll e r o.elf.dynamicRelocationsPlt
  else do
    Exec.forEach (fun reloc => incrementWord o.base (e.libs.address reloc 0 o.base))
      o.elf.dynamicRelocationsPlt
    return false

/-- `ObjectDynamic::prepare` (`src/object/dynamic.cpp:232-266`). -/
def prepareDynamic (e : Env) (r : ObjectRef) : LoaderM Bool := do
  let o ← getObject r
  -- Perform initial relocations
  let error ← relocateAll e r o.elf.dynamicRelocations
  Exec.forEach (fun offset => incrementWord o.base (o.base + offset)) o.elf.relativeRelocations
  -- PLT relocations
  if !error && o.globalOffsetTable ≠ 0 then do
    let error ← preparePlt e r o
    return !error
  else return !error

/-- `ObjectDynamic::in_data` (`src/object/dynamic.cpp:268-274`). -/
def inData (e : Env) (s : Loader) (o : Object) (reloc : Relocation) : Bool :=
  (s.segmentAt o.uid (e.libs.address reloc o.globalOffsetTable o.base)).any fun (_, seg) =>
    seg.writable

/-- One iteration of `ObjectDynamic::update` (`src/object/dynamic.cpp:326-335`). -/
def updateRelocation (e : Env) (r : ObjectRef) (entry : Relocation × VersionedSymbol) :
    LoaderM Unit := do
  let s ← get
  let o ← getObject r
  let i ← getIdentity r.file
  if !s.isLatestVersion entry.2.object && (s.isLatestVersion r || !inData e s o entry.1) then do
    let _ ← relocate e r entry.1 (!i.flags.bindNot)
  else pure ()

/-- `ObjectDynamic::update` (`src/object/dynamic.cpp:324-348`). -/
def updateDynamic (e : Env) (r : ObjectRef) : LoaderM Bool := do
  let s ← get
  -- Apply (external) relocations
  Exec.forEach (updateRelocation e r) (s.relocations r.uid)
  return true

/-! ## Compatibility of a new version -/

/-- The symbols of `previous` that some loaded object is bound to. -/
def Loader.referencesTo (s : Loader) (previous : ObjectRef) : List VersionedSymbol :=
  (s.lookup.flatMap ObjectIdentity.versions).flatMap fun obj =>
    ((s.relocations obj.uid).map Prod.snd).filter fun sym => sym.object = previous

/-- `ObjectDynamic::patchable` (`src/object/dynamic.cpp:424-463`) of a new object against the
current one; `none` is a failed assertion. -/
def Object.patchableDynamic (e : Env) (s : Loader) (o : Object) (previous : Option Object) :
    Option Bool :=
  match previous with
  | none => some false
  | some previous =>
    if previous.elf.header.identification ≠ o.elf.header.identification
        ∨ previous.elf.header.machine ≠ o.elf.header.machine
        ∨ previous.elf.header.version ≠ o.elf.header.version then some false
    else do
      guard (previous.binaryHash && o.binaryHash)
      if !e.libs.beanPatchable o.elf previous.elf e.config.dependencyCheck e.config.relaxComparison
          && !e.config.forceUpdate then some false
      else
        -- Check if all required (referenced) symbols to previous object still exist
        some ((s.referencesTo previous.ref).all fun sym =>
          (o.resolveSymbol e.libs sym.symbol.name (Version.ofName e.libs none)).isSome)

end Luci
