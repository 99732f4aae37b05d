import Luci.Object.Dynamic

/-!
# Relocatable objects

`ObjectRelocatable` (`src/object/relocatable.cpp`): sections are laid out one after
the other, symbols and relocations are moved along in the copy of the file, writable
data of the previous version is reused, and relocations are applied without a PLT.
-/

namespace Luci

/-- `ObjectRelocatable::ObjectRelocatable` (`src/object/relocatable.cpp:28-51`). -/
def constructRelocatable (e : Env) (file : Nat) (elf : Elf) (data : Data) : LoaderM Object := do
  let uid ← freshAddress
  let o := Object.construct uid file .relocatable elf data
  -- Updates require rewriting of old files
  modify (Loader.modifyIdentity file fun i =>
    { i with flags := { i.flags with updateOutdated := i.flags.updateOutdated || i.flags.updatable } })
  let s ← get
  let current := s.current file
  let address ← nextAddress e 0
  match current with
  | none => return { o with base := address, offset := 0 }
  | some current => do
    Exec.require (current.base < address)
    return { o with base := current.base, offset := address - current.base }

/-! ## Layout -/

/-- `HashSet::insert`, which keeps an element that is there already. -/
def insertSymbol (symbols : List (Symbol × ObjectRef)) (sym : Symbol) (owner : ObjectRef) :
    List (Symbol × ObjectRef) :=
  if symbols.any fun entry => entry.1.name = sym.name then symbols else (sym, owner) :: symbols

/-- The symbol types that are moved with their section. -/
def SymbolType.moves : SymbolType → Bool
  | .sttNotype | .sttObject | .sttFunc | .sttSection | .sttGnuIfunc | .sttTls => true
  | _ => false

/-- What `adjust_offsets` changes: symbol table, lookup list, and whether anything was moved. -/
structure Adjusted where
  symbolTable : List Symbol
  symbols : List (Symbol × ObjectRef)
  changed : Bool

/-- A symbol of the section in `adjust_offsets` (`src/object/relocatable.cpp:206-232`). -/
def Adjusted.addSymbol (previous : Option Object) (writeable : Bool) (owner : ObjectRef)
    (offset : Nat) (a : Adjusted) (sym : Symbol) : Adjusted :=
  -- For updated versions, check previous writable data sections
  let reused := (if writeable then previous else none).bind fun p =>
    (p.resolveInternalSymbol sym.name).filter fun entry =>
      entry.1.type = sym.type && entry.1.size = sym.size
  match reused with
  | some (prevSym, prevOwner) =>
    { a with
      symbolTable := a.symbolTable ++ [{ sym with value := prevSym.value }]
      symbols := insertSymbol a.symbols prevSym prevOwner }
  | none =>
    if sym.type.moves then
      let moved := { sym with value := sym.value + offset }
      ⟨a.symbolTable ++ [moved], insertSymbol a.symbols moved owner, true⟩
    else { a with symbolTable := a.symbolTable ++ [sym] }

/-- The symbols in `adjust_offsets`. -/
def Object.adjustSymbols (o : Object) (previous : Option Object) (index : Nat) (sec : Section)
    (offset : Nat) : Object × Bool :=
  let a := o.elf.symbolTable.foldl (fun (a : Adjusted) sym =>
    if sym.sectionIndex = .index index then
      a.addSymbol previous sec.writeable o.ref offset sym
    else { a with symbolTable := a.symbolTable ++ [sym] }) ⟨[], o.symbols, false⟩
  ({ o with elf := { o.elf with symbolTable := a.symbolTable }, symbols := a.symbols }, a.changed)

/-- `static_cast<int16_t>(linked.info()) == index`. -/
def Section.linksTo (linked : Section) (index : Nat) : Bool :=
  linked.info % 2 ^ 16 < 2 ^ 15 && linked.info % 2 ^ 16 = index

/-- A relocation section whose relocations are moved along. -/
def Section.relocates (linked : Section) (index : Nat) : Bool :=
  linked.size ≠ 0 && (linked.type = .rel || linked.type = .rela) && linked.linksTo index

/-- `ObjectRelocatable::adjust_offsets` (`src/object/relocatable.cpp:194-263`). -/
def Object.adjustOffsets (o : Object) (previous : Option Object) (offset index : Nat)
    (sec : Section) : Object × Bool :=
  let (o, symbolsChanged) :=
    if o.elf.sections.any fun linked => linked.size ≠ 0 && linked.type = .symtab then
      o.adjustSymbols previous index sec offset
    else (o, false)
  let relocationsChanged := o.elf.sections.any fun linked =>
    linked.relocates index && !linked.relocations.isEmpty
  let sections := o.elf.sections.map fun linked =>
    if linked.relocates index then
      { linked with relocations := linked.relocations.map fun r =>
          { r with offset := r.offset + offset } }
    else linked
  ({ o with elf := { o.elf with sections := sections } }, symbolsChanged || relocationsChanged)

/-- What `preload` builds while it goes through the sections. -/
structure Layout where
  object : Object
  segments : List MemorySegment
  tdata : Option Nat
  tbss : Option Nat

/-- Append a section to the layout and go on at the next free page. -/
def Layout.emplace (l : Layout) (premapped : Bool) (sec : Section) (additionalSize : Nat) :
    Option Layout := do
  let seg ← MemorySegment.ofSection premapped sec l.object.offset additionalSize l.object.base
  some { l with
    object := { l.object with offset := (l.object.offset + seg.pageSize) % 2 ^ 64 }
    segments := l.segments ++ [seg] }

/-- `String::compare(name, start, 5) == 0` of the initialisation sections. -/
def Section.isInitFini (sec : Section) : Bool :=
  sec.type = .progbits && (sec.name.toList.take 5 = ".init".toList ||
    sec.name.toList.take 5 = ".fini".toList)

/-- `16 + sizeof(ErrorHandlingFrameHeader) * 8`. -/
def ehFrameSpace : Nat := 16 + 20 * 8

/-- An allocated section with contents (`src/object/relocatable.cpp:116-144`). -/
def Layout.addAllocated (l : Layout) (premapped : Bool) (previous : Option Object) (index : Nat)
    (sec : Section) : Option Layout :=
  let isInit := previous.isNone && sec.isInitFini
  let isEh := sec.type = .progbits && sec.name = ".eh_frame"
  let additionalSize := (if isInit then 1 else 0) + (if isEh then ehFrameSpace else 0)
  let o := { l.object with
    initSections := if isInit then l.object.initSections ++ [index] else l.object.initSections
    ehSection := if isEh then some index else l.object.ehSection }
  -- Fixup symbols & relocations
  let (o, changed) := o.adjustOffsets previous o.offset index sec
  let l := { l with object := o }
  -- If the whole writeable data/bss can be used from previous sections,
  -- there is no need to allocate it
  if previous.isNone || changed || !sec.writeable then l.emplace premapped sec additionalSize
  else some l

/-- The types of sections that are loaded. -/
def SectionType.loads : SectionType → Bool
  | .nobits | .progbits | .x8664Unwind | .initArray | .finiArray | .preinitArray => true
  | _ => false

/-- One iteration over the sections in `preload` (`src/object/relocatable.cpp:91-154`). The
section is read from the object, whose tables may have been moved. -/
def Layout.addSection (premapped : Bool) (previous : Option Object) (l : Layout) (index : Nat) :
    Option Layout := do
  let sec ← l.object.elf.sections[index]?
  let l := { l with object := { l.object with
    offsetSections := l.object.offsetSections ++ [l.object.offset] } }
  if sec.size = 0 then some l
  else if sec.tls && sec.allocate then
    if sec.type = .nobits then some { l with tbss := some index }
    else Layout.emplace { l with tdata := some index } premapped sec 0
  else if sec.type.loads then
    if sec.allocate then l.addAllocated premapped previous index sec else some l
  else if sec.type = .rel || sec.type = .rela then
    -- Only relocations for allocated sections (linked in the info attribute)
    if sec.info ≠ 0 && (l.object.elf.sections[sec.info]?).any (·.allocate) then
      some { l with object := { l.object with
        relocationTables := l.object.relocationTables ++ [index] } }
    else some l
  else some l

/-- The missing external symbols of an update (`src/object/relocatable.cpp:72-88`); `none` is a
failed assertion of the lookup. -/
def Object.missingSymbols (e : Env) (s : Loader) (o : Object) (i : ObjectIdentity) :
    Option (List Symbol) :=
  o.elf.symbolTable.filterM fun sym =>
    if sym.undefined && sym.bind = .stbGlobal then do
      let found ← s.resolveSymbol e
        ⟨sym.name, Version.ofName e.libs none, i.ns, some i.id, .default⟩
      some (found.isNone && sym.name ≠ "_GLOBAL_OFFSET_TABLE_")
    else some false

/-- Size, alignment, image and image size of the thread local storage
(`src/object/relocatable.cpp:157-183`), with the symbols of `.tbss` moved behind `.tdata`. -/
def Layout.tls (l : Layout) (previous : Option Object) : (Nat × Nat × Nat × Nat) × Layout :=
  let section? := fun index => index.bind fun n => l.object.elf.sections[n]?
  let tdata := section? l.tdata
  let tlsSize := (tdata.map Section.size).getD 0
  let alignment := (tdata.map Section.alignment).getD 0
  let image := (l.tdata.bind fun n => l.object.offsetSections[n]?).getD 0
  match l.tbss, section? l.tbss with
  | some index, some tbss =>
    let l := if tlsSize ≠ 0 then
        { l with object := (l.object.adjustOffsets previous tlsSize index tbss).1 }
      else l
    ((tlsSize + tbss.size, max alignment tbss.alignment, image, tlsSize), l)
  | _, _ => ((tlsSize, alignment, image, tlsSize), l)

/-- The members of an object that its layout determines. -/
def Object.layoutOf (layout o : Object) : Object :=
  { o with
    elf := layout.elf
    offset := layout.offset
    relocationTables := layout.relocationTables
    initSections := layout.initSections
    ehSection := layout.ehSection
    offsetSections := layout.offsetSections
    symbols := layout.symbols }

/-- `ObjectRelocatable::preload` (`src/object/relocatable.cpp:67-186`). -/
def preloadRelocatable (e : Env) (r : ObjectRef) : LoaderM Bool := do
  let s ← get
  let o ← getObject r
  let i ← getIdentity r.file
  let previous := s.filePrevious r
  -- Check availability of external symbols on updates
  let missing ← Exec.orAbort
    (if previous.isSome && !e.config.forceUpdate then o.missingSymbols e s i else some [])
  if !missing.isEmpty then return false
  else do
    let l ← Exec.orAbort ((List.range o.elf.sections.length).foldlM
      (Layout.addSection i.flags.premapped previous) ⟨o, [], none, none⟩)
    -- Setup TLS
    let withTls := (l.tdata.isSome || l.tbss.isSome) && i.tlsModuleId = 0
    let (size, alignment, image, imageSize) := (l.tls previous).1
    let l := if withTls then (l.tls previous).2 else l
    modify (Loader.modifyObject r l.object.layoutOf)
    modify (Loader.setMemoryMap r.uid l.segments)
    Exec.onlyIf withTls (addTlsModule r.file size alignment image imageSize)
    return !l.segments.isEmpty

/-! ## Tentative definitions -/

/-- What `preprepare` changes while it goes through the symbol table. -/
structure Common where
  symbolTable : List Symbol
  symbols : List (Symbol × ObjectRef)
  globalBss : Nat
  commonBase : Nat

/-- A definition of a tentative symbol in a loaded object, with the base of its identity;
`none` if an identity has no current version. The object itself has got the symbols inserted
so far. -/
def findCommon (own : Nat) (symbols : List (Symbol × ObjectRef)) (sym : Symbol) :
    List ObjectIdentity → Option (Option (Symbol × ObjectRef × Nat))
  | [] => some none
  | file :: files => do
    let current ← file.current
    let current := if current.uid = own then { current with symbols := symbols } else current
    match (current.resolveInternalSymbol sym.name).filter fun entry =>
        entry.1.type = sym.type && entry.1.size = sym.size with
    | some (initSym, owner) => some (some (initSym, owner, file.base))
    | none => findCommon own symbols sym files

/-- Get free address. -/
def commonAddress (e : Env) (c : Common) : LoaderM Nat :=
  if c.commonBase = 0 then nextAddress e 0 else return c.commonBase

/-- A symbol in the loop of `preprepare` (`src/object/relocatable.cpp:275-309`). -/
def prepareCommon (e : Env) (o : Object) (c : Common) (sym : Symbol) : LoaderM Common := do
  if sym.size ≠ 0 && sym.sectionIndex = .common then do
    let s ← get
    match ← Exec.orAbort (findCommon o.uid c.symbols sym s.lookup) with
    | some (initSym, owner, base) =>
      return { c with
        symbolTable := c.symbolTable ++ [{ sym with value := subWord (base + initSym.value) o.base }]
        symbols := insertSymbol c.symbols initSym owner }
    | none => do
      -- Value is alignment
      let start := alignUp c.globalBss sym.value
      let commonBase ← commonAddress e c
      Exec.require (o.base < commonBase)
      let placed := { sym with value := commonBase - o.base + start }
      return ⟨c.symbolTable ++ [placed], insertSymbol c.symbols placed o.ref, start + sym.size,
        commonBase⟩
  else return { c with symbolTable := c.symbolTable ++ [sym] }

/-- `ObjectRelocatable::preprepare` (`src/object/relocatable.cpp:266-319`). -/
def preprepareRelocatable (e : Env) (r : ObjectRef) : LoaderM Unit := do
  let o ← getObject r
  if o.preprepared then pure ()
  else do
    let c ← o.elf.symbolTable.foldlM (prepareCommon e o) ⟨[], o.symbols, 0, 0⟩
    modify (Loader.modifyObject r fun o =>
      { o with
        elf := { o.elf with symbolTable := c.symbolTable }
        symbols := c.symbols
        preprepared := true })
    -- Allocate and map
    if 0 < c.globalBss then do
      let o ← getObject r
      let (_, seg) ← (MemorySegment.ofBss (c.commonBase - o.base) c.globalBss o.base).map e o
      modify fun s => s.setMemoryMap r.uid (s.memoryMap r.uid ++ [seg])
    else pure ()

/-! ## Relocation -/

/-- `R_X86_64_PC32`. -/
def rX8664Pc32 : Nat := 2
/-- `R_X86_64_PLT32`. -/
def rX8664Plt32 : Nat := 4
/-- `R_X86_64_GOTPCRELX`. -/
def rX8664Gotpcrelx : Nat := 41
/-- `R_X86_64_REX_GOTPCRELX`. -/
def rX8664RexGotpcrelx : Nat := 42

/-- Rewriting of instructions that would need a GOT (`src/object/relocatable.cpp:450-478`). -/
def relaxGot (base : Nat) (reloc : Relocation) : LoaderM Unit := do
  if reloc.type = rX8664Gotpcrelx ∨ reloc.type = rX8664RexGotpcrelx then do
    let instruction := base + reloc.offset - 2
    let opcode ← readMemory 1 instruction
    let modrm ← readMemory 1 (instruction + 1)
    if opcode = 0x8b then do
      -- MOV becomes LEA
      Exec.require (reloc.addend = -4)
      writeMemory 1 instruction 0x8d
    else if opcode = 0xff ∧ modrm = 0x15 then do
      -- CALL [rip + ...] becomes NOP; CALL
      Exec.require (reloc.addend = -4)
      writeMemory 1 instruction 0x90
      writeMemory 1 (instruction + 1) 0xe8
    else if opcode = 0xff ∧ modrm = 0x25 then do
      -- JMP [rip + ...] becomes NOP; JMP
      Exec.require (reloc.addend = -4)
      writeMemory 1 instruction 0x90
      writeMemory 1 (instruction + 1) 0xe9
    else pure ()
  else pure ()

/-- Functions, which have a newer version at another address. -/
def SymbolType.isFunction (type : SymbolType) : Bool := type = .sttFunc || type = .sttGnuIfunc

/-- A relocation against a symbol the object defines (`src/object/relocatable.cpp:488-511`).
The flag tells that the relocation was postponed. -/
def relocateDefined (e : Env) (o : Object) (i : ObjectIdentity) (reloc : Relocation)
    (needed : Symbol) (postpone : Bool) : LoaderM (Nat × Bool) := do
  if needed.type = .sttGnuIfunc ∧ postpone then return (0, true)
  else do
    let s ← get
    let pltEntry := if needed.type = .sttGnuIfunc then e.world.ifunc (o.base + needed.value)
      else o.base + needed.value
    -- Special case: We have a newer version of a function
    let newer := (if !s.isLatestVersion o.ref && needed.type.isFunction then s.current o.file
      else none).bind fun current =>
        ((current.resolveInternalSymbol needed.name).filter fun latest =>
          needed.type = latest.1.type).map fun latest => (current, latest)
    match newer with
    | some (current, latest, owner) => do
      modify (Loader.insertRelocation o.uid reloc ⟨latest, owner, Version.ofName e.libs none⟩)
      let value := e.libs.valueExternal reloc 0 o.base latest current.base
        (current.base + latest.value) i.tlsModuleId i.tlsOffset
      fixValue e reloc 0 o.base latest.size value
      return (value, false)
    | none => do
      -- Local symbol
      modify (Loader.insertRelocation o.uid reloc ⟨needed, o.ref, Version.ofName e.libs none⟩)
      let value := e.libs.valueInternal reloc 0 o.base pltEntry i.tlsModuleId i.tlsOffset
      fixValue e reloc 0 o.base needed.size value
      return (value, false)

/-- The value of a relocation against an external symbol, through a trampoline if the target
is too far away (`src/object/relocatable.cpp:524-534`). -/
def externalValue (e : Env) (o symobj : Object) (i : ObjectIdentity) (reloc : Relocation)
    (symbol : VersionedSymbol) : Nat :=
  let value := e.libs.valueExternal reloc 0 o.base symbol.symbol symobj.base
    (symobj.base + symbol.symbol.value) i.tlsModuleId i.tlsOffset
  if !e.libs.validValue reloc value && symbol.symbol.type.isFunction then
    if reloc.type = rX8664Plt32 then
      e.libs.valueExternal reloc 0 o.base symbol.symbol symobj.base (e.world.trampoline symbol)
        i.tlsModuleId i.tlsOffset
    else if reloc.type = rX8664Pc32 then
      e.libs.valueExternal reloc 0 o.base symbol.symbol
        (subWord (e.world.trampoline symbol) symbol.symbol.value) 0 i.tlsModuleId i.tlsOffset
    else value
  else value

/-- A relocation against an external symbol (`src/object/relocatable.cpp:512-542`). -/
def relocateExternal (e : Env) (o : Object) (i : ObjectIdentity) (reloc : Relocation)
    (needed : Symbol) (postpone : Bool) : LoaderM (Nat × Bool) := do
  let s ← get
  let mode : ResolveSymbolMode :=
    if e.libs.isCopy reloc then .exceptObject
    else if i.flags.bindDeep then .objectFirst else .default
  match ← Exec.orAbort (s.resolveSymbol e
      ⟨needed.name, Version.ofName e.libs none, i.ns, some i.id, mode⟩) with
  | some symbol => do
    modify (Loader.insertRelocation o.uid reloc symbol)
    let symobj ← getObject symbol.object
    if postpone ∧ symbol.symbol.type = .sttGnuIfunc then return (0, true)
    else do
      let value := externalValue e o symobj i reloc symbol
      fixValue e reloc 0 o.base symbol.symbol.size value
      return (value, false)
  | none => return (0, false)

/-- `ObjectRelocatable::relocate` (`src/object/relocatable.cpp:438-547`): the returned pointer,
and whether the relocation was postponed. -/
def relocateInRelocatable (e : Env) (r : ObjectRef) (reloc : Relocation) (postpone : Bool) :
    LoaderM (Nat × Bool) := do
  let o ← getObject r
  let i ← getIdentity r.file
  relaxGot o.base reloc
  if reloc.symbolIndex = 0 then do
    let value := e.libs.valueInternal reloc 0 o.base 0 i.tlsModuleId i.tlsOffset
    fixValue e reloc 0 o.base 0 value
    return (value, false)
  else do
    let needed ← Exec.orAbort o.elf.symbolTable[reloc.symbolIndex]?
    if !needed.undefined then relocateDefined e o i reloc needed postpone
    else relocateExternal e o i reloc needed postpone

/-- The relocations of the relocation tables, as they are after `preload`. -/
def Object.tableRelocations (o : Object) : List Relocation :=
  o.relocationTables.flatMap fun n => ((o.elf.sections[n]?).map Section.relocations).getD []

/-- The first pass of `prepare` (`src/object/relocatable.cpp:326-336`): did all relocations
succeed, and which are postponed? -/
def relocateTables (e : Env) (r : ObjectRef) : List Relocation → LoaderM (Bool × List Relocation)
  | [] => return (true, [])
  | reloc :: relocs => do
    let (value, postponed) ← relocateInRelocatable e r reloc true
    let (success, rest) ← relocateTables e r relocs
    return ((value ≠ 0 || postponed) && success, if postponed then reloc :: rest else rest)

/-- Start address and size of a section after `preload`. -/
def Object.sectionRange (o : Object) (n : Nat) : Nat × Nat :=
  ((o.base + (o.offsetSections[n]?).getD 0) % 2 ^ 64, ((o.elf.sections[n]?).map Section.size).getD 0)

/-- The header for the error handling frame (`src/object/relocatable.cpp:347-352`). -/
def writeEhHeader (start size : Nat) : LoaderM Unit := do
  let header := (start + size + 16) / 16 * 16
  writeMemory 4 header 0xffff0401
  writeMemory 8 (header + 4) start
  writeMemory 8 (header + 12) 0

/-- The additions to sections after relocation (`src/object/relocatable.cpp:347-360`): the header
for the error handling frame and the return instructions. -/
def finishSections (o : Object) : LoaderM Unit := do
  Exec.forEach (fun n => writeEhHeader (o.sectionRange n).1 (o.sectionRange n).2)
    o.ehSection.toList
  Exec.forEach (fun n => writeMemory 1 ((o.sectionRange n).1 + (o.sectionRange n).2) 0xc3)
    o.initSections

/-- `ObjectRelocatable::prepare` (`src/object/relocatable.cpp:321-366`). -/
def prepareRelocatable (e : Env) (r : ObjectRef) : LoaderM Bool := do
  let o ← getObject r
  let (success, postponed) ← relocateTables e r o.tableRelocations
  -- indirect function symbols have to be resolved after all other relocations
  let postponedSuccess ← Exec.eachOf (fun reloc => do
    let (value, _) ← relocateInRelocatable e r reloc false
    return value ≠ 0) postponed
  finishSections o
  return success && postponedSuccess

/-- One iteration of `ObjectRelocatable::update` (`src/object/relocatable.cpp:370-376`). -/
def updateInRelocatable (e : Env) (r : ObjectRef) (entry : Relocation × VersionedSymbol) :
    LoaderM Unit := do
  let s ← get
  if !s.isLatestVersion entry.2.object &&
      (entry.2.symbol.type.isFunction || entry.2.symbol.type = .sttSection) then do
    let _ ← relocateInRelocatable e r entry.1 false
  else pure ()

/-- `ObjectRelocatable::update` (`src/object/relocatable.cpp:369-379`). -/
def updateRelocatable (e : Env) (r : ObjectRef) : LoaderM Bool := do
  let s ← get
  Exec.forEach (updateInRelocatable e r) (s.relocations r.uid)
  return true

/-- `ObjectRelocatable::patchable` (`src/object/relocatable.cpp:382-390`). -/
def Object.patchableRelocatable (o : Object) (previous : Option Object) : Bool :=
  previous.any fun p =>
    p.elf.header.identification = o.elf.header.identification
      && p.elf.header.type = o.elf.header.type
      && p.elf.header.machine = o.elf.header.machine
      && p.elf.header.version = o.elf.header.version

end Luci
