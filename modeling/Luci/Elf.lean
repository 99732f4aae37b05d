import Luci.Misc.VirtualMemory

/-!
# ELF files as the loader sees them

The decoded view of an ELF file that `elfo` (an external parser) gives to the
loader: header, segments, dynamic section, symbol and version tables,
relocations, and for relocatable files the sections. Only what a modelled
function reads is kept. Addresses and sizes are natural numbers.
-/

namespace Luci

/-- `Elf::ehdr_type`; `none` asks to determine the type from the header. -/
inductive ElfType where
  | none
  | rel
  | exec
  | dyn
  | other (value : Nat)
  deriving DecidableEq, Repr

/-- The fields of the ELF header that are checked. -/
structure Header where
  /-- `header.valid()`: magic, class and data encoding. -/
  valid : Bool
  /-- `header.identification`, compared as a whole. -/
  identification : Nat
  /-- `header.ident_abi()`. -/
  identAbi : Nat
  machine : Nat
  version : Nat
  type : ElfType
  deriving DecidableEq, Repr

/-- `Elf::ELFOSABI_NONE`. -/
def elfosabiNone : Nat := 0
/-- `Elf::ELFOSABI_LINUX`. -/
def elfosabiLinux : Nat := 3
/-- `Elf::EM_X86_64`. -/
def emX8664 : Nat := 62
/-- `sizeof(Elf::Header)`. -/
def headerSize : Nat := 64

/-- Segment types. -/
inductive SegmentType where
  | load
  | dynamic
  | tls
  | gnuEhFrame
  | gnuRelro
  | other (value : Nat)
  deriving DecidableEq, Repr

/-- A program header. -/
structure Segment where
  type : SegmentType
  offset : Nat
  virtAddr : Nat
  size : Nat
  virtSize : Nat
  alignment : Nat
  readable : Bool
  writeable : Bool
  executable : Bool
  deriving DecidableEq, Repr

/-- Symbol bindings. -/
inductive SymbolBind where
  | stbLocal
  | stbGlobal
  | stbWeak
  | other (value : Nat)
  deriving DecidableEq, Repr

/-- Symbol types. -/
inductive SymbolType where
  | sttNotype
  | sttObject
  | sttFunc
  | sttSection
  | sttCommon
  | sttTls
  | sttGnuIfunc
  | other (value : Nat)
  deriving DecidableEq, Repr

/-- Symbol visibilities. -/
inductive Visibility where
  | stvDefault
  | stvInternal
  | stvHidden
  | stvProtected
  deriving DecidableEq, Repr

/-- The section a symbol is defined in. -/
inductive SectionIndex where
  | undef
  | abs
  | common
  | index (value : Nat)
  deriving DecidableEq, Repr

/-- An entry of a symbol table. -/
structure Symbol where
  name : String
  value : Nat
  size : Nat
  bind : SymbolBind
  type : SymbolType
  visibility : Visibility
  sectionIndex : SectionIndex
  deriving DecidableEq, Repr

/-- `sym.undefined()`. -/
def Symbol.undefined (sym : Symbol) : Bool := decide (sym.sectionIndex = .undef)

/-- An auxiliary entry of the version dependency section. -/
structure VersionAuxiliary where
  name : String
  hash : Nat
  weak : Bool
  versionIndex : Nat
  deriving DecidableEq, Repr

/-- An entry of the version dependency section (`Elf::VersionNeeded`). -/
structure VersionNeeded where
  file : String
  auxiliary : List VersionAuxiliary
  deriving DecidableEq, Repr

/-- An entry of the version definition section (`Elf::VersionDefinition`);
`name` is the name of its first auxiliary entry. -/
structure VersionDefinition where
  base : Bool
  hash : Nat
  weak : Bool
  versionIndex : Nat
  name : String
  deriving DecidableEq, Repr

/-- `Elf::VER_NDX_GLOBAL`. -/
def verNdxGlobal : Nat := 1

/-- A relocation with its addend; the type is the number of the psABI. -/
structure Relocation where
  offset : Nat
  type : Nat
  symbolIndex : Nat
  addend : Int
  deriving DecidableEq, Repr

/-- An entry of the dynamic section that the loader looks at. -/
inductive Dyn where
  | needed (library : String)
  | soname (name : String)
  | rpath (paths : String)
  | runpath (paths : String)
  | flags (value : Nat)
  | flags1 (value : Nat)
  | pltgot (address : Nat)
  | other (tag value : Nat)
  deriving DecidableEq, Repr

/-- `Elf::DF_BIND_NOW`. -/
def dfBindNow : Nat := 0x8
/-- `Elf::DF_1_NOW`. -/
def df1Now : Nat := 0x1
/-- `Elf::DF_1_GLOBAL`. -/
def df1Global : Nat := 0x2

/-- Section types. -/
inductive SectionType where
  | progbits
  | symtab
  | rela
  | nobits
  | rel
  | initArray
  | finiArray
  | preinitArray
  | x8664Unwind
  | other (value : Nat)
  deriving DecidableEq, Repr

/-- A section. Relocation sections carry their entries; the entries of the (only)
`SHT_SYMTAB` section are in `Elf.symbolTable`. -/
structure Section where
  name : String
  type : SectionType
  offset : Nat
  size : Nat
  alignment : Nat
  info : Nat
  allocate : Bool
  writeable : Bool
  executable : Bool
  tls : Bool
  relocations : List Relocation
  deriving DecidableEq, Repr

/-- The decoded file. -/
structure Elf where
  header : Header
  segments : List Segment
  /-- Entries of the dynamic section, in order. -/
  dynamicTable : List Dyn
  /-- `dynamic_symbols` with the version index of each symbol; entry 0 is `STN_UNDEF`. -/
  dynamicSymbols : List (Symbol × Nat)
  dynamicRelocations : List Relocation
  dynamicRelocationsPlt : List Relocation
  /-- Offsets named by `DT_RELR`, expanded and in order. -/
  relativeRelocations : List Nat
  versionNeeded : List VersionNeeded
  versionDefinition : List VersionDefinition
  sections : List Section
  symbolTable : List Symbol
  /-- `virt_offset()`. -/
  virtOffset : Nat
  /-- The bytes of the file. -/
  bytes : Nat → UInt8

/-- `dynamic_table.get_soname()`, the first `DT_SONAME`. -/
def Elf.getSoname (elf : Elf) : Option String :=
  elf.dynamicTable.findSome? fun
    | .soname name => some name
    | _ => none

/-- `dynamic_table.at(Elf::DT_PLTGOT)`, 0 without such an entry. -/
def Elf.pltgot (elf : Elf) : Nat :=
  (elf.dynamicTable.findSome? fun
    | .pltgot address => some address
    | _ => none).getD 0

/-- What `File::contents::format` recognises. -/
inductive Format where
  | elf
  | ar
  | other
  deriving DecidableEq, Repr

/-- The content of a file or of a memory area. -/
structure Image where
  format : Format
  size : Nat
  elf : Elf

/-- An entry of a static library. -/
structure ArchiveEntry where
  name : String
  regular : Bool
  image : Image

/-- A file: its modification time, its content and, for static libraries, the entries
(`none` if the archive is not valid). -/
structure File where
  modificationTime : Nat × Nat
  image : Image
  archive : Option (List ArchiveEntry)

/-- `supported` (`src/object/identity.cpp:26-60`) on the x86-64 platform. -/
def supported (header : Header) : Bool :=
  if !header.valid then false
  else if header.identAbi ≠ elfosabiNone ∧ header.identAbi ≠ elfosabiLinux then false
  else if header.machine ≠ emX8664 then false
  else true

end Luci
