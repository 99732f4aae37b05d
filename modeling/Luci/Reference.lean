import Luci.Misc.Range
import Luci.State

/-!
# A reference instance of the external code

The model is parametric in the external libraries and the operating system. This
file gives one instance: symbol lookup by linear search, relocations by the
formulas of the x86-64 psABI, no content hashes, and a system in which every
system call succeeds. Results that assume something of the libraries hold for it.
-/

namespace Luci

/-- `R_X86_64_64`. -/
def rX866464 : Nat := 1
/-- `R_X86_64_COPY`. -/
def rX8664Copy : Nat := 5
/-- `R_X86_64_DTPMOD64`. -/
def rX8664Dtpmod64 : Nat := 16
/-- `R_X86_64_DTPOFF64`. -/
def rX8664Dtpoff64 : Nat := 17
/-- `R_X86_64_TPOFF64`. -/
def rX8664Tpoff64 : Nat := 18

/-- The first symbol with the name and either the version index or no version asked for. -/
def Elf.referenceIndex (elf : Elf) (name : String) (versionIndex : Nat) : Nat :=
  (elf.dynamicSymbols.findIdx? fun entry =>
    entry.1.name = name && (versionIndex = verNdxGlobal || entry.2 = versionIndex)).getD 0

/-- The psABI value of a relocation without symbol. -/
def Relocation.referenceInternal (r : Relocation) (base tlsModuleId : Nat) (tlsOffset : Int) : Nat :=
  if r.type = rX8664Dtpmod64 then tlsModuleId
  else if r.type = rX8664Tpoff64 then wordOfInt (r.addend - tlsOffset)
  else wordOfInt (base + r.addend)

/-- The psABI value of a relocation against a symbol. -/
def Relocation.referenceExternal (r : Relocation) (symbol : Symbol) (symbolBase tlsModuleId : Nat)
    (tlsOffset : Int) : Nat :=
  if r.type = rX8664Dtpmod64 then tlsModuleId
  else if r.type = rX8664Dtpoff64 then wordOfInt (symbol.value + r.addend)
  else if r.type = rX8664Tpoff64 then wordOfInt (symbol.value + r.addend - tlsOffset)
  else if r.type = rX866464 then wordOfInt (symbolBase + symbol.value + r.addend)
  else symbolBase + symbol.value

/-- The libraries. -/
def Libs.reference : Libs where
  symbolIndex := Elf.referenceIndex
  elfHash name := name.length
  contentHash _ _ := 0
  beanPatchable _ _ _ _ := true
  address r _ base := base + r.offset
  isCopy r := r.type = rX8664Copy
  width _ := 8
  valueInternal r _ base _ tlsModuleId tlsOffset := r.referenceInternal base tlsModuleId tlsOffset
  valueExternal r _ _ symbol symbolBase _ tlsModuleId tlsOffset :=
    r.referenceExternal symbol symbolBase tlsModuleId tlsOffset
  validValue _ _ := true
  splitInplace paths := [paths]
  replaceInplace text _ _ := text

/-- An operating system with the given files. -/
def World.reference (file : String → Option File) : World where
  file := file
  absolute directory := some directory
  link _ := some false
  succeeds _ := true
  mmapAddress tick := 0x10000000 * (tick + 1)
  watchDescriptor path := path.length
  debugHash _ _ := none
  platform := "x86_64"
  dlresolve := 0
  ifunc address := address
  trampoline _ := 0

/-- The reference surroundings with a configuration and files. -/
def Env.reference (config : Config) (file : String → Option File) : Env where
  libs := Libs.reference
  config := config
  libraryPathRuntime := []
  libraryPathConfig := []
  libraryPathDefault := ["/lib"]
  libraryExclude := ["ld-linux-x86-64.so.2", "libdl.so.2"]
  world := World.reference file

/-- The default configuration and no files. -/
def Env.noFiles : Env := Env.reference Config.default fun _ => none

/-- An ELF file of a type with neither segments nor sections. -/
def Elf.empty (type : ElfType) : Elf where
  header := ⟨true, 0, elfosabiNone, emX8664, 1, type⟩
  segments := []
  dynamicTable := []
  dynamicSymbols := []
  dynamicRelocations := []
  dynamicRelocationsPlt := []
  relativeRelocations := []
  versionNeeded := []
  versionDefinition := []
  sections := []
  symbolTable := []
  virtOffset := 0
  bytes _ := 0

/-- The entry at `STN_UNDEF`. -/
def Symbol.null : Symbol := ⟨"", 0, 0, .stbLocal, .sttNotype, .stvDefault, .undef⟩

/-- A global function. -/
def Symbol.function (name : String) : Symbol :=
  ⟨name, 0x10, 8, .stbGlobal, .sttFunc, .stvDefault, .index 1⟩

/-- A reference to a global function. -/
def Symbol.reference (name : String) : Symbol :=
  ⟨name, 0, 0, .stbGlobal, .sttFunc, .stvDefault, .undef⟩

/-- A shared object with the given symbols, all without version. -/
def Elf.sharedObject (symbols : List Symbol) : Elf :=
  { Elf.empty .dyn with dynamicSymbols := (Symbol.null :: symbols).map fun sym => (sym, verNdxGlobal) }

/-- A writable page whose first bytes are in the file. -/
def Segment.data : Segment := ⟨.load, 0, 0, 16, 4096, 4096, true, true, false⟩

/-- A library with one page of data. -/
def Elf.library (dynamicTable : List Dyn) (symbols : List Symbol)
    (dynamicRelocations : List Relocation) : Elf :=
  { Elf.sharedObject symbols with
    segments := [.data]
    dynamicTable := dynamicTable
    dynamicRelocations := dynamicRelocations }

/-- The file with this content. -/
def File.ofElf (modificationTime : Nat) (elf : Elf) : File :=
  ⟨(modificationTime, 0), ⟨.elf, headerSize, elf⟩, none⟩

/-- The library `liby.so` has this content; updates are enabled. -/
def fileY (file : File) : Env :=
  Env.reference { Config.default with dynamicUpdate := true, dynamicDlupdate := true } fun path =>
    if path = "/lib/liby.so" then some file else none

/-- The first version needs nothing. -/
def needsNothing : Env := fileY (File.ofElf 0 (Elf.library [] [] []))

/-- Data of an object without a file. -/
def Data.none : Data := ⟨(0, 0), 0, Option.none, 0, 0⟩

/-- An identity of the base namespace in the global scope. -/
def ObjectIdentity.global (id : Nat) (name : String) (versions : List Object) : ObjectIdentity where
  id := id
  ns := 0
  name := name
  path := "/lib/" ++ name
  flags := { Flags.zero with bindGlobal := true }
  base := 0
  dynamic := 0
  tlsModuleId := 0
  tlsOffset := 0
  versions := versions
  wd := none
  hook := ⟨none, none, none, false⟩

end Luci
