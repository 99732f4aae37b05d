import Luci.Object.Base

/-!
# Trampolines

Blocks of jumps through pointers (`src/trampoline.cpp`). A block has two pages of code
and a page of pointers; it is mapped at the address the loader hands out, if that is
free, and never released.
-/

namespace Luci

open VirtualMemory

/-- `Version::operator==` (`src/symbol.hpp:93-98`). -/
def Version.same (v w : Version) : Bool :=
  v.valid && w.valid && v.hash = w.hash && v.name = w.name &&
    (v.file.isNone || w.file.isNone || (v.filehash = w.filehash && v.file = w.file))

/-- `VersionedSymbol::operator==` (`src/symbol.cpp:27-30`): the same entry of a symbol table,
or the same name and version in the same object. -/
def VersionedSymbol.same (sym other : VersionedSymbol) : Bool :=
  sym = other ||
    (sym.object = other.object && sym.symbol.name = other.symbol.name &&
      sym.version.same other.version)

/-- `VersionedSymbol::pointer` (`src/symbol.cpp:36-53`); the address of a thread-local variable
is that of the calling thread. -/
def VersionedSymbol.pointer (e : Env) (tlsAddress : ObjectRef → Nat → Nat) (s : Loader)
    (sym : VersionedSymbol) : Option Nat :=
  (s.object sym.object).map fun o =>
    let fptr := (o.base + sym.symbol.value) % 2 ^ 64
    match sym.symbol.type with
    | .sttGnuIfunc => e.world.ifunc fptr
    | .sttTls => tlsAddress sym.object sym.symbol.value
    | _ => fptr

/-- `Trampoline`. -/
structure Trampoline where
  blocks : List Nat
  symbols : List VersionedSymbol
  deriving DecidableEq, Repr

namespace Trampoline

/-- `trampoline_bytes`. -/
def trampolineBytes : Nat := 16
/-- `entries_per_block`. -/
def entriesPerBlock : Nat := pageSize / 8
/-- `trampolines_block`. -/
def trampolinesBlock : Nat := alignUp (entriesPerBlock * trampolineBytes) pageSize
/-- `mmap_size`. -/
def mmapSize : Nat := trampolinesBlock + pageSize

/-- The offset of the pointer from the end of the jump (`src/trampoline.cpp:67-69`). -/
def target (i : Nat) : Nat :=
  subWord (trampolinesBlock + 8 * i) (trampolineBytes * i + 0xa) % 2 ^ 32

/-- The bytes of trampoline `i` (`src/trampoline.cpp:71-91`). -/
def code (i k : Nat) : UInt8 :=
  -- endbr64; jmp *target(rip); [6 byte] nop
  [0xf3, 0x0f, 0x1e, 0xfa, 0xff, 0x25, byteOf (target i) 0, byteOf (target i) 1,
    byteOf (target i) 2, byteOf (target i) 3, 0x66, 0x0f, 0x1f, 0x44, 0x00, 0x00].getD k 0

/-- The content of a new block: all pointers are to `undefined_trampoline`. -/
def blockContent (undefinedTrampoline offset : Nat) : UInt8 :=
  if offset < trampolinesBlock then code (offset / trampolineBytes) (offset % trampolineBytes)
  else byteOf undefinedTrampoline (offset % 8)

/-- `mmap` of anonymous memory with a hint: elsewhere, if the range is not free. -/
def mmapHint (e : Env) (hint length : Nat) (protection : Protection) (content : Nat → UInt8) :
    LoaderM (Option Nat) := do
  let s ← get
  let start := if hint + length ≤ userLimit && s.vm.isFree hint length then hint
    else e.world.mmapAddress s.ticks
  let backing ← newBacking content
  if ← mmapFixed e start length protection backing then return some start else return none

/-- Map, fill and protect a block (`src/trampoline.cpp:60-103`). -/
def newBlock (e : Env) (undefinedTrampoline mmapAddress : Nat) : LoaderM (Option Nat) := do
  match ← mmapHint e mmapAddress mmapSize ⟨true, true, false⟩ (blockContent undefinedTrampoline) with
  | none => return none
  | some block =>
    if ← mprotect e block trampolinesBlock ⟨false, false, true⟩ then return some block
    else do
      let _ ← munmap e block mmapSize
      return none

/-- `Trampoline::allocate` (`src/trampoline.cpp:53-109`): the index of the symbol. -/
def allocate (e : Env) (undefinedTrampoline : Nat) (t : Trampoline) (sym : VersionedSymbol) :
    LoaderM (Option Nat × Trampoline) := do
  if t.blocks.length ≤ (t.symbols.length + 1) / entriesPerBlock then do
    let mmapAddress ← nextAddress e mmapSize
    match ← newBlock e undefinedTrampoline mmapAddress with
    | none => return (none, t)
    | some block => return (some t.symbols.length, ⟨t.blocks ++ [block], t.symbols ++ [sym]⟩)
  else return (some t.symbols.length, { t with symbols := t.symbols ++ [sym] })

/-- `Trampoline::index` (`src/trampoline.cpp:25-38`). -/
def index (t : Trampoline) (sym : VersionedSymbol) : Option Nat :=
  if sym.symbol.type ≠ .sttFunc ∧ sym.symbol.type ≠ .sttGnuIfunc then none
  else t.symbols.findIdx? fun known => known.same sym

/-- `Trampoline::pointer` (`src/trampoline.cpp:40-50`): the addresses of the code and of the
pointer it jumps through. -/
def pointer (t : Trampoline) (index : Nat) : Option (Nat × Nat) :=
  if index < t.symbols.length then
    t.blocks[index / entriesPerBlock]?.map fun base =>
      (base + index % entriesPerBlock * trampolineBytes,
        base + trampolinesBlock + index % entriesPerBlock * 8)
  else none

/-- `sym.object().file.current->resolve_symbol(sym)`. -/
def resolveCurrent (e : Env) (sym : VersionedSymbol) : LoaderM (Option VersionedSymbol) := do
  let s ← get
  let current ← Exec.orAbort (s.current sym.object.file)
  return current.resolveSymbol e.libs sym.symbol.name sym.version

/-- Let the trampoline jump to a symbol (`src/trampoline.cpp:128-137`, `152-160`); an index
without a pointer is their assertion. -/
def assign (e : Env) (tlsAddress : ObjectRef → Nat → Nat) (t : Trampoline) (index : Nat)
    (resolved : VersionedSymbol) : LoaderM Nat := do
  let (trampoline, address) ← Exec.orAbort (t.pointer index)
  let s ← get
  let value ← Exec.orAbort (resolved.pointer e tlsAddress s)
  writeMemory 8 address value
  return trampoline

/-- `index(sym, idx) || allocate(sym, idx)` (`src/trampoline.cpp:127`). -/
def indexOrAllocate (e : Env) (undefinedTrampoline : Nat) (t : Trampoline)
    (sym : VersionedSymbol) : LoaderM (Option Nat × Trampoline) :=
  match t.index sym with
  | some i => pure (some i, t)
  | none => t.allocate e undefinedTrampoline sym

/-- `Trampoline::set` (`src/trampoline.cpp:123-144`). -/
def set (e : Env) (undefinedTrampoline : Nat) (tlsAddress : ObjectRef → Nat → Nat)
    (t : Trampoline) (sym : VersionedSymbol) : LoaderM (Option Nat × Trampoline) := do
  -- Retrieve latest
  match ← resolveCurrent e sym with
  | none => return (none, t)
  | some resolved => do
    let (index, t) ← t.indexOrAllocate e undefinedTrampoline sym
    match index with
    | none => return (none, t)
    | some i => do
      let trampoline ← t.assign e tlsAddress i resolved
      return (some trampoline, t)

/-- The loop of `Trampoline::update` from index `i` on. -/
def updateFrom (e : Env) (tlsAddress : ObjectRef → Nat → Nat) (t : Trampoline) :
    Nat → List VersionedSymbol → LoaderM Unit
  | _, [] => return ()
  | i, sym :: rest => do
    match ← resolveCurrent e sym with
    | none => pure ()
    | some resolved => do
      let _ ← t.assign e tlsAddress i resolved
    updateFrom e tlsAddress t (i + 1) rest

/-- `Trampoline::update` (`src/trampoline.cpp:147-165`). -/
def update (e : Env) (tlsAddress : ObjectRef → Nat → Nat) (t : Trampoline) : LoaderM Unit :=
  t.updateFrom e tlsAddress 0 t.symbols

end Trampoline
end Luci
