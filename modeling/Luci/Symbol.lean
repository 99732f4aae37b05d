import Luci.State
import Luci.Misc.Preference

/-!
# Symbols

Version tables of an object, symbol lookup in one object, and the lookup over
all loaded objects, `Loader::resolve_symbol`. The hashes the source passes along
are functions of the name and are left out.
-/

namespace Luci

/-- `Version(const char * name)`. -/
def Version.ofName (libs : Libs) (name : Option String) : Version :=
  ⟨name, none, (name.map libs.elfHash).getD 0, 0, true, false⟩

/-- The version definitions are skipped if the version belongs to another file. -/
def Elf.skipVersionDefinition (elf : Elf) (version : Version) : Bool :=
  match version.file, elf.versionDefinition.find? (·.base) with
  | some file, some v => decide (version.filehash ≠ v.hash ∨ v.name ≠ file)
  | _, _ => false

/-- `ObjectDynamic::version_index` (`src/object/dynamic.hpp:76-105`). -/
def Elf.versionIndex (elf : Elf) (version : Version) : Nat :=
  match version.valid, version.name with
  | true, some name =>
    -- Version Definition Section
    let defined :=
      if elf.skipVersionDefinition version then none
      else elf.versionDefinition.find? fun v => v.hash = version.hash && !v.base && v.name = name
    match defined with
    | some v => v.versionIndex
    | none =>
      -- Version Dependency Section
      let needed := elf.versionNeeded.findSome? fun v =>
        if version.file = none ∨ version.file = some v.file then
          v.auxiliary.find? fun aux => aux.hash = version.hash && aux.name = name
        else none
      match needed with
      | some aux => aux.versionIndex
      | none => verNdxGlobal
  | _, _ => verNdxGlobal

/-- `ObjectDynamic::get_version` (`src/object/dynamic.hpp:107-130`). -/
def Elf.getVersion (libs : Libs) (elf : Elf) (index : Nat) : Version :=
  if index = verNdxGlobal then Version.ofValid true
  else
    -- Version Dependency Section
    let needed := elf.versionNeeded.findSome? fun v =>
      (v.auxiliary.find? fun aux => aux.versionIndex = index).map fun aux => (v, aux)
    match needed with
    | some (v, aux) => ⟨some aux.name, some v.file, aux.hash, libs.elfHash v.file, true, aux.weak⟩
    | none =>
      -- Version Definition Section; the loop over the base entries has no break
      let base := elf.versionDefinition.reverse.find? (·.base)
      match elf.versionDefinition.find? (fun v => v.versionIndex = index && !v.base) with
      | some v =>
        ⟨some v.name, base.map (·.name), v.hash, (base.map (·.hash)).getD 0, true, v.weak⟩
      | none => Version.ofValid false

/-- A symbol that other objects may bind to. -/
def Symbol.external (sym : Symbol) : Bool :=
  !sym.undefined && sym.bind ≠ .stbLocal && sym.visibility = .stvDefault

/-- `resolve_symbol` of one object: `ObjectDynamic` (`src/object/dynamic.cpp:466-490`),
`ObjectRelocatable` (`src/object/relocatable.cpp:406-415`), and the default of `Object`. -/
def Object.resolveSymbol (libs : Libs) (o : Object) (name : String) (version : Version) :
    Option VersionedSymbol :=
  match o.kind with
  | .executable => none
  | .dynamic =>
    let found := libs.symbolIndex o.elf name (o.elf.versionIndex version)
    if found ≠ 0 then
      match o.elf.dynamicSymbols[found]? with
      | some (nakedSym, symbolVersionIndex) =>
        if nakedSym.external then
          some ⟨nakedSym, o.ref, o.elf.getVersion libs symbolVersionIndex⟩
        else none
      | none => none
    else none
  | .relocatable =>
    match o.symbols.find? fun entry => entry.1.name = name with
    | some (sym, owner) =>
      if sym.external then some ⟨sym, owner, Version.ofName libs none⟩ else none
    | none => none

/-- `ObjectRelocatable::resolve_internal_symbol` (`src/object/relocatable.cpp:393-403`);
the other classes have none. -/
def Object.resolveInternalSymbol (o : Object) (name : String) : Option (Symbol × ObjectRef) :=
  match o.kind with
  | .relocatable =>
    (o.symbols.find? fun entry => entry.1.name = name).filter fun entry => !entry.1.undefined
  | _ => none

/-- Weak dynamic linkage is only taken into account if `dynamic_weak` is set. -/
def VersionedSymbol.strong (config : Config) (sym : VersionedSymbol) : Bool :=
  sym.symbol.bind ≠ .stbWeak || !config.dynamicWeak

/-- `Object::has_symbol` (`src/object/base.cpp:259-272`): the flag is the return value,
the symbol the reference parameter. -/
def Object.hasSymbol (e : Env) (o : Object) (name : String) (version : Version)
    (result : Option VersionedSymbol) : Bool × Option VersionedSymbol :=
  match o.resolveSymbol e.libs name version with
  | none => (false, result)
  | some tmp =>
    let strong := tmp.strong e.config
    if strong || result.isNone then (strong, some tmp) else (false, result)

/-- `Loader::ResolveSymbolMode`. -/
inductive ResolveSymbolMode where
  | default
  | afterObject
  | exceptObject
  | objectFirst
  | noDependencies
  deriving DecidableEq, Repr

/-- The arguments of a lookup that all search stages share. -/
structure Query where
  name : String
  version : Version
  ns : Nat
  /-- The requesting identity, `none` for a null pointer. -/
  obj : Option Nat
  mode : ResolveSymbolMode

/-- What a search stage hands on: the flag tells that the source has returned the
result, otherwise it is the best one so far. -/
abbrev Search := Bool × Option VersionedSymbol

/-- The next stage runs unless the previous one has returned. -/
def Search.andThen (first : Search) (next : Option VersionedSymbol → Option Search) :
    Option Search :=
  match first with
  | (true, result) => some (true, result)
  | (false, best) => next best

/-- The loop over the global scope (`src/loader.cpp:648-661`). -/
def searchGlobal (e : Env) (q : Query) :
    Bool → Option VersionedSymbol → List ObjectIdentity → Search
  | _, best, [] => (false, best)
  | after, best, file :: files =>
    match file.current with
    | some current =>
      if file.ns = q.ns ∧ file.flags.bindGlobal then
        if after then searchGlobal e q (decide (q.obj ≠ some file.id)) best files
        else if q.mode ≠ .exceptObject ∨ q.obj ≠ some file.id then
          match current.hasSymbol e q.name q.version best with
          | (true, result) => (true, result)
          | (false, result) => searchGlobal e q after result files
        else searchGlobal e q after best files
      else searchGlobal e q after best files
    | none => searchGlobal e q after best files

/-- The loop over the dependencies (`src/loader.cpp:665-678`); `none` is a failed assertion. -/
def searchDependencies (e : Env) (s : Loader) (q : Query) :
    Option VersionedSymbol → List Nat → Option Search
  | best, [] => some (false, best)
  | best, dep :: deps => do
    let file ← s.identity dep
    if q.mode ≠ .afterObject ∧ file.ns = q.ns ∧ file.flags.bindGlobal then
      -- Already checked in global scope
      searchDependencies e s q best deps
    else if q.mode ≠ .exceptObject ∨ q.obj ≠ some file.id then
      let current ← file.current
      match current.hasSymbol e q.name q.version best with
      | (true, result) => some (true, result)
      | (false, result) => searchDependencies e s q result deps
    else searchDependencies e s q best deps

/-- The stages that only apply to a requesting identity (`src/loader.cpp:663-685`). -/
def searchObject (e : Env) (s : Loader) (q : Query) (obj : Nat) (best : Option VersionedSymbol) :
    Option Search := do
  let current ← s.current obj
  let deps ←
    if q.mode ≠ .noDependencies then searchDependencies e s q best current.dependencies
    else some (false, best)
  Search.andThen deps fun best =>
    if q.mode ≠ .objectFirst then some (current.hasSymbol e q.name q.version best)
    else some (false, best)

/-- The stage for the calling object, e.g. for deep_bind (`src/loader.cpp:641-646`). -/
def searchFirst (e : Env) (s : Loader) (q : Query) : Option Search :=
  match q.mode, q.obj with
  | .objectFirst, some obj =>
    (s.current obj).map fun current => current.hasSymbol e q.name q.version none
  | _, _ => some (false, none)

/-- `Loader::resolve_symbol` (`src/loader.cpp:637-690`). -/
def Loader.resolveSymbol (e : Env) (s : Loader) (q : Query) : Option (Option VersionedSymbol) := do
  guard (q.obj.isSome ∨ q.mode = .default)
  let first ← searchFirst e s q
  let result ← Search.andThen first fun best =>
    Search.andThen (searchGlobal e q (q.mode = .afterObject) best s.lookup) fun best =>
      match q.obj with
      | some obj => searchObject e s q obj best
      | none => some (false, best)
  return result.2

/-! ## Lookup of an address -/

/-- The test for one symbol in `resolve_symbol` of an address, relative to the base; the end of
the symbol counts as well, and the sum is one of machine words. -/
def Symbol.touches (sym : Symbol) (offset : Nat) : Bool :=
  !sym.undefined && sym.value ≤ offset && offset ≤ (sym.value + sym.size) % 2 ^ 64

/-- `resolve_symbol` of an address in one object: `ObjectDynamic` (`src/object/dynamic.cpp:492-502`),
`ObjectRelocatable` (`src/object/relocatable.cpp:418-428`), and the default of `Object`. The
elements of a hash set are visited in an `order` of its own. -/
def Object.resolveSymbolAt (libs : Libs)
    (order : List (Symbol × ObjectRef) → List (Symbol × ObjectRef)) (o : Object) (addr : Nat) :
    Option VersionedSymbol :=
  if o.base < addr then
    match o.kind with
    | .executable => none
    | .dynamic =>
      (o.elf.dynamicSymbols.find? fun entry => entry.1.touches (addr - o.base)).map fun entry =>
        ⟨entry.1, o.ref, o.elf.getVersion libs entry.2⟩
    | .relocatable =>
      ((order o.symbols).find? fun entry => entry.1.touches (addr - o.base)).map fun entry =>
        ⟨entry.1, entry.2, Version.ofName libs none⟩
  else none

end Luci
