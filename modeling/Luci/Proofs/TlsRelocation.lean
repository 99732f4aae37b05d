import Luci.Proofs.Resolution
import Luci.Proofs.SymbolLookup

/-!
# Thread local variables in relocations

A relocation against a thread local variable needs the module and the offset of the file that
defines the variable. `ObjectDynamic::relocate` hands these to the `Relocator`, but
`ObjectRelocatable::relocate` hands those of the file with the relocation.

What the `Relocator` is handed is seen through one whose value is any function of module and
offset: a relocation of one type against one symbol has no other input that concerns
the thread local storage.
-/

namespace Luci

open Exec

/-- The surroundings with a `Relocator` that returns a function of module and offset. -/
def Env.withTlsValue (e : Env) (value : Nat → Int → Nat) : Env :=
  { e with libs := { e.libs with
      valueInternal := fun _ _ _ _ moduleId offset => value moduleId offset
      valueExternal := fun _ _ _ _ _ _ moduleId offset => value moduleId offset } }

/-- `relocate` of an object; the flag is `fix` or `postpone`. -/
def relocateIn (e : Env) (o : Object) (reloc : Relocation) (flag : Bool) : LoaderM (Nat × Bool) :=
  match o.kind with
  | .executable => Exec.abort
  | .dynamic => relocate e o.ref reloc flag
  | .relocatable => relocateInRelocatable e o.ref reloc flag

/-- The variable that a relocation with a symbol resolves to: for a relocatable object its own if
it defines one, otherwise what the lookup finds. -/
def Loader.variable (e : Env) (s : Loader) (o : Object) (i : ObjectIdentity) (reloc : Relocation) :
    Option VersionedSymbol :=
  if reloc.symbolIndex = 0 then none
  else
    match o.kind with
    | .executable => none
    | .dynamic => ((o.neededSymbol e i reloc).bind fun needed => s.resolveSymbol e needed.2).join
    | .relocatable => (o.elf.symbolTable[reloc.symbolIndex]?).bind fun needed =>
        if needed.undefined then (s.resolveSymbol e (i.externalQuery e reloc needed)).join
        else some ⟨needed, o.ref, Version.ofName e.libs none⟩

/-- The value in the place of the relocation was not changed by the program; otherwise
`ObjectDynamic::relocate` leaves it alone. -/
def Loader.Untouched (e : Env) (s : Loader) (o : Object) (reloc : Relocation) : Prop :=
  let address := e.libs.address reloc o.globalOffsetTable o.base
  changedContent o address (datarelKey e s o address (s.segmentAt o.uid address)) s = some (none, s)

section Values

variable {e : Env} {s s' : Loader} {o : Object} {i d : ObjectIdentity} {reloc : Relocation}
  {sym : VersionedSymbol} {flag : Bool} {value : Nat → Int → Nat} {result : Nat × Bool}

theorem hasSymbol_withTlsValue (name : String) (version : Version) (best : Option VersionedSymbol) :
    o.hasSymbol (e.withTlsValue value) name version best = o.hasSymbol e name version best := rfl

theorem searchGlobal_withTlsValue (q : Query) (files : List ObjectIdentity) : ∀ after best,
    searchGlobal (e.withTlsValue value) q after best files = searchGlobal e q after best files := by
  induction files with
  | nil => exact fun _ _ => rfl
  | cons file files ih =>
    intro after best
    simp only [searchGlobal, hasSymbol_withTlsValue, ih]

theorem searchDependencies_withTlsValue (q : Query) (deps : List Nat) : ∀ best,
    searchDependencies (e.withTlsValue value) s q best deps = searchDependencies e s q best deps := by
  induction deps with
  | nil => exact fun _ => rfl
  | cons dep deps ih =>
    intro best
    simp only [searchDependencies, hasSymbol_withTlsValue, ih]

/-- The lookup of symbols does not use the `Relocator`. -/
theorem resolveSymbol_withTlsValue (q : Query) :
    s.resolveSymbol (e.withTlsValue value) q = s.resolveSymbol e q := by
  simp only [Loader.resolveSymbol, searchFirst, searchObject, searchGlobal_withTlsValue,
    searchDependencies_withTlsValue, hasSymbol_withTlsValue]

theorem Loader.variable_dynamic (dynamic : o.kind = .dynamic)
    (resolves : s.variable e o i reloc = some sym) : reloc.symbolIndex ≠ 0 ∧
      ∃ needed, o.neededSymbol e i reloc = some needed ∧ s.resolveSymbol e needed.2 = some (some sym) := by
  unfold Loader.variable at resolves
  by_cases zero : reloc.symbolIndex = 0
  · rw [if_pos zero] at resolves
    cases resolves
  · rw [if_neg zero, dynamic] at resolves
    obtain ⟨needed, isNeeded, found⟩ := Option.bind_eq_some_iff.mp (Option.join_eq_some_iff.mp resolves)
    exact ⟨zero, needed, isNeeded, found⟩

theorem Loader.variable_relocatable (relocatable : o.kind = .relocatable)
    (resolves : s.variable e o i reloc = some sym) : reloc.symbolIndex ≠ 0 ∧
      ∃ needed, o.elf.symbolTable[reloc.symbolIndex]? = some needed ∧
        if needed.undefined then s.resolveSymbol e (i.externalQuery e reloc needed) = some (some sym)
        else sym = ⟨needed, o.ref, Version.ofName e.libs none⟩ := by
  unfold Loader.variable at resolves
  by_cases zero : reloc.symbolIndex = 0
  · rw [if_pos zero] at resolves
    cases resolves
  · rw [if_neg zero, relocatable] at resolves
    obtain ⟨needed, isNeeded, found⟩ := Option.bind_eq_some_iff.mp resolves
    refine ⟨zero, needed, isNeeded, ?_⟩
    split at found
    case isTrue undefined =>
      rw [if_pos undefined]
      exact Option.join_eq_some_iff.mp found
    case isFalse defined =>
      rw [if_neg defined]
      exact (Option.some.inj found).symm

/-- The dynamic path hands over what the file of the symbol has. -/
theorem relocate_value (dynamic : o.kind = .dynamic) (isObject : s.object o.ref = some o)
    (isFile : s.identity o.file = some i) (resolves : s.variable e o i reloc = some sym)
    (isDefining : s.identity sym.object.file = some d) (untouched : s.Untouched e o reloc)
    (run : relocate (e.withTlsValue value) o.ref reloc flag s = some (result, s')) :
    result.1 = value d.tlsModuleId d.tlsOffset := by
  obtain ⟨nonzero, needed, isNeeded, found⟩ := Loader.variable_dynamic dynamic resolves
  unfold relocate at run
  rw [bind_of_eq (get_apply s)] at run
  obtain ⟨o', isObject', run⟩ := getObject_bind_inv run
  cases isObject.symm.trans isObject'
  obtain ⟨i', isFile', run⟩ := getIdentity_bind_inv run
  cases isFile.symm.trans isFile'
  obtain ⟨changed, s1, looked, run⟩ := bind_inv run
  cases untouched.symm.trans looked
  dsimp only at run
  rw [if_neg nonzero] at run
  unfold relocateSymbol at run
  rw [bind_of_eq (get_apply s)] at run
  obtain ⟨needed', isNeeded', run⟩ := orAbort_bind_inv run
  cases isNeeded.symm.trans isNeeded'
  obtain ⟨found', isFound, run⟩ := orAbort_bind_inv run
  rw [resolveSymbol_withTlsValue] at isFound
  cases found.symm.trans isFound
  dsimp only at run
  rw [bind_of_eq (modify_apply _ _)] at run
  obtain ⟨symobj, -, run⟩ := getObject_bind_inv run
  obtain ⟨d', isDefining', run⟩ := getIdentity_bind_inv run
  cases isDefining.symm.trans isDefining'
  obtain ⟨_, s2, -, run⟩ := bind_inv run
  obtain ⟨rfl, -⟩ := pure_inv run
  rfl

/-- The relocatable path hands over what the file of the relocation has. -/
theorem relocateInRelocatable_value (relocatable : o.kind = .relocatable)
    (isObject : s.object o.ref = some o) (isFile : s.identity o.file = some i)
    (resolves : s.variable e o i reloc = some sym) (isTls : sym.symbol.type = .sttTls)
    (run : relocateInRelocatable (e.withTlsValue value) o.ref reloc flag s = some (result, s')) :
    result.1 = value i.tlsModuleId i.tlsOffset := by
  obtain ⟨nonzero, needed, isNeeded, found⟩ := Loader.variable_relocatable relocatable resolves
  obtain ⟨s1, resolution, -, resolved, run⟩ := relocateInRelocatable_inv isObject isFile run
  suffices isFixed : ∃ bound size, resolution = .fixed bound size (value i.tlsModuleId i.tlsOffset) by
    obtain ⟨bound, size, rfl⟩ := isFixed
    obtain ⟨_, s2, -, run⟩ := bind_inv run
    obtain ⟨_, s3, -, run⟩ := bind_inv run
    rw [(pure_inv run).1]
  rcases resolution_inv resolved with ⟨zero, -⟩ | ⟨needed', -, isNeeded', cases⟩
  · exact absurd zero nonzero
  · cases isNeeded.symm.trans isNeeded'
    rcases cases with ⟨isDefined, rfl⟩ | ⟨undefined, found', isFound, cases⟩
    · rw [if_neg (by simp [isDefined])] at found
      have isNeededTls : needed.type = .sttTls := by
        rw [found] at isTls
        exact isTls
      unfold Loader.definedResolution Loader.newerFunction
      simp [isNeededTls, SymbolType.isFunction, Env.withTlsValue]
    · rw [if_pos undefined] at found
      rw [resolveSymbol_withTlsValue] at isFound
      cases found.symm.trans isFound
      obtain ⟨symobj, -, rfl⟩ := cases
      have noFunction : sym.symbol.type.isFunction = false := by simp [isTls, SymbolType.isFunction]
      rw [if_neg (by simp [isTls])]
      exact ⟨some sym, sym.symbol.size, by simp [externalValue, noFunction, Env.withTlsValue]⟩

end Values

/-- For every set of loaded objects and every relocation that resolves to a thread local variable
of a file `d`: the `Relocator` is handed module and offset of `d`, whatever it computes from
them, exactly if the relocation belongs to a dynamic object or the file with the relocation has
the same module and offset, as it has if it is `d`. -/
theorem relocation_names_module_iff {e : Env} {s : Loader} {o : Object} {i d : ObjectIdentity}
    {reloc : Relocation} {sym : VersionedSymbol} {flag : Bool} (isObject : s.object o.ref = some o)
    (isFile : s.identity o.file = some i) (resolves : s.variable e o i reloc = some sym)
    (isTls : sym.symbol.type = .sttTls) (isDefining : s.identity sym.object.file = some d)
    (untouched : o.kind = .dynamic → s.Untouched e o reloc)
    (mapped : o.kind = .relocatable → ∀ value, ∃ result s',
      relocateIn (e.withTlsValue value) o reloc flag s = some (result, s')) :
    (∀ value result s', relocateIn (e.withTlsValue value) o reloc flag s = some (result, s') →
      result.1 = value d.tlsModuleId d.tlsOffset) ↔
    o.kind = .dynamic ∨ i.tlsModuleId = d.tlsModuleId ∧ i.tlsOffset = d.tlsOffset := by
  cases kind : o.kind with
  | executable =>
    unfold Loader.variable at resolves
    rw [kind] at resolves
    split at resolves <;> cases resolves
  | dynamic =>
    refine ⟨fun _ => .inl rfl, fun _ value result s' run => ?_⟩
    unfold relocateIn at run
    rw [kind] at run
    exact relocate_value kind isObject isFile resolves isDefining (untouched kind) run
  | relocatable =>
    have handed : ∀ value result s', relocateIn (e.withTlsValue value) o reloc flag s =
        some (result, s') → result.1 = value i.tlsModuleId i.tlsOffset := by
      intro value result s' run
      unfold relocateIn at run
      rw [kind] at run
      exact relocateInRelocatable_value kind isObject isFile resolves isTls run
    constructor
    · intro names
      -- a value that tells whether it was computed for the file with the relocation
      let value : Nat → Int → Nat := fun moduleId offset =>
        if moduleId = i.tlsModuleId ∧ offset = i.tlsOffset then 1 else 0
      obtain ⟨result, s', run⟩ := mapped kind value
      have equal : value i.tlsModuleId i.tlsOffset = value d.tlsModuleId d.tlsOffset :=
        (handed value result s' run).symm.trans (names value result s' run)
      by_cases same : d.tlsModuleId = i.tlsModuleId ∧ d.tlsOffset = i.tlsOffset
      · exact .inr ⟨same.1.symm, same.2.symm⟩
      · simp [value, same] at equal
    · rintro (wrong | ⟨sameModule, sameOffset⟩) value result s' run
      · cases wrong
      · rw [← sameModule, ← sameOffset]
        exact handed value result s' run

/-! ## A variable of another file -/

/-- A thread local variable. -/
def Symbol.threadLocal (sectionIndex : SectionIndex) : Symbol :=
  ⟨"x", 0, 8, .stbGlobal, .sttTls, .stvDefault, sectionIndex⟩

/-- A library with eight bytes of thread local storage. -/
def Elf.withTls (symbols : List Symbol) (relocations : List Relocation) : Elf :=
  { Elf.library [] symbols relocations with
    segments := [.data, ⟨.tls, 0, 0, 8, 8, 8, true, false, false⟩] }

/-- A relocatable file with thread local storage of its own and a reference to `x`. -/
def Elf.refersX : Elf :=
  { Elf.empty .rel with
    sections := [⟨"", .other 0, 0, 0, 0, 0, false, false, false, false, []⟩,
      ⟨".tdata", .progbits, 0, 8, 8, 0, true, true, false, true, []⟩,
      ⟨".text", .progbits, 0, 16, 1, 0, true, false, true, false, []⟩,
      ⟨".rela.text", .rela, 0, 24, 8, 2, false, false, false, false, [⟨8, rX8664Dtpmod64, 1, 0⟩]⟩,
      ⟨".symtab", .symtab, 0, 24, 8, 0, false, false, false, false, []⟩]
    symbolTable := [.null, .threadLocal .undef] }

/-- `libx.so` defines `x`; `libz.so` and `y.o` refer to it. -/
def threadLocalX : Env :=
  Env.reference Config.default fun path =>
    if path = "/lib/libx.so" then some (File.ofElf 0 (.withTls [.threadLocal (.index 1)] []))
    else if path = "/lib/libz.so" then
      some (File.ofElf 0 (.withTls [.threadLocal .undef] [⟨8, rX8664Dtpmod64, 1, 0⟩]))
    else if path = "/lib/y.o" then some (File.ofElf 0 .refersX)
    else none

/-- Open `libx.so`, then another file; which objects are there? -/
def openWithX (file : String) : LoaderM (Option Nat × Option Nat) := do
  let flags := { Flags.zero with bindGlobal := true }
  let x ← dlopen threadLocalX 1 (some "/lib/libx.so") flags (some 0) true
  let y ← dlopen threadLocalX 1 (some file) flags (some 0) true
  return (x, y)

/-- The modules of the thread local variable that a relocation of the second file resolves to,
and of that file. -/
def modulesX (kind : ObjectKind) (reloc : Relocation) (s : Loader) : Option (Option Nat × Nat) := do
  let o ← s.current 3
  let i ← s.identity 3
  let sym ← s.variable threadLocalX o i reloc
  guard (o.kind = kind ∧ o.file = 3 ∧ sym.symbol.type = .sttTls)
  return ((s.identity sym.object.file).map (·.tlsModuleId), i.tlsModuleId)

/-- The module that the `Relocator` is handed for a relocation of the second file. -/
def handedX (reloc : Relocation) (s : Loader) : Option Nat := do
  let o ← s.current 3
  let (result, _) ← relocateIn (threadLocalX.withTlsValue fun moduleId _ => moduleId) o reloc false s
  return result.1

theorem modulesX_inv {kind : ObjectKind} {reloc : Relocation} {s : Loader} {defining own : Nat}
    (modules : modulesX kind reloc s = some (some defining, own)) :
    ∃ o i d sym, s.current 3 = some o ∧ s.identity 3 = some i ∧
      s.variable threadLocalX o i reloc = some sym ∧ s.identity sym.object.file = some d ∧
      o.kind = kind ∧ o.file = 3 ∧ sym.symbol.type = .sttTls ∧ d.tlsModuleId = defining := by
  obtain ⟨o, isCurrent, modules⟩ := Option.bind_eq_some_iff.mp modules
  obtain ⟨i, isFile, modules⟩ := Option.bind_eq_some_iff.mp modules
  obtain ⟨sym, resolves, modules⟩ := Option.bind_eq_some_iff.mp modules
  obtain ⟨_, guarded, modules⟩ := Option.bind_eq_some_iff.mp modules
  obtain ⟨isKind, sameFile, isType⟩ := (Option.guard_eq_some' ..).mp guarded
  obtain ⟨defines, -⟩ := Prod.mk.inj (Option.some.inj modules)
  obtain ⟨d, isDefining, isModule⟩ := Option.map_eq_some_iff.mp defines
  exact ⟨o, i, d, sym, isCurrent, isFile, resolves, isDefining, isKind, sameFile, isType, isModule⟩

/-- The relocation of a dynamic object. -/
theorem relocation_names_module_iff_libz : ∃ (s : Loader) (o : Object) (d : ObjectIdentity), openWithX "/lib/libz.so" Loader.initial =
    some ((some 0, some 3), s) ∧ s.current 3 = some o ∧ d.tlsModuleId = 1 ∧
    ∀ value result s', relocateIn (threadLocalX.withTlsValue value) o ⟨8, rX8664Dtpmod64, 1, 0⟩ true s =
      some (result, s') → result.1 = value d.tlsModuleId d.tlsOffset := by
  have evaluated : (openWithX "/lib/libz.so" Loader.initial).map (fun p =>
      (p.1, modulesX .dynamic ⟨8, rX8664Dtpmod64, 1, 0⟩ p.2)) =
      some ((some 0, some 3), some (some 1, 2)) := by
    decide +kernel
  obtain ⟨⟨opened, s⟩, run, facts⟩ := Option.map_eq_some_iff.mp evaluated
  obtain ⟨rfl, described⟩ := Prod.mk.inj facts
  obtain ⟨o, i, d, sym, isCurrent, isFile, resolves, isDefining, isKind, sameFile, isType,
    isModule⟩ := modulesX_inv described
  have isObject : s.object o.ref = some o := Loader.object_of_current isCurrent sameFile
  refine ⟨s, o, d, run, isCurrent, isModule, ?_⟩
  refine (relocation_names_module_iff isObject (sameFile ▸ isFile) resolves isType isDefining
    (fun _ => rfl) (fun wrong => ?_)).mpr (.inl isKind)
  cases isKind.symm.trans wrong

/-- The relocation of a relocatable file is given its own module, 2, although the module of the
variable is 1. -/
theorem refersX_names_own : ∃ s o i d sym, openWithX "/lib/y.o" Loader.initial =
    some ((some 0, some 3), s) ∧ s.current 3 = some o ∧ s.identity 3 = some i ∧
    s.variable threadLocalX o i ⟨0x1008, rX8664Dtpmod64, 1, 0⟩ = some sym ∧
    sym.symbol.type = .sttTls ∧ s.identity sym.object.file = some d ∧ d.tlsModuleId = 1 ∧
    ∃ result s', relocateIn (threadLocalX.withTlsValue fun moduleId _ => moduleId) o
      ⟨0x1008, rX8664Dtpmod64, 1, 0⟩ false s = some (result, s') ∧ result.1 = 2 := by
  have evaluated : (openWithX "/lib/y.o" Loader.initial).map (fun p =>
      (p.1, modulesX .relocatable ⟨0x1008, rX8664Dtpmod64, 1, 0⟩ p.2, handedX ⟨0x1008, rX8664Dtpmod64, 1, 0⟩ p.2)) =
      some ((some 0, some 3), some (some 1, 2), some 2) := by
    decide +kernel
  obtain ⟨⟨opened, s⟩, run, facts⟩ := Option.map_eq_some_iff.mp evaluated
  simp only [Prod.mk.injEq] at facts
  obtain ⟨rfl, described, handed⟩ := facts
  obtain ⟨o, i, d, sym, isCurrent, isFile, resolves, isDefining, -, -, isType, isModule⟩ :=
    modulesX_inv described
  unfold handedX at handed
  obtain ⟨o', isCurrent', handed⟩ := Option.bind_eq_some_iff.mp handed
  cases isCurrent.symm.trans isCurrent'
  obtain ⟨⟨result, s'⟩, relocated, handed⟩ := Option.bind_eq_some_iff.mp handed
  exact ⟨s, o, i, d, sym, run, isCurrent, isFile, resolves, isType, isDefining, isModule,
    result, s', relocated, Option.some.inj handed⟩

end Luci
