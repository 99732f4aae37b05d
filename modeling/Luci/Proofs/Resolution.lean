import Luci.Proofs.Relocation
import Luci.Reference

/-!
# Relocations of relocatable objects

`ObjectRelocatable::relocate` rewrites an instruction that would need a global offset table. What it
does then depends on the loaded objects only: it binds a symbol and writes a value, or postpones the
relocation, or there is no such symbol. It returns the value, and a null pointer otherwise:
`ObjectRelocatable::prepare` fails for every value that is zero and for every symbol that is not
found, weak ones included.
-/

namespace Luci

open Exec

/-- The function of the latest version with the name and the type of a symbol that an older
version defines (`src/object/relocatable.cpp:493-498`). -/
def Loader.newerFunction (s : Loader) (o : Object) (needed : Symbol) :
    Option (Object × Symbol × ObjectRef) :=
  (if !s.isLatestVersion o.ref && needed.type.isFunction then s.current o.file else none).bind
    fun current => ((current.resolveInternalSymbol needed.name).filter fun latest =>
      needed.type = latest.1.type).map fun latest => (current, latest)

/-- What to do about a relocation, and the symbol that is bound. A value is written with the size
of its symbol, which is the number of bytes for a copy. -/
inductive Resolution where
  | fixed (bound : Option VersionedSymbol) (size value : Nat)
  | postponed (bound : Option VersionedSymbol)
  | unresolved (needed : Symbol)

namespace Resolution

def bound : Resolution → Option VersionedSymbol
  | .fixed bound _ _ => bound
  | .postponed bound => bound
  | .unresolved _ => none

/-- The loader after the symbol is bound. -/
def bind (o : Object) (reloc : Relocation) (resolution : Resolution) (s : Loader) : Loader :=
  resolution.bound.elim s fun sym => s.insertRelocation o.uid reloc sym

def perform (e : Env) (o : Object) (reloc : Relocation) (resolution : Resolution) :
    LoaderM (Nat × Bool) := do
  modify (resolution.bind o reloc)
  match resolution with
  | .fixed _ size value => do
    fixValue e reloc 0 o.base size value
    return (value, false)
  | .postponed _ => return (0, true)
  | .unresolved _ => return (0, false)

end Resolution

namespace Loader

variable (e : Env) (s : Loader) (o : Object) (i : ObjectIdentity) (reloc : Relocation)
  (needed : Symbol) (postpone : Bool)

/-- For a symbol that the object defines. -/
def definedResolution : Resolution :=
  if needed.type = .sttGnuIfunc ∧ postpone then .postponed none
  else
    match s.newerFunction o needed with
    | some (current, latest, owner) =>
      .fixed (some ⟨latest, owner, Version.ofName e.libs none⟩) latest.size
        (e.libs.valueExternal reloc 0 o.base latest current.base (current.base + latest.value)
          i.tlsModuleId i.tlsOffset)
    | none =>
      .fixed (some ⟨needed, o.ref, Version.ofName e.libs none⟩) needed.size
        (e.libs.valueInternal reloc 0 o.base (if needed.type = .sttGnuIfunc then
          e.world.ifunc (o.base + needed.value) else o.base + needed.value) i.tlsModuleId i.tlsOffset)

/-- For a symbol that it does not define. -/
def externalResolution : Option Resolution := do
  match ← s.resolveSymbol e (i.externalQuery e reloc needed) with
  | some sym => do
    let symobj ← s.object sym.object
    if postpone ∧ sym.symbol.type = .sttGnuIfunc then return .postponed (some sym)
    else return .fixed (some sym) sym.symbol.size (externalValue e o symobj i reloc sym)
  | none => return .unresolved needed

/-- What `ObjectRelocatable::relocate` does about a relocation. -/
def resolution : Option Resolution :=
  if reloc.symbolIndex = 0 then
    some (.fixed none 0 (e.libs.valueInternal reloc 0 o.base 0 i.tlsModuleId i.tlsOffset))
  else do
    let needed ← o.elf.symbolTable[reloc.symbolIndex]?
    if !needed.undefined then return s.definedResolution e o i reloc needed postpone
    else s.externalResolution e o i reloc needed postpone

end Loader

section Resolution

variable {e : Env} {s s' : Loader} {o : Object} {i : ObjectIdentity} {r : ObjectRef}
  {reloc : Relocation} {needed : Symbol} {postpone : Bool} {result : Nat × Bool}

theorem Loader.resolution_congr (same : s'.lookup = s.lookup) :
    s'.resolution e o i reloc postpone = s.resolution e o i reloc postpone := by
  unfold Loader.resolution Loader.definedResolution Loader.externalResolution Loader.newerFunction
    Loader.isLatestVersion
  simp only [resolveSymbol_congr same, Loader.current_congr same, Loader.object_congr same]

theorem resolution_inv {resolution : Resolution}
    (resolved : s.resolution e o i reloc postpone = some resolution) :
    (reloc.symbolIndex = 0 ∧ resolution = .fixed none 0
      (e.libs.valueInternal reloc 0 o.base 0 i.tlsModuleId i.tlsOffset)) ∨
    ∃ needed, reloc.symbolIndex ≠ 0 ∧ o.elf.symbolTable[reloc.symbolIndex]? = some needed ∧
      ((needed.undefined = false ∧ resolution = s.definedResolution e o i reloc needed postpone) ∨
      (needed.undefined ∧ ∃ found,
        s.resolveSymbol e (i.externalQuery e reloc needed) = some found ∧
        match found with
        | none => resolution = .unresolved needed
        | some sym => ∃ symobj, s.object sym.object = some symobj ∧ resolution =
            if postpone ∧ sym.symbol.type = .sttGnuIfunc then .postponed (some sym)
            else .fixed (some sym) sym.symbol.size (externalValue e o symobj i reloc sym))) := by
  unfold Loader.resolution at resolved
  by_cases zero : reloc.symbolIndex = 0
  · rw [if_pos zero] at resolved
    exact .inl ⟨zero, (Option.some.inj resolved).symm⟩
  · rw [if_neg zero] at resolved
    obtain ⟨needed, isNeeded, resolved⟩ := Option.bind_eq_some_iff.mp resolved
    refine .inr ⟨needed, zero, isNeeded, ?_⟩
    cases undefined : needed.undefined with
    | false =>
      rw [undefined] at resolved
      exact .inl ⟨rfl, (Option.some.inj resolved).symm⟩
    | true =>
      rw [undefined] at resolved
      obtain ⟨found, isFound, resolved⟩ := Option.bind_eq_some_iff.mp resolved
      refine .inr ⟨rfl, found, isFound, ?_⟩
      cases found with
      | none => exact (Option.some.inj resolved).symm
      | some sym =>
        obtain ⟨symobj, isObject, resolved⟩ := Option.bind_eq_some_iff.mp resolved
        refine ⟨symobj, isObject, ?_⟩
        split at resolved <;> rename_i waits
        · rw [if_pos waits]
          exact (Option.some.inj resolved).symm
        · rw [if_neg waits]
          exact (Option.some.inj resolved).symm

theorem relocateDefined_eq : relocateDefined e o i reloc needed postpone s =
    (s.definedResolution e o i reloc needed postpone).perform e o reloc s := by
  unfold relocateDefined Loader.definedResolution
  split
  · rfl
  · rw [bind_of_eq (get_apply s)]
    cases newer : s.newerFunction o needed with
    | none =>
      unfold Loader.newerFunction at newer
      simp only [newer]
      rfl
    | some found =>
      unfold Loader.newerFunction at newer
      simp only [newer]
      rfl

theorem relocateExternal_inv
    (run : relocateExternal e o i reloc needed postpone s = some (result, s')) :
    ∃ resolution, s.externalResolution e o i reloc needed postpone = some resolution ∧
      resolution.perform e o reloc s = some (result, s') := by
  unfold relocateExternal at run
  rw [bind_of_eq (get_apply s)] at run
  obtain ⟨found, resolved, run⟩ := orAbort_bind_inv run
  change s.resolveSymbol e (i.externalQuery e reloc needed) = some found at resolved
  unfold Loader.externalResolution
  rw [resolved]
  cases found with
  | none => exact ⟨.unresolved needed, rfl, run⟩
  | some sym =>
    dsimp only at run
    rw [bind_of_eq (modify_apply _ _)] at run
    obtain ⟨symobj, isObject, run⟩ := getObject_bind_inv run
    have isObject : s.object sym.object = some symobj := isObject
    simp only [Option.bind_eq_bind, Option.bind_some, isObject]
    split at run
    case isTrue waits => exact ⟨.postponed (some sym), by rw [if_pos waits]; rfl, run⟩
    case isFalse now => exact ⟨.fixed (some sym) _ _, by rw [if_neg now]; rfl, run⟩

theorem relocateInRelocatable_inv (object : s.object r = some o)
    (identity : s.identity r.file = some i)
    (run : relocateInRelocatable e r reloc postpone s = some (result, s')) :
    ∃ s1 resolution, relaxGot o.base reloc s = some ((), s1) ∧
      s.resolution e o i reloc postpone = some resolution ∧
      resolution.perform e o reloc s1 = some (result, s') := by
  obtain ⟨_, found, run⟩ := getObject_bind_inv run
  obtain rfl := Option.some.inj (object.symm.trans found)
  obtain ⟨_, found, run⟩ := getIdentity_bind_inv run
  obtain rfl := Option.some.inj (identity.symm.trans found)
  obtain ⟨_, s1, relaxed, run⟩ := bind_inv run
  have start : Quiet s s1 := frame_relaxGot _ _ _ _ _ relaxed
  rw [← Loader.resolution_congr start.lookup]
  unfold Loader.resolution
  by_cases zero : reloc.symbolIndex = 0
  · rw [if_pos zero] at run ⊢
    exact ⟨s1, _, relaxed, rfl, run⟩
  · rw [if_neg zero] at run ⊢
    obtain ⟨needed, isNeeded, run⟩ := orAbort_bind_inv run
    simp only [isNeeded, Option.bind_eq_bind, Option.bind_some]
    split at run
    case isTrue defined =>
      rw [relocateDefined_eq] at run
      rw [if_pos defined]
      exact ⟨s1, _, relaxed, rfl, run⟩
    case isFalse undefined =>
      obtain ⟨resolution, external, run⟩ := relocateExternal_inv run
      rw [if_neg undefined]
      exact ⟨s1, resolution, relaxed, external, run⟩

theorem Resolution.perform_quiet {resolution : Resolution}
    (run : resolution.perform e o reloc s = some (result, s')) :
    Quiet (resolution.bind o reloc s) s' := by
  unfold Resolution.perform at run
  rw [bind_of_eq (modify_apply _ _)] at run
  cases resolution with
  | fixed bound size value =>
    obtain ⟨_, s1, fixed, run⟩ := bind_inv run
    rw [(pure_inv run).2]
    exact frame_fixValue _ _ _ _ _ _ _ _ fixed
  | postponed bound =>
    rw [(pure_inv run).2]
    exact Quiet.refl _
  | unresolved needed =>
    rw [(pure_inv run).2]
    exact Quiet.refl _

end Resolution

/-! ## Preparation -/

/-- A relocation refers to an undefined symbol that the lookup does not find. -/
def Loader.Lacks (e : Env) (s : Loader) (o : Object) (i : ObjectIdentity) (reloc : Relocation)
    (needed : Symbol) : Prop :=
  reloc.symbolIndex ≠ 0 ∧ o.elf.symbolTable[reloc.symbolIndex]? = some needed ∧
    needed.undefined = true ∧ s.resolveSymbol e (i.externalQuery e reloc needed) = some none

/-- The value that a relocation writes if its symbol is known. -/
def Loader.relocatedValue (e : Env) (s : Loader) (o : Object) (i : ObjectIdentity)
    (reloc : Relocation) : Option Nat :=
  match s.resolution e o i reloc false with
  | some (.fixed _ _ value) => some value
  | _ => none

section Preparation

variable {e : Env} {s s' : Loader} {o : Object} {i : ObjectIdentity} {r : ObjectRef}
  {reloc : Relocation} {needed : Symbol} {postpone : Bool}

/-- A relocation that is done without delay: either it has a value, or its symbol is not found. -/
theorem resolution_now {resolution : Resolution}
    (resolved : s.resolution e o i reloc false = some resolution) :
    (∃ bound size value, resolution = .fixed bound size value ∧
      s.relocatedValue e o i reloc = some value ∧ ∀ needed, ¬ s.Lacks e o i reloc needed) ∨
    ∃ needed, resolution = .unresolved needed ∧ s.Lacks e o i reloc needed := by
  unfold Loader.relocatedValue Loader.Lacks
  rw [resolved]
  rcases resolution_inv resolved with ⟨zero, rfl⟩ | ⟨needed, index, isNeeded, cases⟩
  · exact .inl ⟨none, 0, _, rfl, rfl, fun _ wrong => wrong.1 zero⟩
  · rcases cases with ⟨isDefined, rfl⟩ | ⟨undefined, found, isFound, cases⟩
    · unfold Loader.definedResolution
      cases s.newerFunction o needed <;> grind
    · cases found with
      | none => exact .inr ⟨needed, cases, index, isNeeded, undefined, isFound⟩
      | some sym =>
        grind

theorem resolution_final {first : Resolution}
    (resolved : s.resolution e o i reloc true = some first) :
    ∃ final, s.resolution e o i reloc false = some final ∧
      (first = final ∨ ∃ bound, first = .postponed bound) := by
  rcases resolution_inv resolved with ⟨zero, rfl⟩ | ⟨needed, index, isNeeded, cases⟩
  · exact ⟨_, by simp [Loader.resolution, zero], .inl rfl⟩
  · rcases cases with ⟨isDefined, rfl⟩ | ⟨undefined, found, isFound, cases⟩
    · refine ⟨s.definedResolution e o i reloc needed false, ?_, ?_⟩
      · simp [Loader.resolution, index, isNeeded, isDefined]
      · unfold Loader.definedResolution
        grind
    · simp only [Loader.resolution, if_neg index, isNeeded, Option.bind_eq_bind, Option.bind_some,
        undefined, Loader.externalResolution, isFound]
      cases found with
      | none => exact ⟨_, rfl, .inl cases⟩
      | some sym =>
        grind

/-- A relocation that `prepare` counts as failed. -/
def Loader.Fails (e : Env) (s : Loader) (o : Object) (i : ObjectIdentity) (reloc : Relocation) : Prop :=
  s.relocatedValue e o i reloc = some 0 ∨ ∃ needed, s.Lacks e o i reloc needed

theorem Loader.fails_congr (same : s'.lookup = s.lookup) :
    s'.Fails e o i reloc ↔ s.Fails e o i reloc := by
  unfold Loader.Fails Loader.relocatedValue Loader.Lacks
  rw [Loader.resolution_congr same]
  simp only [resolveSymbol_congr same]

theorem relocateInRelocatable_returns {value : Nat} {postponed : Bool}
    (object : s.object r = some o) (identity : s.identity r.file = some i)
    (run : relocateInRelocatable e r reloc postpone s = some ((value, postponed), s')) :
    s'.lookup = s.lookup ∧ (postponed → postpone) ∧
      (postponed = false → (value = 0 ↔ s.Fails e o i reloc)) := by
  obtain ⟨s1, resolution, relaxed, resolved, run⟩ := relocateInRelocatable_inv object identity run
  have start : Quiet s s1 := frame_relaxGot _ _ _ _ _ relaxed
  have same : s'.lookup = s.lookup := by
    rw [(Resolution.perform_quiet run).lookup, ← start.lookup]
    unfold Resolution.bind
    cases resolution.bound <;> rfl
  have now (unpostponed : ∀ bound, resolution ≠ .postponed bound) :
      s.resolution e o i reloc false = some resolution := by
    cases postpone with
    | false => exact resolved
    | true =>
      obtain ⟨final, isFinal, rfl | ⟨bound, wrong⟩⟩ := resolution_final resolved
      · exact isFinal
      · exact absurd wrong (unpostponed bound)
  refine ⟨same, ?_⟩
  unfold Loader.Fails
  unfold Resolution.perform at run
  rw [bind_of_eq (modify_apply _ _)] at run
  cases resolution with
  | fixed bound size value =>
    obtain ⟨_, s2, -, run⟩ := bind_inv run
    cases run
    rcases resolution_now (now fun _ => nofun) with ⟨_, _, _, same, isValue, found⟩ | ⟨_, wrong, -⟩
    · cases same
      simp [isValue, found]
    · cases wrong
  | postponed bound =>
    cases run
    cases postpone with
    | false => rcases resolution_now resolved with ⟨_, _, _, wrong, -⟩ | ⟨_, wrong, -⟩ <;> cases wrong
    | true => simp
  | unresolved needed =>
    cases run
    rcases resolution_now (now fun _ => nofun) with ⟨_, _, _, wrong, -⟩ | ⟨_, -, lacks⟩
    · cases wrong
    · exact ⟨nofun, fun _ => iff_of_true rfl (.inr ⟨_, lacks⟩)⟩

/-- The first pass fails, or leaves a relocation that will fail. -/
theorem relocateTables_fails (relocs : List Relocation) :
    ∀ {s s' : Loader} {success : Bool} {rest : List Relocation}, s.object r = some o →
      s.identity r.file = some i → relocateTables e r relocs s = some ((success, rest), s') →
      s'.lookup = s.lookup ∧ ((success = false ∨ ∃ reloc ∈ rest, s.Fails e o i reloc) ↔
        ∃ reloc ∈ relocs, s.Fails e o i reloc) := by
  induction relocs with
  | nil =>
    intro s s' success rest _ _ run
    cases run
    simp
  | cons reloc relocs ih =>
    intro s s' success rest object identity run
    obtain ⟨⟨value, postponed⟩, s1, relocated, run⟩ := bind_inv run
    obtain ⟨⟨success, rest⟩, s2, others, run⟩ := bind_inv run
    cases run
    obtain ⟨same, -, returned⟩ := relocateInRelocatable_returns object identity relocated
    rw [← Loader.object_congr same] at object
    rw [← Loader.identity_congr same] at identity
    obtain ⟨same2, fails⟩ := ih object identity others
    simp only [Loader.fails_congr same] at fails
    refine ⟨same2.trans same, ?_⟩
    cases postponed with
    | true => simp [← fails, or_left_comm]
    | false =>
      grind

/-- The second pass fails for a relocation that it fails for. -/
theorem relocatePostponed_fails (relocs : List Relocation) :
    ∀ {s s' : Loader} {success : Bool}, s.object r = some o → s.identity r.file = some i →
      eachOf (fun reloc => do
        let (value, _) ← relocateInRelocatable e r reloc false
        return value ≠ 0) relocs s = some (success, s') →
      (success = false ↔ ∃ reloc ∈ relocs, s.Fails e o i reloc) := by
  induction relocs with
  | nil =>
    intro s s' success _ _ run
    cases run
    simp
  | cons reloc relocs ih =>
    intro s s' success object identity run
    obtain ⟨ok, s1, first, run⟩ := bind_inv run
    obtain ⟨rest, s2, others, run⟩ := bind_inv run
    obtain ⟨⟨value, postponed⟩, s3, relocated, first⟩ := bind_inv first
    cases run
    cases first
    obtain ⟨same, unpostponed, returned⟩ := relocateInRelocatable_returns object identity relocated
    rw [← Loader.object_congr same] at object
    rw [← Loader.identity_congr same] at identity
    have fails := ih object identity others
    simp only [Loader.fails_congr same] at fails
    cases postponed with
    | true => cases unpostponed rfl
    | false =>
      grind

/-- `ObjectRelocatable::prepare` fails exactly if a relocation has the value zero or refers to a
symbol that is not found. -/
theorem prepareRelocatable_fails {ok : Bool} (object : s.object r = some o)
    (identity : s.identity r.file = some i) (run : prepareRelocatable e r s = some (ok, s')) :
    ok = false ↔ ∃ reloc ∈ o.tableRelocations, s.Fails e o i reloc := by
  obtain ⟨_, found, run⟩ := getObject_bind_inv run
  obtain rfl := Option.some.inj (object.symm.trans found)
  obtain ⟨⟨success, postponed⟩, s1, first, run⟩ := bind_inv run
  obtain ⟨later, s2, second, run⟩ := bind_inv run
  obtain ⟨_, s3, -, run⟩ := bind_inv run
  cases run
  obtain ⟨same, fails⟩ := relocateTables_fails _ object identity first
  rw [← Loader.object_congr same] at object
  rw [← Loader.identity_congr same] at identity
  have rest := relocatePostponed_fails _ object identity second
  simp only [Loader.fails_congr same] at rest
  rw [Bool.and_eq_false_iff, rest, fails]

/-- A relocation refers to a symbol that is not weak and that is not found. -/
def Loader.LacksStrong (e : Env) (s : Loader) (o : Object) (i : ObjectIdentity) : Prop :=
  ∃ reloc ∈ o.tableRelocations, ∃ needed, s.Lacks e o i reloc needed ∧ needed.bind ≠ .stbWeak

/-- Preparation fails for symbols that are not weak only, exactly if there is such a symbol or if
all symbols are found and no value is zero. -/
theorem prepare_fails_for_strong_iff {ok : Bool} (object : s.object r = some o)
    (identity : s.identity r.file = some i) (run : prepareRelocatable e r s = some (ok, s')) :
    (ok = false ↔ s.LacksStrong e o i) ↔ s.LacksStrong e o i ∨
      ∀ reloc ∈ o.tableRelocations, s.relocatedValue e o i reloc ≠ some 0 ∧
        ∀ needed, ¬ s.Lacks e o i reloc needed := by
  rw [prepareRelocatable_fails object identity run]
  constructor
  · intro same
    by_cases strong : s.LacksStrong e o i
    · exact Or.inl strong
    · right
      intro reloc member
      have succeeds : ¬ s.Fails e o i reloc := fun fails => strong (same.mp ⟨reloc, member, fails⟩)
      exact ⟨fun zero => succeeds (Or.inl zero), fun needed lacks => succeeds (Or.inr ⟨needed, lacks⟩)⟩
  · rintro (⟨reloc, member, needed, lacks, strong⟩ | succeeds)
    · exact iff_of_true ⟨reloc, member, Or.inr ⟨needed, lacks⟩⟩ ⟨reloc, member, needed, lacks, strong⟩
    · refine iff_of_false ?_ ?_
      · rintro ⟨reloc, member, zero | ⟨needed, lacks⟩⟩
        · exact (succeeds reloc member).1 zero
        · exact (succeeds reloc member).2 needed lacks
      · rintro ⟨reloc, member, needed, lacks, -⟩
        exact (succeeds reloc member).2 needed lacks

end Preparation

/-- A file that calls a function which is not defined anywhere. -/
def Object.callsF (bind : SymbolBind) : Object :=
  { Object.construct 1 0 .relocatable
      { Elf.empty .rel with
        sections := [⟨".rela.text", .rela, 0, 24, 8, 0, false, false, false, false,
          [⟨0, rX8664Plt32, 1, -4⟩]⟩]
        symbolTable := [.null, ⟨"f", 0, 0, bind, .sttNotype, .stvDefault, .undef⟩] }
      Data.none with relocationTables := [0] }

/-- This file and no other is loaded. -/
def loadedF (bind : SymbolBind) : Loader :=
  { Loader.initial with lookup := [.global 0 "f.o" [.callsF bind]] }

/-- A strong reference. -/
theorem prepare_fails_for_strong_iff_global : ∃ ok s',
    prepareRelocatable Env.noFiles ⟨0, 1⟩ (loadedF .stbGlobal) = some (ok, s') ∧
    (ok = false ↔
      (loadedF .stbGlobal).LacksStrong Env.noFiles (.callsF .stbGlobal) (.global 0 "f.o" [.callsF .stbGlobal])) := by
  have evaluated : (prepareRelocatable Env.noFiles ⟨0, 1⟩ (loadedF .stbGlobal)).map Prod.fst =
      some false := by decide +kernel
  obtain ⟨⟨ok, s'⟩, run, -⟩ := Option.map_eq_some_iff.mp evaluated
  refine ⟨ok, s', run, (prepare_fails_for_strong_iff rfl rfl run).mpr (Or.inl ?_)⟩
  refine ⟨⟨0, rX8664Plt32, 1, -4⟩, by decide +kernel, _, ⟨by decide, rfl, rfl, ?_⟩, ?_⟩
  · decide +kernel
  · decide

/-- Preparation fails for a weak reference. -/
theorem prepare_fails_for_weak : ∃ s',
    prepareRelocatable Env.noFiles ⟨0, 1⟩ (loadedF .stbWeak) = some (false, s') ∧
    ¬ (loadedF .stbWeak).LacksStrong Env.noFiles (.callsF .stbWeak)
      (.global 0 "f.o" [.callsF .stbWeak]) := by
  have evaluated : (prepareRelocatable Env.noFiles ⟨0, 1⟩ (loadedF .stbWeak)).map Prod.fst =
      some false := by decide +kernel
  obtain ⟨⟨_, s'⟩, run, rfl⟩ := Option.map_eq_some_iff.mp evaluated
  refine ⟨s', run, ?_⟩
  rintro ⟨reloc, member, needed, ⟨-, isNeeded, -, -⟩, strong⟩
  obtain rfl : reloc = ⟨0, rX8664Plt32, 1, -4⟩ := List.mem_singleton.mp member
  cases isNeeded
  exact strong rfl

end Luci
