import Luci.Proofs.Relocation
import Luci.Reference

/-!
# Employment of a new version

The end of `ObjectIdentity::create` relocates a new version of an initialized identity
at once. It stops at the first relocation whose symbol cannot be resolved, but the
version is employed nevertheless.
-/

namespace Luci

open Exec

variable {e : Env} {fatal : Bool} {s s' : Loader} {i : ObjectIdentity}

/-! ## Relocations that cannot be resolved -/

/-- A relocation of an object needs a symbol that cannot be resolved, and it is not weak. -/
def Loader.Unresolvable (e : Env) (s : Loader) (r : ObjectRef) (reloc : Relocation) : Prop :=
  ∃ o i sym query, s.object r = some o ∧ s.identity r.file = some i ∧ reloc.symbolIndex ≠ 0 ∧
    o.neededSymbol e i reloc = some (sym, query) ∧ s.resolveSymbol e query = some none ∧
    sym.bind ≠ .stbWeak

theorem unresolvable_congr (same : s'.lookup = s.lookup) (r : ObjectRef) (reloc : Relocation) :
    s'.Unresolvable e r reloc ↔ s.Unresolvable e r reloc := by
  unfold Loader.Unresolvable
  simp only [Loader.object_congr same, Loader.identity_congr same, resolveSymbol_congr same]

/-- A fatal error is reported only if there is a reason, and for every reason unless the content of
the targets is checked: a word that the program has changed is left alone. -/
def Env.Reports (e : Env) (fatal : Bool) (bad : Prop) : Prop :=
  (fatal = true → bad) ∧ (e.config.checkRelocationContent = false → bad → fatal = true)

section Fatal

variable {e : Env} {r : ObjectRef} {s s' : Loader}

/-- `relocate` reports unresolvable relocations. -/
theorem relocate_reports {reloc : Relocation} {fix fatal : Bool} {value : Nat}
    (run : relocate e r reloc fix s = some ((value, fatal), s')) :
    e.Reports fatal (s.Unresolvable e r reloc) := by
  obtain ⟨o, i, object, identity, cases⟩ := relocate_cases run
  rcases cases with ⟨checked, rfl⟩ | ⟨noSymbol, rfl⟩ |
    ⟨hasSymbol, s₁, sym, query, same, needed, outcome⟩
  · exact ⟨fun bad => (by cases bad), fun unchecked => by simp [unchecked] at checked⟩
  · simp [Env.Reports, Loader.Unresolvable, noSymbol]
  · have unresolvable : s.Unresolvable e r reloc ↔
        s.resolveSymbol e query = some none ∧ sym.bind ≠ .stbWeak := by
      simp [Loader.Unresolvable, object, identity, hasSymbol, needed]
    rw [resolveSymbol_congr same] at outcome
    rcases outcome with ⟨symbol, found, rfl, -⟩ | ⟨missing, rfl, -⟩
    · simp [Env.Reports, unresolvable, found]
    · simp [Env.Reports, unresolvable, missing]

/-- The loop reports its first unresolvable relocation. -/
theorem relocateAll_reports {relocs : List Relocation}
    (run : relocateAll e r relocs s = some (fatal, s')) :
    e.Reports fatal (∃ reloc ∈ relocs, s.Unresolvable e r reloc) := by
  induction relocs generalizing s with
  | nil =>
    obtain ⟨rfl, -⟩ := pure_inv run
    simp [Env.Reports]
  | cons reloc relocs ih =>
    obtain ⟨⟨value, first⟩, s₁, step, run⟩ := bind_inv run
    obtain ⟨reason, stops⟩ := relocate_reports step
    have same : s₁.lookup = s.lookup := (relocates_relocate r reloc true _ _ _ step).quiet.lookup
    simp only [List.mem_cons, exists_eq_or_imp]
    cases first with
    | true =>
      obtain ⟨rfl, -⟩ := pure_inv run
      exact ⟨fun _ => .inl (reason rfl), fun _ _ => rfl⟩
    | false =>
      obtain ⟨reason', stops'⟩ := ih run
      simp only [unresolvable_congr same] at reason' stops'
      refine ⟨fun bad => .inr (reason' bad), fun unchecked bad => ?_⟩
      exact stops' unchecked (bad.resolve_left fun here => by cases stops unchecked here)

theorem preparePlt_reports {o : Object} (identity : s.identity r.file = some i)
    (bindNow : i.flags.bindNow) (run : preparePlt e r o s = some (fatal, s')) :
    e.Reports fatal (∃ reloc ∈ o.elf.dynamicRelocationsPlt, s.Unresolvable e r reloc) := by
  obtain ⟨_, s₁, first, run⟩ := bind_inv run
  obtain ⟨_, s2, second, run⟩ := bind_inv run
  have quiet1 : Quiet s s₁ := frame_writeMemory _ _ _ _ _ _ first
  have quiet2 : Quiet s₁ s2 := frame_writeMemory _ _ _ _ _ _ second
  have same : s2.lookup = s.lookup := (quiet1.trans quiet2).lookup
  obtain ⟨j, found, run⟩ := getIdentity_bind_inv run
  rw [Loader.identity_congr same, identity] at found
  cases found
  rw [if_pos bindNow] at run
  have reports := relocateAll_reports run
  simpa only [unresolvable_congr same] using reports

end Fatal

/-- The relocations that `prepare` applies without lazy binding. -/
def Object.eagerRelocations (o : Object) : List Relocation :=
  o.elf.dynamicRelocations ++
    if o.globalOffsetTable ≠ 0 then o.elf.dynamicRelocationsPlt else []

/-- Every relocation of an object that `prepare` applies without lazy binding has its symbol,
or needs none. -/
def Loader.AllResolvable (e : Env) (s : Loader) (r : ObjectRef) : Prop :=
  ∀ o, s.object r = some o → ∀ reloc ∈ o.eagerRelocations, ¬ s.Unresolvable e r reloc

/-- `prepare` fails if and, unless the content of the targets is checked, only if a relocation cannot
be resolved. -/
theorem prepareDynamic_reports {r : ObjectRef} {ok : Bool} (identity : s.identity r.file = some i)
    (bindNow : i.flags.bindNow) (run : prepareDynamic e r s = some (ok, s')) :
    e.Reports (!ok) (¬ s.AllResolvable e r) := by
  obtain ⟨o, object, run⟩ := getObject_bind_inv run
  obtain ⟨error, s₁, relocated, run⟩ := bind_inv run
  obtain ⟨_, s2, incremented, run⟩ := bind_inv run
  obtain ⟨reason, stops⟩ := relocateAll_reports relocated
  have same : s2.lookup = s.lookup := by
    have quiet : Keeps Quiet (forEach (fun offset => incrementWord o.base (o.base + offset))
        o.elf.relativeRelocations) := by grind
    exact (quiet _ _ _ incremented).lookup.trans
      (relocates_relocateAll r _ _ _ _ relocated).quiet.lookup
  have all : ¬ s.AllResolvable e r ↔
      (∃ reloc ∈ o.elf.dynamicRelocations, s.Unresolvable e r reloc) ∨
        (o.globalOffsetTable ≠ 0 ∧
          ∃ reloc ∈ o.elf.dynamicRelocationsPlt, s.Unresolvable e r reloc) := by
    simp only [Loader.AllResolvable, object, Option.some.injEq, forall_eq']
    unfold Object.eagerRelocations
    split <;> simp_all [or_and_right, exists_or]
  rw [all]
  by_cases plt : (!error && o.globalOffsetTable ≠ 0)
  · rw [if_pos plt] at run
    obtain ⟨error', s3, prepared, run⟩ := bind_inv run
    obtain ⟨rfl, -⟩ := pure_inv run
    rw [← Loader.identity_congr same] at identity
    obtain ⟨reason', stops'⟩ := preparePlt_reports identity bindNow prepared
    simp only [unresolvable_congr same] at reason' stops'
    obtain ⟨rfl, got⟩ : error = false ∧ o.globalOffsetTable ≠ 0 := by simpa using plt
    rw [Bool.not_not]
    refine ⟨fun bad => .inr ⟨got, reason' bad⟩, fun unchecked bad => ?_⟩
    exact stops' unchecked (bad.resolve_left fun here => by cases stops unchecked here).2
  · rw [if_neg plt] at run
    obtain ⟨rfl, -⟩ := pure_inv run
    rw [Bool.not_not]
    refine ⟨fun bad => .inl (reason bad), fun unchecked bad => ?_⟩
    rcases bad with bad | ⟨got, -⟩
    · exact stops unchecked bad
    · simpa [got] using plt

/-! ## The end of `create` -/

section Employ

variable {e : Env} {library : LibraryCall} {o : Object} {type : ElfType} {s s₁ s' : Loader}
  {result : Option ObjectRef} {info : Info}

/-- The state in which `prepare` of a new version is called. -/
def Loader.ready (s : Loader) (o : Object) : Loader :=
  s.modifyIdentity o.file ObjectIdentity.setBindNow

/-- A new version of an initialized identity is employed whatever `prepare` returns. -/
theorem finishCreate_prepares (dynamic : o.kind = .dynamic) (identity : s.identity o.file = some i)
    (initialized : i.flags.initialized) (update : (s.filePrevious o.ref).isSome)
    (run : finishCreate e o type s = some (info, s')) :
    ∃ ok s2, prepareDynamic e o.ref (s.ready o) = some (ok, s2) := by
  obtain ⟨j, found, run⟩ := getIdentity_bind_inv run
  cases identity.symm.trans found
  obtain ⟨_, s₁, prepared, -⟩ := bind_inv run
  rw [onlyIf, if_pos initialized] at prepared
  unfold prepareUpdate at prepared
  rw [bind_of_eq (get_apply s)] at prepared
  obtain ⟨-, prepared⟩ := require_bind_inv prepared
  obtain ⟨_, s2, version, -⟩ := bind_inv prepared
  rw [onlyIf, if_pos update] at version
  unfold prepareVersion at version
  rw [bind_of_eq (modify_apply _ s)] at version
  unfold preprepareObject prepareObject at version
  simp only [dynamic] at version
  rw [bind_of_eq (pure_apply () _)] at version
  obtain ⟨ok, s3, relocated, -⟩ := bind_inv version
  exact ⟨ok, s3, relocated⟩

/-- A new dynamic version of an initialized identity has been preloaded and mapped. That it is
rejected if `prepare` fails holds if all relocations can be resolved, and, unless the content of the
targets is checked, only then: `prepare` does not fail. -/
theorem employ_rejects_iff (dynamic : o.kind = .dynamic)
    (mapped : (do install o; preloadAndMap e library o : LoaderM _) s = some (none, s₁))
    {i : ObjectIdentity} (identity : s₁.identity o.file = some i)
    (initialized : i.flags.initialized = true) (update : (s₁.filePrevious o.ref).isSome = true)
    (run : employ e library o type s = some ((result, info), s')) :
    ((s₁.ready o).AllResolvable e o.ref →
      ∀ s₂, prepareDynamic e o.ref (s₁.ready o) = some (false, s₂) →
        result = none ∧ s'.current o.file = s.current o.file) ∧
    (e.config.checkRelocationContent = false →
      (∀ s₂, prepareDynamic e o.ref (s₁.ready o) = some (false, s₂) →
        result = none ∧ s'.current o.file = s.current o.file) →
      (s₁.ready o).AllResolvable e o.ref) := by
  obtain ⟨_, s0, installed, preloaded⟩ := bind_inv mapped
  unfold employ at run
  rw [bind_of_eq installed, bind_of_eq preloaded] at run
  obtain ⟨info', s₂, finished, run⟩ := bind_inv run
  obtain ⟨same, -⟩ := pure_inv run
  cases same
  obtain ⟨ok, s3, prepared⟩ := finishCreate_prepares dynamic identity initialized update finished
  have identity' : (s₁.ready o).identity o.file = some i.setBindNow := by
    unfold Loader.ready
    rw [Loader.identity_modifyIdentity_same (f := ObjectIdentity.setBindNow) fun _ => rfl, identity]
    rfl
  obtain ⟨reason, stops⟩ := prepareDynamic_reports identity' rfl prepared
  rw [prepared]
  cases ok with
  | true =>
    refine ⟨fun _ s₂ fails => (by cases fails), fun unchecked _ => ?_⟩
    by_contra bad
    cases stops unchecked bad
  | false =>
    refine ⟨fun all => absurd all (reason rfl), fun _ rejects => ?_⟩
    cases (rejects s3 rfl).1

end Employ

/-- An initialized identity with one version, and a library that defines `z`. -/
def loadedA : Loader :=
  { Loader.initial with
    lookup := [{ ObjectIdentity.global 0 "lib.so"
      [Object.construct 1 0 .dynamic (Elf.library [] [] []) Data.none] with
        flags := { Flags.zero with initialized := true } },
      .global 1 "libz.so"
        [Object.construct 3 1 .dynamic (Elf.library [] [.function "z"] []) Data.none]]
    memoryMap := fun uid => if uid = 1 then [MemorySegment.ofBss 0 4096 0x100000] else []
    fresh := 4 }

/-- The next version of the first one, with addresses of `z` and of a weak symbol. -/
def versionB : Object :=
  { Object.construct 2 0 .dynamic (Elf.library []
    [.reference "z", { Symbol.reference "w" with bind := .stbWeak }]
    [⟨0, rX866464, 2, 0⟩, ⟨8, rX866464, 1, 0⟩]) Data.none with base := 0x200000 }

/-- No library can be opened. -/
def noLibrary : LibraryCall := fun _ _ _ _ _ => pure none

theorem employ_rejects_iff_versionB :
    ∃ s₁ s' result info,
      (do install versionB; preloadAndMap .noFiles noLibrary versionB : LoaderM _) loadedA =
        some (none, s₁) ∧
      employ .noFiles noLibrary versionB .dyn loadedA = some ((result, info), s') ∧
      versionB.eagerRelocations.length = 2 ∧
      (s₁.ready versionB).AllResolvable .noFiles versionB.ref := by
  have mapped : ((do install versionB; preloadAndMap .noFiles noLibrary versionB : LoaderM _)
      loadedA).map (fun p => (p.1, (p.2.identity 0).map fun i => i.flags.initialized,
        (p.2.filePrevious versionB.ref).isSome,
        (prepareDynamic .noFiles versionB.ref (p.2.ready versionB)).map Prod.fst)) =
      some (none, some true, true, some true) := by
    decide +kernel
  have employed : (employ .noFiles noLibrary versionB .dyn loadedA).isSome = true := by
    decide +kernel
  obtain ⟨⟨failure, s₁⟩, run1, facts⟩ := Option.map_eq_some_iff.mp mapped
  obtain ⟨⟨⟨result, info⟩, s'⟩, run⟩ := Option.isSome_iff_exists.mp employed
  simp only [Prod.mk.injEq] at facts
  obtain ⟨rfl, flag, update, prepared⟩ := facts
  obtain ⟨i, identity, initialized⟩ := Option.map_eq_some_iff.mp flag
  obtain ⟨⟨ok, s₂⟩, succeeds, rfl⟩ := Option.map_eq_some_iff.mp prepared
  obtain ⟨-, onlyIf⟩ := employ_rejects_iff rfl run1 identity initialized update run
  refine ⟨s₁, s', result, info, run1, run, rfl, onlyIf rfl fun _ fails => ?_⟩
  cases succeeds.symm.trans fails

/-- The next version needs a symbol that nothing defines. -/
def needsY : Env := fileY (File.ofElf 1 (Elf.library [] [.reference "y"] [⟨8, rX866464, 1, 0⟩]))

/-- Open the first version, then create the second one and prepare it once more. -/
def updateToNeedsY : LoaderM (Option (Info × Bool)) := do
  let _ ← dlopen needsNothing 1 (some "liby.so") { Flags.zero with updatable := true } (some 0) true
  match ← openObject needsY 0 none .none with
  | .error _ => return none
  | .ok op => do
    let (_, info) ← create needsY (libraryCall needsY (openFile needsY 1)) 0 op
    let o ← getCurrent 0
    let ok ← prepareDynamic needsY o.ref
    return some (info, ok)

/-- The update succeeds and the second version is the current one, but it cannot be prepared. -/
theorem updateToNeedsY_employs :
    (updateToNeedsY Loader.initial).map (fun p => (p.1, (p.2.identity 0).map fun i =>
        i.versions.map fun o => (o.uid, o.status))) =
      some (some (.successUpdate, false), some [(7, .prepared), (3, .prepared)]) := by
  decide +kernel

end Luci
