import Luci.Symbol
import Luci.Reference

/-!
# Symbol lookup

`Loader::resolve_symbol` threads one accumulator through four search stages. Here
the stages are put one after the other into a single sequence of objects,
`searchOrder`; the lookup picks the first strong definition of that sequence,
otherwise its first one (`resolveSymbol_eq_pick`). The reference for the modes
without exclusion and the condition under which the modes with exclusion keep
away from the requesting object follow from properties of that choice.
-/

namespace Luci

open Preference

variable {obj : Nat} {current : Object} {file : ObjectIdentity}

/-- The definition an object has for a query. -/
def Query.definition (e : Env) (q : Query) (o : Object) : Option VersionedSymbol :=
  o.resolveSymbol e.libs q.name q.version

/-- The identities of the global scope of a namespace. -/
def Loader.globalScope (s : Loader) (ns : Nat) : List ObjectIdentity :=
  s.lookup.filter fun f => f.ns = ns && f.flags.bindGlobal && f.current.isSome

/-- The part of the global scope that a query looks at; with `after` set only what
follows the requesting identity. -/
def Query.selectGlobals (q : Query) (after : Bool) (scope : List ObjectIdentity) :
    List ObjectIdentity :=
  if after then (scope.dropWhile fun f => q.obj ≠ some f.id).drop 1
  else if q.mode = .exceptObject then scope.filter fun f => q.obj ≠ some f.id
  else scope

/-- A query looks at this dependency: it is neither covered by the global scope nor
the excluded identity. -/
def Query.selectDependency (q : Query) (f : ObjectIdentity) : Bool :=
  decide (¬ (q.mode ≠ .afterObject ∧ f.ns = q.ns ∧ f.flags.bindGlobal) ∧
    (q.mode ≠ .exceptObject ∨ q.obj ≠ some f.id))

/-- The objects in the order in which a query of an identity with this current
version looks at them. -/
def Loader.searchOrder (s : Loader) (q : Query) (current : Object) : List Object :=
  (if q.mode = .objectFirst then [current] else []) ++
  ((q.selectGlobals (q.mode = .afterObject) (s.globalScope q.ns)).filterMap
      ObjectIdentity.current ++
  ((if q.mode = .noDependencies then []
    else ((current.dependencies.filterMap s.identity).filter q.selectDependency).filterMap
      ObjectIdentity.current) ++
  (if q.mode = .objectFirst then [] else [current])))

/-- The assertions of the lookup hold: the requesting identity and its direct
dependencies have a current version. -/
structure Loader.Resolvable (s : Loader) (q : Query) (obj : Nat) (current : Object) : Prop where
  requester : q.obj = some obj
  version : s.current obj = some current
  loaded : ∀ d ∈ current.dependencies, ∃ o, s.current d = some o

section Stages

variable {e : Env} {s : Loader} {q : Query}

theorem hasSymbol_eq_consider (o : Object) (best : Option VersionedSymbol) :
    o.hasSymbol e q.name q.version best =
      consider (VersionedSymbol.strong e.config) best (q.definition e o) := by
  unfold Object.hasSymbol Query.definition
  cases o.resolveSymbol e.libs q.name q.version <;> rfl

theorem selectGlobals_cons_after (file : ObjectIdentity) (files : List ObjectIdentity) :
    q.selectGlobals true (file :: files) =
      if q.obj = some file.id then files else q.selectGlobals true files := by
  unfold Query.selectGlobals
  by_cases same : q.obj = some file.id <;> simp [same]

theorem selectGlobals_all (mode : q.mode ≠ .exceptObject) (files : List ObjectIdentity) :
    q.selectGlobals false files = files := by
  simp [Query.selectGlobals, mode]

theorem selectGlobals_cons_wanted (wanted : q.mode ≠ .exceptObject ∨ q.obj ≠ some file.id)
    (files : List ObjectIdentity) :
    q.selectGlobals false (file :: files) = file :: q.selectGlobals false files := by
  unfold Query.selectGlobals
  by_cases mode : q.mode = .exceptObject
  · have other : q.obj ≠ some file.id := wanted.resolve_left (not_not.mpr mode)
    simp [mode, other]
  · simp [mode]

theorem selectGlobals_cons_unwanted (unwanted : ¬ (q.mode ≠ .exceptObject ∨ q.obj ≠ some file.id))
    (files : List ObjectIdentity) :
    q.selectGlobals false (file :: files) = q.selectGlobals false files := by
  obtain ⟨mode, same⟩ : q.mode = .exceptObject ∧ q.obj = some file.id := by
    simpa [not_or] using unwanted
  simp [Query.selectGlobals, mode, same]

theorem searchGlobal_eq_scan (files : List ObjectIdentity) :
    ∀ (after : Bool) (best : Option VersionedSymbol), (after → q.mode ≠ .exceptObject) →
    searchGlobal e q after best files =
      scan (q.definition e) (VersionedSymbol.strong e.config) best
        ((q.selectGlobals after (files.filter fun f =>
          f.ns = q.ns && f.flags.bindGlobal && f.current.isSome)).filterMap
            ObjectIdentity.current) := by
  induction files with
  | nil =>
    simp [searchGlobal, Query.selectGlobals, scan]
  | cons file files ih =>
    intro after best oneMode
    unfold searchGlobal
    cases loaded : file.current with
    | none => simp [loaded, ih after best oneMode]
    | some current =>
      by_cases inScope : file.ns = q.ns ∧ file.flags.bindGlobal
      · rw [List.filter_cons_of_pos (by simp [inScope, loaded])]
        simp only [inScope, and_self, if_true]
        cases after with
        | true =>
          rw [selectGlobals_cons_after]
          by_cases same : q.obj = some file.id
          · have rest := ih false best (by simp)
            rw [selectGlobals_all (oneMode rfl)] at rest
            simp [same, rest]
          · simp [same, ih true best oneMode]
        | false =>
          have rest := fun best => ih false best (by simp)
          by_cases wanted : q.mode ≠ .exceptObject ∨ q.obj ≠ some file.id
          · rw [selectGlobals_cons_wanted wanted, List.filterMap_cons_some loaded, scan_cons,
              ← hasSymbol_eq_consider]
            simp only [wanted, rest]
            rcases current.hasSymbol e q.name q.version best with ⟨_ | _, result⟩ <;> rfl
          · rw [selectGlobals_cons_unwanted wanted]
            simp only [wanted, if_false, rest, Bool.false_eq_true]
      · rw [List.filter_cons_of_neg (by simpa using fun sameNs isGlobal => absurd ⟨sameNs, isGlobal⟩ inScope)]
        simp only [inScope, if_false, ih after best oneMode]

theorem searchDependencies_eq_scan (deps : List Nat)
    (loaded : ∀ d ∈ deps, ∃ o, s.current d = some o) : ∀ best : Option VersionedSymbol,
    searchDependencies e s q best deps =
      some (scan (q.definition e) (VersionedSymbol.strong e.config) best
        (((deps.filterMap s.identity).filter q.selectDependency).filterMap
          ObjectIdentity.current)) := by
  induction deps with
  | nil => intro best; rfl
  | cons dep deps ih =>
    intro best
    have rest := ih fun d member => loaded d (by simp [member])
    obtain ⟨o, version⟩ := loaded dep (by simp)
    obtain ⟨file, found, current⟩ := Option.bind_eq_some_iff.mp version
    rw [List.filterMap_cons_some found]
    unfold searchDependencies
    simp only [found, Option.bind_eq_bind, Option.bind_some]
    by_cases covered : q.mode ≠ .afterObject ∧ file.ns = q.ns ∧ file.flags.bindGlobal
    · have skip : q.selectDependency file = false := decide_eq_false fun both => both.1 covered
      rw [List.filter_cons_of_neg (by simp [skip]), if_pos covered, rest]
    · rw [if_neg covered]
      by_cases wanted : q.mode ≠ .exceptObject ∨ q.obj ≠ some file.id
      · have keep : q.selectDependency file := decide_eq_true ⟨covered, wanted⟩
        rw [List.filter_cons_of_pos keep, if_pos wanted, List.filterMap_cons_some current,
          scan_cons, ← hasSymbol_eq_consider, current]
        simp only [Option.bind_some, rest]
        rcases o.hasSymbol e q.name q.version best with ⟨_ | _, result⟩ <;> rfl
      · have skip : q.selectDependency file = false := decide_eq_false fun both => wanted both.2
        rw [List.filter_cons_of_neg (by simp [skip]), if_neg wanted, rest]

theorem andThen_scan {best : Option VersionedSymbol} {l m : List Object} :
    Search.andThen (scan (q.definition e) (VersionedSymbol.strong e.config) best l)
        (fun best => some (scan (q.definition e) (VersionedSymbol.strong e.config) best m)) =
      some (scan (q.definition e) (VersionedSymbol.strong e.config) best (l ++ m)) := by
  rw [scan_append]
  rcases scan (q.definition e) (VersionedSymbol.strong e.config) best l with ⟨_ | _, result⟩ <;> rfl

theorem scan_singleton (o : Object) (best : Option VersionedSymbol) :
    scan (q.definition e) (VersionedSymbol.strong e.config) best [o] =
      o.hasSymbol e q.name q.version best := by
  rw [scan_cons, ← hasSymbol_eq_consider]
  rcases o.hasSymbol e q.name q.version best with ⟨_ | _, result⟩ <;> rfl

theorem searchFirst_eq_scan (asserted : s.Resolvable q obj current) :
    searchFirst e s q =
      some (scan (q.definition e) (VersionedSymbol.strong e.config) none
        (if q.mode = .objectFirst then [current] else [])) := by
  unfold searchFirst
  by_cases mode : q.mode = .objectFirst
  · simp only [mode, asserted.requester, asserted.version, Option.map_some, if_true, scan_singleton]
  · cases found : q.mode <;> first | rfl | exact absurd found mode

theorem searchObject_eq_scan (asserted : s.Resolvable q obj current)
    (best : Option VersionedSymbol) :
    searchObject e s q obj best =
      some (scan (q.definition e) (VersionedSymbol.strong e.config) best
        ((if q.mode = .noDependencies then []
          else ((current.dependencies.filterMap s.identity).filter q.selectDependency).filterMap
            ObjectIdentity.current) ++
        (if q.mode = .objectFirst then [] else [current]))) := by
  have own : ∀ best : Option VersionedSymbol,
      (if q.mode ≠ .objectFirst then some (current.hasSymbol e q.name q.version best)
        else some (false, best)) =
      some (scan (q.definition e) (VersionedSymbol.strong e.config) best
        (if q.mode = .objectFirst then [] else [current])) := by
    by_cases mode : q.mode = .objectFirst
    · simp [mode, scan]
    · simp [mode, scan_singleton]
  unfold searchObject
  simp only [asserted.version, Option.bind_eq_bind, Option.bind_some, own]
  by_cases mode : q.mode = .noDependencies
  · simp [mode, Search.andThen]
  · simp only [mode, ne_eq, searchDependencies_eq_scan current.dependencies asserted.loaded]
    exact andThen_scan

theorem resolveSymbol_eq_pick (asserted : s.Resolvable q obj current) :
    s.resolveSymbol e q =
      some (pick (q.definition e) (VersionedSymbol.strong e.config) (s.searchOrder q current)) := by
  have oneMode : decide (q.mode = .afterObject) → q.mode ≠ .exceptObject := by
    intro after
    simp [of_decide_eq_true after]
  unfold Loader.resolveSymbol
  simp only [asserted.requester, Option.bind_eq_bind, Option.bind_some,
    searchFirst_eq_scan asserted,
    searchGlobal_eq_scan s.lookup (decide (q.mode = .afterObject)) _ oneMode,
    searchObject_eq_scan asserted, andThen_scan, scan_none]
  rfl

end Stages

/-! ## Modes without exclusion -/

/-- The reference sequence: the requesting object (only for `RESOLVE_OBJECT_FIRST`), the
global scope in lookup order, the direct dependencies (not for
`RESOLVE_NO_DEPENDENCIES`), and the requesting object. -/
def Loader.lookupSequence (s : Loader) (q : Query) (current : Object) : List Object :=
  (if q.mode = .objectFirst then [current] else []) ++
  ((s.lookup.filter fun f => f.ns = q.ns && f.flags.bindGlobal).filterMap ObjectIdentity.current ++
  ((if q.mode = .noDependencies then [] else current.dependencies.filterMap s.current) ++
  [current]))

section Reference

variable {e : Env} {s : Loader} {q : Query}

theorem filterMap_current_globalScope :
    (s.globalScope q.ns).filterMap ObjectIdentity.current =
      (s.lookup.filter fun f => f.ns = q.ns && f.flags.bindGlobal).filterMap
        ObjectIdentity.current := by
  unfold Loader.globalScope
  induction s.lookup with
  | nil => rfl
  | cons file files ih =>
    cases loaded : file.current with
    | none =>
      by_cases inScope : (file.ns = q.ns && file.flags.bindGlobal)
      · simp [inScope, loaded, ih]
      · simp [inScope, ih]
    | some current =>
      by_cases inScope : (file.ns = q.ns && file.flags.bindGlobal)
      · simp [inScope, loaded, ih]
      · simp [inScope, ih]

/-- A dependency that the lookup skips is in the global scope. -/
theorem mem_global_of_skipped (noExcept : q.mode ≠ .exceptObject) (deps : List Nat) :
    ∀ f ∈ deps.filterMap s.identity, q.selectDependency f = false →
      f ∈ s.lookup.filter fun f => f.ns = q.ns && f.flags.bindGlobal := by
  intro f member skipped
  obtain ⟨d, -, found⟩ := List.mem_filterMap.mp member
  have covered : q.mode ≠ .afterObject ∧ f.ns = q.ns ∧ f.flags.bindGlobal := by
    by_contra uncovered
    exact of_decide_eq_false skipped ⟨uncovered, Or.inl noExcept⟩
  have inLookup : f ∈ s.lookup := KeyedList.mem_of_lookup found
  exact List.mem_filter.mpr ⟨inLookup, by simp [covered.2]⟩

/-- The choice from the search order is the choice from the reference sequence. -/
theorem pick_searchOrder (asserted : s.Resolvable q obj current)
    (mode : q.mode = .default ∨ q.mode = .objectFirst ∨ q.mode = .noDependencies) :
    pick (q.definition e) (VersionedSymbol.strong e.config) (s.searchOrder q current) =
      pick (q.definition e) (VersionedSymbol.strong e.config) (s.lookupSequence q current) := by
  obtain ⟨file, -, isCurrent⟩ := Option.bind_eq_some_iff.mp asserted.version
  have own : [current] = [file].filterMap ObjectIdentity.current := by simp [isCurrent]
  have dependencies : current.dependencies.filterMap s.current =
      (current.dependencies.filterMap s.identity).filterMap ObjectIdentity.current := by
    rw [List.filterMap_filterMap]
    rfl
  unfold Loader.searchOrder Loader.lookupSequence
  rcases mode with mode | mode | mode
  · have seen := mem_global_of_skipped (q := q) (s := s) (by simp [mode]) current.dependencies
    simp only [mode, reduceCtorEq, if_false, decide_false, List.nil_append]
    rw [selectGlobals_all (by simp [mode]), filterMap_current_globalScope, dependencies, own]
    simp only [← List.filterMap_append, pick_filterMap]
    exact pick_skip seen [file]
  · have seen : ∀ f ∈ current.dependencies.filterMap s.identity, q.selectDependency f = false →
        f ∈ file :: s.lookup.filter fun f => f.ns = q.ns && f.flags.bindGlobal :=
      fun f member skipped => List.mem_cons_of_mem file
        (mem_global_of_skipped (by simp [mode]) current.dependencies f member skipped)
    simp only [mode, reduceCtorEq, if_false, if_true, decide_false]
    rw [selectGlobals_all (by simp [mode]), filterMap_current_globalScope, dependencies, own]
    simp only [List.append_nil, ← List.filterMap_append, pick_filterMap]
    exact pick_skip_again seen
  · simp only [mode, reduceCtorEq, if_false, if_true, decide_false]
    rw [selectGlobals_all (by simp [mode]), filterMap_current_globalScope]

/-- In the modes without exclusion, the lookup returns the first strong definition of
the reference sequence, otherwise the first definition, otherwise nothing. -/
theorem resolveSymbol_eq_reference {obj : Nat} {current : Object}
    (asserted : s.Resolvable q obj current)
    (mode : q.mode = .default ∨ q.mode = .objectFirst ∨ q.mode = .noDependencies) :
    s.resolveSymbol e q =
      some (pick (q.definition e) (VersionedSymbol.strong e.config)
        (s.lookupSequence q current)) := by
  rw [resolveSymbol_eq_pick asserted, pick_searchOrder asserted mode]

end Reference

/-- A shared object that defines `x`. -/
def definesX : Object := Object.construct 1 0 .dynamic (Elf.sharedObject [.function "x"]) Data.none

/-- A loader with that object in the global scope. -/
def loadedX : Loader := { Loader.initial with lookup := [.global 0 "libx.so" [definesX]] }

/-- A query of that object for `x`. -/
def queryX (mode : ResolveSymbolMode) : Query := ⟨"x", Version.ofValid true, 0, some 0, mode⟩

/-- Two more objects are in front of it: one that does not define `x`, and one that does. -/
def loadedThree : Loader :=
  { Loader.initial with lookup :=
      [.global 2 "libz.so" [.construct 3 2 .dynamic (Elf.sharedObject [.function "z"]) Data.none],
        .global 4 "liby.so" [.construct 5 4 .dynamic (Elf.sharedObject [.function "x"]) Data.none],
        .global 0 "libx.so" [definesX]] }

theorem resolveSymbol_eq_reference_definesX :
    loadedThree.Resolvable (queryX .default) 0 definesX ∧
      loadedThree.resolveSymbol .noFiles (queryX .default) =
        some (pick ((queryX .default).definition .noFiles)
          (VersionedSymbol.strong Config.default)
          (loadedThree.lookupSequence (queryX .default) definesX)) := by
  have asserted : loadedThree.Resolvable (queryX .default) 0 definesX :=
    ⟨rfl, rfl, by simp [definesX, Object.construct]⟩
  exact ⟨asserted, resolveSymbol_eq_reference asserted (Or.inl rfl)⟩

/-! ## Modes with exclusion -/

/-- Every definition of a version of `obj` that the search reaches is outranked by one
of another object: a strong one by an earlier strong one, a weak one by an earlier one
or by a strong one anywhere. -/
def Loader.Outranked (e : Env) (s : Loader) (q : Query) (obj : Nat) (current : Object) : Prop :=
  ∀ front d back,
    (s.searchOrder q current).filterMap (q.definition e) = front ++ d :: back →
    d.object.file = obj →
      if d.strong e.config then ∃ c ∈ front, c.strong e.config ∧ ¬ c.object.file = obj
      else (∃ c ∈ front, ¬ c.object.file = obj) ∨
        ∃ c ∈ (s.searchOrder q current).filterMap (q.definition e),
          c.strong e.config ∧ ¬ c.object.file = obj

/-- The lookup on behalf of an identity stays away from its own versions exactly when
their definitions are outranked; the modes `RESOLVE_EXCEPT_OBJECT` and
`RESOLVE_AFTER_OBJECT` do not prevent it, because the last stage searches the
requesting object in both. -/
theorem resolveSymbol_excludes_iff {e : Env} {s : Loader} {q : Query} {obj : Nat}
    {current : Object} (asserted : s.Resolvable q obj current) :
    (∀ sym, s.resolveSymbol e q = some (some sym) → ¬ sym.object.file = obj) ↔
      s.Outranked e q obj current := by
  rw [resolveSymbol_eq_pick asserted]
  simp only [Option.some.injEq]
  exact pick_avoids_iff (s.searchOrder q current)

theorem resolveSymbol_excludes_iff_definesX :
    loadedX.Resolvable (queryX .exceptObject) 0 definesX ∧
      ((∀ sym, loadedX.resolveSymbol .noFiles
          (queryX .exceptObject) = some (some sym) → ¬ sym.object.file = 0) ↔
        loadedX.Outranked .noFiles (queryX .exceptObject) 0
          definesX) := by
  have asserted : loadedX.Resolvable (queryX .exceptObject) 0 definesX :=
    ⟨rfl, rfl, by simp [definesX, Object.construct]⟩
  exact ⟨asserted, resolveSymbol_excludes_iff asserted⟩

/-- With nothing else loaded, both modes return the definition of the excluded object. -/
theorem resolveSymbol_returns_excluded :
    loadedX.resolveSymbol .noFiles (queryX .exceptObject) =
        some (some ⟨.function "x", ⟨0, 1⟩, Version.ofValid true⟩) ∧
      loadedX.resolveSymbol .noFiles (queryX .afterObject) =
        some (some ⟨.function "x", ⟨0, 1⟩, Version.ofValid true⟩) := by
  decide

end Luci
