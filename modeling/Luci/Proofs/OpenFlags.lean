import Luci.Proofs.LibraryNames
import Luci.Proofs.SymbolLookup

/-!
# What `dlopen` takes away

`Loader::dlopen` sets the flags of the identity that it returns to those of the call, whether the
identity is new or was opened before (`src/loader.cpp:236-241`). All other identities
keep their flags, and what becomes global only adds to the scope of symbol lookups.
-/

namespace Luci

open Exec KeyedList Preference

variable {e : Env} {s s' : Loader} {file ns : Nat} {isGlobal : Bool} {i : ObjectIdentity}
  {found result : Option Nat}

/-! ## Lookups with a larger global scope -/

/-- An identity that serves at least the lookups of before: the versions are the same, and it is
global if it was. -/
structure ObjectIdentity.Serves (i i' : ObjectIdentity) : Prop where
  id : i'.id = i.id
  ns : i'.ns = i.ns
  bindGlobal : i.flags.bindGlobal = true → i'.flags.bindGlobal = true
  versions : i'.versions.map Object.unprepared = i.versions.map Object.unprepared

/-- The identities of before serve their lookups, others may have been appended. -/
def Loader.Serves (s s' : Loader) : Prop :=
  ∃ kept new, s'.lookup = kept ++ new ∧ List.Forall₂ ObjectIdentity.Serves s.lookup kept

/-- A lookup returns a symbol. -/
def Loader.Finds (e : Env) (s : Loader) (q : Query) : Prop :=
  ∃ sym, s.resolveSymbol e q = some (some sym)

section Lookup

variable {e : Env} {s s' : Loader} {q : Query} {i i' : ObjectIdentity} {o o' : Object}

theorem Query.definition_unprepared (same : o'.unprepared = o.unprepared) :
    q.definition e o' = q.definition e o := by
  have unseen : ∀ a : Object, q.definition e a.unprepared = q.definition e a := fun _ => rfl
  rw [← unseen o', same, unseen]

theorem ObjectIdentity.Serves.current (serves : i.Serves i') (current : i.current = some o) :
    ∃ o', i'.current = some o' ∧ o'.unprepared = o.unprepared := by
  have heads : i'.current.map Object.unprepared = i.current.map Object.unprepared := by
    have same := congrArg List.head? serves.versions
    rwa [List.head?_map, List.head?_map] at same
  rw [current] at heads
  exact Option.map_eq_some_iff.mp heads

theorem Loader.Serves.mem (serves : s.Serves s') (member : i ∈ s.lookup) :
    ∃ i' ∈ s'.lookup, i.Serves i' := by
  obtain ⟨kept, new, lookup, all⟩ := serves
  obtain ⟨n, rfl⟩ := List.get_of_mem member
  have bound : n < kept.length := all.length_eq ▸ n.isLt
  have served := all.get n.isLt bound
  exact ⟨kept.get ⟨n, bound⟩, lookup ▸ List.mem_append_left new (kept.get_mem _), served⟩

theorem Loader.Serves.identity (serves : s.Serves s') (found : s.identity file = some i) :
    ∃ i', s'.identity file = some i' ∧ i.Serves i' := by
  obtain ⟨kept, new, lookup, all⟩ := serves
  obtain ⟨i', isKept, served⟩ := lookup_of_forall₂ (fun _ _ serves => serves.id) all found
  refine ⟨i', ?_, served⟩
  unfold Loader.identity
  rw [lookup]
  exact lookup_append_of_some new isKept

/-- The objects that a default lookup considers for the global scope. -/
def Loader.globals (s : Loader) (ns : Nat) : List Object :=
  (s.lookup.filter fun f => f.ns = ns && f.flags.bindGlobal && f.current.isSome).filterMap
    ObjectIdentity.current

theorem Loader.mem_globals : o ∈ s.globals ns ↔
    ∃ i ∈ s.lookup, i.ns = ns ∧ i.flags.bindGlobal ∧ i.current = some o := by
  unfold Loader.globals
  simp only [List.mem_filterMap, List.mem_filter, Bool.and_eq_true, decide_eq_true_eq]
  constructor
  · rintro ⟨i, ⟨member, ⟨sameNs, isGlobal⟩, -⟩, current⟩
    exact ⟨i, member, sameNs, isGlobal, current⟩
  · rintro ⟨i, member, sameNs, isGlobal, current⟩
    exact ⟨i, ⟨member, ⟨sameNs, isGlobal⟩, by rw [current]; rfl⟩, current⟩

theorem Loader.Serves.globals (serves : s.Serves s') (member : o ∈ s.globals ns) :
    ∃ o' ∈ s'.globals ns, o'.unprepared = o.unprepared := by
  obtain ⟨i, inLookup, sameNs, isGlobal, current⟩ := Loader.mem_globals.mp member
  obtain ⟨i', inLookup', served⟩ := serves.mem inLookup
  obtain ⟨o', current', same⟩ := served.current current
  exact ⟨o', Loader.mem_globals.mpr
    ⟨i', inLookup', served.ns.trans sameNs, served.bindGlobal isGlobal, current'⟩, same⟩

theorem searchGlobal_default (mode : q.mode = .default) :
    searchGlobal e q (q.mode = .afterObject) none s.lookup =
      Preference.scan (q.definition e) (VersionedSymbol.strong e.config) none (s.globals q.ns) := by
  rw [searchGlobal_eq_scan s.lookup _ none (by simp [mode])]
  simp [mode, Query.selectGlobals, Loader.globals]

/-- The dependencies, after a search of the global scope that has not found a strong symbol:
what was found before is found again, here or there. -/
theorem searchDependencies_serves (serves : s.Serves s') (mode : q.mode = .default)
    (weak : ∀ o' ∈ s'.globals q.ns, ∀ sym, q.definition e o' = some sym →
      sym.strong e.config = false) (deps : List Nat) :
    ∀ {best best' : Option VersionedSymbol} {stop : Bool} {found : Option VersionedSymbol},
    (best.isSome → best'.isSome) →
    (∀ o' ∈ s'.globals q.ns, (q.definition e o').isSome → best'.isSome) →
    searchDependencies e s q best deps = some (stop, found) →
    ∃ stop' found', searchDependencies e s' q best' deps = some (stop', found') ∧
      (stop → stop') ∧ (found.isSome ∨ stop' → found'.isSome) := by
  induction deps with
  | nil =>
    intro best best' stop found better global run
    cases run
    exact ⟨false, best', rfl, id, fun either => better (either.resolve_right (by simp))⟩
  | cons dep deps ih =>
    intro best best' stop found better global run
    unfold searchDependencies at run ⊢
    cases isFile : s.identity dep with
    | none =>
      rw [isFile] at run
      cases run
    | some file =>
      obtain ⟨file', isFile', served⟩ := serves.identity isFile
      rw [isFile] at run
      rw [isFile']
      simp only [Option.bind_eq_bind, Option.bind_some, mode, ne_eq, reduceCtorEq,
        not_false_eq_true, true_and, served.ns] at run ⊢
      by_cases covered : file.ns = q.ns ∧ file.flags.bindGlobal
      · rw [if_pos covered] at run
        rw [if_pos ⟨covered.1, served.bindGlobal covered.2⟩]
        exact ih better global run
      · rw [if_neg covered] at run
        cases current : file.current with
        | none =>
          rw [current] at run
          cases run
        | some o =>
          obtain ⟨o', current', same⟩ := served.current current
          have definition : q.definition e o' = q.definition e o := Query.definition_unprepared same
          rw [current, Option.bind_some, hasSymbol_eq_consider] at run
          have ends := consider_ends (VersionedSymbol.strong e.config) best (q.definition e o)
          have hits := consider_isSome (VersionedSymbol.strong e.config) best (q.definition e o)
          rcases isResult : consider (VersionedSymbol.strong e.config) best (q.definition e o) with
            ⟨stops, result⟩
          rw [isResult] at run ends hits
          by_cases covered' : file.ns = q.ns ∧ file'.flags.bindGlobal
          · -- the dependency has become global
            have inScope : o' ∈ s'.globals q.ns := Loader.mem_globals.mpr
              ⟨file', Loader.mem_of_identity isFile', served.ns.trans covered'.1, covered'.2, current'⟩
            rw [if_pos covered']
            cases stops with
            | false =>
              refine ih (fun isFound => ?_) global run
              rcases hits.mp isFound with before | here
              · exact better before
              · exact global o' inScope (definition ▸ here)
            | true =>
              obtain ⟨sym, isSym, strong⟩ := ends.mp rfl
              cases (weak o' inScope sym (definition.trans isSym)).symm.trans strong
          · rw [if_neg covered', current', Option.bind_some, hasSymbol_eq_consider, definition]
            have ends' := consider_ends (VersionedSymbol.strong e.config) best' (q.definition e o)
            have hits' := consider_isSome (VersionedSymbol.strong e.config) best' (q.definition e o)
            rcases isResult' : consider (VersionedSymbol.strong e.config) best' (q.definition e o)
              with ⟨stops', result'⟩
            rw [isResult'] at ends' hits'
            have more : result.isSome → result'.isSome := fun isFound =>
              hits'.mpr ((hits.mp isFound).imp better id)
            cases stops with
            | true =>
              obtain ⟨sym, isSym, strong⟩ := ends.mp rfl
              cases ends'.mpr ⟨sym, isSym, strong⟩
              cases run
              exact ⟨true, result', rfl, id, fun _ => hits'.mpr (.inr (by rw [isSym]; rfl))⟩
            | false =>
              cases stops' with
              | true => cases ends.mpr (ends'.mp rfl)
              | false =>
                refine ih more (fun o'' inScope isDefined => ?_) run
                exact hits'.mpr (.inl (global o'' inScope isDefined))

theorem Loader.Serves.objectCurrent (serves : s.Serves s') (current : s.current file = some o) :
    ∃ o', s'.current file = some o' ∧ o'.unprepared = o.unprepared := by
  obtain ⟨i, found, isCurrent⟩ := Loader.identity_of_current current
  obtain ⟨i', found', served⟩ := serves.identity found
  obtain ⟨o', isCurrent', same⟩ := served.current isCurrent
  refine ⟨o', ?_, same⟩
  unfold Loader.current
  rw [found', Option.bind_some, isCurrent']

theorem searchObject_serves (serves : s.Serves s') (mode : q.mode = .default)
    (weak : ∀ o' ∈ s'.globals q.ns, ∀ sym, q.definition e o' = some sym →
      sym.strong e.config = false) {best best' : Option VersionedSymbol} {obj : Nat} {stop : Bool}
    {found : Option VersionedSymbol} (better : best.isSome → best'.isSome)
    (global : ∀ o' ∈ s'.globals q.ns, (q.definition e o').isSome → best'.isSome)
    (run : searchObject e s q obj best = some (stop, found)) :
    ∃ stop' found', searchObject e s' q obj best' = some (stop', found') ∧
      (found.isSome → found'.isSome) := by
  unfold searchObject at run ⊢
  cases current : s.current obj with
  | none =>
    rw [current] at run
    cases run
  | some o =>
    obtain ⟨o', current', same⟩ := serves.objectCurrent current
    have dependencies : o'.dependencies = o.dependencies := by
      have unmarked := congrArg Object.dependencies same
      exact unmarked
    have definition : q.definition e o' = q.definition e o := Query.definition_unprepared same
    rw [current] at run
    rw [current', Option.bind_eq_bind, Option.bind_some, dependencies]
    simp only [mode, Option.bind_eq_bind, Option.bind_some] at run ⊢
    obtain ⟨⟨stops, result⟩, searched, run⟩ := Option.bind_eq_some_iff.mp run
    obtain ⟨stops', result', searched', ends, hits⟩ :=
      searchDependencies_serves serves mode weak o.dependencies better global searched
    rw [searched']
    cases stops with
    | true =>
      cases ends rfl
      exact ⟨true, result', rfl, fun _ => hits (.inr rfl)⟩
    | false =>
      have own := consider_isSome (VersionedSymbol.strong e.config) result (q.definition e o)
      have isFound := Option.some.inj run
      rw [hasSymbol_eq_consider] at isFound
      rw [isFound] at own
      cases stops' with
      | true => exact ⟨true, result', rfl, fun _ => hits (.inr rfl)⟩
      | false =>
        have own' := consider_isSome (VersionedSymbol.strong e.config) result' (q.definition e o)
        rw [← definition, ← hasSymbol_eq_consider] at own'
        refine ⟨_, _, rfl, fun isSome => own'.mpr ?_⟩
        exact (own.mp isSome).imp (fun before => hits (.inl before)) fun here => definition ▸ here

theorem resolveSymbol_default (mode : q.mode = .default) :
    s.resolveSymbol e q = (Search.andThen
      (Preference.scan (q.definition e) (VersionedSymbol.strong e.config) none (s.globals q.ns)) fun best =>
        match q.obj with
        | some obj => searchObject e s q obj best
        | none => some (false, best)).map Prod.snd := by
  have first : searchFirst e s q = some (false, none) := by
    unfold searchFirst
    rw [mode]
  have asserted : (guard (q.obj.isSome ∨ q.mode = .default) : Option Unit) = some () := by
    simp [mode]
  unfold Loader.resolveSymbol
  rw [asserted, first, ← searchGlobal_default mode, Option.map_eq_bind]
  rfl

/-- Every default lookup that has found a symbol finds one again. -/
theorem Loader.Serves.finds (serves : s.Serves s') (mode : q.mode = .default)
    (found : s.Finds e q) : s'.Finds e q := by
  obtain ⟨sym, run⟩ := found
  unfold Loader.Finds
  rw [resolveSymbol_default mode] at run ⊢
  obtain ⟨⟨stop, found⟩, run, isSym⟩ := Option.map_eq_some_iff.mp run
  have hits : found.isSome := by
    rw [show found = some sym from isSym]
    rfl
  suffices again : ∃ stop' found', Search.andThen
      (Preference.scan (q.definition e) (VersionedSymbol.strong e.config) none (s'.globals q.ns)) (fun best =>
        match q.obj with
        | some obj => searchObject e s' q obj best
        | none => some (false, best)) = some (stop', found') ∧ found'.isSome by
    obtain ⟨stop', found', run', isSome⟩ := again
    obtain ⟨sym', isSym'⟩ := Option.isSome_iff_exists.mp isSome
    exact ⟨sym', by rw [run', isSym']; rfl⟩
  have ends := scan_ends (q.definition e) (VersionedSymbol.strong e.config) none (s.globals q.ns)
  have finds := scan_isSome (q.definition e) (VersionedSymbol.strong e.config) none (s.globals q.ns)
  have ends' := scan_ends (q.definition e) (VersionedSymbol.strong e.config) none (s'.globals q.ns)
  have finds' := scan_isSome (q.definition e) (VersionedSymbol.strong e.config) none (s'.globals q.ns)
  rcases isScan : Preference.scan (q.definition e) (VersionedSymbol.strong e.config) none (s.globals q.ns)
    with ⟨early, best⟩
  rcases isScan' : Preference.scan (q.definition e) (VersionedSymbol.strong e.config) none (s'.globals q.ns)
    with ⟨early', best'⟩
  rw [isScan] at run ends finds
  rw [isScan'] at ends' finds'
  cases early' with
  | true =>
    obtain ⟨o', member, sym', isDefined, -⟩ := ends'.mp rfl
    exact ⟨true, best', rfl, finds'.mpr (.inr ⟨o', member, by rw [isDefined]; rfl⟩)⟩
  | false =>
    have weak : ∀ o' ∈ s'.globals q.ns, ∀ sym, q.definition e o' = some sym →
        sym.strong e.config = false := by
      intro o' member sym isDefined
      refine Bool.eq_false_iff.mpr fun strong => ?_
      cases ends'.mpr ⟨o', member, sym, isDefined, strong⟩
    have global : ∀ o' ∈ s'.globals q.ns, (q.definition e o').isSome → best'.isSome :=
      fun o' member isDefined => finds'.mpr (.inr ⟨o', member, isDefined⟩)
    have better : best.isSome → best'.isSome := by
      intro isSome
      obtain ⟨o, member, isDefined⟩ := (finds.mp isSome).resolve_left (by simp)
      obtain ⟨o', member', same⟩ := serves.globals member
      exact global o' member' (Query.definition_unprepared same ▸ isDefined)
    cases early with
    | true =>
      obtain ⟨o, member, sym', isDefined, strong⟩ := ends.mp rfl
      obtain ⟨o', member', same⟩ := serves.globals member
      have unmoved := (Query.definition_unprepared same).trans isDefined
      cases (weak o' member' sym' unmoved).symm.trans strong
    | false =>
      cases requester : q.obj with
      | none =>
        rw [requester] at run
        cases run
        exact ⟨false, best', rfl, better hits⟩
      | some obj =>
        rw [requester] at run
        obtain ⟨stop', found', run', more⟩ := searchObject_serves serves mode weak better global run
        exact ⟨stop', found', run', more hits⟩

end Lookup

/-! ## The flags after `dlopen` -/

/-- An identity without the marks of preparation and initialization. -/
def ObjectIdentity.unmarked (i : ObjectIdentity) : ObjectIdentity :=
  { i.unprepared with flags := { i.flags with initialized := false } }

/-- Nothing has changed in the list of identities but the marks. -/
abbrev SameUnmarked : Loader → Loader → Prop := SameView ObjectIdentity.unmarked

/-- The flags of the identity that `dlopen` has found are set. -/
def Loader.reflag (config : Config) (flags : Flags) (s : Loader) : Option Nat → Loader
  | none => s
  | some i => s.modifyIdentity i fun o => { o with flags := flags.dlopen config o.flags }

section Flags

variable {e : Env} {s s' : Loader} {flags : Flags} {load : Bool}

theorem Prepares.sameUnmarked (step : Prepares s s') : SameUnmarked s s' := by
  have marks := congrArg (List.map ObjectIdentity.unmarked) step.lookup
  rw [List.map_map, List.map_map] at marks
  have twice : ObjectIdentity.unmarked ∘ ObjectIdentity.unprepared = ObjectIdentity.unmarked := by
    funext i
    simp [ObjectIdentity.unmarked, ObjectIdentity.unprepared, Object.unprepared]
  exact ⟨step.quiet.fresh, twice ▸ marks⟩

theorem sameUnmarked_prepareFrom (file : Nat) : Keeps SameUnmarked (prepareFrom e file) :=
  keeps_bind keeps_get fun _ =>
    (prepares_prepareIdentity _ file).mono fun _ _ step => step.sameUnmarked

/-- Apart from the flags that it sets, `dlopen` leaves marks only in what is loaded. -/
theorem employOpened_reflag {opened result : Option Nat}
    (run : employOpened e flags load opened s = some (result, s')) :
    SameUnmarked (s.reflag e.config flags opened) s' := by
  cases opened with
  | none =>
    cases run
    exact refl_of SameUnmarked s
  | some i =>
    refine keeps_ite (R := SameUnmarked) (fun _ => keeps_pure _) (fun _ => ?_) _ _ _ run
    apply keeps_bind (sameUnmarked_prepareFrom i)
    intro ok
    apply keeps_ite
    · intro _
      apply keeps_bind (sameView_initializeFrom (fun _ => rfl) i)
      exact fun ok => keeps_ite (fun _ => keeps_pure _) fun _ => keeps_pure _
    · exact fun _ => keeps_pure _

/-- An identity that is another one up to marks serves lookups as that one does. -/
theorem serves_of_unmarked {i i' j : ObjectIdentity} (same : i'.unmarked = j.unmarked)
    (id : j.id = i.id) (ns : j.ns = i.ns) (versions : j.versions = i.versions)
    (stays : i.flags.bindGlobal → j.flags.bindGlobal) : i.Serves i' := by
  have ids := congrArg ObjectIdentity.id same
  have namespaces := congrArg ObjectIdentity.ns same
  have globals := congrArg (fun a : ObjectIdentity => a.flags.bindGlobal) same
  have chains := congrArg ObjectIdentity.versions same
  exact ⟨ids.trans id, namespaces.trans ns, fun isGlobal => globals.trans (stays isGlobal),
    chains.trans (congrArg (List.map Object.unprepared) versions)⟩

theorem serves_of_update {j : Nat} (l : List ObjectIdentity)
    (stays : ∀ i ∈ l, i.id = j → i.flags.bindGlobal → flags.bindGlobal) :
    ∀ kept : List ObjectIdentity, kept.map ObjectIdentity.unmarked =
      (update ObjectIdentity.id j (fun o => { o with flags := flags.dlopen e.config o.flags })
        l).map ObjectIdentity.unmarked → List.Forall₂ ObjectIdentity.Serves l kept := by
  induction l with
  | nil =>
    intro kept same
    rw [List.map_eq_nil_iff.mp same]
    exact .nil
  | cons i l ih =>
    intro kept same
    rw [update_cons] at same
    obtain ⟨i', kept, rfl, first, rest⟩ := List.map_eq_cons_iff.mp same
    refine .cons ?_ (ih (fun a member => stays a (by simp [member])) kept rest)
    by_cases isJ : i.id = j
    · rw [if_pos isJ] at first
      exact serves_of_unmarked first rfl rfl rfl (stays i (by simp) isJ)
    · rw [if_neg isJ] at first
      exact serves_of_unmarked first rfl rfl rfl fun isGlobal => isGlobal

/-- What `dlopen` does to the list: identities are appended, and flags are set for
the identity it found, or for one that it made. -/
structure Reflagged (config : Config) (flags : Flags) (found : Option Nat) (s s' : Loader) : Prop where
  outcome : ∃ (s₁ : Loader) (new : List ObjectIdentity) (opened : Option Nat),
    s₁.lookup = s.lookup ++ new ∧ SameUnmarked (s₁.reflag config flags opened) s' ∧
    (opened = found ∧ s₁ = s ∨ found = none ∧ ∀ j, opened = some j → s.fresh ≤ j)

theorem dlopen_reflagged {fuel : Nat} {file : Option String} {ns result : Option Nat}
    (old : s.Old) (idle : flags.initialized = false)
    (run : dlopen e fuel file flags ns load s = some (result, s')) :
    Reflagged e.config flags (s.opened file ns) s s' := by
  rcases dlopen_inv run with known | ⟨absent, filename, opened, s1, rfl, looked, run⟩
  · exact ⟨s, [], _, by simp, employOpened_reflag known, .inl ⟨rfl, rfl⟩⟩
  · obtain ⟨new, -, lookup, -⟩ := (grows_library (grows_openFile fuel) idle filename [] [] ns load
      s opened s1 looked).added old
    refine ⟨s1, new, opened, lookup, employOpened_reflag run, .inr ⟨absent, ?_⟩⟩
    rintro j rfl
    obtain ⟨_, a, s0, -, last⟩ := library_last absent looked
    obtain ⟨n, made⟩ := last.opened
    exact openElf_new made ▸ (last.since old).2

theorem Reflagged.identity (old : s.Old) (reflagged : Reflagged e.config flags found s s')
    (isFile : s.identity file = some i) :
    ∃ i', s'.identity file = some i' ∧ i'.unmarked = ObjectIdentity.unmarked
      (if found = some file then { i with flags := flags.dlopen e.config i.flags } else i) := by
  obtain ⟨s1, new, opened, lookup, same, which⟩ := reflagged.outcome
  have isFile1 : s1.identity file = some i := by
    unfold Loader.identity
    rw [lookup]
    exact lookup_append_of_some new isFile
  have isFound : opened = some file ↔ found = some file := by
    rcases which with ⟨rfl, -⟩ | ⟨rfl, isNew⟩
    · rfl
    · refine ⟨fun wrong => ?_, fun wrong => by cases wrong⟩
      have known := old.file isFile
      have unknown := isNew file wrong
      omega
  have flagged : (s1.reflag e.config flags opened).identity file = some
      (if found = some file then { i with flags := flags.dlopen e.config i.flags } else i) := by
    cases opened with
    | none =>
      rw [if_neg fun wrong => by cases isFound.mpr wrong]
      exact isFile1
    | some j =>
      by_cases isJ : file = j
      · subst isJ
        rw [if_pos (isFound.mp rfl), Loader.reflag, Loader.identity_modifyIdentity_same, isFile1]
        · rfl
        · exact fun _ => rfl
      · rw [if_neg fun isFile => isJ (Option.some.inj (isFound.mpr isFile)).symm, Loader.reflag,
          Loader.identity_modifyIdentity_ne _ isJ, isFile1]
        exact fun _ => rfl
  have unmarked := same.identity ObjectIdentity.id (fun _ => rfl) file
  rw [flagged] at unmarked
  exact Option.map_eq_some_iff.mp unmarked

theorem Reflagged.serves (separate : s.Separate) (reflagged : Reflagged e.config flags found s s')
    (stays : ∀ file i, found = some file → s.identity file = some i →
      i.flags.bindGlobal → flags.bindGlobal) : s.Serves s' := by
  obtain ⟨s1, new, opened, lookup, same, which⟩ := reflagged.outcome
  have isOpened : ∀ i ∈ s.lookup, ∀ j, opened = some j → i.id = j → i.flags.bindGlobal →
      flags.bindGlobal := by
    rintro i member j rfl rfl isGlobal
    rcases which with ⟨isFound, -⟩ | ⟨-, isNew⟩
    · exact stays i.id i isFound.symm (lookup_of_mem separate.ids member) isGlobal
    · have known := separate.old i member
      have unknown := isNew i.id rfl
      omega
  obtain ⟨j, new', flagged, staysJ⟩ : ∃ (j : Nat) (new' : List ObjectIdentity),
      (s1.reflag e.config flags opened).lookup = update ObjectIdentity.id j
        (fun o => { o with flags := flags.dlopen e.config o.flags }) s.lookup ++ new' ∧
      ∀ i ∈ s.lookup, i.id = j → i.flags.bindGlobal → flags.bindGlobal := by
    cases opened with
    | none =>
      refine ⟨s.fresh, new, ?_, fun i member isFresh => ?_⟩
      · rw [update_of_not_mem _ separate.old.not_mem_fresh, ← lookup]
        rfl
      · exact absurd (separate.old i member) (by omega)
    | some j =>
      refine ⟨j, update ObjectIdentity.id j
        (fun o => { o with flags := flags.dlopen e.config o.flags }) new, ?_,
        fun i member => isOpened i member j rfl⟩
      rw [← update_append, ← lookup]
      rfl
  have lookup := same.lookup
  rw [flagged, List.map_append] at lookup
  obtain ⟨kept, rest, whole, isKept, -⟩ := List.map_eq_append_iff.mp lookup
  exact ⟨kept, rest, whole, serves_of_update s.lookup staysJ kept isKept⟩

end Flags

/-! ## What is taken away -/

/-- What later calls of `dlopen` shall leave to an identity. -/
structure ObjectIdentity.Retains (i i' : ObjectIdentity) : Prop where
  bindGlobal : i.flags.bindGlobal = true → i'.flags.bindGlobal = true
  updatable : i'.flags.updatable = i.flags.updatable

/-- All identities of before retain their flags, and every symbol that a default lookup has
found is found again. -/
structure Loader.TakesNothing (e : Env) (s s' : Loader) : Prop where
  flags : ∀ file i, s.identity file = some i → ∃ i', s'.identity file = some i' ∧ i.Retains i'
  symbols : ∀ q : Query, q.mode = .default → s.Finds e q → s'.Finds e q

/-- A call of `dlopen` that returns; its flags are those of the loader with the bits of the
`RTLD` argument (`src/comp/glibc/libdl/interface.cpp:43-47`). -/
def Dlopens (e : Env) (s s' : Loader) : Prop :=
  ∃ fuel file flags ns load result, flags.initialized = false ∧ flags.premapped = false ∧
    dlopen e fuel file flags ns load s = some (result, s')

theorem Dlopens.separate (call : Dlopens e s s') (separate : s.Separate) : s'.Separate := by
  obtain ⟨fuel, file, flags, ns, load, result, -, -, run⟩ := call
  have parts : KeepsParts KeepsSeparate e :=
    keepsParts_sameAddresses.mono fun _ _ same => same.separate
  refine parts.dlopen (fun filename ns load => ?_) (fun file => ?_) file ns load s result s' run separate
  · exact keeps_library (fun a _ _ => keepsSeparate_openFile fuel a) filename [] [] load
  · refine keeps_modify fun s => SameAddresses.separate ?_
    exact sameView_modifyIdentity s file fun _ => rfl

theorem dlopens_separate {s0 s : Loader} (started : s0.Separate)
    (calls : Relation.ReflTransGen (Dlopens e) s0 s) : s.Separate := by
  induction calls with
  | refl => exact started
  | tail _ call ih => exact call.separate ih

/-- After any calls of `dlopen`, another one takes nothing away exactly if the identity that
it finds, if it was loaded before, does not lose its global binding and has the flag for
updates that `dlopen` sets. -/
theorem dlopen_takesNothing_iff {e : Env} {s₀ s s' : Loader} {fuel : Nat} {file : Option String}
    {flags : Flags} {ns result : Option Nat} {load : Bool} (started : s₀.Separate)
    (calls : Relation.ReflTransGen (Dlopens e) s₀ s) (idle : flags.initialized = false)
    (run : dlopen e fuel file flags ns load s = some (result, s')) :
    s.TakesNothing e s' ↔ ∀ j i, s.opened file ns = some j → s.identity j = some i →
      (i.flags.bindGlobal = true → flags.bindGlobal = true) ∧
        i.flags.updatable = e.config.dynamicDlupdate := by
  have separate : s.Separate := dlopens_separate started calls
  have reflagged := dlopen_reflagged separate.old idle run
  constructor
  · intro nothing j i isOpened isFile
    obtain ⟨i', isFile', retains⟩ := nothing.flags j i isFile
    obtain ⟨i'', isFile'', unmarked⟩ := reflagged.identity separate.old isFile
    cases isFile'.symm.trans isFile''
    rw [if_pos isOpened] at unmarked
    have globals := congrArg (fun a : ObjectIdentity => a.flags.bindGlobal) unmarked
    have updatable := congrArg (fun a : ObjectIdentity => a.flags.updatable) unmarked
    exact ⟨fun isGlobal => globals.symm.trans (retains.bindGlobal isGlobal),
      retains.updatable.symm.trans updatable⟩
  · intro condition
    refine ⟨fun j i isFile => ?_, fun q mode => ?_⟩
    · obtain ⟨i', isFile', unmarked⟩ := reflagged.identity separate.old isFile
      have globals := congrArg (fun a : ObjectIdentity => a.flags.bindGlobal) unmarked
      have updatable := congrArg (fun a : ObjectIdentity => a.flags.updatable) unmarked
      refine ⟨i', isFile', fun isGlobal => ?_, ?_⟩
      · refine Eq.trans globals ?_
        split
        case isTrue isOpened => exact (condition j i isOpened isFile).1 isGlobal
        case isFalse => exact isGlobal
      · refine Eq.trans updatable ?_
        split
        case isTrue isOpened => exact (condition j i isOpened isFile).2.symm
        case isFalse => rfl
    · apply Loader.Serves.finds _ mode
      exact reflagged.serves separate fun j i isOpened isFile => (condition j i isOpened isFile).1

/-- The only file is a library that defines a function `y`. -/
def definesY : Env := fileY (File.ofElf 0 (Elf.library [] [.function "y"] []))

/-- `dlopen` of this library. -/
def openY (isGlobal : Bool) : LoaderM (Option Nat) :=
  dlopen definesY 1 (some "liby.so") { Flags.zero with bindGlobal := isGlobal } (some 0) true

/-- The library is opened for everyone, then again. -/
def reopenY (isGlobal : Bool) : LoaderM Loader := do
  let _ ← openY true
  let s ← get
  let _ ← openY isGlobal
  return s

/-- The default lookup of `y`. -/
def queryY : Query := ⟨"y", Version.ofValid true, 0, none, .default⟩

theorem reopenY_runs (run : reopenY isGlobal Loader.initial = some (s, s')) :
    ∃ first second, openY true Loader.initial = some (first, s) ∧
      openY isGlobal s = some (second, s') := by
  obtain ⟨first, s1, opened, run⟩ := bind_inv run
  rw [bind_of_eq (get_apply s1)] at run
  obtain ⟨second, s2, reopened, run⟩ := bind_inv run
  obtain ⟨rfl, rfl⟩ := pure_inv run
  exact ⟨first, second, opened, reopened⟩

theorem initial_separate : Loader.initial.Separate :=
  ⟨List.nodup_nil, fun _ member => absurd member List.not_mem_nil⟩

theorem dlopens_openY (run : openY isGlobal s = some (result, s')) : Dlopens definesY s s' :=
  ⟨1, some "liby.so", { Flags.zero with bindGlobal := isGlobal }, some 0, true, result, rfl, rfl, run⟩

/-- A second call with the flag for global binding takes nothing away. -/
theorem dlopen_takesNothing_iff_openY : ∃ s s', (∃ result, openY true Loader.initial =
    some (result, s)) ∧ (∃ result, openY true s = some (result, s')) ∧ s.TakesNothing definesY s' := by
  have evaluated : (reopenY true Loader.initial).map (fun p => ((p.1.opened (some "liby.so") (some 0)),
      (p.1.identity 0).map fun i => i.flags.updatable)) = some (some 0, some true) := by
    decide +kernel
  obtain ⟨⟨s, s'⟩, run, facts⟩ := Option.map_eq_some_iff.mp evaluated
  obtain ⟨isOpened, isUpdatable⟩ := Prod.mk.inj facts
  obtain ⟨first, second, opened, reopened⟩ := reopenY_runs run
  have calls : Relation.ReflTransGen (Dlopens definesY) Loader.initial s :=
    .single (dlopens_openY opened)
  refine ⟨s, s', ⟨first, opened⟩, ⟨second, reopened⟩, ?_⟩
  rw [dlopen_takesNothing_iff initial_separate calls rfl reopened]
  intro j i isJ isFile
  cases isOpened.symm.trans isJ
  refine ⟨fun _ => rfl, ?_⟩
  rw [isFile] at isUpdatable
  exact Option.some.inj isUpdatable

/-- A second call without this flag demotes the library: `y` is found before and not after. -/
theorem openY_demotes : ∃ s s', (∃ result, openY true Loader.initial = some (result, s)) ∧
    (∃ result, openY false s = some (result, s')) ∧ s.Finds definesY queryY ∧
      ¬ s'.Finds definesY queryY ∧ ¬ s.TakesNothing definesY s' := by
  have evaluated : (reopenY false Loader.initial).map (fun p =>
      (((p.1.resolveSymbol definesY queryY).map Option.isSome),
        (p.2.resolveSymbol definesY queryY).map Option.isSome)) = some (some true, some false) := by
    decide +kernel
  obtain ⟨⟨s, s'⟩, run, facts⟩ := Option.map_eq_some_iff.mp evaluated
  obtain ⟨before, after⟩ := Prod.mk.inj facts
  obtain ⟨first, second, opened, reopened⟩ := reopenY_runs run
  have found : s.Finds definesY queryY := by
    obtain ⟨symbol, resolved, isSome⟩ := Option.map_eq_some_iff.mp before
    obtain ⟨sym, rfl⟩ := Option.isSome_iff_exists.mp isSome
    exact ⟨sym, resolved⟩
  have lost : ¬ s'.Finds definesY queryY := by
    rintro ⟨sym, resolved⟩
    rw [resolved] at after
    cases after
  exact ⟨s, s', ⟨first, opened⟩, ⟨second, reopened⟩, found, lost,
    fun nothing => lost (nothing.symbols queryY rfl found)⟩

end Luci
