import Luci.Proofs.Dependencies
import Luci.Proofs.InitializeOrder
import Luci.Proofs.OpenFlags

/-!
# Initialization of what is depended on

`ObjectIdentity::initialize` sets the flag of an identity and goes on to its dependencies
(`src/object/identity.cpp:612-627`). It is called for everything at the start of the program and
for what `dlopen` returns, but not by `Loader::update`: a library that only a new version needs is
loaded with this version and never initialized. As long as new versions of initialized
identities need nothing but initialized libraries, everything that is depended on is
initialized.
-/

namespace Luci

open Exec KeyedList Dfs Relation

variable {s : Loader} {lib : String} {a d file fuel : Nat} {withArguments : Bool}
  {result : Option ObjectRef} {memory : Option MemoryImage}

/-- The initializers of an identity have been called, or are being called. -/
def Loader.Initialized (s : Loader) (a : Nat) : Prop :=
  ∃ i, s.identity a = some i ∧ i.flags.initialized = true

/-- Whatever an initialized identity depends on, directly or not, is initialized. -/
def Loader.RunsInitialized (s : Loader) : Prop :=
  ∀ a d i, s.Initialized a → Reach s.dependenciesOf a d → s.identity d = some i →
    i.flags.initialized = true

/-- The dependencies of initialized identities are initialized. One that is gone does not come
back under the same address. -/
def Loader.Settled (s : Loader) : Prop :=
  ∀ a, s.Initialized a → ∀ d ∈ s.dependenciesOf a,
    d < s.fresh ∧ ∀ i, s.identity d = some i → i.flags.initialized = true

theorem Loader.mem_dependenciesOf :
    d ∈ s.dependenciesOf a ↔ ∃ o, s.current a = some o ∧ d ∈ o.dependencies := by
  unfold Loader.dependenciesOf
  cases s.current a with
  | none => simp
  | some o => simp

theorem Loader.Settled.runsInitialized (settled : s.Settled) : s.RunsInitialized := by
  intro a d i initialized path
  induction path generalizing i with
  | refl =>
    intro isFile
    obtain ⟨i', isFile', on⟩ := initialized
    cases isFile.symm.trans isFile'
    exact on
  | @tail b d path edge ih =>
    obtain ⟨o, current, -⟩ := Loader.mem_dependenciesOf.mp edge
    obtain ⟨j, isFile, -⟩ := Loader.identity_of_current current
    exact fun isFile' => (settled b ⟨j, isFile, ih j isFile⟩ d edge).2 i isFile'

/-! ## What does not initialize anything -/

/-- What is known about an identity: its address, the flag and the current dependencies. -/
def ObjectIdentity.standing (i : ObjectIdentity) : Nat × Bool × Option (List Nat) :=
  (i.id, i.flags.initialized, i.current.map Object.dependencies)

/-- Addresses, flags and current dependencies are the same. -/
abbrev SameStanding : Loader → Loader → Prop := SameView ObjectIdentity.standing

section Standing

variable {s s' : Loader}

section Standing

variable (same : SameStanding s s')

include same

theorem SameStanding.standing (a : Nat) :
    (s'.identity a).map ObjectIdentity.standing = (s.identity a).map ObjectIdentity.standing :=
  same.identity Prod.fst (fun _ => rfl) a

theorem SameStanding.initialized (a : Nat) :
    (s'.identity a).map (fun i => i.flags.initialized) =
      (s.identity a).map fun i => i.flags.initialized := by
  have flags := congrArg (Option.map fun t => t.2.1) (same.standing a)
  rwa [Option.map_map, Option.map_map] at flags

theorem SameStanding.dependenciesOf : s'.dependenciesOf = s.dependenciesOf := by
  have needs : ∀ (t : Loader) a, (t.current a).map Object.dependencies =
      ((t.identity a).map ObjectIdentity.standing).bind fun t => t.2.2 := by
    intro t a
    unfold Loader.current
    cases t.identity a with
    | none => rfl
    | some i => rfl
  funext a
  unfold Loader.dependenciesOf
  rw [needs, needs, same.standing a]

theorem SameStanding.settled (settled : s.Settled) : s'.Settled := by
  intro a initialized d edge
  rw [same.dependenciesOf] at edge
  obtain ⟨i', isFile', on⟩ := initialized
  have before := same.initialized a
  rw [isFile', Option.map_some, on] at before
  obtain ⟨i, isFile, on'⟩ := Option.map_eq_some_iff.mp before.symm
  obtain ⟨known, initialized⟩ := settled a ⟨i, isFile, on'⟩ d edge
  refine ⟨known.trans_le same.fresh, fun j isDep => ?_⟩
  have flags := same.initialized d
  rw [isDep] at flags
  obtain ⟨j', isDep', sameFlag⟩ := Option.map_eq_some_iff.mp flags.symm
  exact sameFlag.symm.trans (initialized j' isDep')

theorem SameStanding.old (old : s.Old) : s'.Old := by
  intro i member
  have standing : i.standing ∈ s.lookup.map ObjectIdentity.standing := by
    rw [← same.lookup]
    exact List.mem_map_of_mem member
  obtain ⟨j, inLookup, sameStanding⟩ := List.mem_map.mp standing
  have isId : j.id = i.id := congrArg Prod.fst sameStanding
  exact isId ▸ (old j inLookup).trans_le same.fresh

end Standing

theorem keepsRelocation_sameStanding {e : Env} : KeepsRelocation SameStanding e := by
  refine KeepsRelocation.mono (keepsRelocation_calmView (fun _ _ => rfl) fun i uid g keep => ?_)
    fun _ _ step => step.toSameView
  have all : (update Object.uid uid g i.versions).map Object.dependencies =
      i.versions.map Object.dependencies :=
    map_update (fun v => congrArg (fun x => x.2.2.2.2) (keep v)) uid i.versions
  have needs := congrArg List.head? all
  rw [List.head?_map, List.head?_map] at needs
  exact congrArg (fun needs => (i.id, i.flags.initialized, needs)) needs

end Standing

/-! ## Initialization -/

/-- Identities were marked as initialized, and whatever they depend on is marked as well. -/
structure Marks (s s' : Loader) : Prop where
  fresh : s'.fresh = s.fresh
  ids : s'.lookup.map ObjectIdentity.id = s.lookup.map ObjectIdentity.id
  needs : s'.dependenciesOf = s.dependenciesOf
  kept : ∀ a, s.Initialized a → s'.Initialized a
  closed : ∀ a, s'.Initialized a → s.Initialized a ∨ ∀ d ∈ s.dependenciesOf a, s'.Initialized d

instance : IsPreorder Loader Marks where
  refl _ := ⟨rfl, rfl, rfl, fun _ on => on, fun _ on => .inl on⟩
  trans _ _ _ first second :=
    { fresh := second.fresh.trans first.fresh
      ids := second.ids.trans first.ids
      needs := second.needs.trans first.needs
      kept := fun a on => second.kept a (first.kept a on)
      closed := fun a on => by
        rcases second.closed a on with before | all
        · rcases first.closed a before with before | all
          · exact .inl before
          · exact .inr fun d edge => second.kept d (all d edge)
        · rw [first.needs] at all
          exact .inr all }

section Marks

variable {s s' : Loader}

theorem Marks.old (marks : Marks s s') (old : s.Old) : s'.Old := by
  intro i member
  have isOld : i.id ∈ s.lookup.map ObjectIdentity.id := by
    rw [← marks.ids]
    exact List.mem_map_of_mem member
  obtain ⟨j, inLookup, same⟩ := List.mem_map.mp isOld
  rw [marks.fresh, ← same]
  exact old j inLookup

theorem Marks.settled (marks : Marks s s') (old : s.Old) (settled : s.Settled) : s'.Settled := by
  intro a initialized d edge
  rw [marks.needs] at edge
  rcases marks.closed a initialized with before | all
  · obtain ⟨known, on⟩ := settled a before d edge
    refine ⟨marks.fresh ▸ known, fun i isDep => ?_⟩
    have isId : d ∈ s.lookup.map ObjectIdentity.id := by
      rw [← marks.ids]
      exact Loader.identity_isSome_iff.mp ⟨i, isDep⟩
    obtain ⟨j, isDep'⟩ := Loader.identity_isSome_iff.mpr isId
    obtain ⟨i', isDep'', on'⟩ := marks.kept d ⟨j, isDep', on j isDep'⟩
    cases isDep.symm.trans isDep''
    exact on'
  · obtain ⟨j, isDep, on⟩ := all d edge
    refine ⟨(marks.old old).file isDep, fun i isDep' => ?_⟩
    cases isDep.symm.trans isDep'
    exact on

/-- Marking one identity, followed by marks after which everything it depends on is marked. -/
theorem marks_of_dependencies
    (rest : Marks (s.modifyIdentity file ObjectIdentity.markInitialized) s')
    (all : ∀ d ∈ s.dependenciesOf file, s'.Initialized d) : Marks s s' := by
  have keep : ∀ i : ObjectIdentity, i.markInitialized.id = i.id := fun _ => rfl
  have needs : (s.modifyIdentity file ObjectIdentity.markInitialized).dependenciesOf =
      s.dependenciesOf := by
    funext a
    unfold Loader.dependenciesOf
    rw [Loader.current_modifyIdentity keep fun _ => rfl]
  refine ⟨rest.fresh, rest.ids.trans (Loader.ids_modifyIdentity keep), rest.needs.trans needs, ?_, ?_⟩
  · rintro a ⟨i, isFile, on⟩
    apply rest.kept
    by_cases isMarked : a = file
    · subst isMarked
      refine ⟨i.markInitialized, ?_, rfl⟩
      rw [Loader.identity_modifyIdentity_same keep, isFile]
      rfl
    · exact ⟨i, (Loader.identity_modifyIdentity_ne keep isMarked).trans isFile, on⟩
  · intro a on
    rcases rest.closed a on with ⟨i, isFile, on⟩ | closed
    · by_cases isMarked : a = file
      · exact .inr (isMarked ▸ all)
      · rw [Loader.identity_modifyIdentity_ne keep isMarked] at isFile
        exact .inl ⟨i, isFile, on⟩
    · exact .inr (needs ▸ closed)

theorem getCurrent_bind_inv {α : Type} {f : Object → LoaderM α} {result : α × Loader}
    (run : (getCurrent file >>= f) s = some result) :
    ∃ o, s.current file = some o ∧ f o s = some result := by
  obtain ⟨o, s1, current, rest⟩ := bind_inv run
  obtain ⟨isCurrent, same⟩ := orAbort_inv current
  rw [same] at rest
  exact ⟨o, isCurrent, rest⟩

theorem allOf_marks {f : Nat → LoaderM Bool}
    (one : ∀ a s ok s', f a s = some (ok, s') → ok ∧ Marks s s' ∧ s'.Initialized a)
    (l : List Nat) : ∀ s ok s', Exec.allOf f l s = some (ok, s') →
      ok ∧ Marks s s' ∧ ∀ a ∈ l, s'.Initialized a := by
  induction l with
  | nil =>
    intro s ok s' run
    obtain ⟨rfl, rfl⟩ := pure_inv run
    exact ⟨rfl, refl_of Marks s', fun a member => absurd member List.not_mem_nil⟩
  | cons a l ih =>
    intro s ok s' run
    obtain ⟨first, s1, called, run⟩ := bind_inv run
    obtain ⟨rfl, marks, on⟩ := one a s first s1 called
    obtain ⟨rfl, marks', all⟩ := ih s1 ok s' run
    refine ⟨rfl, trans_of Marks marks marks', fun b member => ?_⟩
    rcases List.mem_cons.mp member with rfl | member
    · exact marks'.kept b on
    · exact all b member

/-- `initialize` never fails, and everything the identity depends on is marked with it. -/
theorem initializeIdentity_marks (n : Nat) : ∀ a s ok s',
    initializeIdentity n a s = some (ok, s') → ok ∧ Marks s s' ∧ s'.Initialized a := by
  induction n with
  | zero =>
    intro a s ok s' run
    cases run
  | succ n ih =>
    intro a s ok s' run
    obtain ⟨o, isCurrent, run⟩ := getCurrent_bind_inv run
    obtain ⟨i, isFile, run⟩ := getIdentity_bind_inv run
    split at run
    case isTrue on =>
      obtain ⟨rfl, rfl⟩ := pure_inv run
      exact ⟨rfl, refl_of Marks s', i, isFile, on⟩
    case isFalse off =>
      rw [bind_of_eq (modify_apply _ _)] at run
      obtain ⟨all, s2, called, run⟩ := bind_inv run
      obtain ⟨rfl, marks, needs⟩ := allOf_marks ih o.dependencies _ all s2 called
      obtain ⟨_, s3, logged, run⟩ := bind_inv run
      obtain ⟨rfl, rfl⟩ := pure_inv run
      rw [modify_inv logged]
      have closed : ∀ d ∈ s.dependenciesOf a, s2.Initialized d := by
        intro d edge
        obtain ⟨o', isCurrent', member⟩ := Loader.mem_dependenciesOf.mp edge
        cases isCurrent.symm.trans isCurrent'
        exact needs d member
      have marked : s2.Initialized a := by
        refine marks.kept a ⟨i.markInitialized, ?_, rfl⟩
        rw [Loader.identity_modifyIdentity_same (by intro; rfl), isFile]
        rfl
      obtain ⟨fresh, ids, needs, kept, closed⟩ := marks_of_dependencies marks closed
      exact ⟨rfl, ⟨fresh, ids, needs, kept, closed⟩, marked⟩

theorem initializeFrom_marks {ok : Bool} (run : initializeFrom a s = some (ok, s')) :
    ok ∧ Marks s s' ∧ s'.Initialized a := by
  exact initializeIdentity_marks _ _ _ _ _ run

end Marks

/-! ## `dlopen` -/

section Dlopen

variable {e : Env} {s s' : Loader}

/-- New identities are not initialized, and nothing depends on them yet. -/
theorem Grows.settled (grows : Grows s s') (old : s.Old) (settled : s.Settled) : s'.Settled := by
  rintro a ⟨i, isFile, on⟩ d edge
  have known : a < s.fresh := by
    obtain ⟨new, opened, lookup, added, -⟩ := grows.added old
    have member := Loader.mem_of_identity isFile
    rw [lookup, List.mem_append] at member
    have isId := Loader.id_of_identity isFile
    rcases member with before | inNew
    · have := old i before
      omega
    · rw [added.idle i inNew] at on
      cases on
  have same := grows.identity_old old known
  have edge' : d ∈ s.dependenciesOf a := by
    unfold Loader.dependenciesOf Loader.current at edge ⊢
    rwa [same] at edge
  obtain ⟨knownDep, initialized⟩ := settled a ⟨i, same ▸ isFile, on⟩ d edge'
  refine ⟨knownDep.trans_le grows.fresh, fun j isDep => ?_⟩
  rw [grows.identity_old old knownDep] at isDep
  exact initialized j isDep

theorem employOpened_settled {flags : Flags} {load : Bool} {opened result : Option Nat} (old : s.Old)
    (settled : s.Settled) (run : employOpened e flags load opened s = some (result, s')) :
    s'.Settled := by
  cases opened with
  | none =>
    obtain ⟨-, rfl⟩ := pure_inv run
    exact settled
  | some file =>
    unfold employOpened at run
    dsimp only at run
    rw [bind_of_eq (modify_apply _ _)] at run
    have flagged : SameStanding s (s.modifyIdentity file fun o =>
        { o with flags := flags.dlopen e.config o.flags }) :=
      sameView_modifyIdentity s file fun _ => rfl
    split at run
    · rw [(pure_inv run).2]
      exact flagged.settled settled
    · obtain ⟨ok, s1, prepared, run⟩ := bind_inv run
      have standing : SameStanding s s1 :=
        trans_of SameStanding flagged (keepsRelocation_sameStanding.prepareFrom file _ _ _ prepared)
      cases ok with
      | false =>
        rw [(pure_inv run).2]
        exact standing.settled settled
      | true =>
        obtain ⟨ok, s2, called, run⟩ := bind_inv run
        obtain ⟨rfl, marks, -⟩ := initializeFrom_marks called
        rw [(pure_inv run).2]
        exact marks.settled (standing.old old) (standing.settled settled)

/-- What `dlopen` initializes, it initializes with everything it depends on. -/
theorem Dlopens.settled (call : Dlopens e s s') (old : s.Old) (settled : s.Settled) : s'.Settled := by
  obtain ⟨fuel, file, flags, ns, load, result, idle, -, run⟩ := call
  rcases dlopen_inv run with known | ⟨-, filename, opened, s1, rfl, looked, run⟩
  · exact employOpened_settled old settled known
  · have grows : Grows s s1 :=
      grows_library (grows_openFile fuel) idle filename [] [] ns load _ _ _ looked
    exact employOpened_settled (grows.old old) (grows.settled old settled) run

end Dlopen

/-! ## New versions -/

/-- A library is loaded in the namespace of an identity, and every identity of this name
is initialized. -/
def Loader.Offers (s : Loader) (i : ObjectIdentity) (lib : String) : Prop :=
  (∃ j ∈ s.lookup, j.id ≠ i.id ∧ j.ns = i.ns ∧ j.name = basename lib) ∧
    ∀ j ∈ s.lookup, j.ns = i.ns → j.name = basename lib → j.flags.initialized = true

instance (s : Loader) (i : ObjectIdentity) (lib : String) : Decidable (s.Offers i lib) :=
  inferInstanceAs (Decidable ((∃ j ∈ s.lookup, j.id ≠ i.id ∧ j.ns = i.ns ∧ j.name = basename lib) ∧
    ∀ j ∈ s.lookup, j.ns = i.ns → j.name = basename lib → j.flags.initialized = true))

/-- The file or image of an initialized identity needs libraries only that are loaded and
initialized. -/
def Loader.NeedsNothingNew (e : Env) (s : Loader) (file : Nat) (memory : Option MemoryImage) : Prop :=
  ∀ i, s.identity file = some i → i.flags.initialized = true →
    ∀ lib ∈ neededBy e i memory, lib ∉ e.libraryExclude → s.Offers i lib

section Load

variable {e : Env} {s s' : Loader} {file : Nat} {i : ObjectIdentity}
  {f : ObjectIdentity → ObjectIdentity} {new : List ObjectIdentity}

theorem identity_after_edit (found : s.identity file = some i) (keep : ∀ a, (f a).id = a.id)
    (lookup : s'.lookup = update ObjectIdentity.id file f s.lookup ++ new)
    (added : Added s.fresh s'.fresh new) (known : a < s.fresh) :
    s'.identity a = if a = file then some (f i) else s.identity a := by
  split
  case isTrue isFile => exact isFile ▸ identity_edited found keep lookup
  case isFalse other =>
    unfold Loader.identity
    rw [lookup, lookup_append, added.lookup_old known, Option.or_none, lookup_update_ne keep other]

/-- An edit of an identity after which it depends on initialized identities, if it is
initialized itself. -/
theorem Loader.Settled.edited (settled : s.Settled) (old : s.Old) (found : s.identity file = some i)
    (keep : ∀ a, (f a).id = a.id)
    (lookup : s'.lookup = update ObjectIdentity.id file f s.lookup ++ new)
    (added : Added s.fresh s'.fresh new) (fresh : s.fresh ≤ s'.fresh)
    (flag : (f i).flags.initialized = i.flags.initialized)
    (needs : i.flags.initialized → ∀ o, (f i).current = some o →
      ∀ d ∈ o.dependencies, d ∈ s.dependenciesOf file ∨ s.Initialized d) : s'.Settled := by
  rintro a ⟨j, isJ, on⟩ d edge
  have known : a < s.fresh := by
    have member := Loader.mem_of_identity isJ
    have isId := Loader.id_of_identity isJ
    rw [lookup, List.mem_append] at member
    rcases member with before | inNew
    · have before := List.mem_map_of_mem (f := ObjectIdentity.id) before
      rw [keys_update keep] at before
      obtain ⟨k, inLookup, sameId⟩ := List.mem_map.mp before
      have := old k inLookup
      omega
    · rw [added.idle j inNew] at on
      cases on
  -- what the identity depends on was initialized before
  have before : d < s.fresh ∧ ∀ j, s.identity d = some j → j.flags.initialized := by
    obtain ⟨o, current, member⟩ := Loader.mem_dependenciesOf.mp edge
    obtain ⟨j', isJ', isCurrent⟩ := Loader.identity_of_current current
    cases isJ.symm.trans isJ'
    rw [identity_after_edit found keep lookup added known] at isJ
    by_cases isFile : a = file
    · rw [if_pos isFile] at isJ
      cases isJ
      rw [flag] at on
      rcases needs on o isCurrent d member with edge | ⟨j, isDep, onDep⟩
      · exact settled file ⟨i, found, on⟩ d edge
      · refine ⟨old.file isDep, fun j' isDep' => ?_⟩
        cases isDep.symm.trans isDep'
        exact onDep
    · rw [if_neg isFile] at isJ
      refine settled a ⟨j, isJ, on⟩ d (Loader.mem_dependenciesOf.mpr ⟨o, ?_, member⟩)
      unfold Loader.current
      rw [isJ]
      exact isCurrent
  refine ⟨before.1.trans_le fresh, fun k isDep => ?_⟩
  rw [identity_after_edit found keep lookup added before.1] at isDep
  by_cases isFile : d = file
  · rw [if_pos isFile] at isDep
    cases isDep
    rw [flag]
    exact before.2 i (isFile ▸ found)
  · rw [if_neg isFile] at isDep
    exact before.2 k isDep

/-- A library that is offered is found among the identities of before, whatever was done to the
identity that needs it. -/
theorem Loader.Offers.found (offers : s.Offers i lib) (separate : s.Separate)
    (found : s.identity file = some i) (on : i.flags.initialized)
    (keep : ∀ a, (f a).id = a.id)
    (lookup : s'.lookup = update ObjectIdentity.id file f s.lookup ++ new)
    (isFound : s'.findLibrary (some i.ns) (basename lib) = some d) : s.Initialized d := by
  obtain ⟨⟨j, inLookup, other, ns, name⟩, all⟩ := offers
  have isFile : i.id = file := Loader.id_of_identity found
  obtain ⟨x, isFirst, isId⟩ := Option.map_eq_some_iff.mp isFound
  rw [lookup, List.find?_append] at isFirst
  have remains : j ∈ update ObjectIdentity.id file f s.lookup := by
    refine List.mem_map.mpr ⟨j, inLookup, if_neg (isFile ▸ other)⟩
  have hit : ((update ObjectIdentity.id file f s.lookup).find? fun k =>
      i.ns = k.ns && basename lib = k.name).isSome := by
    refine List.find?_isSome.mpr ⟨j, remains, ?_⟩
    simp [ns, name]
  obtain ⟨y, isY⟩ := Option.isSome_iff_exists.mp hit
  rw [isY] at isFirst
  cases isFirst
  obtain ⟨z, inLookup, isX⟩ := List.mem_map.mp (List.mem_of_find?_eq_some isY)
  have matched := List.find?_some isY
  simp only [Bool.and_eq_true, decide_eq_true_eq] at matched
  split at isX
  case isTrue isSame =>
    refine ⟨i, ?_, on⟩
    rw [← isId, ← isX, keep, isSame]
    exact found
  case isFalse different =>
    subst isX
    refine ⟨z, ?_, all z inLookup matched.1.symm matched.2.symm⟩
    rw [← isId]
    exact lookup_of_mem separate.ids inLookup

theorem Loader.Offers.present (offers : s.Offers i lib) (found : s.identity file = some i)
    (lookup : s'.lookup = update ObjectIdentity.id file f s.lookup ++ new) :
    (s'.findLibrary (some i.ns) (basename lib)).isSome := by
  obtain ⟨j, inLookup, other, ns, name⟩ := offers.1
  have isFile : i.id = file := Loader.id_of_identity found
  unfold Loader.findLibrary
  rw [Option.bind_some, Option.isSome_map]
  refine List.find?_isSome.mpr ⟨j, ?_, by simp [ns, name]⟩
  rw [lookup]
  exact List.mem_append_left _ (List.mem_map.mpr ⟨j, inLookup, if_neg (isFile ▸ other)⟩)

/-- What holds while an identity is loaded that was initialized in the state `s`: versions that
it did not have then depend on identities that were initialized. -/
def KeepsToInitialized (s : Loader) (file : Nat) (t : Loader) : Prop :=
  Edits Set.univ ObjectIdentity.Remains file s t ∧ ∀ i, t.identity file = some i →
    ∀ o ∈ i.versions, s.fresh ≤ o.uid → ∀ d ∈ o.dependencies, s.Initialized d

theorem keepsToInitialized_modify {t : Loader} {j : ObjectIdentity} (keep : ∀ a, (f a).id = a.id)
    (remains : ∀ a : ObjectIdentity, a.Remains (f a)) (holds : KeepsToInitialized s file t)
    (found : t.identity file = some j)
    (needs : ∀ o' ∈ (f j).versions, s.fresh ≤ o'.uid → ∀ d ∈ o'.dependencies, s.Initialized d) :
    KeepsToInitialized s file (t.modifyIdentity file f) := by
  have edits : Keeps (Edits Set.univ ObjectIdentity.Remains file)
      (modify (Loader.modifyIdentity file f)) := edits_modifyIdentity keep remains
  refine ⟨trans_of (Edits Set.univ ObjectIdentity.Remains file) holds.1 (edits t _ _ rfl), ?_⟩
  intro i isFile
  rw [Loader.identity_modifyIdentity_same keep, found] at isFile
  cases isFile
  exact needs

/-- A load of an initialized identity adds dependencies only on initialized ones, if it needs
nothing new. -/
theorem keepsToInitialized_rule (separate : s.Separate) (found : s.identity file = some i)
    (on : i.flags.initialized) (nothing : s.NeedsNothingNew e file memory) :
    LoadInvariant e (libraryCall e (openFile e fuel)) (neededBy e i memory) file
      (KeepsToInitialized s file) where
  old t holds := (holds.1.next found separate.old).1
  found t holds := by
    obtain ⟨-, j, isFile, -⟩ := holds.1.next found separate.old
    exact ⟨j, isFile⟩
  writes t t' writes holds := by
    obtain ⟨old, j, isFile, -⟩ := holds.1.next found separate.old
    obtain ⟨f, keep, same, lookup⟩ := writes.lookup isFile old
    have edits : Edits Set.univ ObjectIdentity.Remains file t t' :=
      writes.edits.mono fun _ _ step => step.toRemains
    refine ⟨trans_of (Edits Set.univ ObjectIdentity.Remains file) holds.1 edits, ?_⟩
    intro j' isFile' o' isVersion isNew d member
    have lookup' : t'.lookup = update ObjectIdentity.id file f t.lookup ++ [] := by
      rw [lookup, List.append_nil]
    cases isFile'.symm.trans (identity_edited isFile keep lookup')
    obtain ⟨o, isVersion', isUid, -, needs⟩ := version_of_origins same.versions isVersion
    exact holds.2 j isFile o isVersion' (isUid ▸ isNew) d (needs ▸ member)
  installs t o isFile bare holds := by
    obtain ⟨-, j, isJ, -⟩ := holds.1.next found separate.old
    refine keepsToInitialized_modify (fun _ => rfl) (fun _ => ⟨rfl, rfl⟩) holds isJ ?_
    intro o' isVersion isNew d member
    rcases List.mem_cons.mp isVersion with rfl | isVersion
    · rw [bare] at member
      cases member
    · exact holds.2 j isJ o' isVersion isNew d member
  removes t u holds := by
    obtain ⟨-, j, isJ, -⟩ := holds.1.next found separate.old
    refine keepsToInitialized_modify (fun _ => rfl) (fun _ => ⟨rfl, rfl⟩) holds isJ ?_
    intro o' isVersion isNew d member
    exact holds.2 j isJ o' (List.mem_of_mem_filter isVersion) isNew d member
  calls lib needed included t i' flags rpath runpath result t' idle holds isFile called := by
    obtain ⟨f, new, -, keep, remains, lookup, -⟩ := holds.1.edited i found separate.old
    cases isFile.symm.trans (identity_edited found keep lookup)
    have offers := nothing i found on lib needed included
    rw [remains.ns] at called
    have looked : libraryCall e (openFile e fuel) lib flags rpath runpath i.ns t =
        some (t.findLibrary (some i.ns) (basename lib), t) :=
      library_opened (.inr (offers.present found lookup))
    rw [looked] at called
    obtain ⟨isFound, rfl⟩ := Prod.mk.inj (Option.some.inj called)
    refine ⟨holds, ?_⟩
    rintro d rfl r rfl
    have onDep : s.Initialized d := offers.found separate found on keep lookup isFound
    refine keepsToInitialized_modify (fun _ => rfl) (fun _ => ⟨rfl, rfl⟩) holds isFile ?_
    intro o' isVersion isNew d' member
    obtain ⟨o, isVersion', rfl⟩ := List.mem_map.mp isVersion
    split at member
    case isTrue same =>
      rw [if_pos same] at isNew
      rcases List.mem_append.mp member with before | isDep
      · exact holds.2 (f i) isFile o isVersion' isNew d' before
      · rw [List.mem_singleton.mp isDep]
        exact onDep
    case isFalse other =>
      rw [if_neg other] at isNew
      exact holds.2 (f i) isFile o isVersion' isNew d' member

theorem loadFrom_settled (separate : s.Separate) (settled : s.Settled)
    (nothing : s.NeedsNothingNew e file memory)
    (run : loadFrom e fuel file memory s = some (result, s')) : s'.Settled := by
  obtain ⟨i, found⟩ := load_found run
  have loaded := load_edits (grows_libraryCall (grows_openFile fuel)) Loader.binds_univ run
  cases result with
  | none =>
    obtain ⟨u, k, isNew, edits⟩ := loaded
    obtain ⟨f, new, -, keep, rejected, lookup, added, -⟩ := edits.edited i found separate.old
    have apart := separate.absent found isNew
    have edited := rejected apart
    refine settled.edited separate.old found keep lookup added edits.fresh edited.initialized ?_
    intro _ o current d member
    obtain ⟨older, versions⟩ := List.head?_eq_some_iff.mp current
    have same := edited.versions
    rw [versions] at same
    obtain ⟨v, older', step, -, isVersions⟩ := List.forall₂_cons_right_iff.mp same
    have known : v.uid ≠ u := by
      rintro rfl
      exact apart (List.mem_map_of_mem (isVersions ▸ List.mem_cons_self ..))
    refine .inl (Loader.mem_dependenciesOf.mpr ⟨v, ?_, step.dependencies known ▸ member⟩)
    unfold Loader.current ObjectIdentity.current
    rw [found, Option.bind_some, isVersions]
    rfl
  | some r =>
    obtain ⟨v, mid, -, -, isNew, -, -, events, first, second⟩ := loaded
    obtain ⟨f, new, -, keep, accepted, lookup, added, -⟩ :=
      accepted_lookup found separate.old first events second
    refine settled.edited separate.old found keep lookup
      (added.mono first.fresh le_rfl) (first.fresh.trans second.fresh) accepted.initialized ?_
    intro on o current d member
    obtain ⟨older, versions⟩ := List.head?_eq_some_iff.mp current
    -- the new version is the first one
    have isLast : s.fresh ≤ o.uid := by
      have same := accepted.versions
      rw [versions] at same
      obtain ⟨step, -⟩ := List.forall₂_cons.mp same
      rw [step.uid]
      exact isNew
    have start : KeepsToInitialized s file s := by
      refine ⟨refl_of (Edits Set.univ ObjectIdentity.Remains file) s, fun j isFile v isVersion wrong => ?_⟩
      have known := separate.version_lt isFile isVersion
      omega
    obtain ⟨-, needs⟩ := load_preserves found
      (keepsToInitialized_rule separate found on nothing) run start
    have isVersion : o ∈ (f i).versions := versions ▸ List.mem_cons_self ..
    exact .inr (needs (f i) (identity_edited found keep lookup) o isVersion isLast d member)

end Load

/-! ## The start of the program -/

section Start

variable {e : Env} {s s' : Loader} {file : Nat}

theorem moveFront_identity (distinct : (s.lookup.map ObjectIdentity.id).Nodup) :
    (s.moveFront file).identity = s.identity := by
  have perm : (s.moveFront file).lookup.Perm s.lookup := by
    have both := List.filter_append_perm (fun i : ObjectIdentity => decide (i.id = file)) s.lookup
    simpa [Loader.moveFront] using both
  have ids := perm.map ObjectIdentity.id
  funext a
  cases found : s.identity a with
  | some i =>
    have member : i ∈ (s.moveFront file).lookup :=
      perm.mem_iff.mpr (Loader.mem_of_identity found)
    have isId := Loader.id_of_identity found
    rw [← isId]
    exact lookup_of_mem (ids.nodup_iff.mpr distinct) member
  | none =>
    refine lookup_eq_none_iff.mpr fun member => ?_
    exact lookup_eq_none_iff.mp found (ids.mem_iff.mp member)

/-- At the start of the program, everything that is loaded gets initialized. -/
theorem prepareLoaded_settled {start : ObjectRef}
    (known : ∀ a, ∀ d ∈ s.dependenciesOf a, d < s.fresh)
    (run : prepareLoaded e start s = some (true, s')) : s'.Settled := by
  obtain ⟨ok, s1, relocated, run⟩ := bind_inv run
  have standing : SameStanding s s1 := keepsRelocation_sameStanding.relocateLoaded false _ _ _ relocated
  cases ok with
  | false => cases run
  | true =>
    obtain ⟨_, s2, generation, run⟩ := bind_inv run
    obtain ⟨_, s3, logged, run⟩ := bind_inv run
    rw [bind_of_eq (get_apply s3)] at run
    obtain ⟨ok, s4, called, run⟩ := bind_inv run
    obtain ⟨rfl, marks, all⟩ :=
      allOf_marks (fun _ _ _ _ run => initializeFrom_marks run) _ _ _ _ called
    obtain ⟨o, -, run⟩ := getObject_bind_inv run
    obtain ⟨_, s5, finalized, run⟩ := bind_inv run
    rw [(pure_inv run).2]
    have quiet : Quiet s4 s5 := quiet_finalizeObject o _ _ _ finalized
    have lookup : s3.lookup = s1.lookup := by
      rw [modify_inv logged, modify_inv generation]
    have fresh : s3.fresh = s1.fresh := by
      rw [modify_inv logged, modify_inv generation]
    have needs : s3.dependenciesOf = s.dependenciesOf := by
      rw [← standing.dependenciesOf]
      unfold Loader.dependenciesOf
      rw [Loader.current_congr lookup]
    refine SameStanding.settled quiet.sameView fun a _ d edge => ⟨?_, fun i isDep => ?_⟩
    · rw [marks.needs, needs] at edge
      rw [marks.fresh, fresh]
      exact (known a d edge).trans_le standing.fresh
    · have member : d ∈ s3.lookup.map ObjectIdentity.id := by
        rw [← marks.ids]
        exact Loader.identity_isSome_iff.mp ⟨i, isDep⟩
      obtain ⟨i', isDep', on⟩ := all d (List.mem_reverse.mpr member)
      cases isDep.symm.trans isDep'
      exact on

/-- The state in which `run` prepares what is loaded (`src/loader.cpp:549-567`). -/
def Loader.launched (s : Loader) (file : Nat) (marked : Bool) : Loader :=
  Loader.moveFront file (Loader.modifyIdentity file (fun i => { i with flags := { i.flags with
    initialized := i.flags.initialized || marked } }) { s with target := some file })

theorem run_inv (started : run e withArguments file s = some (true, s')) :
    ∃ (start : ObjectRef) (marked : Bool) (s1 : Loader),
      prepareLoaded e start (s.launched file marked) = some (true, s1) ∧
        s' = { s1 with processStarted := true } := by
  unfold run at started
  rw [bind_of_eq (modify_apply _ _)] at started
  obtain ⟨start, -, started⟩ := getCurrent_bind_inv started
  rw [bind_of_eq (get_apply _)] at started
  obtain ⟨-, started⟩ := require_bind_inv started
  split at started
  · cases started
  · rw [bind_of_eq (modify_apply _ _), bind_of_eq (modify_apply _ _)] at started
    obtain ⟨ok, s1, prepared, started⟩ := bind_inv started
    cases ok with
    | false =>
      cases started
    | true =>
      obtain ⟨_, s2, noted, started⟩ := bind_inv started
      refine ⟨start.ref, !withArguments || decide (start.elf.header.type ≠ .rel), s1, ?_, ?_⟩
      · rw [← prepared]
        simp only [Loader.launched, Bool.or_assoc]
      · rw [(pure_inv started).2, modify_inv noted]

theorem launched_needs (distinct : (s.lookup.map ObjectIdentity.id).Nodup) (marked : Bool) :
    (s.launched file marked).dependenciesOf = s.dependenciesOf := by
  funext a
  unfold Loader.dependenciesOf Loader.current Loader.launched
  rw [moveFront_identity]
  · have same := Loader.current_modifyIdentity (s := { s with target := some file }) (i := file) (j := a)
      (f := fun i => { i with flags := { i.flags with initialized := i.flags.initialized || marked } })
      (fun _ => rfl) fun _ => rfl
    unfold Loader.current at same
    rw [same]
    rfl
  · rw [Loader.ids_modifyIdentity (by intro; rfl)]
    exact distinct

theorem run_settled (bound : s.Bound) (started : run e withArguments file s = some (true, s')) :
    s'.Settled := by
  obtain ⟨start, marked, s1, prepared, rfl⟩ := run_inv started
  have settled : s1.Settled := by
    refine prepareLoaded_settled (fun a d edge => ?_) prepared
    rw [launched_needs bound.distinct] at edge
    obtain ⟨o, current, member⟩ := Loader.mem_dependenciesOf.mp edge
    obtain ⟨i, isFile, isHead⟩ := Loader.identity_of_current current
    obtain ⟨older, versions⟩ := List.head?_eq_some_iff.mp isHead
    exact (bound.kin a i isFile o (versions ▸ List.mem_cons_self ..) d member).1
  have noticed : SameStanding s1 { s1 with processStarted := true } := ⟨le_rfl, rfl⟩
  exact noticed.settled settled

theorem run_separate (separate : s.Separate)
    (started : run e withArguments file s = some (true, s')) : s'.Separate := by
  obtain ⟨start, marked, s1, prepared, rfl⟩ := run_inv started
  have launched : (s.launched file marked).Separate := by
    apply moveFront_separate
    apply SameAddresses.separate _ separate
    exact ⟨le_rfl, map_update (by intro; rfl) file s.lookup⟩
  have same := keepsParts_sameAddresses.prepareLoaded start _ _ _ prepared
  have last := same.separate launched
  exact ⟨last.nodup, last.used⟩

end Start

/-! ## Runs -/

/-- A file is opened before the program starts. -/
def Opens (s s' : Loader) : Prop :=
  ∃ e fuel a result, openFile e fuel a s = some (result, s')

/-- The steps of a running program: calls of `dlopen`, loads after file modifications, updates, and
whatever leaves the identities alone. New versions of initialized identities need nothing new. -/
inductive Loader.CarefulStep (s s' : Loader) : Prop
  | dlopen {e : Env} (call : Dlopens e s s')
  | load {e : Env} {fuel file : Nat} {memory : Option MemoryImage} {result : Option ObjectRef}
      (nothing : s.NeedsNothingNew e file memory)
      (run : loadFrom e fuel file memory s = some (result, s'))
  | update {e : Env} (run : updateLoaded e s = some ((), s'))
  | other (lookup : s'.lookup = s.lookup) (fresh : s.fresh ≤ s'.fresh)

theorem Loader.CarefulStep.keeps {s s' : Loader} (step : s.CarefulStep s') (separate : s.Separate)
    (settled : s.Settled) : s'.Separate ∧ s'.Settled := by
  cases step with
  | dlopen call => exact ⟨call.separate separate, call.settled separate.old settled⟩
  | @load e fuel file memory result nothing run =>
    obtain ⟨i, found⟩ := load_found run
    exact ⟨load_separate (grows_openFile fuel) separate found run,
      loadFrom_settled separate settled nothing run⟩
  | update run =>
    have addresses := keepsParts_sameAddresses.updateLoaded _ _ _ run
    have standing := keepsRelocation_sameStanding.updateLoaded _ _ _ run
    exact ⟨addresses.separate separate, standing.settled settled⟩
  | other lookup fresh =>
    have addresses : SameAddresses s s' := ⟨fresh, by rw [lookup]⟩
    have standing : SameStanding s s' := ⟨fresh, by rw [lookup]⟩
    exact ⟨addresses.separate separate, standing.settled settled⟩

theorem initial_bound : Loader.initial.Bound :=
  ⟨initial_separate.old, List.nodup_nil, fun _ _ isFile => (Option.some_ne_none _ isFile.symm).elim,
    fun _ _ isFile => (Option.some_ne_none _ isFile.symm).elim⟩

theorem opens_bound (opened : ReflTransGen Opens Loader.initial s) :
    s.Separate ∧ s.Bound := by
  induction opened with
  | refl => exact ⟨initial_separate, initial_bound⟩
  | tail _ step ih =>
    obtain ⟨e, fuel, a, result, run⟩ := step
    exact ⟨keepsSeparate_openFile fuel a _ _ _ run ih.1, bound_openFile fuel a _ _ _ run ih.2⟩

/-- In every run in which new versions of initialized identities need nothing new, whatever an
initialized identity depends on is initialized, from the start of the program on. -/
theorem runs_initialized {e : Env} {withArguments : Bool} {file : Nat} {s₀ s₁ s : Loader}
    (opened : ReflTransGen Opens Loader.initial s₀)
    (started : run e withArguments file s₀ = some (true, s₁))
    (steps : ReflTransGen Loader.CarefulStep s₁ s) : s.RunsInitialized := by
  obtain ⟨separate, bound⟩ := opens_bound opened
  have invariant : s.Separate ∧ s.Settled := by
    induction steps with
    | refl => exact ⟨run_separate separate started, run_settled bound started⟩
    | tail _ step ih => exact step.keeps ih.1 ih.2
  exact invariant.2.runsInitialized

/-! ## Two programs -/

/-- The program `liby.so` needs libraries, and there is a library `libn.so`. -/
def programNeeding (time : Nat) (needed : List String) : Env :=
  Env.reference { Config.default with dynamicUpdate := true, dynamicDlupdate := true } fun path =>
    if path = "/lib/liby.so" then
      some (File.ofElf time (Elf.library (needed.map Dyn.needed) [] []))
    else if path = "/lib/libn.so" then some (File.ofElf 0 (Elf.library [] [] []))
    else none

/-- The program is opened. -/
def openProgram (needed : List String) : LoaderM (Option Nat) :=
  openFile (programNeeding 0 needed) 2
    ⟨"/lib/liby.so", { Flags.zero with updatable := true }, true, some 0, none, .none, none⟩

/-- It is opened and started, a new version is loaded, and the update is applied. The states in
between are returned. -/
def updateProgram (first second : List String) : LoaderM (Bool × Loader × Loader × Loader) := do
  let _ ← openProgram first
  let opened ← get
  let ok ← run (programNeeding 0 first) true 0
  let started ← get
  let _ ← loadFrom (programNeeding 1 second) 2 0 none
  let loaded ← get
  updateLoaded (programNeeding 1 second)
  return (ok, opened, started, loaded)

theorem updateProgram_runs {first second : List String} {s0 s1 s2 s : Loader}
    (result : updateProgram first second .initial = some ((true, s0, s1, s2), s)) :
    ReflTransGen Opens .initial s0 ∧
      run (programNeeding 0 first) true 0 s0 = some (true, s1) ∧
      (∃ r, loadFrom (programNeeding 1 second) 2 0 none s1 = some (r, s2)) ∧
      updateLoaded (programNeeding 1 second) s2 = some ((), s) := by
  obtain ⟨i, t0, opened, result⟩ := bind_inv result
  rw [bind_of_eq (get_apply t0)] at result
  obtain ⟨ok, t1, started, result⟩ := bind_inv result
  rw [bind_of_eq (get_apply t1)] at result
  obtain ⟨r, t2, loaded, result⟩ := bind_inv result
  rw [bind_of_eq (get_apply t2)] at result
  obtain ⟨_, t3, updated, result⟩ := bind_inv result
  cases result
  exact ⟨.single ⟨_, _, _, _, opened⟩, started, ⟨r, loaded⟩, updated⟩

/-- Both versions need the same library. -/
theorem runs_initialized_same : ∃ s₀ s₁ s₂ s, ReflTransGen Opens .initial s₀ ∧
    run (programNeeding 0 ["libn.so"]) true 0 s₀ = some (true, s₁) ∧
    (∃ r, loadFrom (programNeeding 1 ["libn.so"]) 2 0 none s₁ = some (r, s₂)) ∧
    updateLoaded (programNeeding 1 ["libn.so"]) s₂ = some ((), s) ∧ s.Initialized 0 ∧
    s.dependenciesOf 0 = [4] ∧ s.RunsInitialized := by
  have evaluated : (updateProgram ["libn.so"] ["libn.so"] .initial).map (fun p => (p.1.1,
      (p.1.2.2.1.identity 0).map (fun i => (neededBy (programNeeding 1 ["libn.so"]) i none,
        decide (p.1.2.2.1.Offers i "libn.so"))),
      (p.2.identity 0).map (fun i => i.flags.initialized), p.2.dependenciesOf 0)) =
      some (true, some (["libn.so"], true), some true, [4]) := by decide +kernel
  obtain ⟨⟨⟨ok, s₀, s₁, s₂⟩, s⟩, result, facts⟩ := Option.map_eq_some_iff.mp evaluated
  obtain ⟨rfl, offered, initialized, needs⟩ : ok = true ∧
      (s₁.identity 0).map (fun i => (neededBy (programNeeding 1 ["libn.so"]) i none,
        decide (s₁.Offers i "libn.so"))) = some (["libn.so"], true) ∧
      (s.identity 0).map (fun i => i.flags.initialized) = some true ∧ s.dependenciesOf 0 = [4] := by
    simpa using facts
  obtain ⟨opened, started, ⟨r, loaded⟩, updated⟩ := updateProgram_runs result
  have nothing : s₁.NeedsNothingNew (programNeeding 1 ["libn.so"]) 0 none := by
    intro i isFile _ lib needed _
    rw [isFile, Option.map_some] at offered
    obtain ⟨libs, offers⟩ := Prod.mk.inj (Option.some.inj offered)
    rw [libs] at needed
    rw [List.mem_singleton.mp needed]
    exact of_decide_eq_true offers
  have steps : ReflTransGen Loader.CarefulStep s₁ s :=
    .tail (.single (.load nothing loaded)) (.update updated)
  obtain ⟨i, isFile, on⟩ := Option.map_eq_some_iff.mp initialized
  exact ⟨s₀, s₁, s₂, s, opened, started, ⟨r, loaded⟩, updated, ⟨i, isFile, on⟩, needs,
    runs_initialized opened started steps⟩

/-- The second version needs a library that the first one does not: it is loaded with the new
version, but the update does not initialize it. -/
theorem update_leaves_uninitialized : ∃ s₀ s₁ s₂ s, ReflTransGen Opens .initial s₀ ∧
    run (programNeeding 0 []) true 0 s₀ = some (true, s₁) ∧
    (∃ r, loadFrom (programNeeding 1 ["libn.so"]) 2 0 none s₁ = some (r, s₂)) ∧
    updateLoaded (programNeeding 1 ["libn.so"]) s₂ = some ((), s) ∧ ¬ s.RunsInitialized := by
  have evaluated : (updateProgram [] ["libn.so"] .initial).map (fun p => (p.1.1,
      (p.2.identity 0).map (fun i => i.flags.initialized), p.2.dependenciesOf 0,
      (p.2.identity 8).map (fun i => i.flags.initialized))) =
      some (true, some true, [8], some false) := by decide +kernel
  obtain ⟨⟨⟨ok, s₀, s₁, s₂⟩, s⟩, result, facts⟩ := Option.map_eq_some_iff.mp evaluated
  obtain ⟨rfl, initialized, needs, missed⟩ : ok = true ∧
      (s.identity 0).map (fun i => i.flags.initialized) = some true ∧ s.dependenciesOf 0 = [8] ∧
      (s.identity 8).map (fun i => i.flags.initialized) = some false := by
    simpa using facts
  obtain ⟨opened, started, loaded, updated⟩ := updateProgram_runs result
  refine ⟨s₀, s₁, s₂, s, opened, started, loaded, updated, fun all => ?_⟩
  obtain ⟨i, isFile, on⟩ := Option.map_eq_some_iff.mp initialized
  obtain ⟨j, isDep, off⟩ := Option.map_eq_some_iff.mp missed
  have edge : 8 ∈ s.dependenciesOf 0 := needs ▸ List.mem_singleton_self 8
  rw [all 0 8 j ⟨i, isFile, on⟩ (.single edge) isDep] at off
  cases off

end Luci
