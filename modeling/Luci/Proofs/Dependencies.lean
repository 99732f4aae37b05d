import Luci.Proofs.LibraryNames
import Mathlib.Data.Fintype.EquivFin

/-!
# The dependencies of a version

`preload_libraries` appends the identities that `Loader::library` returns for the `DT_NEEDED`
entries to the dependencies of a new version (`src/object/dynamic.cpp:199-212`). Nothing else in
a load writes to dependencies. `LoadInvariant` is the rule that follows from this, and `Kin` the
first use of it: what an identity depends on was loaded into its namespace.
-/

namespace Luci

open Exec KeyedList

variable {α : Type} {ok : Bool} {o : Object} {lib : String} {flags : Flags} {s s' : Loader}
  {r : ObjectRef} {a file n : Nat} {k : ObjectKind} {i i' : ObjectIdentity}
  {f : ObjectIdentity → ObjectIdentity}

/-! ## Writes that keep the dependencies -/

/-- The identity is in the namespace it was in, and initialized if it was. -/
structure ObjectIdentity.Remains (i i' : ObjectIdentity) : Prop where
  ns : i'.ns = i.ns
  initialized : i'.flags.initialized = i.flags.initialized

instance : IsPreorder ObjectIdentity ObjectIdentity.Remains where
  refl _ := ⟨rfl, rfl⟩
  trans _ _ _ first second :=
    ⟨second.ns.trans first.ns, second.initialized.trans first.initialized⟩

/-- The versions of an identity keep their origin. -/
structure ObjectIdentity.SameOrigins (i i' : ObjectIdentity) : Prop
    extends ObjectIdentity.Remains i i' where
  versions : i'.versions.map Object.origin = i.versions.map Object.origin

instance : IsPreorder ObjectIdentity ObjectIdentity.SameOrigins where
  refl i := ⟨refl_of ObjectIdentity.Remains i, rfl⟩
  trans _ _ _ first second :=
    ⟨trans_of ObjectIdentity.Remains first.toRemains second.toRemains,
      second.versions.trans first.versions⟩

theorem version_of_origins {l l' : List Object} {o' : Object}
    (same : l'.map Object.origin = l.map Object.origin) (isVersion : o' ∈ l') :
    ∃ o ∈ l, o.uid = o'.uid ∧ o.file = o'.file ∧ o.dependencies = o'.dependencies := by
  obtain ⟨o, member, same⟩ := List.mem_map.mp (same ▸ List.mem_map_of_mem isVersion)
  simp only [Object.origin, Prod.mk.injEq] at same
  exact ⟨o, member, same.1, same.2.1, same.2.2.2.2⟩

/-- Writes on the way to a version that is not in the list keep the origins. -/
theorem origins_edited {u : Nat} {l l' : List Object} (edited : List.Forall₂ (Object.Edited u k) l l')
    (absent : u ∉ l.map Object.uid) : l'.map Object.origin = l.map Object.origin := by
  induction edited with
  | nil => rfl
  | @cons o o' _ _ one _ ih =>
    rw [List.map_cons, List.mem_cons, not_or] at absent
    have data : o'.data = o.data := congrArg Prod.fst one.stamp
    rw [List.map_cons, List.map_cons, ih absent.2, Object.origin, Object.origin, one.uid, one.file,
      one.kind, data, one.dependencies fun same => absent.1 same.symm]

/-- The identity `file` was written to, but not the dependencies of its versions, and the
other identities are the same. -/
structure Writes (file : Nat) (s s' : Loader) : Prop where
  edits : Edits Set.univ ObjectIdentity.SameOrigins file s s'
  events : s'.events = s.events

instance {file : Nat} : IsPreorder Loader (Writes file) where
  refl s := ⟨refl_of (Edits Set.univ ObjectIdentity.SameOrigins file) s, rfl⟩
  trans _ _ _ first second :=
    ⟨trans_of (Edits Set.univ ObjectIdentity.SameOrigins file) first.edits second.edits,
      second.events.trans first.events⟩

theorem Writes.lookup (writes : Writes file s s') (found : s.identity file = some i) (old : s.Old) :
    ∃ f : ObjectIdentity → ObjectIdentity, (∀ a, (f a).id = a.id) ∧ i.SameOrigins (f i) ∧
      s'.lookup = update ObjectIdentity.id file f s.lookup :=
  writes.edits.unopened writes.events found old

instance : FramedLoad Unlogged where
  unused _ _ _ _ _ _ := rfl
  vm _ _ _ := rfl
  datarelContent _ _ := rfl
  identity _ _ _ _ := rfl
  tls _ _ := rfl

section Steps

variable {e : Env} {file : Nat}

theorem writes_of_quiet {x : LoaderM α} (quiet : Keeps Quiet x) : Keeps (Writes file) x :=
  quiet.mono fun _ _ step => ⟨step.grows.edits, step.events⟩

/-- What is allowed on the way to any new version keeps the dependencies of all versions. -/
theorem writes_of_edited {x : LoaderM α}
    (edited : ∀ u, Keeps (Edits Set.univ (ObjectIdentity.Edited u k) file) x)
    (unlogged : Keeps Unlogged x) : Keeps (Writes file) x := by
  intro s a s' run
  have edits := edited 0 s a s' run
  refine ⟨⟨edits.fresh, edits.target, edits.processStarted, edits.updatePending, edits.relocations,
    fun i found old => ?_⟩, unlogged s a s' run⟩
  -- an address that no version has
  obtain ⟨u, absent⟩ := Infinite.exists_notMem_finset (i.versions.map Object.uid).toFinset
  obtain ⟨f, new, opened, keep, edited, rest⟩ := (edited u s a s' run).edited i found old
  exact ⟨f, new, opened, keep, ⟨⟨edited.ns, edited.initialized⟩, origins_edited edited.versions
    fun member => absent (List.mem_toFinset.mpr member)⟩, rest⟩

theorem writes_modifyIdentity (keep : ∀ a, (f a).id = a.id)
    (step : ∀ i, ObjectIdentity.SameOrigins i (f i)) :
    Keeps (Writes file) (modify (Loader.modifyIdentity file f)) := by
  intro s a s' run
  have edits : Keeps (Edits Set.univ ObjectIdentity.SameOrigins file)
      (modify (Loader.modifyIdentity file f)) := edits_modifyIdentity keep step
  refine ⟨edits s a s' run, ?_⟩
  rw [modify_inv run]
  rfl

theorem writes_modifyObject {g : Object → Object} (isFile : r.file = file)
    (step : ∀ o, (g o).origin = o.origin) :
    Keeps (Writes file) (modify (Loader.modifyObject r g)) := by
  subst isFile
  exact writes_modifyIdentity (fun _ => rfl) fun i => ⟨⟨rfl, rfl⟩, map_update step r.uid i.versions⟩

theorem writes_preloadSegments (isFile : r.file = file) (setupRelro : Bool) :
    Keeps (Writes file) (preloadSegments r setupRelro) := by
  subst isFile
  refine writes_of_edited (k := .dynamic) (fun u => edited_preloadSegments r setupRelro) ?_
  exact frame_preloadSegments (fun _ _ _ => rfl) r setupRelro

theorem writes_preloadDyn (isFile : r.file = file) (dyn : Dyn) :
    Keeps (Writes file) (preloadDyn e r dyn) := by
  subst isFile
  exact writes_of_edited (k := .dynamic) (fun u => edited_preloadDyn r dyn) (frame_preloadDyn r dyn)

theorem writes_preloadRelocatable (isFile : r.file = file) :
    Keeps (Writes file) (preloadRelocatable e r) := by
  refine keeps_bind keeps_get fun s => ?_
  refine keeps_bind (writes_of_quiet (frame_getObject _)) fun o => ?_
  refine keeps_bind (writes_of_quiet (frame_getIdentity _)) fun i => ?_
  refine keeps_bind (keeps_orAbort _) fun missing => ?_
  refine keeps_ite (fun _ => keeps_pure false) fun _ => ?_
  refine keeps_bind (keeps_orAbort _) fun l => ?_
  refine keeps_bind (writes_modifyObject isFile fun _ => rfl) fun _ => ?_
  refine keeps_bind (writes_of_quiet (by grind)) fun _ => keeps_bind ?_ fun _ => keeps_pure _
  subst isFile
  refine keeps_onlyIf fun _ => writes_of_edited (k := .dynamic) (fun u => ?_) ?_
  · exact edited_addTlsModule r.file _ _ _ _
  · exact FramedCreate.registers _ _ _ _ _

theorem writes_prepareVersion (isFile : o.file = file) :
    Keeps (Writes file) (prepareVersion e o) := by
  subst isFile
  apply keeps_bind
  · exact writes_modifyIdentity (fun _ => rfl) fun i => ⟨⟨rfl, rfl⟩, rfl⟩
  intro _
  apply keeps_bind
  · refine keeps_preprepareObject o (fun _ _ quiet => ⟨quiet.grows.edits, quiet.events⟩) ?_
    intro s g keep
    have writes : Keeps (Writes o.file) (modify (Loader.modifyObject o.ref g)) :=
      writes_modifyObject rfl keep
    exact writes s _ _ rfl
  intro _
  apply keeps_bind
  · intro s ok s' run
    have relocates := relocates_prepareObject o s ok s' run
    exact ⟨edits_of_relocates (Set.mem_univ o.uid) (relocates_prepareObject o) s ok s' run,
      relocates.quiet.events⟩
  · exact fun _ => keeps_pure _

theorem writes_finishCreate (isFile : o.file = file) (type : ElfType) :
    Keeps (Writes file) (finishCreate e o type) := by
  refine keeps_bind (writes_of_quiet (frame_getIdentity _)) fun i => ?_
  apply keeps_bind
  · refine keeps_onlyIf fun _ => keeps_bind keeps_get fun s => keeps_bind (keeps_require _) fun _ => ?_
    apply keeps_bind (keeps_onlyIf fun _ => writes_prepareVersion isFile)
    exact fun _ => writes_modifyObject isFile fun _ => rfl
  intro _
  subst isFile
  apply keeps_bind
  · exact writes_modifyIdentity (fun _ => rfl) fun i => ⟨⟨rfl, rfl⟩, rfl⟩
  · exact fun _ => keeps_bind keeps_get fun _ => keeps_pure _

end Steps

/-! ## The invariants of a load -/

/-- A version is removed from an identity. -/
abbrev Loader.dropVersion (file uid : Nat) (s : Loader) : Loader :=
  s.modifyIdentity file (ObjectIdentity.removeVersion uid)

/-- A dependency is appended to an object. -/
abbrev Loader.addDependency (r : ObjectRef) (d : Nat) (s : Loader) : Loader :=
  s.modifyObject r fun o => { o with dependencies := o.dependencies ++ [d] }

theorem identity_addDependency (d : Nat) (found : s.identity r.file = some i) :
    (s.addDependency r d).identity r.file =
      some (i.modifyVersion r.uid fun o => { o with dependencies := o.dependencies ++ [d] }) := by
  have keep : ∀ j : ObjectIdentity, (j.modifyVersion r.uid fun o =>
      { o with dependencies := o.dependencies ++ [d] }).id = j.id := fun _ => rfl
  rw [Loader.addDependency, Loader.modifyObject, Loader.identity_modifyIdentity_same keep, found]
  rfl

/-- A property that holds across every step of a load of `file`: the writes to the identity, its
versions coming and going, the calls of `library` for the needed libraries, and the appending of
their results to the dependencies. -/
structure LoadInvariant (e : Env) (library : LibraryCall) (libs : List String) (file : Nat)
    (Q : Loader → Prop) : Prop where
  old : ∀ s, Q s → s.Old
  found : ∀ s, Q s → ∃ i, s.identity file = some i
  writes : ∀ s s', Writes file s s' → Q s → Q s'
  installs : ∀ s (o : Object), o.file = file → o.dependencies = [] → Q s →
    Q (s.modifyIdentity file (ObjectIdentity.addVersion o))
  removes : ∀ s u, Q s → Q (s.dropVersion file u)
  calls : ∀ lib ∈ libs, lib ∉ e.libraryExclude →
    ∀ s i flags rpath runpath result s', flags.initialized = false → Q s →
      s.identity file = some i → library lib flags rpath runpath i.ns s = some (result, s') →
      Q s' ∧ ∀ d, result = some d → ∀ r : ObjectRef, r.file = file → Q (s'.addDependency r d)

/-- A property is kept. -/
def Preserves (Q : Loader → Prop) (s s' : Loader) : Prop := Q s → Q s'

instance {Q : Loader → Prop} : IsPreorder Loader (Preserves Q) where
  refl _ holds := holds
  trans _ _ _ first second holds := second (first holds)

section Load

variable {e : Env} {library : LibraryCall} {libs : List String} {Q : Loader → Prop}
  {file : Nat} (rule : LoadInvariant e library libs file Q)

include rule

theorem LoadInvariant.of_writes {x : LoaderM α} (writes : Keeps (Writes file) x) :
    Keeps (Preserves Q) x :=
  writes.mono rule.writes

theorem LoadInvariant.preloadLibrary (isFile : r.file = file) (idle : flags.initialized = false)
    (needed : lib ∈ libs) :
    Keeps (Preserves Q) (preloadLibrary e library r flags lib) := by
  intro s ok s' run holds
  unfold Luci.preloadLibrary at run
  rw [Exec.ite_apply] at run
  by_cases excluded : lib ∈ e.libraryExclude
  · rw [if_pos excluded] at run
    rwa [(pure_inv run).2]
  · rw [if_neg excluded] at run
    obtain ⟨i, found, run⟩ := getIdentity_bind_inv run
    obtain ⟨o, -, run⟩ := getObject_bind_inv run
    obtain ⟨result, s1, called, run⟩ := bind_inv run
    rw [isFile] at found
    obtain ⟨kept, appended⟩ := rule.calls lib needed excluded s i _ _ _ result s1 idle holds found
      called
    cases result with
    | none => rwa [(pure_inv run).2]
    | some d =>
      obtain ⟨_, s2, written, run⟩ := bind_inv run
      rw [(pure_inv run).2, modify_inv written]
      exact appended d rfl r isFile

theorem LoadInvariant.preloadLibraries (isFile : r.file = file) (isObject : s.object r = some o)
    (isElf : o.elf.neededLibraries = libs) (run : preloadLibraries e library r s = some (ok, s')) :
    Preserves Q s s' := by
  unfold Luci.preloadLibraries at run
  obtain ⟨o', isObject', run⟩ := getObject_bind_inv run
  cases isObject.symm.trans isObject'
  obtain ⟨_, s1, preloaded, run⟩ := bind_inv run
  obtain ⟨i, -, run⟩ := getIdentity_bind_inv run
  have entries : Preserves Q s s1 := by
    refine keeps_forEach _ (fun dyn _ => ?_) _ _ _ preloaded
    exact rule.of_writes (writes_preloadDyn isFile dyn)
  have libraries : Preserves Q s1 s' := by
    refine keeps_eachOf _ (fun lib needed => ?_) _ _ _ run
    exact rule.preloadLibrary isFile rfl (isElf ▸ needed)
  exact trans_of (Preserves Q) entries libraries

theorem LoadInvariant.preload (isFile : r.file = file) (isObject : s.object r = some o)
    (isElf : o.elf.neededLibraries = libs) {kind : ObjectKind}
    (run : preload e library r kind s = some (ok, s')) : Preserves Q s s' := by
  unfold Luci.preload at run
  cases kind with
  | executable => exact rule.of_writes (writes_preloadSegments isFile false) _ _ _ run
  | relocatable => exact rule.of_writes (writes_preloadRelocatable isFile) _ _ _ run
  | dynamic =>
    obtain ⟨segmented, s1, segments, run⟩ := bind_inv run
    have first : Preserves Q s s1 :=
      rule.of_writes (writes_preloadSegments isFile true) _ _ _ segments
    cases segmented with
    | false => rwa [(pure_inv run).2]
    | true =>
      intro holds
      have edits : Edits Set.univ (ObjectIdentity.Edited 0 .dynamic) r.file s s1 :=
        edited_preloadSegments r true _ _ _ segments
      obtain ⟨o1, isObject1, edited⟩ := edits.object (rule.old s holds) isObject
      have sameElf : o1.elf.neededLibraries = libs := by
        rw [edited.elf (Or.inr (by simp)), isElf]
      exact rule.preloadLibraries isFile isObject1 sameElf run (first holds)

theorem LoadInvariant.destroy (isFile : o.file = file) : Keeps (Preserves Q) (o.destroy e) := by
  subst isFile
  apply keeps_bind
  · exact keeps_modify fun s holds => rule.removes s o.uid holds
  · exact fun _ => rule.of_writes (writes_of_quiet (quiet_release o))

theorem LoadInvariant.employ (isFile : o.file = file) (isElf : o.elf.neededLibraries = libs)
    (bare : o.dependencies = []) (type : ElfType) :
    Keeps (Preserves Q) (employ e library o type) := by
  intro s result s' run holds
  unfold Luci.employ at run
  obtain ⟨_, s1, installed, run⟩ := bind_inv run
  obtain ⟨failure, s2, preloaded, run⟩ := bind_inv run
  have isInstalled : s1 = s.modifyIdentity file (ObjectIdentity.addVersion o) :=
    isFile ▸ modify_inv installed
  have holds1 : Q s1 := isInstalled ▸ rule.installs s o isFile bare holds
  have isObject1 : s1.object o.ref = some o := by
    obtain ⟨i, found⟩ := rule.found s holds
    have found1 : s1.identity o.ref.file = some (i.addVersion o) := by
      rw [isInstalled, show o.ref.file = file from isFile,
        Loader.identity_modifyIdentity_same (by intro; rfl), found]
      rfl
    refine Option.bind_eq_some_iff.mpr ⟨i.addVersion o, found1, ?_⟩
    rw [ObjectIdentity.addVersion, lookup_cons]
    exact if_pos rfl
  have holds2 : Q s2 := by
    unfold preloadAndMap at preloaded
    obtain ⟨ok, s3, preload, rest⟩ := bind_inv preloaded
    have mapped : Keeps (Writes file) (if ok = true then do
        let i ← getIdentity o.file
        let o ← getObject o.ref
        if i.flags.premapped then return none
        else if ← o.map e then return none
        else return some Info.failedMapping
      else return some Info.failedPreloading) := by
      refine keeps_ite (fun _ => ?_) fun _ => keeps_pure _
      refine keeps_bind (writes_of_quiet (frame_getIdentity _)) fun i => ?_
      refine keeps_bind (writes_of_quiet (frame_getObject _)) fun o => writes_of_quiet ?_
      grind
    exact rule.of_writes mapped _ _ _ rest (rule.preload isFile isObject1 isElf preload holds1)
  cases failure with
  | some failure =>
    obtain ⟨_, s3, destroyed, run⟩ := bind_inv run
    rw [(pure_inv run).2]
    exact rule.destroy isFile _ _ _ destroyed holds2
  | none =>
    obtain ⟨info, s3, finished, run⟩ := bind_inv run
    rw [(pure_inv run).2]
    exact rule.of_writes (writes_finishCreate isFile type) _ _ _ finished holds2

theorem LoadInvariant.createObject (isFile : o.file = file) (isElf : o.elf.neededLibraries = libs)
    (bare : o.dependencies = []) (type : ElfType) :
    Keeps (Preserves Q) (createObject e library file o type) := by
  unfold Luci.createObject
  apply keeps_bind (rule.of_writes (writes_of_quiet (frame_getIdentity file)))
  intro i
  apply keeps_ite
  · intro _
    apply keeps_bind
    · apply rule.of_writes
      refine writes_of_edited (k := .dynamic) (fun u => ?_) (frame_checkUpdate file _)
      exact edited_of_silent (silent_checkUpdate file _)
    · intro compatible
      apply keeps_ite
      · intro _
        apply rule.employ
        · exact isFile
        · exact isElf
        · exact bare
      · intro _
        apply keeps_bind
        · apply rule.destroy
          exact isFile
        · exact fun _ => keeps_pure _
  · exact fun _ => rule.employ isFile isElf bare type

theorem LoadInvariant.create {op : Opened} (isElf : op.elf.neededLibraries = libs) :
    Keeps (Preserves Q) (create e library file op) := by
  intro s result s' run holds
  unfold Luci.create at run
  obtain ⟨i, -, run⟩ := getIdentity_bind_inv run
  extract_lets hashed hash at run
  rw [Exec.ite_apply] at run
  split at run
  · rwa [(pure_inv run).2]
  · obtain ⟨constructed, s1, construct, run⟩ := bind_inv run
    have constructs : Keeps (Writes file) (constructObject e file
        { op with data := { op.data with hash := hash } }) :=
      writes_of_edited (k := .dynamic) (fun u => edited_constructObject file _)
        (frame_constructObject file _)
    have holds1 : Q s1 := rule.of_writes constructs _ _ _ construct holds
    cases constructed with
    | none => rwa [(pure_inv run).2]
    | some o =>
      have isNew := constructObject_new construct
      have sameElf : o.elf.neededLibraries = libs := by rw [isNew.elf, isElf]
      exact rule.createObject isNew.file sameElf isNew.dependencies op.type _ _ _ run holds1

end Load

/-- The libraries that the content of a file, or the image in memory, needs. -/
def neededBy (e : Env) (i : ObjectIdentity) (memory : Option MemoryImage) : List String :=
  match presented e i memory with
  | some image => image.elf.neededLibraries
  | none => []

theorem load_preserves {e : Env} {library : LibraryCall} {Q : Loader → Prop}
    {result : Option ObjectRef} {memory : Option MemoryImage} {type : ElfType}
    (found : s.identity file = some i) (rule : LoadInvariant e library (neededBy e i memory) file Q)
    (run : load e library file memory type s = some (result, s')) : Preserves Q s s' := by
  have hooks : Keeps (Preserves Q) (initialHook e file) := by
    apply rule.of_writes
    refine writes_of_edited (k := .dynamic) (fun u => ?_) (frame_initialHook file)
    exact edited_of_silent (silent_initialHook file)
  obtain ⟨opened, s1, opening, run⟩ := bind_inv run
  have quiet : Keeps (Writes file) (openObject e file memory type) :=
    writes_of_quiet (frame_openObject _ _ _)
  refine trans_of (Preserves Q) (rule.of_writes quiet _ _ _ opening) ?_
  cases opened with
  | error failure => exact keeps_bind (R := Preserves Q) hooks (fun _ => keeps_pure _) _ _ _ run
  | ok op =>
    have isElf : op.elf.neededLibraries = neededBy e i memory := by
      obtain ⟨image, isImage, elf, -⟩ := openObject_presented found opening
      unfold neededBy
      rw [isImage, elf]
    have creates : Keeps (Preserves Q) (create e library file op) := rule.create isElf
    have attends : ∀ object, Keeps (Preserves Q) (afterCreate e file op.data object) := by
      intro object
      apply rule.of_writes
      refine writes_of_edited (k := .dynamic) (fun u => ?_) (frame_afterCreate file _ _)
      exact edited_of_silent (silent_afterCreate file _ _)
    refine keeps_bind (R := Preserves Q) creates (fun created => ?_) _ _ _ run
    exact keeps_bind (attends _) fun _ => keeps_bind hooks fun _ => keeps_pure _

/-! ## Identities and what they depend on -/

/-- Versions know their identity, and what they depend on was loaded into its namespace. A dependency
that is gone does not come back under the same address. -/
structure Loader.Bound (s : Loader) : Prop where
  old : s.Old
  distinct : (s.lookup.map ObjectIdentity.id).Nodup
  own : ∀ a i, s.identity a = some i → ∀ o ∈ i.versions, o.file = a
  kin : ∀ a i, s.identity a = some i → ∀ o ∈ i.versions, ∀ d ∈ o.dependencies,
    d < s.fresh ∧ ∀ j, s.identity d = some j → j.ns = i.ns

section Bound

variable {e : Env} {s s' : Loader} {file : Nat} {i : ObjectIdentity}

theorem Loader.Bound.of_lookup (bound : s.Bound) (lookup : s'.lookup = s.lookup)
    (fresh : s.fresh ≤ s'.fresh) : s'.Bound where
  old i member := (bound.old i (lookup ▸ member)).trans_le fresh
  distinct := lookup ▸ bound.distinct
  own a i isFile := bound.own a i (Loader.identity_congr lookup ▸ isFile)
  kin a i isFile o isVersion d member := by
    rw [Loader.identity_congr lookup] at isFile ⊢
    obtain ⟨known, kin⟩ := bound.kin a i isFile o isVersion d member
    exact ⟨known.trans_le fresh, kin⟩

theorem Loader.Bound.edited (bound : s.Bound) (found : s.identity file = some i)
    (keep : ∀ a, (f a).id = a.id) (lookup : s'.lookup = update ObjectIdentity.id file f s.lookup)
    (fresh : s.fresh ≤ s'.fresh) (ns : (f i).ns = i.ns) (own : ∀ o ∈ (f i).versions, o.file = file)
    (needs : ∀ o' ∈ (f i).versions, ∀ d ∈ o'.dependencies, (∃ o ∈ i.versions, d ∈ o.dependencies) ∨
      d < s.fresh ∧ ∀ j, s.identity d = some j → j.ns = i.ns) : s'.Bound := by
  have same : s'.identity file = some (f i) := by
    unfold Loader.identity
    rw [lookup, lookup_update_same keep]
    exact congrArg (Option.map f) found
  have others : ∀ a, a ≠ file → s'.identity a = s.identity a := by
    intro a other
    unfold Loader.identity
    rw [lookup, lookup_update_ne keep other]
  have namespaces : ∀ d ns, (∀ j, s.identity d = some j → j.ns = ns) →
      ∀ j, s'.identity d = some j → j.ns = ns := by
    intro d ns' before j isDep
    by_cases isFile : d = file
    · rw [isFile, same] at isDep
      cases isDep
      exact ns.trans (before i (isFile ▸ found))
    · exact before j ((others d isFile).symm.trans isDep)
  have ids : s'.lookup.map ObjectIdentity.id = s.lookup.map ObjectIdentity.id := by
    rw [lookup, keys_update keep]
  refine ⟨?_, ids ▸ bound.distinct, fun a j isFile => ?_, ?_⟩
  · exact bound.old.grown keep (lookup.trans (List.append_nil _).symm) (Added.nil _ _) fresh
  · by_cases isSame : a = file
    · rw [isSame, same] at isFile
      cases isFile
      exact isSame ▸ own
    · exact bound.own a j ((others a isSame).symm.trans isFile)
  · intro a j isFile o isVersion d member
    by_cases isSame : a = file
    · rw [isSame, same] at isFile
      cases isFile
      rw [ns]
      rcases needs o isVersion d member with ⟨o', isVersion', member'⟩ | ⟨known, kin⟩
      · obtain ⟨known, kin⟩ := bound.kin file i found o' isVersion' d member'
        exact ⟨known.trans_le fresh, namespaces d i.ns kin⟩
      · exact ⟨known.trans_le fresh, namespaces d i.ns kin⟩
    · rw [others a isSame] at isFile
      obtain ⟨known, kin⟩ := bound.kin a j isFile o isVersion d member
      exact ⟨known.trans_le fresh, namespaces d j.ns kin⟩

theorem Loader.Bound.modified (bound : s.Bound) (found : s.identity file = some i)
    (keep : ∀ a, (f a).id = a.id) (ns : (f i).ns = i.ns) (own : ∀ o ∈ (f i).versions, o.file = file)
    (needs : ∀ o' ∈ (f i).versions, ∀ d ∈ o'.dependencies, (∃ o ∈ i.versions, d ∈ o.dependencies) ∨
      d < s.fresh ∧ ∀ j, s.identity d = some j → j.ns = i.ns) : (s.modifyIdentity file f).Bound :=
  bound.edited found keep rfl le_rfl ns own needs

theorem Emplaced.identity_ne {a : OpenCall} {b : Nat} (emplaced : Emplaced a s i s')
    (other : b ≠ s.fresh) : s'.identity b = s.identity b := by
  have lookup := emplaced.lookup
  unfold Loader.emplace at lookup
  unfold Loader.identity
  have skipped : i.id ≠ b := emplaced.id ▸ other.symm
  split at lookup
  · obtain ⟨front, j, back, before, -, after⟩ := insertBefore_eq_some lookup
    rw [before, after, lookup_append, lookup_append, lookup_cons i, if_neg skipped]
  · rw [← Option.some.inj lookup, lookup_append, lookup_cons, if_neg skipped, lookup_nil,
      Option.or_none]

theorem Emplaced.bound {a : OpenCall} (emplaced : Emplaced a s i s') (bound : s.Bound) : s'.Bound := by
  have isNew : s'.identity s.fresh = some i := emplaced.found bound.old
  have later : s.fresh ≤ s'.fresh := emplaced.fresh ▸ Nat.le_succ _
  refine ⟨emplaced.old bound.old, ?_, fun b j isFile => ?_, ?_⟩
  · have lookup := emplaced.lookup
    have absent := bound.old.not_mem_fresh
    have distinct := bound.distinct
    unfold Loader.emplace at lookup
    split at lookup
    · obtain ⟨front, j, back, before, -, after⟩ := insertBefore_eq_some lookup
      rw [before, List.map_append] at distinct absent
      rw [after, List.map_append, List.map_cons, List.nodup_middle, List.nodup_cons, emplaced.id]
      exact ⟨absent, distinct⟩
    · rw [← Option.some.inj lookup, List.map_append, List.map_singleton, emplaced.id,
        List.nodup_append_comm, List.singleton_append, List.nodup_cons]
      exact ⟨absent, distinct⟩
  · by_cases isFresh : b = s.fresh
    · rw [isFresh, isNew] at isFile
      cases isFile
      rw [emplaced.versions]
      exact fun _ isVersion => absurd isVersion List.not_mem_nil
    · exact bound.own b j ((emplaced.identity_ne isFresh).symm.trans isFile)
  · intro b j isFile o isVersion d member
    by_cases isFresh : b = s.fresh
    · rw [isFresh, isNew] at isFile
      cases isFile
      rw [emplaced.versions] at isVersion
      cases isVersion
    · rw [emplaced.identity_ne isFresh] at isFile
      obtain ⟨known, kin⟩ := bound.kin b j isFile o isVersion d member
      refine ⟨known.trans_le later, fun k isDep => kin k ?_⟩
      rw [← emplaced.identity_ne known.ne]
      exact isDep

theorem Loader.Bound.popped (bound : s.Bound) (lookup : s'.lookup = s.lookup.dropLast)
    (fresh : s.fresh ≤ s'.fresh) : s'.Bound := by
  have remains := fun a j => identity_of_dropLast (a := a) (j := j) lookup
  have fewer : s'.lookup.Sublist s.lookup := lookup ▸ List.dropLast_sublist s.lookup
  refine ⟨?_, bound.distinct.sublist (fewer.map ObjectIdentity.id),
    fun a j isFile => bound.own a j (remains a j isFile), ?_⟩
  · exact fun j member => (bound.old j (fewer.subset member)).trans_le fresh
  · intro a j isFile o isVersion d member
    obtain ⟨known, kin⟩ := bound.kin a j (remains a j isFile) o isVersion d member
    exact ⟨known.trans_le fresh, fun k isDep => kin k (remains d k isDep)⟩

/-! ### Opening -/

/-- What `library` returns is in the namespace it was called for. -/
theorem libraryCall_returns {n d ns : Nat} {rpath runpath : List String} (old : s.Old)
    (distinct : (s.lookup.map ObjectIdentity.id).Nodup)
    (run : libraryCall e (openFile e n) lib flags rpath runpath ns s = some (some d, s')) :
    ∃ j, s'.identity d = some j ∧ j.ns = ns := by
  unfold libraryCall at run
  cases found : s.findLibrary (some ns) (basename lib) with
  | some j =>
    rw [library_opened (.inr (found ▸ rfl)), found] at run
    cases run
    obtain ⟨i, isFirst, isId⟩ := Option.map_eq_some_iff.mp found
    have isMatch := List.find?_some isFirst
    rw [Bool.and_eq_true, decide_eq_true_iff] at isMatch
    refine ⟨i, ?_, isMatch.1.symm⟩
    rw [← isId]
    exact lookup_of_mem distinct (List.mem_of_find?_eq_some isFirst)
  | none =>
    obtain ⟨_, a, s0, same, last⟩ := library_last found run
    cases same ns rfl
    obtain ⟨m, opened⟩ := last.opened
    obtain ⟨-, i, back, lookup, isId, isNs, -, others⟩ := openElf_placed (last.since old).1 opened
    refine ⟨i, ?_, isNs⟩
    unfold Loader.identity
    have inFront : KeyedList.lookup ObjectIdentity.id (s0.front a.priority) d = none := by
      refine lookup_eq_none_iff.mpr fun member => ?_
      obtain ⟨j, inside, isD⟩ := List.mem_map.mp member
      exact others j (List.mem_append_left back inside) isD
    rw [lookup, lookup_append, inFront, Option.none_or, lookup_cons, if_pos isId]

theorem Added.lookup_old {lo hi a : Nat} {new : List ObjectIdentity} (added : Added lo hi new)
    (known : a < lo) : KeyedList.lookup ObjectIdentity.id new a = none := by
  refine lookup_eq_none_iff.mpr fun member => ?_
  obtain ⟨i, inNew, isId⟩ := List.mem_map.mp member
  have range := added.id_range i inNew
  omega

theorem Grows.identity_old (grows : Grows s s') (old : s.Old) (known : a < s.fresh) :
    s'.identity a = s.identity a := by
  obtain ⟨new, opened, lookup, added, -⟩ := grows.added old
  unfold Loader.identity
  rw [lookup, lookup_append, added.lookup_old known, Option.or_none]

/-- A load keeps the invariant if the calls of `open` for libraries do. -/
theorem bound_rule (opens : ∀ a, Keeps (Preserves Loader.Bound) (openFile e n a))
    (libs : List String) (file : Nat) :
    LoadInvariant e (libraryCall e (openFile e n)) libs file
      fun s => s.Bound ∧ ∃ i, s.identity file = some i where
  old s holds := holds.1.old
  found s holds := holds.2
  writes s s' writes holds := by
    obtain ⟨bound, i, found⟩ := holds
    obtain ⟨f, keep, same, lookup⟩ := writes.lookup found bound.old
    refine ⟨bound.edited found keep lookup writes.edits.fresh same.ns ?_ ?_, ?_⟩
    · intro o' isVersion
      obtain ⟨o, isVersion', -, isFile, -⟩ := version_of_origins same.versions isVersion
      exact isFile.symm.trans (bound.own file i found o isVersion')
    · intro o' isVersion d member
      obtain ⟨o, isVersion', -, -, needs⟩ := version_of_origins same.versions isVersion
      exact .inl ⟨o, isVersion', needs ▸ member⟩
    · exact ⟨f i, by
        unfold Loader.identity
        rw [lookup, lookup_update_same keep]
        exact congrArg (Option.map f) found⟩
  installs s o isFile bare holds := by
    obtain ⟨bound, i, found⟩ := holds
    refine ⟨bound.modified found (fun _ => rfl) rfl ?_ ?_, i.addVersion o, ?_⟩
    · exact List.forall_mem_cons.mpr ⟨isFile, bound.own file i found⟩
    · intro o' isVersion d member
      rcases List.mem_cons.mp isVersion with rfl | isVersion
      · rw [bare] at member
        cases member
      · exact .inl ⟨o', isVersion, member⟩
    · rw [Loader.identity_modifyIdentity_same (by intro; rfl), found]
      rfl
  removes s u holds := by
    obtain ⟨bound, i, found⟩ := holds
    refine ⟨bound.modified found (fun _ => rfl) rfl ?_ ?_, i.removeVersion u, ?_⟩
    · exact fun o isVersion => bound.own file i found o (List.mem_of_mem_filter isVersion)
    · intro o' isVersion d member
      exact .inl ⟨o', List.mem_of_mem_filter isVersion, member⟩
    · rw [Loader.identity_modifyIdentity_same (by intro; rfl), found]
      rfl
  calls lib _ _ s i flags rpath runpath result s' idle holds found called := by
    obtain ⟨bound, -⟩ := holds
    have bound' : s'.Bound := by
      refine keeps_library (R := Preserves Loader.Bound) (fun a _ _ => opens a) lib rpath runpath true
        _ _ _ called bound
    have grows : Grows s s' := grows_libraryCall (grows_openFile n) lib flags rpath runpath i.ns idle
      _ _ _ called
    have found' : s'.identity file = some i :=
      (grows.identity_old bound.old (bound.old.file found)).trans found
    refine ⟨⟨bound', i, found'⟩, ?_⟩
    rintro d rfl r rfl
    obtain ⟨j, isDep, ns⟩ := libraryCall_returns bound.old bound.distinct called
    refine ⟨bound'.modified found' (fun _ => rfl) rfl ?_ ?_, _, identity_addDependency d found'⟩
    · intro o' isVersion
      obtain ⟨o, isVersion', rfl⟩ := List.mem_map.mp isVersion
      split <;> exact bound'.own r.file i found' o isVersion'
    intro o' isVersion d' member
    obtain ⟨o, isVersion', rfl⟩ := List.mem_map.mp isVersion
    split at member
    · rcases List.mem_append.mp member with before | isNew
      · exact .inl ⟨o, isVersion', before⟩
      · refine .inr ?_
        rw [List.mem_singleton.mp isNew]
        refine ⟨bound'.old.file isDep, fun k isDep' => ?_⟩
        cases isDep.symm.trans isDep'
        exact ns
    · exact .inl ⟨o, isVersion', member⟩

theorem bound_openFile (n : Nat) : ∀ a, Keeps (Preserves Loader.Bound) (openFile e n a) := by
  apply keeps_openFile
  · exact fun _ _ quiet bound => bound.of_lookup quiet.lookup quiet.fresh
  · exact fun s next bound => bound.of_lookup rfl le_rfl
  · exact fun emplaced => emplaced.bound
  · intro n opens file memory type s result s' run bound
    obtain ⟨i, found⟩ := load_found run
    exact (load_preserves found (bound_rule opens _ _) run ⟨bound, i, found⟩).1
  · exact fun s file bound => bound.of_lookup rfl le_rfl
  · exact fun s bound => bound.popped rfl le_rfl

end Bound

end Luci
