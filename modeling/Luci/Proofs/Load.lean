import Luci.Proofs.Construction
import Luci.Proofs.Growth

/-!
# The effect of loading

`ObjectIdentity::load` from the construction of an object to the hooks, as edits of the
identity. Until a version is installed, and after that except for its removal on
failure, the chain of versions stays as it is.
-/

namespace Luci

open Exec KeyedList

variable {op : Opened} {B : Set Nat} {s s' : Loader} {file lo : Nat} {r : ObjectRef}

section Steps

variable {e : Env} {B : Set Nat} {u : Nat} {k : ObjectKind}

/-! ## Construction -/

theorem Constructed.edits {o : Object} (new : Constructed e file op s s' o) :
    Edits B (fun i i' => i' = i.constructed o.kind op.elf) file s s' := by
  obtain ⟨next, rfl⟩ := new.rest
  refine ⟨Nat.le_succ _, rfl, rfl, rfl, fun _ _ _ _ _ => rfl, fun i _ _ => ?_⟩
  refine ⟨ObjectIdentity.constructed o.kind op.elf, [], [], fun i => ?_, rfl, ?_, Added.nil _ _, ?_, rfl⟩
  · cases o.kind <;> rfl
  · exact (List.append_nil _).symm
  · exact (List.append_nil _).symm

theorem edited_constructObject (file : Nat) (op : Opened) :
    Keeps (Edits B (ObjectIdentity.Edited u k) file) (constructObject e file op) := by
  intro s constructed s' run
  rcases constructObject_inv run with ⟨-, rfl, -⟩ | ⟨o, -, new⟩
  · exact refl_of (Edits B (ObjectIdentity.Edited u k) file) _
  · refine new.edits.mono fun i i' same => ?_
    rw [same]
    cases o.kind <;>
      exact ⟨rfl, rfl, rfl, rfl, rfl, rfl, fun on => on, versions_edited_refl i.versions⟩

/-! ## Checks against the current version -/

theorem silent_checkDebugHash (i : ObjectIdentity) (o current : Object) :
    Keeps (Edits B (ObjectIdentity.Silent u k) i.id) (checkDebugHash e i o current) := by
  refine keeps_ite (fun _ => keeps_pure true) fun _ => ?_
  cases o.queryDebugHash e i with
  | none => exact keeps_pure true
  | some hash =>
    refine keeps_bind (silent_modifyObject fun c _ => ?_) fun _ => edits_of_quiet (by grind)
    exact ⟨rfl, rfl, rfl, rfl, fun _ => rfl, fun _ => rfl⟩

theorem silent_checkUpdate (file : Nat) (o : Object) :
    Keeps (Edits B (ObjectIdentity.Silent u k) file) (checkUpdate e file o) := by
  refine keeps_bind keeps_get fun s => ?_
  refine keeps_bind_of (edits_of_quiet (frame_getIdentity file)) fun i s1 s2 got => ?_
  have isFile : i.id = file := Loader.id_of_identity (getIdentity_inv got).1
  cases i.current with
  | none => exact keeps_pure true
  | some current =>
    refine keeps_bind (keeps_require _) fun _ => keeps_bind (keeps_orAbort _) fun patchable => ?_
    refine keeps_ite (fun _ => ?_) fun _ => keeps_pure false
    rw [← isFile]
    exact silent_checkDebugHash i o current

/-! ## Preloading -/

theorem edited_addTlsModule (file size align image imageSize : Nat) :
    Keeps (Edits B (ObjectIdentity.Edited u k) file)
      (addTlsModule file size align image imageSize) := by
  refine keeps_bind (keeps_require _) fun _ => keeps_bind keeps_get fun s => ?_
  refine keeps_bind (edits_modifyIdentity (fun _ => rfl) fun i => ?_) fun _ => edits_of_grows ?_
  · exact ⟨rfl, rfl, rfl, rfl, rfl, rfl, fun on => on, versions_edited_refl i.versions⟩
  · exact keeps_modify fun s => ⟨le_rfl, rfl, rfl, rfl, fun _ => rfl, fun _ => ⟨[], [], by simp,
      Added.nil _ _, by simp, rfl⟩⟩

theorem edited_preloadSegment (r : ObjectRef) (premapped : Bool) (base : Nat)
    (relro : Option Segment) (segment : Segment) :
    Keeps (Edits B (ObjectIdentity.Edited u k) r.file)
      (preloadSegment r premapped base relro segment) := by
  unfold preloadSegment
  cases segment.type with
  | load => exact edits_of_quiet (by grind)
  | tls =>
    refine keeps_bind (edits_of_quiet (frame_getIdentity _)) fun i => ?_
    exact keeps_ite (fun _ => edited_addTlsModule r.file _ _ _ _) fun _ => keeps_pure ()
  | dynamic => exact keeps_pure ()
  | gnuEhFrame => exact keeps_pure ()
  | gnuRelro => exact keeps_pure ()
  | other value => exact keeps_pure ()

theorem edited_preloadSegments (r : ObjectRef) (setupRelro : Bool) :
    Keeps (Edits B (ObjectIdentity.Edited u k) r.file) (preloadSegments r setupRelro) := by
  refine keeps_bind (edits_of_quiet (frame_getIdentity _)) fun i => ?_
  refine keeps_bind (edits_of_quiet (frame_getObject _)) fun o => ?_
  refine keeps_bind (keeps_forEach _ fun seg _ => edited_preloadSegment r _ _ _ seg) fun _ => ?_
  refine edits_of_quiet ?_
  grind

theorem edited_preloadDyn (r : ObjectRef) (dyn : Dyn) :
    Keeps (Edits B (ObjectIdentity.Edited u k) r.file) (preloadDyn e r dyn) := by
  have object : ∀ g : Object → Object, (∀ o : Object, o.Edited u k (g o)) →
      Keeps (Edits B (ObjectIdentity.Edited u k) r.file) (modify (Loader.modifyObject r g)) :=
    fun g step => edited_of_silent (silent_modifyObject fun o _ => step o)
  have paths : ∀ text i, Keeps (Edits B (ObjectIdentity.Edited u k) r.file) (addpath e i text) := by
    intro text i
    unfold addpath
    exact edits_of_quiet (by grind)
  cases dyn with
  | soname name => exact object _ fun _ => ⟨rfl, rfl, rfl, rfl, fun _ => rfl, fun _ => rfl⟩
  | rpath text =>
    refine keeps_bind (edits_of_quiet (frame_getIdentity _)) fun i => ?_
    refine keeps_bind (paths text i) fun entries => ?_
    exact object _ fun _ => ⟨rfl, rfl, rfl, rfl, fun _ => rfl, fun _ => rfl⟩
  | runpath text =>
    refine keeps_bind (edits_of_quiet (frame_getIdentity _)) fun i => ?_
    refine keeps_bind (paths text i) fun entries => ?_
    exact object _ fun _ => ⟨rfl, rfl, rfl, rfl, fun _ => rfl, fun _ => rfl⟩
  | flags value =>
    refine edits_modifyIdentity (fun _ => rfl) fun i => ?_
    exact ⟨rfl, rfl, rfl, rfl, rfl, rfl, fun on => on, versions_edited_refl i.versions⟩
  | flags1 value =>
    refine edits_modifyIdentity (fun _ => rfl) fun i => ?_
    exact ⟨rfl, rfl, rfl, rfl, rfl, rfl, fun on => by simp [on], versions_edited_refl i.versions⟩
  | needed library => exact keeps_pure ()
  | pltgot address => exact keeps_pure ()
  | other tag value => exact keeps_pure ()

section Library

variable {library : LibraryCall} (grows : library.Keeps Grows)

include grows

theorem silent_preloadLibrary (isNew : r.uid = u) {flags : Flags} (idle : flags.initialized = false)
    (lib : String) :
    Keeps (Edits B (ObjectIdentity.Silent u k) r.file) (preloadLibrary e library r flags lib) := by
  refine keeps_ite (fun _ => keeps_pure true) fun _ => ?_
  refine keeps_bind (edits_of_quiet (frame_getIdentity _)) fun i => ?_
  refine keeps_bind (edits_of_quiet (frame_getObject _)) fun o => ?_
  refine keeps_bind (edits_of_grows (grows lib flags _ _ _ idle)) fun dep => ?_
  cases dep with
  | none => exact keeps_pure false
  | some dep =>
    refine keeps_bind (silent_modifyObject fun o isRef => ?_) fun _ => keeps_pure true
    exact ⟨rfl, rfl, rfl, rfl, fun _ => rfl, fun other => absurd (isRef.trans isNew) other⟩

theorem edited_preloadLibraries (isNew : r.uid = u) :
    Keeps (Edits B (ObjectIdentity.Edited u k) r.file) (preloadLibraries e library r) := by
  refine keeps_bind (edits_of_quiet (frame_getObject _)) fun o => ?_
  refine keeps_bind (keeps_forEach _ fun dyn _ => edited_preloadDyn r dyn) fun _ => ?_
  refine keeps_bind (edits_of_quiet (frame_getIdentity _)) fun i => ?_
  exact edited_of_silent (keeps_eachOf _ fun lib _ => silent_preloadLibrary grows isNew rfl lib)

omit grows in
theorem edited_preloadRelocatable (isNew : r.uid = u) :
    Keeps (Edits B (ObjectIdentity.Edited u .relocatable) r.file) (preloadRelocatable e r) := by
  refine keeps_bind keeps_get fun s => ?_
  refine keeps_bind (edits_of_quiet (frame_getObject _)) fun o => ?_
  refine keeps_bind (edits_of_quiet (frame_getIdentity _)) fun i => ?_
  refine keeps_bind (keeps_orAbort _) fun missing => ?_
  refine keeps_ite (fun _ => keeps_pure false) fun _ => ?_
  refine keeps_bind (keeps_orAbort _) fun l => ?_
  refine keeps_bind (edited_of_silent (silent_modifyObject fun o isRef => ?_)) fun _ => ?_
  · have isNew' : o.uid = u := isRef.trans isNew
    refine ⟨rfl, rfl, rfl, rfl, fun other => ?_, fun other => absurd isNew' other⟩
    exact absurd other (by simp [isNew'])
  · refine keeps_bind (edits_of_quiet (by grind)) fun _ => ?_
    refine keeps_bind (keeps_onlyIf fun _ => edited_addTlsModule r.file _ _ _ _) fun _ => ?_
    exact keeps_pure _

theorem edited_preload (isNew : r.uid = u) :
    Keeps (Edits B (ObjectIdentity.Edited u k) r.file) (preload e library r k) := by
  cases k with
  | executable => exact edited_preloadSegments r false
  | dynamic =>
    refine keeps_bind (edited_preloadSegments r true) fun ok => ?_
    exact keeps_ite (fun _ => edited_preloadLibraries grows isNew) fun _ => keeps_pure false
  | relocatable => exact edited_preloadRelocatable isNew

theorem edited_preloadAndMap (o : Object) :
    Keeps (Edits B (ObjectIdentity.Edited o.uid o.kind) o.file) (preloadAndMap e library o) := by
  refine keeps_bind (edited_preload grows rfl) fun ok => ?_
  refine keeps_ite (fun _ => ?_) fun _ => keeps_pure _
  refine keeps_bind (edits_of_quiet (frame_getIdentity _)) fun i => ?_
  refine keeps_bind (edits_of_quiet (frame_getObject _)) fun o => edits_of_quiet ?_
  grind

end Library

/-! ## The end of `create` -/

theorem silent_setStatus (r : ObjectRef) (status : ObjectStatus) :
    Keeps (Edits B (ObjectIdentity.Silent u k) r.file) (setStatus r status) :=
  silent_modifyObject fun _ _ => ⟨rfl, rfl, rfl, rfl, fun _ => rfl, fun _ => rfl⟩

theorem silent_preprepareObject (o : Object) :
    Keeps (Edits B (ObjectIdentity.Silent o.uid o.kind) o.file) (preprepareObject e o) := by
  unfold preprepareObject
  cases kind : o.kind with
  | executable => exact keeps_pure ()
  | dynamic => exact keeps_pure ()
  | relocatable =>
    refine keeps_bind (edits_of_quiet (frame_getObject _)) fun o' => ?_
    refine keeps_ite (fun _ => keeps_pure ()) fun _ => ?_
    refine keeps_bind (edits_of_quiet (keeps_foldlM _ (frame_prepareCommon o') _)) fun c => ?_
    refine keeps_bind (silent_modifyObject fun o'' isRef => ?_) fun _ => edits_of_quiet (by grind)
    have isNew : o''.uid = o.uid := isRef
    exact ⟨rfl, rfl, rfl, rfl, fun other => absurd other (by simp [isNew]), fun _ => rfl⟩

theorem edited_prepareUpdate (o : Object) (type : ElfType) (bound : o.uid ∈ B) :
    Keeps (Edits B (ObjectIdentity.Edited o.uid o.kind) o.file) (prepareUpdate e o type) := by
  refine keeps_bind keeps_get fun s => keeps_bind (keeps_require _) fun _ => ?_
  refine keeps_bind (keeps_onlyIf fun _ => ?_) fun _ => edited_of_silent (silent_setStatus o.ref _)
  refine keeps_bind (edits_modifyIdentity (fun _ => rfl) fun i => ?_) fun _ => ?_
  · exact ⟨rfl, rfl, rfl, rfl, rfl, rfl, fun on => on, versions_edited_refl i.versions⟩
  refine keeps_bind (edited_of_silent (silent_preprepareObject o)) fun _ => ?_
  exact keeps_bind (edits_of_relocates bound (relocates_prepareObject o)) fun _ => keeps_pure _

/-! ## Watch and hooks -/

section Watch

variable {R : Loader → Loader → Prop} [IsPreorder Loader R] {file : Nat}
  (quietly : ∀ s s', Quiet s s' → R s s')
  (writes : ∀ wd, Keeps R (modify (Loader.modifyIdentity file fun i => { i with wd := wd })))

include quietly writes

theorem keeps_watch (force closeExisting : Bool) : Keeps R (watch e file force closeExisting) := by
  refine keeps_bind ((frame_getIdentity file).mono quietly) fun i => ?_
  refine keeps_ite (fun _ => ?_) fun _ => keeps_pure _
  refine keeps_bind (Keeps.mono (by grind) quietly) fun _ => ?_
  refine keeps_bind ((frame_addWatch i.path).mono quietly) fun wd => ?_
  exact keeps_bind (writes wd) fun _ => keeps_pure _

theorem keeps_afterCreate (data : Data) (object : Option ObjectRef) :
    Keeps R (afterCreate e file data object) := by
  refine keeps_bind ((frame_getIdentity file).mono quietly) fun i => ?_
  refine keeps_ite (fun _ => Keeps.mono (by grind) quietly) fun _ => ?_
  exact keeps_bind (keeps_watch quietly writes _ _) fun _ => keeps_pure _

end Watch

theorem silent_hookRefresh (file : Nat) :
    Keeps (Edits B (ObjectIdentity.Silent u k) file) (hookRefresh e file) := by
  refine edits_modifyIdentity (fun i => ?_) fun i => ?_
  · split <;> rfl
  · split
    · exact ⟨⟨rfl, rfl, rfl, rfl, rfl, rfl, fun on => on, versions_edited_refl i.versions⟩, rfl⟩
    · exact refl_of (ObjectIdentity.Silent u k) i

theorem silent_afterCreate (file : Nat) (data : Data) (object : Option ObjectRef) :
    Keeps (Edits B (ObjectIdentity.Silent u k) file) (afterCreate e file data object) := by
  refine keeps_afterCreate (fun _ _ quiet => quiet.grows.edits) (fun wd => ?_) data object
  refine edits_modifyIdentity (fun _ => rfl) fun i => ?_
  exact ⟨⟨rfl, rfl, rfl, rfl, rfl, rfl, fun on => on, versions_edited_refl i.versions⟩, rfl⟩

theorem silent_initialHook (file : Nat) :
    Keeps (Edits B (ObjectIdentity.Silent u k) file) (initialHook e file) := by
  refine keeps_bind (edits_of_quiet (frame_getIdentity _)) fun i => ?_
  exact keeps_onlyIf fun _ => silent_hookRefresh file

end Steps

/-! ## New objects -/

/-- The log has not changed. -/
def Unlogged (s s' : Loader) : Prop := s'.events = s.events

instance : IsPreorder Loader Unlogged where
  refl _ := rfl
  trans _ _ _ first second := second.trans first

/-! ## A whole load -/

/-- The identity before and after a rejected version `u`. -/
def ObjectIdentity.Rejected (u : Nat) (k : ObjectKind) (i i' : ObjectIdentity) : Prop :=
  u ∉ i.versions.map Object.uid → i.Edited u k i'

/-- The identity before and after an accepted version, which was `o` when it was installed. -/
def ObjectIdentity.Accepted (o : Object) (i i' : ObjectIdentity) : Prop :=
  (i.addVersion o).Edited o.uid o.kind i'

section Outcome

variable {u : Nat} {k : ObjectKind} {i i₁ i₂ : ObjectIdentity} {o : Object}

theorem ObjectIdentity.Rejected.after (second : i₁.Rejected u k i₂) (first : i.Edited u k i₁) :
    i.Rejected u k i₂ := by
  intro apart
  refine trans_of (ObjectIdentity.Edited u k) first (second ?_)
  rwa [uids_edited first.versions]

theorem ObjectIdentity.Accepted.after (second : i₁.Accepted o i₂)
    (first : i.Edited o.uid o.kind i₁) : i.Accepted o i₂ := by
  refine trans_of (ObjectIdentity.Edited o.uid o.kind) ?_ second
  exact ⟨first.id, first.ns, first.initialized, first.updatable, first.premapped,
    first.skipIdentical, first.bindGlobal,
    List.Forall₂.cons (Object.Edited.refl _ _ o) first.versions⟩

theorem filter_uid_of_not_mem {l : List Object} (absent : u ∉ l.map Object.uid) :
    (l.filter fun v => v.uid ≠ u) = l := by
  refine List.filter_eq_self.mpr fun v member => ?_
  have different : v.uid ≠ u := fun same => absent (same ▸ List.mem_map_of_mem member)
  simpa using different

theorem removeVersion_of_not_mem (absent : u ∉ i.versions.map Object.uid) :
    i.removeVersion u = i := by
  unfold ObjectIdentity.removeVersion
  rw [filter_uid_of_not_mem absent]

/-- The lookup list after the installation of a version. Its address was taken before
anything was opened. -/
theorem accepted_lookup {s mid s' : Loader} (found : s.identity file = some i) (old : s.Old)
    (first : Edits B (ObjectIdentity.Edited o.uid o.kind) file s mid)
    (events : mid.events = s.events) (second : Edits B (ObjectIdentity.Accepted o) file mid s') :
    ∃ (f : ObjectIdentity → ObjectIdentity) (new : List ObjectIdentity) (opened : List Nat),
      (∀ a, (f a).id = a.id) ∧ i.Accepted o (f i) ∧
      s'.lookup = update ObjectIdentity.id file f s.lookup ++ new ∧
      Added mid.fresh s'.fresh new ∧ s'.events = s.events ++ opened.map Event.opened ∧
      new.length = opened.length := by
  obtain ⟨f, keep1, edited, lookup1⟩ := first.unopened events found old
  have lookup : mid.lookup = update ObjectIdentity.id file f s.lookup ++ [] := by
    rw [lookup1, List.append_nil]
  obtain ⟨g, new, opened, keep2, accepted, lookup2, added, events2, length⟩ :=
    second.edited (f i) (identity_edited found keep1 lookup)
      (old.grown keep1 lookup (Added.nil _ _) first.fresh)
  refine ⟨fun a => g (f a), new, opened, fun a => (keep2 _).trans (keep1 a),
    accepted.after edited, ?_, added, events ▸ events2, length⟩
  rw [lookup2, lookup1, update_update keep1]

theorem ObjectIdentity.Accepted.removed (installed : i.Accepted o i₁) :
    i.Rejected o.uid o.kind (i₁.removeVersion o.uid) := by
  intro apart
  refine ⟨installed.id, installed.ns, installed.initialized, installed.updatable,
    installed.premapped, installed.skipIdentical, installed.bindGlobal, ?_⟩
  obtain ⟨o', rest, same, others, shape⟩ := List.forall₂_cons_left_iff.mp installed.versions
  rw [← uids_edited others] at apart
  have removed : (i₁.removeVersion o.uid).versions = rest := by
    rw [removeVersion, shape, List.filter_cons_of_neg (by simp [same.uid])]
    exact filter_uid_of_not_mem apart
  rw [removed]
  exact others

end Outcome

/-- `create` binds symbols for a version only if the identity is initialized: `B` holds the
addresses from `lo` on unless it is not. -/
def Loader.Binds (s : Loader) (B : Set Nat) (lo file : Nat) : Prop :=
  (∀ u, lo ≤ u → u ∈ B) ∨
    s.Old ∧ ∃ i, s.identity file = some i ∧ i.flags.initialized = false

theorem Loader.binds_univ : s.Binds Set.univ lo file :=
  .inl fun u _ => Set.mem_univ u

theorem Loader.Binds.next {E : ObjectIdentity → ObjectIdentity → Prop} {lo lo' file : Nat}
    (binds : s.Binds B lo file) (later : lo ≤ lo') (edits : Edits B E file s s')
    (keep : ∀ i i', E i i' → i'.flags.initialized = i.flags.initialized) :
    s'.Binds B lo' file := by
  rcases binds with all | ⟨old, i, found, idle⟩
  · exact .inl fun u new => all u (later.trans new)
  · obtain ⟨old', i', found', edited⟩ := edits.next found old
    exact .inr ⟨old', i', found', (keep i i' edited).trans idle⟩

section Effect

variable {e : Env} {library : LibraryCall} (grows : library.Keeps Grows)
  {B : Set Nat} {s s' : Loader} {o : Object} {type : ElfType} {file : Nat}
  {result : Option ObjectRef} {info : Info}

theorem edits_install (o : Object) :
    Keeps (Edits B (fun i i' => i' = i.addVersion o) o.file) (install o) :=
  edits_modifyIdentity (fun _ => rfl) fun _ => rfl

theorem edits_destroy (o : Object)
    (run : o.destroy e s = some ((), s')) :
    Edits B (fun i i' => i' = i.removeVersion o.uid) o.file s s' := by
  obtain ⟨_, s1, removed, released⟩ := bind_inv run
  have first : Keeps (Edits B (fun i i' => i' = i.removeVersion o.uid) o.file)
      (modify (Loader.modifyIdentity o.file (ObjectIdentity.removeVersion o.uid))) :=
    edits_modifyIdentity (fun _ => rfl) fun _ => rfl
  have second : Edits B Eq o.file s1 s' := (quiet_release o _ _ _ released).grows.edits
  exact (first _ _ _ removed).comp second fun _ _ _ one two => two ▸ one

/-- The end of `create` for a mapped version; symbols are bound if the identity is initialized. -/
theorem finishCreate_edits (binds : s.Binds B o.uid o.file)
    (run : finishCreate e o type s = some (info, s')) :
    Edits B (ObjectIdentity.Edited o.uid o.kind) o.file s s' := by
  obtain ⟨i, found, run⟩ := getIdentity_bind_inv run
  obtain ⟨_, s1, prepared, run⟩ := bind_inv run
  have first : Edits B (ObjectIdentity.Edited o.uid o.kind) o.file s s1 := by
    refine keeps_onlyIf (fun initialized => edited_prepareUpdate o type ?_) _ _ _ prepared
    rcases binds with all | ⟨-, j, found', idle⟩
    · exact all o.uid le_rfl
    · rw [Option.some.inj (found.symm.trans found'), idle] at initialized
      exact absurd initialized Bool.false_ne_true
  refine trans_of (Edits B (ObjectIdentity.Edited o.uid o.kind) o.file) first ?_
  have rest : Keeps (Edits B (ObjectIdentity.Edited o.uid o.kind) o.file) (do
      modify (Loader.modifyIdentity o.file fun i =>
        { i with base := o.base, dynamic := o.dynamicAddress })
      let s ← get
      return if (s.filePrevious o.ref).isNone then Info.successLoad else .successUpdate) := by
    refine keeps_bind (edits_modifyIdentity (fun _ => rfl) fun i => ?_) fun _ => ?_
    · exact ⟨rfl, rfl, rfl, rfl, rfl, rfl, fun on => on, versions_edited_refl i.versions⟩
    · exact keeps_bind keeps_get fun _ => keeps_pure _
  exact rest _ _ _ run

include grows

/-- What `create` does from the installation of a version on. -/
theorem employ_edits (binds : s.Binds B o.uid o.file)
    (run : employ e library o type s = some ((result, info), s')) :
    match result with
    | none => Edits B (ObjectIdentity.Rejected o.uid o.kind) o.file s s'
    | some r => r = o.ref ∧ Edits B (ObjectIdentity.Accepted o) o.file s s' := by
  obtain ⟨_, s1, installed, run⟩ := bind_inv run
  obtain ⟨failure, s2, preloaded, run⟩ := bind_inv run
  have accepted : Edits B (ObjectIdentity.Accepted o) o.file s s2 := by
    refine (edits_install o _ _ _ installed).comp (edited_preloadAndMap grows o _ _ _ preloaded) ?_
    rintro i _ j rfl edited
    exact edited
  cases failure with
  | some failure =>
    obtain ⟨_, s3, destroyed, run⟩ := bind_inv run
    cases run
    refine accepted.comp (edits_destroy o destroyed) ?_
    rintro i j _ installed rfl
    exact installed.removed
  | none =>
    obtain ⟨info', s3, finished, run⟩ := bind_inv run
    cases run
    have last := finishCreate_edits (binds.next le_rfl accepted fun _ _ edited =>
      edited.initialized) finished
    refine ⟨rfl, accepted.comp last ?_⟩
    exact fun i j k first second => trans_of (ObjectIdentity.Edited o.uid o.kind) first second

/-- `create` for a constructed object, which remembers hashes if it is updatable. -/
theorem createObject_edits (isFile : o.file = file) (binds : s.Binds B o.uid file)
    (run : createObject e library file o type s = some ((result, info), s')) :
    match result with
    | none => Edits B (ObjectIdentity.Rejected o.uid o.kind) file s s'
    | some r => r = o.ref ∧ ∃ binaryHash debugHash,
        Edits B (ObjectIdentity.Accepted
          { o with binaryHash := binaryHash, debugHash := debugHash }) file s s' := by
  subst isFile
  obtain ⟨i, found, run⟩ := getIdentity_bind_inv run
  split at run
  · obtain ⟨compatible, s1, checked, run⟩ := bind_inv run
    have first : Edits B (ObjectIdentity.Edited o.uid o.kind) o.file s s1 :=
      edited_of_silent (silent_checkUpdate o.file _) _ _ _ checked
    cases compatible with
    | false =>
      obtain ⟨_, s2, destroyed, run⟩ := bind_inv run
      cases run
      refine first.comp (edits_destroy _ destroyed) ?_
      rintro i j _ edited rfl
      refine ObjectIdentity.Rejected.after (fun apart => ?_) edited
      rw [removeVersion_of_not_mem apart]
      exact refl_of (ObjectIdentity.Edited o.uid o.kind) j
    | true =>
      have employed := employ_edits grows (o := { o with
          binaryHash := true
          debugHash := if !e.config.forceUpdate && i.current.isSome then o.queryDebugHash e i
            else none })
        (binds.next le_rfl first fun _ _ edited => edited.initialized) run
      cases result with
      | none => exact first.comp employed fun _ _ _ one two => two.after one
      | some r =>
        exact ⟨employed.1, _, _, first.comp employed.2 fun _ _ _ one two => two.after one⟩
  · have employed := employ_edits grows binds run
    cases result with
    | none => exact employed
    | some r => exact ⟨employed.1, o.binaryHash, o.debugHash, employed.2⟩

/-- What `create` does to the identity, given what `open` hands over. -/
theorem create_edits (binds : s.Binds B s.fresh file)
    (run : create e library file op s = some ((result, info), s')) :
    match result with
    | none => ∃ u k, s.fresh ≤ u ∧ Edits B (ObjectIdentity.Rejected u k) file s s'
    | some r => ∃ (o : Object) (mid : Loader), o.file = file ∧ o.elf = op.elf ∧
        o.dependencies = [] ∧ s.fresh ≤ o.uid ∧ o.uid < mid.fresh ∧ r = o.ref ∧
        mid.events = s.events ∧ Edits B (ObjectIdentity.Edited o.uid o.kind) file s mid ∧
        Edits B (ObjectIdentity.Accepted o) file mid s' := by
  obtain ⟨i, found, run⟩ := getIdentity_bind_inv run
  extract_lets hashed hash at run
  clear_value hash
  split at run
  · cases run
    exact ⟨s.fresh, .dynamic, le_rfl, (refl_of (Edits B (ObjectIdentity.Edited s.fresh
      .dynamic) file) s).mono fun _ _ edited _ => edited⟩
  · obtain ⟨constructed, s1, construct, run⟩ := bind_inv run
    cases constructed with
    | none =>
      cases run
      exact ⟨s.fresh, .dynamic, le_rfl,
        (edited_constructObject file _ _ _ _ construct).mono fun _ _ edited _ => edited⟩
    | some o =>
      have first : Edits B (ObjectIdentity.Edited o.uid o.kind) file s s1 :=
        edited_constructObject file _ _ _ _ construct
      have isNew := constructObject_new construct
      have created := createObject_edits grows isNew.file
        (binds.next isNew.uid.ge first fun _ _ edited => edited.initialized) run
      cases result with
      | none => exact ⟨o.uid, o.kind, isNew.uid.ge, first.comp created fun _ _ _ one two =>
          two.after one⟩
      | some r =>
        obtain ⟨isRef, binaryHash, debugHash, edits⟩ := created
        exact ⟨{ o with binaryHash := binaryHash, debugHash := debugHash }, s1, isNew.file,
          isNew.elf, isNew.dependencies, isNew.uid.ge, isNew.uid ▸ isNew.fresh, isRef,
          isNew.events, first, edits⟩

/-- What `load` does to the identity. Versions get addresses that were not in use, and symbols
are bound only for a version of an initialized identity. -/
theorem load_edits {memory : Option MemoryImage} (binds : s.Binds B s.fresh file)
    (run : load e library file memory type s = some (result, s')) :
    match result with
    | none => ∃ u k, s.fresh ≤ u ∧ Edits B (ObjectIdentity.Rejected u k) file s s'
    | some r => ∃ (o : Object) (mid : Loader), o.file = file ∧ o.dependencies = [] ∧
        s.fresh ≤ o.uid ∧ o.uid < mid.fresh ∧ r = o.ref ∧ mid.events = s.events ∧
        Edits B (ObjectIdentity.Edited o.uid o.kind) file s mid ∧
        Edits B (ObjectIdentity.Accepted o) file mid s' := by
  obtain ⟨opened, s1, opening, run⟩ := bind_inv run
  have quiet : Quiet s s1 := frame_openObject _ _ _ _ _ _ opening
  have start : ∀ E, [IsPreorder ObjectIdentity E] → Edits B E file s s1 :=
    fun E _ => quiet.grows.edits
  cases opened with
  | error failure =>
    obtain ⟨_, s2, hook, run⟩ := bind_inv run
    cases run
    have last : Edits B (ObjectIdentity.Edited s.fresh .dynamic) file s1 s' :=
      edited_of_silent (silent_initialHook file) _ _ _ hook
    refine ⟨s.fresh, .dynamic, le_rfl, ?_⟩
    refine (start (ObjectIdentity.Edited s.fresh .dynamic)).comp last ?_
    exact fun _ _ _ one two _ => trans_of (ObjectIdentity.Edited s.fresh .dynamic) one two
  | ok op =>
    obtain ⟨⟨object, info⟩, s2, created, run⟩ := bind_inv run
    obtain ⟨_, s3, after, run⟩ := bind_inv run
    obtain ⟨_, s4, hook, run⟩ := bind_inv run
    cases run
    have creation := create_edits grows (binds.next quiet.fresh (start Eq) fun _ _ same =>
      same ▸ rfl) created
    have last : ∀ u k, Edits B (ObjectIdentity.Edited u k) file s2 s' := fun u k =>
      trans_of (Edits B (ObjectIdentity.Edited u k) file)
        (edited_of_silent (silent_afterCreate file _ _) _ _ _ after)
        (edited_of_silent (silent_initialHook file) _ _ _ hook)
    cases result with
    | none =>
      obtain ⟨u, k, new, edits⟩ := creation
      refine ⟨u, k, quiet.fresh.trans new, ?_⟩
      refine ((start Eq).comp edits fun _ _ _ same edit => same ▸ edit).comp (last u k) ?_
      exact fun _ _ _ one two apart => trans_of (ObjectIdentity.Edited u k) (one apart) two
    | some r =>
      obtain ⟨o, mid, isFile, -, dependencies, new, used, isRef, events, first, second⟩ := creation
      refine ⟨o, mid, isFile, dependencies, quiet.fresh.trans new, used, isRef,
        events.trans quiet.events, ?_, second.comp (last o.uid o.kind) ?_⟩
      · exact trans_of (Edits B (ObjectIdentity.Edited o.uid o.kind) file) (start _) first
      · exact fun _ _ _ one two => trans_of (ObjectIdentity.Edited o.uid o.kind) one two

end Effect

end Luci
