import Luci.Proofs.Load
import Luci.Proofs.Mapping

/-!
# What a load leaves alone

`create` keeps every relation that allows for writes to memory maps and bound symbols. An
instance is `Attends`: no identity changes its file, its watch or its hook. These are changed
at the end of `load` only, and only for the identity that is loaded.
-/

namespace Luci

open Exec KeyedList

variable {e : Env} {file : Nat} {o : Object} {s s' : Loader} {i : ObjectIdentity}

/-! ## Creation -/

section Frames

variable {R : Loader → Loader → Prop} [FramedEdits R] {e : Env} {library : LibraryCall}
  (writes : ∀ uid, WritesMap R uid) (binds : ∀ uid, BindsSymbols R uid) (calls : library.Keeps R)

omit [FramedEdits R] in
include writes in
theorem frame_writeMap (uid : Nat) (segments : Loader → List MemorySegment) :
    Keeps R (modify fun s : Loader => s.setMemoryMap uid (segments s)) :=
  keeps_modify fun s => writes uid s _

include writes in
theorem frame_preloadSegments (r : ObjectRef) (setupRelro : Bool) :
    Keeps R (preloadSegments r setupRelro) := by
  unfold preloadSegments
  refine keeps_bind (frame_getIdentity _) fun i => keeps_bind (frame_getObject _) fun o => ?_
  refine keeps_bind (keeps_forEach _ fun segment _ => ?_) fun _ => keeps_bind keeps_get fun s => ?_
  · unfold preloadSegment
    cases segment.type with
    | load => exact keeps_bind (keeps_orAbort _) fun _ => frame_writeMap writes _ _
    | tls =>
      refine keeps_bind (frame_getIdentity _) fun i => keeps_ite (fun _ => ?_) fun _ => keeps_pure ()
      exact FramedEdits.registers _ _ _ _ _
    | dynamic => exact keeps_pure ()
    | gnuEhFrame => exact keeps_pure ()
    | gnuRelro => exact keeps_pure ()
    | other value => exact keeps_pure ()
  · dsimp only
    cases s.filePrevious r with
    | none => exact keeps_pure _
    | some previous =>
      refine keeps_ite (fun _ => keeps_pure false) fun _ => ?_
      exact keeps_bind (frame_writeMap writes _ _) fun _ => keeps_pure _

include writes in
theorem frame_preloadRelocatable (r : ObjectRef) : Keeps R (preloadRelocatable e r) := by
  unfold preloadRelocatable
  refine keeps_bind keeps_get fun s => keeps_bind (frame_getObject _) fun o => ?_
  refine keeps_bind (frame_getIdentity _) fun i => keeps_bind (keeps_orAbort _) fun missing => ?_
  refine keeps_ite (fun _ => keeps_pure false) fun _ => keeps_bind (keeps_orAbort _) fun l => ?_
  refine keeps_bind (frame_modifyObject _) fun _ => keeps_bind (frame_writeMap writes _ _) fun _ => ?_
  refine keeps_bind (keeps_onlyIf fun _ => ?_) fun _ => keeps_pure _
  exact FramedEdits.registers _ _ _ _ _

include writes in
theorem frame_preprepareObject (o : Object) : Keeps R (preprepareObject e o) := by
  unfold preprepareObject
  cases o.kind with
  | executable => exact keeps_pure ()
  | dynamic => exact keeps_pure ()
  | relocatable =>
    refine keeps_bind (frame_getObject _) fun o' => ?_
    refine keeps_ite (fun _ => keeps_pure ()) fun _ => ?_
    refine keeps_bind (keeps_foldlM _ (frame_prepareCommon o') _) fun c => ?_
    refine keeps_bind (frame_modifyObject _) fun _ => keeps_ite (fun _ => ?_) fun _ => keeps_pure ()
    refine keeps_bind (frame_getObject _) fun o' => keeps_bind (frame_map o' _) fun _ => ?_
    exact frame_writeMap writes _ _

include writes calls in
theorem frame_preloadAndMap (o : Object) : Keeps R (preloadAndMap e library o) := by
  unfold preloadAndMap
  refine keeps_bind ?_ fun ok => keeps_ite (fun _ => ?_) fun _ => keeps_pure _
  · unfold preload
    cases o.kind with
    | executable => exact frame_preloadSegments writes _ _
    | relocatable => exact frame_preloadRelocatable writes _
    | dynamic =>
      refine keeps_bind (frame_preloadSegments writes _ _) fun ok => keeps_ite (fun _ => ?_) fun _ =>
        keeps_pure false
      exact frame_preloadLibraries _ calls
  · refine keeps_bind (frame_getIdentity _) fun i => keeps_bind (frame_getObject _) fun o => ?_
    refine keeps_ite (fun _ => keeps_pure none) fun _ => ?_
    refine keeps_bind (frame_mapObject o (writes o.uid)) fun ok => ?_
    exact keeps_ite (fun _ => keeps_pure none) fun _ => keeps_pure _

theorem frame_destroy (releases : Keeps R (o.release e)) : Keeps R (o.destroy e) := by
  refine keeps_bind (frame_editIdentity _ fun i => ?_) fun _ => releases
  exact ⟨⟨rfl, rfl, rfl, rfl, rfl, rfl⟩, rfl, rfl⟩

include writes binds calls

theorem frame_employ (installs : Keeps R (install o)) (releases : Keeps R (o.release e))
    (type : ElfType) : Keeps R (employ e library o type) := by
  refine keeps_bind installs fun _ => ?_
  refine keeps_bind (frame_preloadAndMap writes calls o) fun failure => ?_
  cases failure with
  | some info => exact keeps_bind (frame_destroy releases) fun _ => keeps_pure _
  | none =>
    refine keeps_bind (frame_finishCreate type (frame_preprepareObject writes o) ?_) fun _ =>
      keeps_pure _
    refine frame_prepareObject (fun reloc fix => ?_) (binds o.uid)
    exact frame_relocate (writes o.uid).keepsCompose (binds o.uid) o.ref rfl reloc fix

/-- What `create` does with an object that has been constructed. -/
theorem frame_createObject (file : Nat) (type : ElfType) (installs : ∀ v, Keeps R (install v))
    (releases : ∀ v : Object, Keeps R (v.release e)) :
    Keeps R (createObject e library file o type) := by
  have employs : ∀ v, Keeps R (employ e library v type) := fun v =>
    frame_employ writes binds calls (installs v) (releases v) type
  refine keeps_bind (frame_getIdentity _) fun i => keeps_ite (fun _ => ?_) fun _ => employs o
  refine keeps_bind (frame_checkUpdate file _) fun ok => keeps_ite (fun _ => employs _) fun _ => ?_
  exact keeps_bind (frame_destroy (releases _)) fun _ => keeps_pure _

end Frames

section Create

variable {R : Loader → Loader → Prop} [FramedCreate R] {e : Env} {library : LibraryCall}

theorem frame_create (writes : ∀ uid, WritesMap R uid) (binds : ∀ uid, BindsSymbols R uid)
    (calls : library.Keeps R) (file : Nat) (op : Opened) (installs : ∀ v, Keeps R (install v))
    (releases : ∀ v : Object, Keeps R (v.release e)) : Keeps R (create e library file op) := by
  refine keeps_bind (frame_getIdentity _) fun i => ?_
  refine keeps_ite (fun _ => keeps_pure _) fun _ => ?_
  refine keeps_bind (frame_constructObject file _) fun constructed => ?_
  cases constructed with
  | none => exact keeps_pure _
  | some o => exact frame_createObject writes binds calls file _ installs releases

end Create

/-! ## Watches and hooks -/

/-- Every identity stays and changes along `E`. -/
def Along (E : ObjectIdentity → ObjectIdentity → Prop) (s s' : Loader) : Prop :=
  s.Old → s'.Old ∧ ∀ file i, s.identity file = some i → ∃ i', s'.identity file = some i' ∧ E i i'

section Along

variable {E E' : ObjectIdentity → ObjectIdentity → Prop} {s s' : Loader}

theorem Along.mono (along : Along E s s') (weaker : ∀ i i', E i i' → E' i i') : Along E' s s' := by
  intro old
  obtain ⟨old', kept⟩ := along old
  refine ⟨old', fun file i found => ?_⟩
  obtain ⟨i', found', step⟩ := kept file i found
  exact ⟨i', found', weaker i i' step⟩

variable [IsPreorder ObjectIdentity E]

instance : IsPreorder Loader (Along E) where
  refl s old := ⟨old, fun file i found => ⟨i, found, refl_of E i⟩⟩
  trans _ _ _ first second old := by
    obtain ⟨old₁, kept₁⟩ := first old
    obtain ⟨old₂, kept₂⟩ := second old₁
    refine ⟨old₂, fun file i found => ?_⟩
    obtain ⟨i₁, found₁, step₁⟩ := kept₁ file i found
    obtain ⟨i₂, found₂, step₂⟩ := kept₂ file i₁ found₁
    exact ⟨i₂, found₂, trans_of E step₁ step₂⟩

theorem Grows.along (grows : Grows s s') : Along E s s' := by
  intro old
  obtain ⟨new, -, lookup, -⟩ := grows.added old
  refine ⟨grows.old old, fun file i found => ⟨i, ?_, refl_of E i⟩⟩
  unfold Loader.identity
  rw [lookup]
  exact lookup_append_of_some new found

theorem along_modifyIdentity (s : Loader) (file : Nat) {f : ObjectIdentity → ObjectIdentity}
    (keep : ∀ i, (f i).id = i.id) (step : ∀ i, s.identity file = some i → E i (f i)) :
    Along E s (s.modifyIdentity file f) := by
  intro old
  have lookup : (s.modifyIdentity file f).lookup =
      update ObjectIdentity.id file f s.lookup ++ [] := by
    simp [Loader.modifyIdentity]
  refine ⟨old.grown keep lookup (Added.nil _ _) le_rfl, fun file' i found => ?_⟩
  by_cases same : file' = file
  · rw [same] at found ⊢
    rw [Loader.identity_modifyIdentity_same keep, found]
    exact ⟨f i, rfl, step i found⟩
  · rw [Loader.identity_modifyIdentity_ne keep same]
    exact ⟨i, found, refl_of E i⟩

theorem along_of_lookup (lookup : s'.lookup = s.lookup) (fresh : s.fresh ≤ s'.fresh) :
    Along E s s' := by
  intro old
  refine ⟨fun i member => ?_, fun file i found => ⟨i, ?_, refl_of E i⟩⟩
  · rw [lookup] at member
    exact (old i member).trans_le fresh
  · rw [Loader.identity_congr lookup, found]

theorem along_of_quiet {α : Type} {x : LoaderM α} (quiet : Keeps Quiet x) : Keeps (Along E) x :=
  quiet.mono fun _ _ step => step.grows.along

end Along

/-- Every identity keeps its file, its watch and its hook. -/
abbrev Attends : Loader → Loader → Prop := Along ObjectIdentity.Tended

instance : Framed Attends where
  unused _ _ _ _ _ more := along_of_lookup rfl more
  vm _ _ _ := along_of_lookup rfl (Nat.le_refl _)
  datarelContent _ _ := along_of_lookup rfl (Nat.le_refl _)

instance : FramedCreate Attends where
  created s file _ keep :=
    along_modifyIdentity s file (fun i => (keep i).id) fun i _ => keep i
  registers file := keeps_addTlsModule file
    (fun s _ _ => along_modifyIdentity s file (fun _ => rfl) fun _ _ =>
      ⟨rfl, rfl, rfl, rfl, rfl, rfl⟩)
    fun _ _ => along_of_lookup rfl (Nat.le_refl _)

/-- The watch of an identity was left alone, or there was none (or it was to be replaced) and
`inotify_add_watch` was called. -/
def Rewatched (e : Env) (force : Bool) (i : ObjectIdentity) (wd : Option Nat) : Prop :=
  if i.flags.updatable && (i.wd.isNone || force) then
    ∃ tick, wd = if e.world.succeeds tick && (e.world.file i.path).isSome then
      some (e.world.watchDescriptor i.path) else none
  else wd = i.wd

theorem addWatch_inv {path : String} {wd : Option Nat} (run : addWatch e path s = some (wd, s')) :
    s'.lookup = s.lookup ∧ ∃ tick, wd = if e.world.succeeds tick && (e.world.file path).isSome then
      some (e.world.watchDescriptor path) else none := by
  obtain ⟨ok, s1, called, run⟩ := bind_inv run
  cases called
  cases run
  exact ⟨rfl, s.ticks, rfl⟩

theorem watch_inv {force closeExisting ok : Bool} (found : s.identity file = some i)
    (run : watch e file force closeExisting s = some (ok, s')) :
    ∃ wd, s'.identity file = some { i with wd := wd } ∧ Rewatched e force i wd := by
  obtain ⟨i', found', run⟩ := getIdentity_bind_inv run
  cases found.symm.trans found'
  split at run
  · rename_i wanted
    obtain ⟨_, s1, removed, run⟩ := bind_inv run
    obtain ⟨wd, s2, added, run⟩ := bind_inv run
    obtain ⟨_, s3, modified, run⟩ := bind_inv run
    obtain ⟨lookup, tick, isWd⟩ := addWatch_inv added
    have quiet : Quiet s s1 := by
      refine keeps_onlyIf (fun _ => ?_) _ _ _ removed
      exact keeps_bind frame_syscall fun _ => keeps_pure _
    have renewed : Rewatched e force i wd := by
      unfold Rewatched
      rw [if_pos wanted]
      exact ⟨tick, isWd⟩
    refine ⟨wd, ?_, renewed⟩
    rw [(pure_inv run).2, modify_inv modified, Loader.identity_modifyIdentity_same
      (f := fun i => { i with wd := wd }) fun _ => rfl,
      Loader.identity_congr (lookup.trans quiet.lookup), found]
    rfl
  · rename_i unwanted
    rw [(pure_inv run).2]
    refine ⟨i.wd, found, ?_⟩
    unfold Rewatched
    rw [if_neg unwanted]

/-- What `load` does to the watch once the object is created. -/
theorem afterCreate_inv {data : Data} {object : Option ObjectRef} {u : Unit}
    (found : s.identity file = some i) (run : afterCreate e file data object s = some (u, s')) :
    (object.isNone && data.fd.isSome) ∧ s'.identity file = some i ∨
      (object.isNone && data.fd.isSome) = false ∧ ∃ wd, s'.identity file = some { i with wd := wd } ∧
        Rewatched e i.flags.executedBinary i wd := by
  obtain ⟨i', found', run⟩ := getIdentity_bind_inv run
  cases found.symm.trans found'
  split at run
  · rename_i failed
    have closes : Keeps Quiet (do
        Exec.onlyIf (!i.flags.premapped) (unmapFile data.addr data.size)
        closeDescriptor data.fd) := by
      grind
    rw [Loader.identity_congr (closes _ _ _ run).lookup]
    exact Or.inl ⟨failed, found⟩
  · rename_i kept
    obtain ⟨ok, s1, watched, run⟩ := bind_inv run
    rw [(pure_inv run).2]
    exact Or.inr ⟨Bool.eq_false_iff.mpr kept, watch_inv found watched⟩

theorem attends_create {library : LibraryCall} (grows : library.Keeps Grows) (file : Nat) (op : Opened) :
    Keeps Attends (create e library file op) := by
  apply frame_create
  · exact fun uid s segments => along_of_lookup rfl le_rfl
  · exact fun uid s reloc sym => along_of_lookup rfl le_rfl
  · exact fun lib flags rpath runpath ns idle =>
      (grows lib flags rpath runpath ns idle).mono fun _ _ step => step.along
  · intro o
    refine keeps_modify fun s => along_modifyIdentity s o.file (fun _ => rfl) fun i _ => ?_
    exact ⟨rfl, rfl, rfl, rfl, rfl, rfl⟩
  · exact fun o => along_of_quiet (quiet_release o)

end Luci
