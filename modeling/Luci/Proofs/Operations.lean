import Luci.Proofs.Preparation

/-!
# Whole operations of the loader

`Loader::relocate`, `update`, `prepare` and `dlopen` go through the identities and let each
object do its part. A relation that every part keeps is therefore kept by the operation.
-/

namespace Luci

open Exec

variable {e : Env} {fuel : Nat} {R R' : Loader → Loader → Prop}

/-- The objects whose initializers were called, in this order. -/
def Loader.initCalls (s : Loader) : List ObjectRef := s.events.filterMap Event.initOf

/-- What the loader does to one object or one identity keeps the relation, initialization apart. -/
structure KeepsRelocation (R : Loader → Loader → Prop) (e : Env) : Prop where
  marks : ∀ r status, Keeps R (setStatus r status)
  preprepares : ∀ o, Keeps R (preprepareObject e o)
  prepares : ∀ o, Keeps R (prepareObject e o)
  updates : ∀ o, Keeps R (updateObject e o)
  finalizes : ∀ o : Object, Keeps R (o.finalize e)
  refreshes : ∀ file, Keeps R (hookRefresh e file)
  others : ∀ (s : Loader) (pending : Bool) (tls : Tls) (events : List Event),
    events.filterMap Event.initOf = s.initCalls →
    R s { s with updatePending := pending, tls := tls, events := events }

/-- What the loader does to one object or one identity keeps the relation. -/
structure KeepsParts (R : Loader → Loader → Prop) (e : Env) : Prop extends KeepsRelocation R e where
  initializes : ∀ file, Keeps R (initializeFrom file)

theorem KeepsRelocation.mono (parts : KeepsRelocation R e) (weaker : ∀ s s', R s s' → R' s s') :
    KeepsRelocation R' e where
  marks r status := (parts.marks r status).mono weaker
  preprepares o := (parts.preprepares o).mono weaker
  prepares o := (parts.prepares o).mono weaker
  updates o := (parts.updates o).mono weaker
  finalizes o := (parts.finalizes o).mono weaker
  refreshes file := (parts.refreshes file).mono weaker
  others s pending tls events calm := weaker _ _ (parts.others s pending tls events calm)

theorem KeepsParts.mono (parts : KeepsParts R e) (weaker : ∀ s s', R s s' → R' s s') :
    KeepsParts R' e where
  toKeepsRelocation := parts.toKeepsRelocation.mono weaker
  initializes file := (parts.initializes file).mono weaker

/-- What is settled about a version once it has been created. -/
def Object.origin (o : Object) : Nat × Nat × ObjectKind × Data × List Nat :=
  (o.uid, o.file, o.kind, o.data, o.dependencies)

section Operations

variable {R : Loader → Loader → Prop} [IsPreorder Loader R] {e : Env}

theorem keeps_getCurrent (file : Nat) : Keeps R (getCurrent file) :=
  keeps_bind keeps_get fun _ => keeps_orAbort _

/-- A relation that allows for writes to an object is kept by `preprepare`, which does not
change its origin. -/
theorem keeps_preprepareObject (o : Object) (quietly : ∀ s s', Quiet s s' → R s s')
    (writes : ∀ (s : Loader) (g : Object → Object), (∀ v, (g v).origin = v.origin) →
      R s (s.modifyObject o.ref g)) :
    Keeps R (preprepareObject e o) := by
  have quiet : ∀ {α : Type} {x : LoaderM α}, Keeps Quiet x → Keeps R x :=
    fun keeps => keeps.mono quietly
  unfold preprepareObject
  cases o.kind with
  | executable => exact keeps_pure ()
  | dynamic => exact keeps_pure ()
  | relocatable =>
    apply keeps_bind (quiet (frame_getObject o.ref))
    intro o'
    apply keeps_ite
    · exact fun _ => keeps_pure ()
    · intro _
      apply keeps_bind (quiet (keeps_foldlM _ (frame_prepareCommon o') _))
      intro c
      apply keeps_bind
      · exact keeps_modify fun s => writes s _ fun _ => rfl
      · exact fun _ => quiet (by grind)

/-- A relation that allows for the marks and for what is logged is kept by `initialize`. -/
theorem keeps_initializeIdentity (logs : ∀ event, Keeps R (logEvent event))
    (initializes : ∀ file,
      Keeps R (modify (Loader.modifyIdentity file ObjectIdentity.markInitialized)))
    (n : Nat) : ∀ file, Keeps R (initializeIdentity n file) := by
  induction n with
  | zero => exact fun file => keeps_abort
  | succ n ih =>
    intro file
    refine keeps_bind (keeps_getCurrent file) fun o => ?_
    refine keeps_bind (keeps_getIdentity file) fun i => ?_
    apply keeps_ite
    · exact fun _ => keeps_pure true
    · intro _
      apply keeps_bind (initializes file)
      intro _
      apply keeps_bind (keeps_allOf _ fun dep _ => ih dep)
      intro ok
      apply keeps_ite
      · exact fun _ => keeps_bind (logs _) fun _ => keeps_pure true
      · exact fun _ => keeps_pure false

/-- A relation that loads of existing files keep is kept by the load after a modification. -/
theorem keeps_filemodificationLoadHelper {fuel file : Nat} (quietly : ∀ s s', Quiet s s' → R s s')
    (loads : ∀ {s s' i memory result}, s.identity file = some i →
      (e.world.file i.path).isSome → loadFrom e fuel file memory s = some (result, s') → R s s') :
    Keeps R (filemodificationLoadHelper e fuel file) := by
  intro s updated s' run
  obtain ⟨i, found, run⟩ := getIdentity_bind_inv run
  cases present : e.world.file i.path with
  | none =>
    rw [present] at run
    rw [(pure_inv run).2]
    exact refl_of R s
  | some content =>
    have isFile : (e.world.file i.path).isSome := by rw [present]; rfl
    rw [present] at run
    dsimp only at run
    cases format : content.image.format with
    | elf =>
      rw [format] at run
      obtain ⟨result, s1, loaded, run⟩ := bind_inv run
      rw [(pure_inv run).2]
      exact loads found isFile loaded
    | other =>
      rw [format] at run
      rw [(pure_inv run).2]
      exact refl_of R s
    | ar =>
      rw [format] at run
      cases search : (content.archive.getD []).find? fun entry =>
          entry.regular && entry.name = i.name with
      | none =>
        rw [search] at run
        rw [(pure_inv run).2]
        exact refl_of R s
      | some entry =>
        rw [search] at run
        obtain ⟨addr, s1, mapped, run⟩ := bind_inv run
        have quiet : Quiet s s1 := frame_mapFile _ _ _ _ mapped
        have found1 : s1.identity file = some i := by
          rw [Loader.identity_congr quiet.lookup, found]
        have maps : R s s1 := quietly s s1 quiet
        cases inner : entry.image.format with
        | elf =>
          rw [inner] at run
          obtain ⟨result, s2, loaded, run⟩ := bind_inv run
          rw [(pure_inv run).2]
          exact trans_of R maps (loads found1 isFile loaded)
        | ar =>
          rw [inner] at run
          cases run
        | other =>
          rw [inner] at run
          rw [(pure_inv run).2]
          exact maps

theorem keeps_loadAll (quietly : ∀ s s', Quiet s s' → R s s')
    (loads : ∀ file memory, Keeps R (loadFrom e fuel file memory)) (due : List Nat) :
    Keeps R (loadAll e fuel due) := by
  induction due with
  | nil => exact keeps_pure false
  | cons file due ih =>
    apply keeps_bind (keeps_filemodificationLoadHelper quietly fun _ _ run => loads file _ _ _ _ run)
    exact fun _ => keeps_bind ih fun _ => keeps_pure _

section Relocation

variable (parts : KeepsRelocation R e)

include parts

omit [IsPreorder Loader R] in
theorem KeepsRelocation.logs (event : Event) (calm : event.initOf = none) :
    Keeps R (logEvent event) :=
  keeps_modify fun s => parts.others s _ _ _ (by simp [Loader.initCalls, calm])

/-! ## One identity -/

theorem KeepsRelocation.preprepareIdentity (file : Nat) : Keeps R (preprepareIdentity e file) :=
  keeps_bind (keeps_getCurrent file) fun o => parts.preprepares o

theorem KeepsRelocation.prepareIdentity (n : Nat) : ∀ file, Keeps R (prepareIdentity e n file) :=
  keeps_prepareIdentity parts.marks parts.prepares n

theorem KeepsRelocation.prepareFrom (file : Nat) : Keeps R (prepareFrom e file) :=
  keeps_bind keeps_get fun _ => parts.prepareIdentity _ file

theorem KeepsRelocation.updateIdentity (file : Nat) : Keeps R (updateIdentity e file) :=
  keeps_updateIdentity parts.logs parts.updates (parts.refreshes file)

theorem KeepsRelocation.finalizeIdentity (file : Nat) : Keeps R (finalizeIdentity e file) :=
  keeps_bind (keeps_getIdentity file) fun _ => keeps_eachOf _ fun o _ => parts.finalizes o

/-! ## All identities -/

theorem KeepsRelocation.relocateLoaded (update : Bool) : Keeps R (relocateLoaded e update) := by
  unfold Luci.relocateLoaded
  refine keeps_bind keeps_get fun s => ?_
  apply keeps_bind
  · exact keeps_forEach _ fun file _ => parts.preprepareIdentity file
  intro _
  apply keeps_bind
  · exact keeps_allOf _ fun file _ => parts.prepareFrom file
  have finalizes : ∀ ok : Bool, Keeps R
      (if ok then Exec.allOf (Luci.finalizeIdentity e) s.reversed else pure false) := by
    intro ok
    apply keeps_ite
    · exact fun _ => keeps_allOf _ fun file _ => parts.finalizeIdentity file
    · exact fun _ => keeps_pure false
  intro ok
  apply keeps_ite
  · intro _
    apply keeps_ite
    · exact fun _ => keeps_bind (keeps_allOf _ fun file _ => parts.updateIdentity file) finalizes
    · exact fun _ => keeps_bind (keeps_pure true) finalizes
  · exact fun _ => keeps_pure false

theorem KeepsRelocation.updateLoaded : Keeps R (updateLoaded e) := by
  apply keeps_bind (parts.relocateLoaded true)
  intro ok
  apply keeps_bind (keeps_require (R := R) ok)
  exact fun _ => keeps_modify fun s => parts.others s _ _ _ rfl

end Relocation

variable (parts : KeepsParts R e)

include parts

theorem KeepsParts.prepareLoaded (start : ObjectRef) : Keeps R (prepareLoaded e start) := by
  apply keeps_bind (parts.relocateLoaded false)
  intro ok
  apply keeps_ite
  · intro _
    apply keeps_bind (keeps_modify fun s => parts.others s _ _ _ rfl)
    intro _
    apply keeps_bind (parts.logs _ rfl)
    intro _
    refine keeps_bind keeps_get fun s => ?_
    apply keeps_bind (keeps_allOf _ fun file _ => parts.initializes file)
    intro ok
    apply keeps_ite
    · intro _
      refine keeps_bind (keeps_bind keeps_get fun _ => keeps_orAbort _) fun o => ?_
      exact keeps_bind (parts.finalizes o) fun _ => keeps_pure true
    · exact fun _ => keeps_pure false
  · exact fun _ => keeps_pure false

end Operations

/-! ## What is the same about all identities -/

/-- A function of the identities has the same values. -/
structure SameView {τ : Type} (view : ObjectIdentity → τ) (s s' : Loader) : Prop where
  fresh : s.fresh ≤ s'.fresh
  lookup : s'.lookup.map view = s.lookup.map view

section View

variable {τ : Type} {view : ObjectIdentity → τ} {e : Env} {s s' : Loader}

instance : IsPreorder Loader (SameView view) where
  refl _ := ⟨le_rfl, rfl⟩
  trans _ _ _ first second :=
    ⟨first.fresh.trans second.fresh, second.lookup.trans first.lookup⟩

theorem Quiet.sameView (quiet : Quiet s s') : SameView view s s' :=
  ⟨quiet.fresh, by rw [quiet.lookup]⟩

theorem SameView.identity (same : SameView view s s') (key : τ → Nat)
    (isKey : ∀ i, key (view i) = i.id) (a : Nat) :
    (s'.identity a).map view = (s.identity a).map view := by
  have found : ∀ l : List ObjectIdentity, (KeyedList.lookup ObjectIdentity.id l a).map view =
      (l.map view).find? fun t => decide (key t = a) := by
    intro l
    simp only [List.find?_map, Function.comp_def, isKey]
    rfl
  unfold Loader.identity
  rw [found, found, same.lookup]

theorem sameView_modifyIdentity (s : Loader) (file : Nat) {f : ObjectIdentity → ObjectIdentity}
    (keep : ∀ i, view (f i) = view i) : SameView view s (s.modifyIdentity file f) :=
  ⟨le_rfl, KeyedList.map_update keep file s.lookup⟩

theorem sameView_initializeFrom (keep : ∀ i : ObjectIdentity, view i.markInitialized = view i)
    (file : Nat) : Keeps (SameView view) (initializeFrom file) :=
  keeps_bind keeps_get fun _ => keeps_initializeIdentity
    (fun _ => keeps_modify fun _ => ⟨le_rfl, rfl⟩)
    (fun file => keeps_modify fun s => sameView_modifyIdentity s file keep) _ file

/-- The same, and no initializers were called. -/
structure CalmView (view : ObjectIdentity → τ) (s s' : Loader) : Prop
    extends SameView view s s' where
  calls : s'.initCalls = s.initCalls

instance : IsPreorder Loader (CalmView view) where
  refl s := ⟨refl_of (SameView view) s, rfl⟩
  trans _ _ _ first second :=
    ⟨trans_of (SameView view) first.toSameView second.toSameView, second.calls.trans first.calls⟩

theorem Quiet.calmView (quiet : Quiet s s') : CalmView view s s' :=
  ⟨quiet.sameView, congrArg (List.filterMap Event.initOf) quiet.events⟩

theorem Relocates.calmView {uid : Nat} (step : Relocates uid s s') : CalmView view s s' :=
  ⟨⟨step.quiet.fresh, congrArg (List.map view) step.quiet.lookup⟩,
    congrArg (List.filterMap Event.initOf) step.quiet.events⟩

/-- Relocation writes to hooks, and to versions without changing their origin. -/
theorem keepsRelocation_calmView (hooks : ∀ i hook, view { i with hook := hook } = view i)
    (versions : ∀ i uid (g : Object → Object), (∀ v, (g v).origin = v.origin) →
      view (i.modifyVersion uid g) = view i) : KeepsRelocation (CalmView view) e where
  marks r status := keeps_modify fun s => ⟨sameView_modifyIdentity s r.file fun i =>
    versions i r.uid _ fun _ => rfl, rfl⟩
  preprepares o := keeps_preprepareObject o (fun _ _ quiet => quiet.calmView) fun s g keep =>
    ⟨sameView_modifyIdentity s o.file fun i => versions i o.uid g keep, rfl⟩
  prepares o := (relocates_prepareObject o).mono fun _ _ step => step.calmView
  updates o := (relocates_updateObject o).mono fun _ _ step => step.calmView
  finalizes o := (quiet_finalizeObject o).mono fun _ _ step => step.calmView
  refreshes file := by
    refine keeps_modify fun s => ⟨sameView_modifyIdentity s file fun i => ?_, rfl⟩
    split
    · exact hooks i _
    · rfl
  others _ _ _ _ calm := ⟨⟨le_rfl, rfl⟩, calm⟩

end View

/-! ## `dlopen` -/

/-- The identity that `dlopen` finds in the list of loaded objects. -/
def Loader.opened (s : Loader) (file : Option String) (ns : Option Nat) : Option Nat :=
  match file with
  | none => s.target
  | some file => s.findLibrary ns (basename file)

/-- What `dlopen` does with what it found (`src/loader.cpp:235-254`). -/
def employOpened (e : Env) (flags : Flags) (load : Bool) : Option Nat → LoaderM (Option Nat)
  | none => return none
  | some i => do
    modify (Loader.modifyIdentity i fun o => { o with flags := flags.dlopen e.config o.flags })
    if !load then return some i
    else if ← prepareFrom e i then
      if ← initializeFrom i then return some i else return none
    else return none

section Dlopen

variable {e : Env} {s s' : Loader} {fuel : Nat} {file : Option String} {flags : Flags}
  {ns : Option Nat} {load : Bool}

/-- A library that is loaded, or not to be loaded, is looked up only. -/
theorem library_opened {filename : String} {priority : Bool} {rpath runpath : List String}
    (known : load = false ∨ (s.findLibrary ns (basename filename)).isSome) :
    library e (openFile e fuel) filename flags priority rpath runpath ns load s =
      some (s.findLibrary ns (basename filename), s) := by
  unfold library
  rw [bind_of_eq (get_apply s)]
  cases found : s.findLibrary ns (basename filename) with
  | some i => rfl
  | none =>
    rw [found] at known
    rcases known with nothing | wrong
    · rw [nothing]
      rfl
    · cases wrong

theorem dlopen_opened (known : load = false ∨ (s.opened file ns).isSome) :
    dlopen e fuel file flags ns load s = employOpened e flags load (s.opened file ns) s := by
  unfold dlopen
  rw [bind_of_eq (get_apply s)]
  cases file with
  | none => rfl
  | some file =>
    dsimp only
    rw [bind_of_eq (library_opened known)]
    rfl

/-- `dlopen` looks for the identity, and opens the library if there is none. -/
theorem dlopen_inv {result : Option Nat} (run : dlopen e fuel file flags ns load s = some (result, s')) :
    (employOpened e flags load (s.opened file ns) s = some (result, s')) ∨
      s.opened file ns = none ∧ ∃ filename opened s1, file = some filename ∧
        library e (openFile e fuel) filename flags false [] [] ns load s = some (opened, s1) ∧
        employOpened e flags load opened s1 = some (result, s') := by
  by_cases known : load = false ∨ (s.opened file ns).isSome
  · rw [dlopen_opened known] at run
    exact .inl run
  · have absent : s.opened file ns = none := by
      cases found : s.opened file ns with
      | none => rfl
      | some i => exact absurd (.inr (by rw [found]; rfl)) known
    unfold dlopen at run
    rw [bind_of_eq (get_apply s)] at run
    cases file with
    | none => exact .inl run
    | some file =>
      obtain ⟨opened, s1, looked, run⟩ := bind_inv run
      exact .inr ⟨absent, file, opened, s1, rfl, looked, run⟩

variable {R : Loader → Loader → Prop} [IsPreorder Loader R]

theorem keeps_employOpened
    (sets : ∀ file, Keeps R (modify (Loader.modifyIdentity file fun o =>
      { o with flags := flags.dlopen e.config o.flags })))
    (prepares : ∀ file, Keeps R (prepareFrom e file)) (initializes : ∀ file, Keeps R (initializeFrom file))
    (opened : Option Nat) : Keeps R (employOpened e flags load opened) := by
  cases opened with
  | none => exact keeps_pure none
  | some i =>
    apply keeps_bind (sets i)
    intro _
    apply keeps_ite
    · exact fun _ => keeps_pure _
    · intro _
      apply keeps_bind (prepares i)
      intro ok
      apply keeps_ite
      · intro _
        apply keeps_bind (initializes i)
        exact fun ok => keeps_ite (fun _ => keeps_pure _) fun _ => keeps_pure _
      · exact fun _ => keeps_pure _

/-- `dlopen` keeps what opening the library keeps, unless the flags it sets matter. -/
theorem KeepsParts.dlopen (parts : KeepsParts R e)
    (opens : ∀ filename ns load, Keeps R (library e (openFile e fuel) filename flags false [] [] ns load))
    (sets : ∀ file, Keeps R (modify (Loader.modifyIdentity file fun o =>
      { o with flags := flags.dlopen e.config o.flags })))
    (file : Option String) (ns : Option Nat) (load : Bool) :
    Keeps R (dlopen e fuel file flags ns load) := by
  have employs : ∀ opened : Option Nat, Keeps R (employOpened e flags load opened) :=
    keeps_employOpened sets parts.prepareFrom parts.initializes
  unfold Luci.dlopen
  refine keeps_bind keeps_get fun s => ?_
  cases file with
  | none => exact keeps_bind (keeps_pure s.target) employs
  | some file => exact keeps_bind (opens file ns load) employs

end Dlopen

end Luci
