import Luci.Proofs.PreloadWrites

/-!
# Rejected versions

A version can be rejected after its construction, by the checks against the current one,
by preloading or by mapping. Until then the constructors and `preload` have written to
the identity, and the identity is as before exactly if each of these writes left it
as it was.
-/

namespace Luci

open Exec KeyedList

variable {elf : Elf} {ok : Bool} {op : Opened} {k : ObjectKind} {i : ObjectIdentity}

/-! ## Checks -/

/-- The state with a new version on top of the chain. -/
def Loader.installed (s : Loader) (o : Object) : Loader :=
  s.modifyIdentity o.file (ObjectIdentity.addVersion o)

/-- The hashes of the new object in the checks of `create`. -/
def Object.hashed (e : Env) (i : ObjectIdentity) (o : Object) : Object :=
  { o with binaryHash := true, debugHash :=
    if !e.config.forceUpdate && i.current.isSome then o.queryDebugHash e i else none }

/-- The hashes of the debug information do not differ. -/
def DebugHashMatches (e : Env) (i : ObjectIdentity) (o current : Object) : Prop :=
  e.config.forceUpdate = true ∨ o.queryDebugHash e i = none ∨ current.queryDebugHash e i = none ∨
    o.queryDebugHash e i = current.queryDebugHash e i

/-- The new version passes the checks against the current one. -/
def Object.Passes (e : Env) (s : Loader) (i : ObjectIdentity) (o current : Object) : Prop :=
  o.patchable e s (some current) = some true ∧ DebugHashMatches e i o current

section Checks

variable {e : Env} {B : Set Nat} {s s' : Loader} {o c : Object} {i : ObjectIdentity} {file : Nat}

theorem checkDebugHash_result (run : checkDebugHash e i o c s = some (ok, s')) :
    (ok ↔ DebugHashMatches e i o c) ∧ s'.memoryMap = s.memoryMap := by
  unfold checkDebugHash at run
  unfold DebugHashMatches
  split at run
  · rename_i force
    cases run
    simp [force]
  · rename_i force
    cases new : o.queryDebugHash e i with
    | none =>
      simp only [new] at run
      cases run
      simp
    | some hash =>
      simp only [new] at run
      obtain ⟨_, s1, written, run⟩ := bind_inv run
      have same : s1.memoryMap = s.memoryMap := by
        rw [modify_inv written]
        rfl
      cases old : c.queryDebugHash e i with
      | none =>
        simp only [old] at run
        obtain ⟨rfl, rfl⟩ := pure_inv run
        simp [same]
      | some currentHash =>
        simp only [old] at run
        obtain ⟨rfl, rfl⟩ := pure_inv run
        simp [force, same]

theorem checkUpdate_result (identity : s.identity file = some i) (current : i.current = some c)
    (run : checkUpdate e file o s = some (ok, s')) :
    (ok ↔ o.Passes e s i c) ∧ s'.memoryMap = s.memoryMap := by
  unfold checkUpdate at run
  rw [bind_of_eq (get_apply s)] at run
  obtain ⟨i', identity', run⟩ := getIdentity_bind_inv run
  cases identity.symm.trans identity'
  simp only [current] at run
  obtain ⟨-, run⟩ := require_bind_inv run
  obtain ⟨patchable, isPatchable, run⟩ := orAbort_bind_inv run
  unfold Object.Passes
  rw [isPatchable]
  cases patchable with
  | true =>
    obtain ⟨result, same⟩ := checkDebugHash_result run
    exact ⟨by rw [result]; simp, same⟩
  | false =>
    cases run
    simp

end Checks

/-- What `create` writes to the identity after the construction of `o` is there already. An
executable without dynamic section never passes the checks, and relocatable objects are
not checked. -/
def Loader.CreateKept (e : Env) (s : Loader) (i : ObjectIdentity) (o current : Object)
    (v : Visible) : Prop :=
  match o.kind with
  | .executable => True
  | .dynamic => (o.hashed e i).Passes e s i current → s.PreloadKept e i o current v
  | .relocatable => (s.installed o).PreloadKept e i o current v

/-! ## The rejection of a version -/

section Rejection

variable {e : Env} {library : LibraryCall} (grows : library.Keeps Grows)
  {B : Set Nat} {s s' : Loader} {o c : Object} {i : ObjectIdentity} {file : Nat} {type : ElfType}
  {info : Info}

theorem step_install (o : Object) :
    Keeps (Edits B (ObjectIdentity.Step fun _ => True) o.file) (install o) :=
  edits_modifyIdentity (fun _ => rfl) fun _ => step_of_visible rfl

theorem step_destroy (run : o.destroy e s = some ((), s')) :
    Edits B (ObjectIdentity.Step fun _ => True) o.file s s' :=
  (edits_destroy o run).mono fun _ _ removed => step_of_visible (removed ▸ rfl)

include grows

/-- A version on top of the current one that cannot be preloaded or mapped. -/
theorem employ_rejected (old : s.Old) (identity : s.identity o.file = some i)
    (current : i.current = some c) (different : c.uid ≠ o.uid) (kind : o.kind ≠ .executable)
    (run : employ e library o type s = some ((none, info), s')) :
    Edits B (ObjectIdentity.Step ((s.installed o).PreloadKept e (i.addVersion o) o c))
      o.file s s' := by
  obtain ⟨_, s1, installed, run⟩ := bind_inv run
  have isInstalled : s1 = s.installed o := modify_inv installed
  obtain ⟨failure, s2, preloaded, run⟩ := bind_inv run
  cases failure with
  | none =>
    obtain ⟨_, _, -, run⟩ := bind_inv run
    cases run
  | some failure =>
    obtain ⟨_, s3, destroyed, run⟩ := bind_inv run
    cases run
    have first : Edits B (ObjectIdentity.Step fun _ => True) o.file s s1 :=
      step_install o _ _ _ installed
    have old1 := (first.next identity old).1
    have identity1 : s1.identity o.file = some (i.addVersion o) := by
      rw [isInstalled]
      refine (Loader.identity_modifyIdentity_same (f := ObjectIdentity.addVersion o)
        fun _ => rfl).trans ?_
      rw [identity, Option.map_some]
    obtain ⟨rest, versions⟩ := List.head?_eq_some_iff.mp current
    have versions1 : (i.addVersion o).versions = o :: c :: rest := by
      rw [ObjectIdentity.addVersion, versions]
    obtain ⟨loaded, s4, preload, preloaded⟩ := bind_inv preloaded
    have second := preload_step (B := B) grows old1 identity1 versions1 different kind preload
    have third : Quiet s4 s2 := by
      cases loaded with
      | false =>
        cases preloaded
        exact Quiet.refl _
      | true =>
        obtain ⟨_, -, mapped⟩ := getIdentity_bind_inv preloaded
        obtain ⟨o', -, mapped⟩ := getObject_bind_inv mapped
        have quiet : ∀ premapped : Bool, Keeps Quiet (if premapped then pure none else do
            if ← o'.map e then pure none else pure (some Info.failedMapping)) := by
          grind
        exact quiet _ _ _ _ mapped
    have whole := ((first.step second).step (third.step (P := fun _ => True) fun _ => trivial)).step
      (step_destroy destroyed)
    rw [isInstalled] at whole
    exact whole.step_congr fun _ _ => by rw [true_and, and_true, and_true]

theorem createObject_rejected (old : s.Old) (identity : s.identity file = some i)
    (isFile : o.file = file) (current : i.current = some c) (different : c.uid ≠ o.uid)
    (updatable : i.flags.updatable) (typed : type = .rel ↔ o.kind = .relocatable)
    (run : createObject e library file o type s = some ((none, info), s')) :
    Edits B (ObjectIdentity.Step (s.CreateKept e i o c)) file s s' := by
  subst isFile
  obtain ⟨i', identity', run⟩ := getIdentity_bind_inv run
  cases identity.symm.trans identity'
  rw [updatable, Bool.true_and] at run
  by_cases relocatable : o.kind = .relocatable
  · rw [if_neg (by simp [typed.mpr relocatable])] at run
    refine (employ_rejected grows old identity current different (by simp [relocatable])
      run).step_congr fun _ _ => ?_
    simp only [Loader.CreateKept, relocatable]
    exact Iff.rfl
  · have checks : type ≠ .rel := fun same => relocatable (typed.mp same)
    rw [if_pos (decide_eq_true checks)] at run
    obtain ⟨compatible, s1, checked, run⟩ := bind_inv run
    change checkUpdate e o.file (o.hashed e i) s = some (compatible, s1) at checked
    have first : Edits B (ObjectIdentity.Silent 0 .dynamic) o.file s s1 :=
      silent_checkUpdate o.file _ _ _ _ checked
    obtain ⟨passes, maps⟩ := checkUpdate_result identity current checked
    obtain ⟨old1, i1, identity1, silent⟩ := first.next identity old
    cases compatible with
    | false =>
      obtain ⟨_, s2, destroyed, run⟩ := bind_inv run
      cases run
      refine ((first.step_of_silent (P := fun _ => True) fun _ => trivial).step
        (step_destroy destroyed)).step_congr fun j found => ?_
      cases kind : o.kind <;> simp_all [Loader.CreateKept]
    | true =>
      have holds := passes.mp rfl
      obtain ⟨rest, versions⟩ := List.head?_eq_some_iff.mp current
      have chain := silent.versions
      rw [versions] at chain
      obtain ⟨c1, rest1, same, -, versions1⟩ := List.forall₂_cons_left_iff.mp chain
      cases kind : o.kind with
      | relocatable => exact absurd kind relocatable
      | executable =>
        have unpatchable : (o.hashed e i).patchable e s (some c) = some false := by
          unfold Object.patchable
          rw [show (o.hashed e i).kind = .executable from kind]
        rw [Object.Passes, unpatchable] at holds
        exact absurd holds.1 (by simp)
      | dynamic =>
        have isDynamic : (o.hashed e i).kind = .dynamic := kind
        have second := employ_rejected (B := B) grows (o := o.hashed e i) old1 identity1
          (by rw [ObjectIdentity.current, versions1, List.head?_cons])
          (by rw [same.uid]; exact different) (by simp [isDynamic]) run
        refine ((first.step_of_silent (P := fun _ => True) fun _ => trivial).step
          second).step_congr fun j found => ?_
        have sameMap : ((s1.installed (o.hashed e i)).memoryMap) = s.memoryMap := maps
        simp only [Loader.CreateKept, Loader.PreloadKept, isDynamic, kind, true_and]
        rw [forall_prop_of_true holds]
        unfold Loader.SegmentsMatch
        rw [sameMap, same.uid]
        exact Iff.rfl

end Rejection

/-! ## Construction -/

/-- What the constructors write to the identity is there already. -/
def ObjectIdentity.ConstructKept (i : ObjectIdentity) (k : ObjectKind) (elf : Elf) : Prop :=
  match k with
  | .executable => True
  | .dynamic => ∀ name, elf.getSoname = some name → name = "" ∨ name = i.name
  | .relocatable => i.flags.updatable = true → i.flags.updateOutdated = true

theorem constructed_visible_iff :
    (i.constructed k elf).visible = i.visible ↔ i.ConstructKept k elf := by
  cases k with
  | executable => exact iff_of_true rfl trivial
  | dynamic =>
    have name : (i.constructed .dynamic elf).visible = i.visible ↔
        (elf.getSoname.filter fun name => name ≠ "").getD i.name = i.name := by
      simp [ObjectIdentity.visible, ObjectIdentity.constructed]
    rw [name]
    unfold ObjectIdentity.ConstructKept
    cases soname : elf.getSoname with
    | none => simp
    | some name =>
      by_cases empty : name = "" <;> simp [empty, Option.filter_some]
  | relocatable =>
    simp only [ObjectIdentity.visible, ObjectIdentity.constructed, ObjectIdentity.ConstructKept]
    generalize i.flags = flags
    rcases flags with ⟨_, _, _, _, _, updatable, outdated⟩
    cases updatable <;> cases outdated <;> simp

/-- Whether the identity is as it was after a construction and later writes. -/
theorem constructed_step {i j : ObjectIdentity} {P : Visible → Prop}
    (step : (i.constructed k elf).Step P j) :
    j.visible = i.visible ↔ i.ConstructKept k elf ∧ P i.visible := by
  rw [← constructed_visible_iff]
  constructor
  · intro same
    have middle : (i.constructed k elf).visible = i.visible := by
      cases k with
      | executable => rfl
      | dynamic =>
        have name := step.1.name
        rw [same] at name
        exact Visible.ext name.symm rfl rfl rfl rfl rfl
      | relocatable =>
        have marks : i.visible.Marks (i.constructed .relocatable elf).visible :=
          ⟨rfl, rfl, rfl, ⟨false, i.flags.updatable, false, by simp [ObjectIdentity.visible,
            ObjectIdentity.constructed]⟩, fun _ => rfl, fun _ => rfl⟩
        exact marks.antisymm (same ▸ step.1)
    refine ⟨middle, ?_⟩
    rw [← middle]
    exact step.2.mp (same.trans middle.symm)
  · rintro ⟨middle, holds⟩
    rw [step.2.mpr (middle ▸ holds), middle]

/-! ## A whole load -/

/-- The content hash that `create` computes. -/
def Opened.hash (e : Env) (i : ObjectIdentity) (op : Opened) : Nat :=
  if i.flags.updatable && i.flags.skipIdentical then e.libs.contentHash i.name op.elf else 0

/-- A version with the same content was loaded before. -/
def Opened.Identical (e : Env) (i : ObjectIdentity) (op : Opened) : Prop :=
  (i.flags.updatable && i.flags.skipIdentical && i.sameHash (op.hash e i) op.data.size) = true

theorem create_eq (e : Env) (library : LibraryCall) (file : Nat) (op : Opened) :
    create e library file op = (do
      let i ← getIdentity file
      if i.flags.updatable && i.flags.skipIdentical && i.sameHash (op.hash e i) op.data.size then
        return (none, .identicalHash)
      else
        match ← constructObject e file { op with data := { op.data with hash := op.hash e i } } with
        | none => return (none, .errorElf)
        | some o => createObject e library file o op.type) :=
  rfl

/-- Creating a version from the opened file writes nothing to the identity that is not there
already: the file is identical to an earlier version or of an unsupported type, or this
holds for the construction of the object and for what follows. -/
def Opened.Harmless (e : Env) (s : Loader) (i : ObjectIdentity) (current : Object) (op : Opened) :
    Prop :=
  op.Identical e i ∨ ∀ o s', constructObject e i.id
      { op with data := { op.data with hash := op.hash e i } } s = some (some o, s') →
    i.ConstructKept o.kind o.elf ∧ s'.CreateKept e i o current i.visible

/-- The identity is as it was. -/
def Loader.Unchanged (i : ObjectIdentity) (s : Loader) : Prop :=
  ∃ i', s.identity i.id = some i' ∧ i'.visible = i.visible ∧
    i'.versions.map Object.uid = i.versions.map Object.uid

section Load

variable {e : Env} {library : LibraryCall} (grows : library.Keeps Grows)
  {B : Set Nat} {s s' : Loader} {c : Object} {i : ObjectIdentity} {file : Nat}

theorem openObject_updatable {memory : Option MemoryImage} {type : ElfType}
    (identity : s.identity file = some i) (current : i.current = some c)
    (run : openObject e file memory type s = some (.ok op, s')) : i.flags.updatable := by
  obtain ⟨i', identity', run⟩ := getIdentity_bind_inv run
  cases identity.symm.trans identity'
  split at run
  · cases run
  · rename_i allowed
    simpa [current] using allowed

include grows

theorem create_rejected {info : Info} (old : s.Old) (identity : s.identity i.id = some i)
    (current : i.current = some c) (used : c.uid < s.fresh) (updatable : i.flags.updatable)
    (run : create e library i.id op s = some ((none, info), s')) :
    Edits B (fun i1 i' => i1 = i → (i'.visible = i.visible ↔ op.Harmless e s i c)) i.id s s' := by
  have same : op.Harmless e s i c → s' = s → Edits B (fun i1 i' => i1 = i →
      (i'.visible = i.visible ↔ op.Harmless e s i c)) i.id s s' := by
    intro harmless same
    rw [same]
    refine ((Quiet.refl s).grows.edits : Edits B Eq i.id s s).mono fun _ _ isSame isFirst => ?_
    rw [← isSame, isFirst]
    exact iff_of_true rfl harmless
  rw [create_eq] at run
  obtain ⟨i', identity', run⟩ := getIdentity_bind_inv run
  cases identity.symm.trans identity'
  split at run
  · rename_i identical
    cases run
    exact same (Or.inl identical) rfl
  · rename_i changed
    change ¬ op.Identical e i at changed
    obtain ⟨constructed, s1, construct, run⟩ := bind_inv run
    rcases constructObject_inv construct with ⟨rfl, kept, -⟩ | ⟨o, rfl, isNew⟩
    · cases run
      refine same (Or.inr fun o s2 construct' => ?_) kept
      cases construct.symm.trans construct'
    · have first := isNew.edits (B := B)
      rw [← isNew.elf] at first
      obtain ⟨old1, i1, identity1, isConstructed⟩ := first.next identity old
      have different : c.uid ≠ o.uid := by
        rw [isNew.uid]
        exact used.ne
      have current1 : i1.current = some c := by
        rw [isConstructed]
        cases o.kind <;> exact current
      have updatable1 : i1.flags.updatable := by
        rw [isConstructed]
        cases o.kind <;> exact updatable
      have kept : ∀ v, s1.CreateKept e i1 o c v ↔ s1.CreateKept e i o c v := by
        intro v
        rw [isConstructed]
        cases kind : o.kind <;>
          simp only [Loader.CreateKept, Loader.PreloadKept, kind] <;> exact Iff.rfl
      have second := createObject_rejected (B := B) grows old1 identity1 isNew.file current1
        different updatable1 isNew.kind.symm run
      refine first.comp second ?_
      rintro j _ k rfl step rfl
      rw [constructed_step step]
      unfold Opened.Harmless
      rw [or_iff_right changed]
      constructor
      · intro harmless o' s' construct'
        cases construct.symm.trans construct'
        exact ⟨harmless.1, (kept _).mp harmless.2⟩
      · intro harmless
        obtain ⟨before, after⟩ := harmless o s1 construct
        exact ⟨before, (kept _).mpr after⟩

omit grows in
/-- The chain of versions is as it was after a rejected version. -/
theorem unchanged_iff {u : Nat} (old : s.Old) (identity : s.identity i.id = some i)
    (used : ∀ o ∈ i.versions, o.uid < s.fresh) (isNew : s.fresh ≤ u)
    (edits : Edits B (ObjectIdentity.Rejected u k) i.id s s') {P : Prop}
    (visible : Edits B (fun i1 i' => i1 = i → (i'.visible = i.visible ↔ P)) i.id s s') :
    s'.Unchanged i ↔ P := by
  obtain ⟨-, i', identity', rejected⟩ := edits.next identity old
  obtain ⟨-, i'', identity'', result⟩ := visible.next identity old
  cases identity'.symm.trans identity''
  have unused : u ∉ i.versions.map Object.uid := by
    intro member
    obtain ⟨o, inVersions, isUid⟩ := List.mem_map.mp member
    have := used o inVersions
    omega
  have chain := uids_edited (rejected unused).versions
  rw [← result rfl]
  constructor
  · rintro ⟨j, found, same, -⟩
    rw [Option.some.inj (identity'.symm.trans found)]
    exact same
  · exact fun same => ⟨i', identity', same, chain⟩

end Load

/-- A rejected load leaves an identity with a current version as it was if and only if
everything that was written to it on the way to the rejection was there already. -/
theorem load_unchanged_iff {e : Env} {n : Nat} {memory : Option MemoryImage} {type : ElfType}
    {s s' : Loader} {i : ObjectIdentity} {c : Object} (old : s.Old)
    (identity : s.identity i.id = some i) (current : i.current = some c)
    (used : ∀ o ∈ i.versions, o.uid < s.fresh)
    (run : load e (libraryCall e (openFile e n)) i.id memory type s = some (none, s')) :
    s'.Unchanged i ↔ ∀ op s₁, openObject e i.id memory type s = some (.ok op, s₁) →
      op.Harmless e s₁ i c := by
  have grows := grows_libraryCall (e := e) (grows_openFile (e := e) n)
  obtain ⟨u, k, isNew, rejected⟩ := load_edits grows (B := Set.univ)
    Loader.binds_univ run
  refine unchanged_iff old identity used isNew rejected ?_
  obtain ⟨opened, s₁, opening, run⟩ := bind_inv run
  have quiet : Quiet s s₁ := frame_openObject _ _ _ _ _ _ opening
  cases opened with
  | error failure =>
    obtain ⟨_, s2, hook, run⟩ := bind_inv run
    cases run
    have last : Edits Set.univ (ObjectIdentity.Silent 0 .dynamic) i.id s₁ s' :=
      silent_initialHook i.id _ _ _ hook
    refine ((quiet.grows.edits : Edits Set.univ Eq i.id s s₁).comp last) ?_
    rintro j _ k rfl silent rfl
    refine iff_of_true silent.visible fun op s2 opening' => ?_
    cases opening.symm.trans opening'
  | ok op =>
    obtain ⟨⟨object, info⟩, s2, created, run⟩ := bind_inv run
    obtain ⟨_, s3, after, run⟩ := bind_inv run
    obtain ⟨_, s4, hook, run⟩ := bind_inv run
    cases run
    have identity1 : s₁.identity i.id = some i := by
      rw [Loader.identity_congr quiet.lookup, identity]
    have old1 : s₁.Old := quiet.grows.old old
    have isCurrent : c ∈ i.versions := List.mem_of_head? current
    have second := create_rejected (B := Set.univ) grows old1 identity1 current
      ((used c isCurrent).trans_le quiet.fresh)
      (openObject_updatable identity current opening) created
    have last : Edits Set.univ (ObjectIdentity.Silent 0 .dynamic) i.id s2 s' :=
      trans_of (Edits Set.univ (ObjectIdentity.Silent 0 .dynamic) i.id)
        (silent_afterCreate i.id _ _ _ _ _ after) (silent_initialHook i.id _ _ _ hook)
    have start : Edits Set.univ
        (fun i1 i' => i1 = i → (i'.visible = i.visible ↔ op.Harmless e s₁ i c)) i.id s s2 :=
      (quiet.grows.edits : Edits Set.univ Eq i.id s s₁).comp second
        fun _ _ _ same result => same ▸ result
    refine start.comp last fun j k l result silent isFirst => ?_
    rw [silent.visible, result isFirst]
    constructor
    · intro harmless op' s2 opening'
      cases opening.symm.trans opening'
      exact harmless
    · exact fun harmless => harmless op s₁ opening

/-- An updatable identity with one version. -/
def liby : ObjectIdentity :=
  { ObjectIdentity.global 0 "liby.so"
      [{ Object.construct 1 0 .dynamic (Elf.library [] [] []) Data.none with binaryHash := true }] with
    flags := { Flags.zero with updatable := true } }

/-- A version without segments, which cannot replace the first one. -/
def withoutSegments (dynamicTable : List Dyn) : Env :=
  fileY (File.ofElf 1 { Elf.sharedObject [] with dynamicTable := dynamicTable })

/-- The loader with this identity. -/
def loadedLiby : Loader := { Loader.initial with lookup := [liby], fresh := 2 }

theorem load_unchanged_iff_liby :
    ∃ c s', liby.current = some c ∧
      load (withoutSegments []) (libraryCall (withoutSegments [])
        (openFile (withoutSegments []) 1)) liby.id none .none loadedLiby = some (none, s') ∧
      (s'.Unchanged liby ↔
        ∀ op s₁, openObject (withoutSegments []) liby.id none .none loadedLiby =
          some (.ok op, s₁) → op.Harmless (withoutSegments []) s₁ liby c) := by
  have rejected : (load (withoutSegments []) (libraryCall (withoutSegments [])
      (openFile (withoutSegments []) 1)) liby.id none .none loadedLiby).map Prod.fst =
        some none := by
    decide +kernel
  obtain ⟨⟨result, s'⟩, run, isNone⟩ := Option.map_eq_some_iff.mp rejected
  obtain rfl : result = none := isNone
  have old : loadedLiby.Old := by
    intro i member
    rw [List.mem_singleton.mp member]
    decide
  have used : ∀ o ∈ liby.versions, o.uid < loadedLiby.fresh := by
    intro o member
    rw [List.mem_singleton.mp member]
    decide
  exact ⟨_, s', rfl, run, load_unchanged_iff old rfl rfl used run⟩

/-- Open the first version, then load one without segments and with another name. -/
def updateToRenamed : LoaderM (Option String × Option ObjectRef) := do
  let _ ← dlopen needsNothing 1 (some "liby.so") { Flags.zero with updatable := true } (some 0) true
  let s ← get
  let rejected ← loadFrom (withoutSegments [.soname "libz.so"]) 1 0 none
  return ((s.identity 0).map ObjectIdentity.name, rejected)

/-- The second version is rejected, but the identity has its name. -/
theorem updateToRenamed_renames :
    (updateToRenamed Loader.initial).map (fun p => (p.1, (p.2.identity 0).map fun i =>
        (i.name, i.versions.map Object.uid))) =
      some ((some "liby.so", none), some ("libz.so", [3])) := by
  decide +kernel

end Luci
