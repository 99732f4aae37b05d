import Luci.Proofs.VersionChain

/-!
# Versions of one kind of file

`ObjectIdentity::create` compares a new file with the current version only if the new file is not
relocatable, and `ObjectDynamic::patchable` does not look at the type. So a chain can mix types,
and a file that is not relocatable on top of a relocatable one fails the assertion that both have a
binary hash.
-/

namespace Luci

open Exec Relation

variable {c o : Object} {r : ObjectRef}

/-- The part of the header that versions of one file share. -/
def Header.signature (h : Header) : ElfType × Nat × Nat × Nat :=
  (h.type, h.identification, h.machine, h.version)

/-- What is noted about the versions of a file, the newest first. -/
def Loader.notes (s : Loader) (file : Nat) : List Note :=
  (s.identity file).elim [] fun i => i.versions.map Object.note

/-- All versions of a file have the same type, identification, machine and version. -/
def Loader.Homogeneous (s : Loader) (file : Nat) : Prop :=
  ∀ note ∈ s.notes file, ∀ note' ∈ s.notes file, note.1.signature = note'.1.signature

/-- The assertion of `create` for a file of this type (`src/object/identity.cpp:447-448`). -/
def Loader.HashAsserted (s : Loader) (file : Nat) (type : ElfType) : Prop :=
  type ≠ .rel → ∀ c, s.current file = some c → c.binaryHash = true

/-- A file with this header has the type of the current version, and all else that is compared if
it is relocatable. -/
def Loader.Fits (s : Loader) (file : Nat) (h : Header) : Prop :=
  ∀ c, s.current file = some c → h.type = c.elf.header.type ∧
    (h.type = .rel → h.signature = c.elf.header.signature)

/-- `patchable` of the new version did not reject the one it was put on top of. -/
def PutOnTop (e : Env) (file : Nat) (s s' : Loader) : Prop :=
  ∀ c, s.current file = some c → ∃ v, s'.current file = some v ∧
    ∃ (s₁ : Loader) (v₁ c₁ : Object), v₁.note = v.note ∧ c₁.note = c.note ∧ v₁.patchable e s₁ (some c₁) = some true

/-- A step of a run in which every file that is loaded fits. -/
inductive Loader.FittingStep (file : Nat) (s s' : Loader) : Prop
  | load {e : Env} {n : Nat} {i : ObjectIdentity} {memory : Option MemoryImage}
      {result : Option ObjectRef} (found : s.identity file = some i)
      (updatable : i.flags.updatable = true)
      (fits : ∀ image, presented e i memory = some image → s.Fits file image.elf.header)
      (run : loadFrom e n file memory s = some (result, s'))
  | other (separate : s'.Separate) (same : s'.notes file = s.notes file)

/-- What holds in such a run. -/
structure Loader.SoundChain (s : Loader) (file : Nat) : Prop where
  separate : s.Separate
  homogeneous : s.Homogeneous file
  hashes : ∀ note ∈ s.notes file, note.2.2.1 = decide (note.1.type ≠ .rel)

section Chain

variable {e : Env} {s s' : Loader} {i : ObjectIdentity} {file n : Nat}
  {memory : Option MemoryImage} {image : Image}

theorem patchableDynamic_headers (accepts : o.patchableDynamic e s (some c) = some true) :
    o.elf.header.identification = c.elf.header.identification ∧
      o.elf.header.machine = c.elf.header.machine ∧ o.elf.header.version = c.elf.header.version := by
  unfold Object.patchableDynamic at accepts
  dsimp only at accepts
  split at accepts
  · cases accepts
  · rename_i same
    simp only [not_or, not_not] at same
    exact ⟨same.1.symm, same.2.1.symm, same.2.2.symm⟩

theorem patchableRelocatable_iff :
    o.patchableRelocatable (some c) ↔
      o.elf.header.signature = c.elf.header.signature := by
  simp only [Object.patchableRelocatable, Option.any_some, Bool.and_eq_true, decide_eq_true_eq,
    Header.signature, Prod.mk.injEq]
  constructor
  · rintro ⟨⟨⟨identification, type⟩, machine⟩, version⟩
    exact ⟨type.symm, identification.symm, machine.symm, version.symm⟩
  · rintro ⟨type, identification, machine, version⟩
    exact ⟨⟨⟨identification.symm, type.symm⟩, machine.symm⟩, version.symm⟩

/-- A version that has passed the checks has the signature of the current one if it has its
type. -/
theorem Admitted.signature {op : Opened} (admitted : Admitted e i op o)
    (updatable : i.flags.updatable) (isType : op.type = op.elf.header.type)
    (current : i.current = some c) (type : op.elf.header.type = c.elf.header.type)
    (relocatable : op.elf.header.type = .rel → op.elf.header.signature = c.elf.header.signature) :
    o.elf.header.signature = c.elf.header.signature ∧
      ∃ s c', c'.note = c.note ∧ o.patchable e s (some c') = some true := by
  by_cases isRel : op.type = .rel
  · have same : o.elf.header.signature = c.elf.header.signature := by
      rw [admitted.header]
      exact relocatable (isType ▸ isRel)
    refine ⟨same, Loader.initial, c, rfl, ?_⟩
    unfold Object.patchable
    rw [admitted.relocatable.mpr isRel]
    exact congrArg some (patchableRelocatable_iff.mpr same)
  · obtain ⟨-, s, c', sameNote, accepts⟩ := admitted.checked updatable isRel c current
    refine ⟨?_, s, c', sameNote, accepts⟩
    have sameHeader : c'.elf.header = c.elf.header := congrArg Prod.fst sameNote
    cases kind : o.kind with
    | executable =>
      rw [Object.patchable, kind] at accepts
      cases accepts
    | relocatable => exact absurd (admitted.relocatable.mp kind) isRel
    | dynamic =>
      rw [Object.patchable, kind] at accepts
      obtain ⟨identification, machine, version⟩ := patchableDynamic_headers accepts
      rw [sameHeader] at identification machine version
      rw [Header.signature, identification, machine, version, admitted.header, type,
        Header.signature]

theorem notes_of_identity (identity : s.identity file = some i) :
    s.notes file = i.versions.map Object.note := by
  rw [Loader.notes, identity, Option.elim_some]

theorem mem_notes_of_current (current : s.current file = some c) : c.note ∈ s.notes file := by
  obtain ⟨i, identity, isCurrent⟩ := Loader.identity_of_current current
  rw [notes_of_identity identity]
  exact List.mem_map_of_mem (List.mem_of_head? isCurrent)

theorem current_of_notes {note : Note} {rest : List Note} (notes : s.notes file = note :: rest) :
    ∃ c, s.current file = some c ∧ c.note = note := by
  unfold Loader.notes at notes
  cases identity : s.identity file with
  | none =>
    rw [identity] at notes
    cases notes
  | some i =>
    rw [identity, Option.elim_some] at notes
    have head := congrArg List.head? notes
    rw [List.head?_map] at head
    obtain ⟨c, isCurrent, isNote⟩ := Option.map_eq_some_iff.mp head
    refine ⟨c, ?_, isNote⟩
    rw [Loader.current, identity]
    exact isCurrent

theorem loadFrom_admits (separate : s.Separate) (identity : s.identity file = some i)
    (content : presented e i memory = some image)
    (run : loadFrom e n file memory s = some (some r, s')) :
    ∃ op o, op.elf = image.elf ∧ op.type = op.elf.header.type ∧ Admitted e i op o ∧
      s'.notes file = o.note :: s.notes file := by
  obtain ⟨i', identity', -, op, s1, o, opening, admitted, notes⟩ :=
    load_notes (grows_libraryCall (grows_openFile n)) separate identity run
  obtain ⟨image', content', isElf, -, isType⟩ := openObject_presented identity opening
  obtain rfl := Option.some.inj (content.symm.trans content')
  rw [← isElf] at isType
  refine ⟨op, o, isElf, isType, admitted, ?_⟩
  rw [notes_of_identity identity', notes, notes_of_identity identity]

/-- A version that has been accepted keeps the chain homogeneous exactly if its file fits. -/
theorem loadFrom_homogeneous_iff (sound : s.SoundChain file) (identity : s.identity file = some i)
    (updatable : i.flags.updatable) (content : presented e i memory = some image)
    (run : loadFrom e n file memory s = some (some r, s')) :
    (s'.Homogeneous file ∧ PutOnTop e file s s') ↔ s.Fits file image.elf.header := by
  obtain ⟨op, o, isElf, isType, admitted, notes⟩ :=
    loadFrom_admits sound.separate identity content run
  have current : s.current file = i.current := by
    rw [Loader.current, identity, Option.bind_some]
  constructor
  · rintro ⟨homogeneous, -⟩ c isCurrent
    have here : o.note ∈ s'.notes file := by
      rw [notes]
      exact List.mem_cons_self ..
    have below : c.note ∈ s'.notes file := by
      rw [notes]
      exact List.mem_cons_of_mem _ (mem_notes_of_current isCurrent)
    have same : o.elf.header.signature = c.elf.header.signature := homogeneous _ here _ below
    rw [admitted.header, isElf] at same
    exact ⟨congrArg Prod.fst same, fun _ => same⟩
  · intro fits
    have admits (c : Object) (isCurrent : s.current file = some c) :
        o.elf.header.signature = c.elf.header.signature ∧
          ∃ (s : Loader) (c' : Object), c'.note = c.note ∧ o.patchable e s (some c') = some true := by
      obtain ⟨type, relocatable⟩ := fits c isCurrent
      rw [← isElf] at type relocatable
      exact admitted.signature updatable isType (current ▸ isCurrent) type relocatable
    have top : ∀ note ∈ s.notes file, note.1.signature = o.elf.header.signature := by
      intro note member
      cases chain : s.notes file with
      | nil =>
        rw [chain] at member
        cases member
      | cons first rest =>
        obtain ⟨c, isCurrent, isFirst⟩ := current_of_notes chain
        rw [(admits c isCurrent).1]
        exact sound.homogeneous note member c.note (mem_notes_of_current isCurrent)
    have all : ∀ note ∈ s'.notes file, note.1.signature = o.elf.header.signature := by
      intro note member
      rw [notes] at member
      rcases List.mem_cons.mp member with rfl | member
      · rfl
      · exact top note member
    refine ⟨fun note here note' there => (all note here).trans (all note' there).symm, ?_⟩
    intro c isCurrent
    obtain ⟨v, isCurrent', isNote⟩ := current_of_notes notes
    obtain ⟨-, s1, c', sameNote, accepts⟩ := admits c isCurrent
    exact ⟨v, isCurrent', s1, o, c', isNote.symm, sameNote, accepts⟩

theorem Loader.FittingStep.sound (step : FittingStep file s s') (sound : s.SoundChain file) :
    s'.SoundChain file := by
  cases step with
  | other separate same =>
    refine ⟨separate, ?_, ?_⟩
    · unfold Loader.Homogeneous
      rw [same]
      exact sound.homogeneous
    · rw [same]
      exact sound.hashes
  | @load e n i memory result found updatable fits run =>
    have separate : s'.Separate := load_separate (grows_openFile n) sound.separate found run
    cases result with
    | none =>
      obtain ⟨i', identity', -, notes⟩ :=
        load_notes (grows_libraryCall (grows_openFile n)) sound.separate found run
      have same : s'.notes file = s.notes file := by
        rw [notes_of_identity identity', notes, notes_of_identity found]
      refine ⟨separate, ?_, ?_⟩
      · unfold Loader.Homogeneous
        rw [same]
        exact sound.homogeneous
      · rw [same]
        exact sound.hashes
    | some r =>
      obtain ⟨i', identity', -, op, s1, o, opening, admitted, notes⟩ :=
        load_notes (grows_libraryCall (grows_openFile n)) sound.separate found run
      obtain ⟨image, content, isElf, -, isType⟩ := openObject_presented found opening
      have kept := (loadFrom_homogeneous_iff sound found updatable content run).mpr
        (fits image content)
      refine ⟨separate, kept.1, ?_⟩
      intro note member
      rw [notes_of_identity identity', notes, ← notes_of_identity found] at member
      rcases List.mem_cons.mp member with rfl | member
      · rw [← isElf, ← admitted.header] at isType
        have hashed := admitted.binaryHash
        rw [updatable, isType] at hashed
        exact hashed
      · exact sound.hashes note member

/-- The versions of an updatable file: in every run in which the identity is updatable whenever a
file is loaded and every file fits, the chain is homogeneous, and the assertion of `create` holds
for the next file exactly if that is relocatable or the current version is not. A version that is
accepted next leaves the chain homogeneous and is not rejected by its own `patchable` exactly if it
fits. -/
theorem chain_homogeneous_iff {s₀ : Loader} (separate : s₀.Separate) (unloaded : s₀.notes file = [])
    (run : ReflTransGen (Loader.FittingStep file) s₀ s) :
    s.Homogeneous file ∧
      (∀ type, s.HashAsserted file type ↔
        (type ≠ .rel → ∀ c, s.current file = some c → c.elf.header.type ≠ .rel)) ∧
      ∀ (e : Env) (n : Nat) (i : ObjectIdentity) (memory : Option MemoryImage) (image : Image)
        (r : ObjectRef) (s' : Loader), s.identity file = some i → i.flags.updatable = true →
        presented e i memory = some image → loadFrom e n file memory s = some (some r, s') →
        ((s'.Homogeneous file ∧ PutOnTop e file s s') ↔ s.Fits file image.elf.header) := by
  have sound : s.SoundChain file := by
    induction run with
    | refl =>
      refine ⟨separate, ?_, ?_⟩
      · unfold Loader.Homogeneous
        rw [unloaded]
        exact fun _ member => absurd member List.not_mem_nil
      · rw [unloaded]
        exact fun _ member => absurd member List.not_mem_nil
    | tail _ step ih => exact step.sound ih
  refine ⟨sound.homogeneous, ?_, fun e n i memory image r s' => loadFrom_homogeneous_iff sound⟩
  intro type
  have hash (c : Object) (isCurrent : s.current file = some c) :
      c.binaryHash = true ↔ c.elf.header.type ≠ .rel := by
    have noted := sound.hashes c.note (mem_notes_of_current isCurrent)
    change c.binaryHash = decide (c.elf.header.type ≠ .rel) at noted
    rw [noted, decide_eq_true_eq]
  constructor
  · exact fun asserted other c isCurrent => (hash c isCurrent).mp (asserted other c isCurrent)
  · exact fun types other c isCurrent => (hash c isCurrent).mpr (types other c isCurrent)

end Chain

/-! ## Files of two types -/

/-- The identity of `liby.so`, of which nothing has been loaded yet. -/
def unloadedY : Loader :=
  { Loader.initial with
    lookup := [{ ObjectIdentity.global 0 "liby.so" [] with
      path := "/lib/liby.so", flags := { Flags.zero with updatable := true } }]
    fresh := 1 }

/-- `liby.so` as a relocatable file. -/
def Elf.relocatableY : Elf :=
  { Elf.empty .rel with
    sections := [⟨"", .other 0, 0, 0, 0, 0, false, false, false, false, []⟩,
      ⟨".text", .progbits, 0, 16, 1, 0, true, false, true, false, []⟩,
      ⟨".symtab", .symtab, 0, 24, 8, 0, false, false, false, false, []⟩]
    symbolTable := [.null] }

/-- Load a version of `liby.so`. -/
def loadY (modificationTime : Nat) (elf : Elf) : LoaderM (Option ObjectRef) :=
  loadFrom (fileY (File.ofElf modificationTime elf)) 1 0 none

/-- The types of the versions of `liby.so`, the newest first, and whether they have a binary
hash. -/
def Loader.typesY (s : Loader) : List (ElfType × Bool) :=
  (s.notes 0).map fun note => (note.1.type, note.2.2.1)

/-- The types after the first load and after the second one. -/
def loadTwoY (first second : Elf) : LoaderM (List (ElfType × Bool) × List (ElfType × Bool)) := do
  let _ ← loadY 0 first
  let s ← get
  let _ ← loadY 1 second
  let s' ← get
  return (s.typesY, s'.typesY)

theorem unloadedY_separate : unloadedY.Separate := by
  refine ⟨by decide +kernel, ?_⟩
  have used : unloadedY.addresses.all (fun x => x < unloadedY.fresh) := by decide +kernel
  exact fun x member => of_decide_eq_true (List.all_eq_true.mp used x member)

/-- Two libraries. -/
theorem chain_homogeneous_iff_libraries : ∃ s : Loader,
    ReflTransGen (Loader.FittingStep 0) unloadedY s ∧
      s.typesY = [(.dyn, true), (.dyn, true)] ∧ s.Homogeneous 0 := by
  have evaluated : (loadTwoY (.library [] [] []) (.library [] [] []) unloadedY).map Prod.fst =
      some ([(.dyn, true)], [(.dyn, true), (.dyn, true)]) := by decide +kernel
  obtain ⟨⟨types, s⟩, run, isTypes⟩ := Option.map_eq_some_iff.mp evaluated
  unfold loadTwoY at run
  obtain ⟨r, s1, first, run⟩ := bind_inv run
  rw [bind_of_eq (get_apply s1)] at run
  obtain ⟨r', s2, second, run⟩ := bind_inv run
  rw [bind_of_eq (get_apply s2)] at run
  obtain ⟨same, -⟩ := pure_inv run
  obtain ⟨types1, types2⟩ := Prod.mk.inj (same.symm.trans isTypes)
  have unloaded : unloadedY.notes 0 = [] := rfl
  have identity1 : ∃ i, s1.identity 0 = some i ∧ i.flags.updatable = true := by
    obtain ⟨i, identity, mode, -⟩ :=
      load_notes (grows_libraryCall (grows_openFile 1)) unloadedY_separate rfl first
    exact ⟨i, identity, mode.updatable⟩
  obtain ⟨i, identity, updatable⟩ := identity1
  have start : ReflTransGen (Loader.FittingStep 0) unloadedY s1 := by
    refine .single (.load rfl rfl ?_ first)
    intro image _ c isCurrent
    cases isCurrent
  have steps : ReflTransGen (Loader.FittingStep 0) unloadedY s2 := by
    refine start.tail (.load identity updatable ?_ second)
    intro image content c isCurrent
    have isDyn : c.elf.header.type = .dyn := by
      have member : (c.elf.header.type, c.binaryHash) ∈ s1.typesY :=
        List.mem_map_of_mem (mem_notes_of_current isCurrent)
      rw [types1, List.mem_singleton] at member
      exact congrArg Prod.fst member
    have isLibrary : image.elf.header.type = .dyn := by
      obtain ⟨file, found, rfl⟩ := Option.map_eq_some_iff.mp content
      unfold fileY Env.reference World.reference at found
      dsimp only at found
      split at found
      · cases found
        rfl
      · cases found
    rw [isDyn, isLibrary]
    exact ⟨rfl, fun other => nomatch other⟩
  exact ⟨s2, steps, types2, (chain_homogeneous_iff unloadedY_separate unloaded steps).1⟩

/-- A relocatable file is put on top of a library, and a library cannot be loaded after a
relocatable file: the assertion fails. -/
theorem liby_mixes_types :
    (loadTwoY (.library [] [] []) .relocatableY unloadedY).map Prod.fst =
        some ([(.dyn, true)], [(.rel, false), (.dyn, true)]) ∧
      (loadY 0 .relocatableY unloadedY).map (fun run => run.2.typesY) = some [(.rel, false)] ∧
      (loadTwoY .relocatableY (.library [] [] []) unloadedY).isNone = true := by
  decide +kernel

end Luci
