import Luci.Proofs.OpenCleanup

/-!
# What preloading writes to an identity

`preload` sets flags from the dynamic section and registers thread local storage. Nothing
takes these writes back, and each of them only adds to what is there: `Visible.Marks` is
the order they follow. So a sequence of them leaves an identity as it was exactly if
each of them does, which `ObjectIdentity.Step` says of a step under a condition.
-/

namespace Luci

open Exec KeyedList

variable {α : Type} {base u : Nat} {k : ObjectKind} {segment : Segment} {v₁ v₂ v₃ : Visible}
  {ok premapped : Bool} {o previous : Object} {relro : Option Segment}

/-! ## Writes without a way back -/

/-- The writes after the name is set: flags are set and never cleared, and thread local
storage is registered once. -/
structure Visible.Marks (v v' : Visible) : Prop where
  name : v'.name = v.name
  base : v'.base = v.base
  dynamic : v'.dynamic = v.dynamic
  flags : ∃ now outdated global : Bool, v'.flags = { v.flags with
    bindNow := v.flags.bindNow || now
    updateOutdated := v.flags.updateOutdated || outdated
    bindGlobal := v.flags.bindGlobal || global }
  tlsModule : v.tlsModuleId ≠ 0 → v'.tlsModuleId = v.tlsModuleId
  tlsOffset : v'.tlsModuleId = v.tlsModuleId → v'.tlsOffset = v.tlsOffset

theorem Visible.Marks.refl (v : Visible) : v.Marks v :=
  ⟨rfl, rfl, rfl, ⟨false, false, false, by simp⟩, fun _ => rfl, fun _ => rfl⟩

/-- A module id that is back was never replaced. -/
theorem Visible.Marks.tls_between (first : v₁.Marks v₂) (second : v₂.Marks v₃)
    (same : v₃.tlsModuleId = v₁.tlsModuleId) :
    v₂.tlsModuleId = v₁.tlsModuleId := by
  by_cases unset : v₁.tlsModuleId = 0
  · by_contra changed
    have set : v₂.tlsModuleId ≠ 0 := fun zero => changed (zero.trans unset.symm)
    exact changed ((second.tlsModule set).symm.trans same)
  · exact first.tlsModule unset

theorem Visible.Marks.trans (first : v₁.Marks v₂) (second : v₂.Marks v₃) :
    v₁.Marks v₃ where
  name := second.name.trans first.name
  base := second.base.trans first.base
  dynamic := second.dynamic.trans first.dynamic
  flags := by
    obtain ⟨now1, outdated1, global1, flags1⟩ := first.flags
    obtain ⟨now2, outdated2, global2, flags2⟩ := second.flags
    refine ⟨now1 || now2, outdated1 || outdated2, global1 || global2, ?_⟩
    rw [flags2, flags1]
    simp only [Bool.or_assoc]
  tlsModule set := by
    have same := first.tlsModule set
    rw [← same] at set ⊢
    exact second.tlsModule set
  tlsOffset same := by
    have middle := first.tls_between second same
    rw [second.tlsOffset (same.trans middle.symm), first.tlsOffset middle]

theorem Visible.Marks.antisymm {v v' : Visible} (first : v.Marks v') (second : v'.Marks v) :
    v' = v := by
  have tls := first.tls_between second rfl
  have flags : v'.flags = v.flags := by
    obtain ⟨now1, outdated1, global1, flags1⟩ := first.flags
    obtain ⟨now2, outdated2, global2, flags2⟩ := second.flags
    grind
  exact Visible.ext first.name flags tls (first.tlsOffset tls) first.base first.dynamic

/-- A step that leaves an identity as it was exactly under the condition `P`. -/
def ObjectIdentity.Step (P : Visible → Prop) (i i' : ObjectIdentity) : Prop :=
  i.visible.Marks i'.visible ∧ (i'.visible = i.visible ↔ P i.visible)

section Step

variable {P Q : Visible → Prop} {i j k : ObjectIdentity}

theorem step_of_visible (same : j.visible = i.visible) : i.Step (fun _ => True) j :=
  ⟨same ▸ Visible.Marks.refl _, by simp [same]⟩

theorem ObjectIdentity.Step.comp (first : i.Step P j) (second : j.Step Q k) :
    i.Step (fun v => P v ∧ Q v) k := by
  refine ⟨first.1.trans second.1, ?_, ?_⟩
  · intro same
    have middle : j.visible = i.visible := first.1.antisymm (same ▸ second.1)
    exact ⟨first.2.mp middle, middle ▸ second.2.mp (same.trans middle.symm)⟩
  · rintro ⟨holds, holds'⟩
    have middle := first.2.mpr holds
    rw [second.2.mpr (middle ▸ holds'), middle]

theorem ObjectIdentity.Step.congr (step : i.Step P j) (same : P i.visible ↔ Q i.visible) :
    i.Step Q j :=
  ⟨step.1, step.2.trans same⟩

end Step

section Edits

variable {B : Set Nat} {file : Nat} {P Q : Visible → Prop} {s s₁ s₂ : Loader}

/-- The relation between the identities may use which one was edited. -/
theorem Edits.mono_found {E E' : ObjectIdentity → ObjectIdentity → Prop}
    (edits : Edits B E file s s₁)
    (weaker : ∀ i i', s.identity file = some i → E i i' → E' i i') : Edits B E' file s s₁ := by
  refine ⟨edits.fresh, edits.target, edits.processStarted, edits.updatePending,
    edits.relocations, ?_⟩
  intro i found old
  obtain ⟨f, new, opened, keep, edited, rest⟩ := edits.edited i found old
  exact ⟨f, new, opened, keep, weaker i _ found edited, rest⟩

theorem Edits.step (first : Edits B (ObjectIdentity.Step P) file s s₁)
    (second : Edits B (ObjectIdentity.Step Q) file s₁ s₂) :
    Edits B (ObjectIdentity.Step fun v => P v ∧ Q v) file s s₂ :=
  first.comp second fun _ _ _ => ObjectIdentity.Step.comp

theorem Edits.step_congr (edits : Edits B (ObjectIdentity.Step P) file s s₁)
    (same : ∀ i, s.identity file = some i → (P i.visible ↔ Q i.visible)) :
    Edits B (ObjectIdentity.Step Q) file s s₁ :=
  edits.mono_found fun i _ found step => step.congr (same i found)

theorem Edits.step_of_silent (edits : Edits B (ObjectIdentity.Silent u k) file s s₁)
    (holds : ∀ v, P v) :
    Edits B (ObjectIdentity.Step P) file s s₁ :=
  edits.mono fun i _ silent => (step_of_visible silent.visible).congr (by simp [holds])

theorem keeps_step_of_silent {x : LoaderM α}
    (silent : Keeps (Edits B (ObjectIdentity.Silent u k) file) x) (holds : ∀ v, P v) :
    Keeps (Edits B (ObjectIdentity.Step P) file) x :=
  silent.mono fun _ _ edits => edits.step_of_silent holds

theorem Quiet.step (quiet : Quiet s s₁) (holds : ∀ v, P v) :
    Edits B (ObjectIdentity.Step P) file s s₁ :=
  (quiet.grows.edits : Edits B Eq file s s₁).mono fun i _ same =>
    (step_of_visible (same ▸ rfl)).congr (by simp [holds])

/-- A loop leaves the identity as it was exactly if each iteration does. -/
theorem step_forEach {f : α → LoaderM Unit} {P : α → Visible → Prop}
    (each : ∀ a, Keeps (Edits B (ObjectIdentity.Step (P a)) file) (f a)) (l : List α) :
    Keeps (Edits B (ObjectIdentity.Step fun v => ∀ a ∈ l, P a v) file) (forEach f l) := by
  induction l with
  | nil =>
    intro s u s' run
    cases run
    exact (Quiet.refl s).step fun v a member => absurd member List.not_mem_nil
  | cons a l ih =>
    intro s u s' run
    obtain ⟨_, s₁, first, rest⟩ := bind_inv run
    refine ((each a _ _ _ first).step (ih _ _ _ rest)).step_congr fun i _ => ?_
    rw [List.forall_mem_cons]

end Edits

/-! ## Segments -/

/-- The segment is thread local storage that has to be registered. -/
def Segment.RegistersTls (segment : Segment) : Prop := segment.type = .tls ∧ 0 < segment.virtSize

/-- The number of memory segments of a segment, which may be split behind its read-only
part. -/
def Segment.memoryCount (relro : Option Segment) (segment : Segment) : Nat :=
  if segment.type ≠ .load ∨ segment.virtSize = 0 then 0
  else
    match relro.filter fun r => segment.offset = r.offset && segment.virtAddr = r.virtAddr &&
      segment.alignment = 0x1000 with
    | some r => if segment.virtSize ≠ r.virtSize then 2 else 1
    | none => 1

/-- The new object `o` has as many memory segments as the previous one, at least one. -/
def Loader.SegmentsMatch (s : Loader) (o : Object) (previous : Nat) : Prop :=
  let count := (s.memoryMap o.uid).length +
    (o.elf.segments.map (Segment.memoryCount o.elf.relro)).sum
  count = (s.memoryMap previous).length ∧ count ≠ 0

theorem toMemory_length {l : List MemorySegment} (load : segment.type = .load)
    (made : segment.toMemory premapped base relro = some l) :
    l.length = segment.memoryCount relro := by
  unfold Segment.toMemory at made
  unfold Segment.memoryCount
  by_cases empty : segment.virtSize = 0
  · rw [if_pos empty] at made
    rw [if_pos (.inr empty), ← Option.some.inj made, List.length_nil]
  · rw [if_neg empty] at made
    rw [if_neg (by simp [load, empty])]
    generalize relro.filter _ = covering at made ⊢
    cases covering with
    | some r =>
      obtain ⟨head, -, made⟩ := Option.bind_eq_some_iff.mp made
      dsimp only
      split at made
      · rename_i rest
        obtain ⟨_, -, made⟩ := Option.bind_eq_some_iff.mp made
        obtain ⟨tail, -, made⟩ := Option.bind_eq_some_iff.mp made
        rw [if_pos rest, ← Option.some.inj made]
        rfl
      · rename_i rest
        rw [if_neg rest, ← Option.some.inj made]
        rfl
    | none =>
      obtain ⟨seg, -, made⟩ := Option.bind_eq_some_iff.mp made
      rw [← Option.some.inj made]
      rfl

section Segments

variable {B : Set Nat} {r : ObjectRef} {s s' : Loader}

theorem addTlsModule_visible {file size align image imageSize : Nat} {u : Unit}
    (run : addTlsModule file size align image imageSize s = some (u, s')) :
    Edits B (fun i i' => ∃ n offset, n ≠ 0 ∧
      i'.visible = { i.visible with tlsModuleId := n, tlsOffset := offset }) file s s' := by
  obtain ⟨-, run⟩ := require_bind_inv run
  rw [bind_of_eq (get_apply s)] at run
  obtain ⟨_, s₁, set, run⟩ := bind_inv run
  have isSet : (s.tls.addModule file size align image imageSize).1 ≠ 0 := by
    unfold Tls.addModule
    split <;> simp
  have first : Keeps (Edits B (fun i i' => ∃ n offset, n ≠ 0 ∧
      i'.visible = { i.visible with tlsModuleId := n, tlsOffset := offset }) file)
      (modify (Loader.modifyIdentity file (ObjectIdentity.setTls
        (s.tls.addModule file size align image imageSize).1
        (s.tls.addModule file size align image imageSize).2.1))) :=
    edits_modifyIdentity (fun _ => rfl) fun i => ⟨_, _, isSet, rfl⟩
  have second : Grows s₁ s' := by
    cases run
    exact ⟨le_rfl, rfl, rfl, rfl, fun _ => rfl, fun _ => ⟨[], [], by simp, Added.nil _ _,
      by simp, rfl⟩⟩
  exact (first _ _ _ set).comp (second.edits : Edits B Eq file s₁ s') fun _ _ _ one two =>
    two ▸ one

/-- Registering thread local storage for the first time shows. -/
theorem step_of_tls {P : Visible → Prop} {i i' : ObjectIdentity} (unset : i.tlsModuleId = 0)
    {n : Nat} {offset : Int} (isSet : n ≠ 0)
    (registered : i'.visible = { i.visible with tlsModuleId := n, tlsOffset := offset })
    (fails : ¬ P i.visible) : i.Step P i' := by
  have shows : i'.visible.tlsModuleId ≠ i.visible.tlsModuleId := by
    rw [registered]
    exact fun same => isSet (same.trans unset)
  refine ⟨⟨?_, ?_, ?_, ⟨false, false, false, ?_⟩, fun set => absurd unset set, fun same =>
    absurd same shows⟩, fun same => ?_, fun holds => absurd holds fails⟩
  · rw [registered]
  · rw [registered]
  · rw [registered]
  · rw [registered]
    simp
  · exact absurd (congrArg Visible.tlsModuleId same) shows

theorem step_preloadSegment (premapped : Bool) (base : Nat) (relro : Option Segment)
    (segment : Segment) :
    Keeps (Edits B (ObjectIdentity.Step fun v => segment.RegistersTls → v.tlsModuleId ≠ 0) r.file)
      (preloadSegment r premapped base relro segment) := by
  intro s u s' run
  unfold preloadSegment at run
  have other : segment.type ≠ .tls → Quiet s s' → Edits B (ObjectIdentity.Step fun v =>
      segment.RegistersTls → v.tlsModuleId ≠ 0) r.file s s' :=
    fun different quiet => quiet.step fun v registers => absurd registers.1 different
  cases type : segment.type with
  | load =>
    simp only [type] at run
    refine other (by simp [type]) ?_
    have quiet : Keeps Quiet (do
        let segments ← orAbort (segment.toMemory premapped base relro)
        modify fun s => s.setMemoryMap r.uid (s.memoryMap r.uid ++ segments)) := by
      refine keeps_bind (keeps_orAbort _) fun segments => ?_
      exact keeps_modify fun s => ⟨rfl, rfl, rfl, rfl, rfl, rfl, rfl, rfl, rfl, le_rfl⟩
    exact quiet _ _ _ run
  | tls =>
    simp only [type] at run
    obtain ⟨i, found, run⟩ := getIdentity_bind_inv run
    split at run
    · rename_i needed
      rw [Bool.and_eq_true, decide_eq_true_eq, decide_eq_true_eq] at needed
      refine (addTlsModule_visible run).mono_found fun j j' found' registered => ?_
      obtain ⟨n, offset, isSet, registered⟩ := registered
      cases found.symm.trans found'
      refine step_of_tls needed.2 isSet registered fun holds => ?_
      exact holds ⟨type, needed.1⟩ needed.2
    · rename_i unneeded
      cases run
      refine ((Quiet.refl s).step (P := fun _ => True) fun _ => trivial).step_congr ?_
      intro j found'
      cases found.symm.trans found'
      refine ⟨fun _ registers set => unneeded ?_, fun _ => trivial⟩
      have set : i.tlsModuleId = 0 := set
      simp [registers.2, set]
  | dynamic =>
    simp only [type] at run
    exact other (by simp [type]) (by cases run; exact Quiet.refl s)
  | gnuEhFrame =>
    simp only [type] at run
    exact other (by simp [type]) (by cases run; exact Quiet.refl s)
  | gnuRelro =>
    simp only [type] at run
    exact other (by simp [type]) (by cases run; exact Quiet.refl s)
  | other value =>
    simp only [type] at run
    exact other (by simp [type]) (by cases run; exact Quiet.refl s)

theorem preloadSegment_count {u : Unit}
    (run : preloadSegment r premapped base relro segment s = some (u, s')) :
    (s'.memoryMap r.uid).length = (s.memoryMap r.uid).length + segment.memoryCount relro ∧
      ∀ v, v ≠ r.uid → s'.memoryMap v = s.memoryMap v := by
  have none : segment.type ≠ .load → s'.memoryMap = s.memoryMap →
      (s'.memoryMap r.uid).length = (s.memoryMap r.uid).length + segment.memoryCount relro ∧
        ∀ v, v ≠ r.uid → s'.memoryMap v = s.memoryMap v := by
    intro different same
    rw [same, Segment.memoryCount, if_pos (.inl different)]
    exact ⟨rfl, fun _ _ => rfl⟩
  unfold preloadSegment at run
  cases type : segment.type with
  | load =>
    simp only [type] at run
    obtain ⟨l, made, run⟩ := orAbort_bind_inv run
    cases modify_inv run
    have length := toMemory_length type made
    refine ⟨?_, fun v different => ?_⟩
    · simp [Loader.setMemoryMap, length]
    · simp [Loader.setMemoryMap, different]
  | tls =>
    simp only [type] at run
    refine none (by simp [type]) ?_
    obtain ⟨i, -, run⟩ := getIdentity_bind_inv run
    split at run
    · obtain ⟨-, run⟩ := require_bind_inv run
      cases run
      rfl
    · cases run
      rfl
  | dynamic =>
    simp only [type] at run
    exact none (by simp [type]) (by cases run; rfl)
  | gnuEhFrame =>
    simp only [type] at run
    exact none (by simp [type]) (by cases run; rfl)
  | gnuRelro =>
    simp only [type] at run
    exact none (by simp [type]) (by cases run; rfl)
  | other value =>
    simp only [type] at run
    exact none (by simp [type]) (by cases run; rfl)

theorem preloadSegment_counts {u : Unit} (l : List Segment) : ∀ s : Loader,
    forEach (preloadSegment r premapped base relro) l s = some (u, s') →
    (s'.memoryMap r.uid).length =
        (s.memoryMap r.uid).length + (l.map (Segment.memoryCount relro)).sum ∧
      ∀ v, v ≠ r.uid → s'.memoryMap v = s.memoryMap v := by
  induction l with
  | nil =>
    intro s run
    cases run
    exact ⟨rfl, fun _ _ => rfl⟩
  | cons segment l ih =>
    intro s run
    obtain ⟨_, s₁, first, rest⟩ := bind_inv run
    obtain ⟨length1, others1⟩ := preloadSegment_count first
    obtain ⟨length2, others2⟩ := ih s₁ rest
    refine ⟨?_, fun v different => (others2 v different).trans (others1 v different)⟩
    rw [length2, length1, List.map_cons, List.sum_cons, Nat.add_assoc]

end Segments

/-! ## Versions -/

theorem filePrevious_uid (s : Loader) (r : ObjectRef) :
    (s.filePrevious r).map Object.uid = (s.identity r.file).bind fun i =>
      (((i.versions.map Object.uid).dropWhile fun u => u ≠ r.uid).drop 1).head? := by
  unfold Loader.filePrevious
  cases s.identity r.file with
  | none => rfl
  | some i =>
    rw [Option.bind_some, Option.bind_some, ← List.head?_map, List.map_drop, List.dropWhile_map]
    rfl

theorem lookup_edited {l l' : List Object} (edited : List.Forall₂ (Object.Edited u k) l l')
    {uid : Nat} (found : lookup Object.uid l uid = some o) :
    ∃ o', lookup Object.uid l' uid = some o' ∧ o.Edited u k o' := by
  induction edited with
  | nil => cases found
  | cons first _ ih =>
    rw [lookup_cons] at found ⊢
    rw [first.uid]
    split at found
    · cases found
      rename_i same
      rw [if_pos same]
      exact ⟨_, rfl, first⟩
    · rename_i different
      rw [if_neg different]
      exact ih found

theorem Edits.object {B : Set Nat} {r : ObjectRef} {s s' : Loader}
    (edits : Edits B (ObjectIdentity.Edited u k) r.file s s') (old : s.Old)
    (found : s.object r = some o) : ∃ o', s'.object r = some o' ∧ o.Edited u k o' := by
  obtain ⟨i, isIdentity, version⟩ := Option.bind_eq_some_iff.mp found
  obtain ⟨-, i', isIdentity', edited⟩ := edits.next isIdentity old
  obtain ⟨o', version', same⟩ := lookup_edited edited.versions version
  refine ⟨o', ?_, same⟩
  unfold Loader.object
  rw [isIdentity', Option.bind_some, version']

/-! ## Preloading -/

/-- The flags that an entry of the dynamic section sets are set already. -/
def Dyn.Kept (flags : Flags) : Dyn → Prop
  | .flags value => value &&& dfBindNow ≠ 0 → flags.bindNow = true
  | .flags1 value => (value &&& df1Now ≠ 0 → flags.bindNow = true) ∧
      (value &&& df1Global ≠ 0 → flags.bindGlobal = true)
  | _ => True

section Preload

variable {e : Env} {B : Set Nat} {r : ObjectRef} {s s' : Loader} {o : Object} {i : ObjectIdentity}

theorem preloadSegments_step (old : s.Old) (found : s.object r = some o)
    (identity : s.identity r.file = some i) {previous : Nat} {rest : List Nat}
    (chain : i.versions.map Object.uid = r.uid :: previous :: rest) (different : previous ≠ r.uid)
    (run : preloadSegments r true s = some (ok, s')) :
    Edits B (ObjectIdentity.Step fun v =>
        ∀ segment ∈ o.elf.segments, segment.RegistersTls → v.tlsModuleId ≠ 0) r.file s s' ∧
      (ok ↔ s.SegmentsMatch o previous) := by
  obtain ⟨i', identity', run⟩ := getIdentity_bind_inv run
  obtain ⟨o', found', run⟩ := getObject_bind_inv run
  cases identity.symm.trans identity'
  cases found.symm.trans found'
  obtain ⟨u, s₁, loop, run⟩ := bind_inv run
  change forEach (preloadSegment r i.flags.premapped o.base o.elf.relro) o.elf.segments s =
    some (u, s₁) at loop
  have step := step_forEach (B := B) (fun segment =>
    step_preloadSegment i.flags.premapped o.base o.elf.relro segment) o.elf.segments _ _ _ loop
  obtain ⟨count, others⟩ := preloadSegment_counts o.elf.segments s loop
  have edited : Edits B (ObjectIdentity.Edited 0 .dynamic) r.file s s₁ :=
    keeps_forEach _ (fun segment _ => edited_preloadSegment r _ _ _ segment) _ _ _ loop
  obtain ⟨-, i1, identity1, same⟩ := edited.next identity old
  obtain ⟨p, isPrevious, isUid⟩ : ∃ p, s₁.filePrevious r = some p ∧ p.uid = previous := by
    have uid := filePrevious_uid s₁ r
    rw [identity1, Option.bind_some, uids_edited same.versions, chain] at uid
    exact Option.map_eq_some_iff.mp (by simpa using uid)
  rw [bind_of_eq (get_apply s₁)] at run
  simp only [isPrevious] at run
  unfold Loader.SegmentsMatch
  rw [Loader.uid_of_object found, ← count, ← others previous different, ← isUid]
  split at run
  · rename_i lengths
    cases run
    exact ⟨step, by simp [lengths]⟩
  · rename_i lengths
    obtain ⟨_, s₂, shared, run⟩ := bind_inv run
    cases run
    have quiet : Quiet s₁ s' := by
      cases modify_inv shared
      exact ⟨rfl, rfl, rfl, rfl, rfl, rfl, rfl, rfl, rfl, le_rfl⟩
    refine ⟨(step.step (quiet.step fun _ => trivial)).step_congr fun _ _ => by
      rw [and_true], ?_⟩
    rw [not_not] at lengths
    rw [and_iff_right lengths, Bool.not_eq_true', List.isEmpty_eq_false_iff]
    exact List.length_eq_zero_iff.not.symm

theorem step_preloadDyn (dyn : Dyn) :
    Keeps (Edits B (ObjectIdentity.Step fun v => dyn.Kept v.flags) r.file) (preloadDyn e r dyn) := by
  have object : ∀ g : Object → Object, (∀ o : Object, o.Edited 0 .dynamic (g o)) →
      Keeps (Edits B (ObjectIdentity.Silent 0 .dynamic) r.file)
        (modify (Loader.modifyObject r g)) :=
    fun g step => silent_modifyObject fun o _ => step o
  have paths : ∀ text i, Keeps Quiet (addpath e i text) := by
    unfold addpath
    grind
  cases dyn with
  | soname name =>
    refine keeps_step_of_silent (u := 0) (k := .dynamic) ?_ fun _ => trivial
    exact object _ fun _ => ⟨rfl, rfl, rfl, rfl, fun _ => rfl, fun _ => rfl⟩
  | rpath text =>
    refine keeps_step_of_silent (u := 0) (k := .dynamic) ?_ fun _ => trivial
    refine keeps_bind (edits_of_quiet (frame_getIdentity _)) fun i => ?_
    refine keeps_bind (edits_of_quiet (paths text i)) fun entries => object _ fun _ => ?_
    exact ⟨rfl, rfl, rfl, rfl, fun _ => rfl, fun _ => rfl⟩
  | runpath text =>
    refine keeps_step_of_silent (u := 0) (k := .dynamic) ?_ fun _ => trivial
    refine keeps_bind (edits_of_quiet (frame_getIdentity _)) fun i => ?_
    refine keeps_bind (edits_of_quiet (paths text i)) fun entries => object _ fun _ => ?_
    exact ⟨rfl, rfl, rfl, rfl, fun _ => rfl, fun _ => rfl⟩
  | flags value =>
    refine edits_modifyIdentity (fun _ => rfl) fun i => ?_
    refine ⟨⟨rfl, rfl, rfl, ⟨decide (value &&& dfBindNow ≠ 0), false, false, ?_⟩, fun _ => rfl,
      fun _ => rfl⟩, ?_⟩
    · simp [ObjectIdentity.visible]
    · simp only [ObjectIdentity.visible, Dyn.Kept]
      generalize i.flags = flags
      rcases flags with ⟨now⟩
      cases now <;> simp
  | flags1 value =>
    refine edits_modifyIdentity (fun _ => rfl) fun i => ?_
    refine ⟨⟨rfl, rfl, rfl, ⟨decide (value &&& df1Now ≠ 0), false,
      decide (value &&& df1Global ≠ 0), ?_⟩, fun _ => rfl, fun _ => rfl⟩, ?_⟩
    · simp [ObjectIdentity.visible]
    · simp only [ObjectIdentity.visible, Dyn.Kept]
      generalize i.flags = flags
      rcases flags with ⟨now, _, global⟩
      cases now <;> cases global <;> simp
  | needed library =>
    rintro s _ s' ⟨⟩
    exact (Quiet.refl s).step fun _ => trivial
  | pltgot address =>
    rintro s _ s' ⟨⟩
    exact (Quiet.refl s).step fun _ => trivial
  | other tag value =>
    rintro s _ s' ⟨⟩
    exact (Quiet.refl s).step fun _ => trivial

/-- The check for external symbols passes. -/
def Object.MissesNone (e : Env) (s : Loader) (i : ObjectIdentity) (o : Object) : Prop :=
  e.config.forceUpdate = true ∨ o.missingSymbols e s i = some []

/-- There are sections with thread local storage. -/
def Object.HasTls (o : Object) (premapped : Bool) (previous : Object) : Prop :=
  ∃ l, (List.range o.elf.sections.length).foldlM (Layout.addSection premapped (some previous))
    ⟨o, [], none, none⟩ = some l ∧ (l.tdata.isSome || l.tbss.isSome) = true

/-- What `preload` writes to the identity when the object `o` has been installed on top of
`previous` is there already. -/
def Loader.PreloadKept (e : Env) (s : Loader) (i : ObjectIdentity) (o previous : Object)
    (v : Visible) : Prop :=
  match o.kind with
  | .relocatable => o.MissesNone e s i → o.HasTls i.flags.premapped previous → v.tlsModuleId ≠ 0
  | _ => (∀ segment ∈ o.elf.segments, segment.RegistersTls → v.tlsModuleId ≠ 0) ∧
      (s.SegmentsMatch o previous.uid → ∀ dyn ∈ o.elf.dynamicTable, dyn.Kept v.flags)

theorem preloadRelocatable_step (found : s.object r = some o)
    (identity : s.identity r.file = some i) (isPrevious : s.filePrevious r = some previous)
    (run : preloadRelocatable e r s = some (ok, s')) :
    Edits B (ObjectIdentity.Step fun v => o.MissesNone e s i →
      o.HasTls i.flags.premapped previous → v.tlsModuleId ≠ 0) r.file s s' := by
  unfold preloadRelocatable at run
  rw [bind_of_eq (get_apply s)] at run
  obtain ⟨o', found', run⟩ := getObject_bind_inv run
  obtain ⟨i', identity', run⟩ := getIdentity_bind_inv run
  cases found.symm.trans found'
  cases identity.symm.trans identity'
  obtain ⟨missing, isMissing, run⟩ := orAbort_bind_inv run
  rw [isPrevious, Option.isSome_some, Bool.true_and] at isMissing
  have passes : o.MissesNone e s i ↔ missing = [] := by
    unfold Object.MissesNone
    cases force : e.config.forceUpdate with
    | true =>
      rw [force] at isMissing
      simp only [Bool.not_true, Bool.false_eq_true, ↓reduceIte, Option.some.injEq] at isMissing
      simp [isMissing]
    | false =>
      rw [force] at isMissing
      simp only [Bool.not_false, ↓reduceIte] at isMissing
      simp [isMissing]
  split at run
  · rename_i misses
    cases run
    refine (Quiet.refl s).step fun v none => ?_
    rw [passes.mp none] at misses
    exact absurd misses (by simp)
  · rename_i missesNone
    obtain ⟨l, laidOut, run⟩ := orAbort_bind_inv run
    rw [isPrevious] at laidOut
    obtain ⟨_, s₁, written, run⟩ := bind_inv run
    obtain ⟨_, s₂, mapped, run⟩ := bind_inv run
    obtain ⟨_, s3, registered, run⟩ := bind_inv run
    cases run
    have first : Edits B (ObjectIdentity.Silent r.uid .relocatable) r.file s s₁ := by
      refine silent_modifyObject (fun o isRef => ?_) _ _ _ written
      exact ⟨rfl, rfl, rfl, rfl, fun other => absurd other (by simp [isRef]), fun _ => rfl⟩
    have second : Quiet s₁ s₂ := by
      cases modify_inv mapped
      exact ⟨rfl, rfl, rfl, rfl, rfl, rfl, rfl, rfl, rfl, le_rfl⟩
    have unset : ∀ j, s₂.identity r.file = some j → j.tlsModuleId = i.tlsModuleId := by
      intro j found2
      rw [Loader.identity_congr second.lookup, modify_inv written] at found2
      have same := found2.symm.trans (Loader.identity_modifyIdentity_same
        fun _ => rfl)
      rw [identity] at same
      rw [Option.some.inj same]
      rfl
    have hasTls : o.HasTls i.flags.premapped previous ↔ (l.tdata.isSome || l.tbss.isSome) := by
      refine ⟨fun ⟨l', laidOut', sections⟩ => ?_, fun sections => ⟨l, laidOut, sections⟩⟩
      rw [← Option.some.inj (laidOut.symm.trans laidOut')] at sections
      exact sections
    have third : Edits B (ObjectIdentity.Step fun v => o.MissesNone e s i →
        o.HasTls i.flags.premapped previous → v.tlsModuleId ≠ 0) r.file s₂ s' := by
      unfold Exec.onlyIf at registered
      split at registered
      · rename_i isNew
        rw [Bool.and_eq_true, decide_eq_true_eq] at isNew
        refine (addTlsModule_visible registered).mono_found fun j j' found2 ⟨n, offset, isSet,
          shown⟩ => step_of_tls ((unset j found2).trans isNew.2) isSet shown fun holds => ?_
        refine holds (passes.mpr ?_) (hasTls.mpr isNew.1) ((unset j found2).trans isNew.2)
        simpa using missesNone
      · rename_i isOld
        rw [(pure_inv registered).2]
        refine ((Quiet.refl s₂).step (P := fun _ => True) fun _ => trivial).step_congr ?_
        refine fun j found2 => ⟨fun _ _ sections zero => isOld ?_, fun _ => trivial⟩
        have zero : j.tlsModuleId = 0 := zero
        rw [hasTls.mp sections, ← unset j found2, zero]
        rfl
    have whole := ((first.step_of_silent (P := fun _ => True) fun _ => trivial).step
      (second.step (P := fun _ => True) fun _ => trivial)).step third
    exact whole.step_congr fun _ _ => by rw [true_and, true_and]

variable {library : LibraryCall} (grows : library.Keeps Grows)

include grows

theorem preloadLibraries_step (found : s.object r = some o)
    (run : preloadLibraries e library r s = some (ok, s')) :
    Edits B (ObjectIdentity.Step fun v => ∀ dyn ∈ o.elf.dynamicTable, dyn.Kept v.flags)
      r.file s s' := by
  obtain ⟨o', found', run⟩ := getObject_bind_inv run
  cases found.symm.trans found'
  obtain ⟨_, s₁, entries, run⟩ := bind_inv run
  obtain ⟨i, -, run⟩ := getIdentity_bind_inv run
  have first := step_forEach (B := B) (fun dyn => step_preloadDyn dyn) _ _ _ _ entries
  have second : Edits B (ObjectIdentity.Silent r.uid .dynamic) r.file s₁ s' :=
    keeps_eachOf _ (fun lib _ => silent_preloadLibrary grows rfl rfl lib) _ _ _ run
  refine (first.step (second.step_of_silent (P := fun _ => True) fun _ => trivial)).step_congr ?_
  exact fun _ _ => by rw [and_true]

/-- `preload` of an installed version that replaces `previous`. -/
theorem preload_step (old : s.Old) (identity : s.identity o.file = some i) {rest : List Object}
    (versions : i.versions = o :: previous :: rest) (different : previous.uid ≠ o.uid)
    (kind : o.kind ≠ .executable) (run : preload e library o.ref o.kind s = some (ok, s')) :
    Edits B (ObjectIdentity.Step (s.PreloadKept e i o previous)) o.file s s' := by
  have found : s.object o.ref = some o := by
    unfold Loader.object
    rw [show o.ref.file = o.file from rfl, identity, Option.bind_some, versions, lookup_cons]
    exact if_pos rfl
  unfold Loader.PreloadKept
  cases isKind : o.kind with
  | executable => exact absurd isKind kind
  | dynamic =>
    simp only [isKind] at run ⊢
    obtain ⟨loaded, s₁, segments, run⟩ := bind_inv run
    obtain ⟨first, isLoaded⟩ := preloadSegments_step (B := B) old found identity
      (by rw [versions]; rfl) different segments
    cases loaded with
    | false =>
      cases run
      have unmatched : ¬ s.SegmentsMatch o previous.uid := fun matched =>
        Bool.false_ne_true (isLoaded.mpr matched)
      exact first.step_congr fun _ _ => by simp [unmatched]
    | true =>
      have edited : Edits B (ObjectIdentity.Edited o.uid .dynamic) o.ref.file s s₁ :=
        edited_preloadSegments o.ref true _ _ _ segments
      obtain ⟨o1, found1, same⟩ := edited.object old found
      have second := preloadLibraries_step (B := B) grows found1 run
      rw [same.elf (.inr (by decide))] at second
      refine (first.step second).step_congr fun _ _ => ?_
      simp [isLoaded.mp rfl]
  | relocatable =>
    simp only [isKind] at run ⊢
    have isPrevious : s.filePrevious o.ref = some previous := by
      unfold Loader.filePrevious
      rw [show o.ref.file = o.file from rfl, identity, Option.bind_some, versions]
      simp [Object.ref]
    exact preloadRelocatable_step found identity isPrevious run

end Preload

end Luci
