import Luci.Proofs.Frame
import Mathlib.Data.List.Flatten

/-!
# What loading a file can change

Loading a version of an identity writes to this identity and may append identities to the
lookup list, for the libraries it needs. `Grows` is what such a library call does to
the rest: nothing but to append. `Edits` adds the writes to the identity itself, up to
a relation between the identity before and after.
-/

namespace Luci

open Exec KeyedList

variable {hi lo u : Nat} {i : ObjectIdentity} {g : Object → Object} {s s' s₁ s₂ s₃ : Loader}
  {new : List ObjectIdentity} {f : ObjectIdentity → ObjectIdentity}

/-! ## Identities -/

/-- What `create` notes about the file of a version. -/
def Object.stamp (o : Object) : Data × Bool := (o.data, o.binaryHash)

/-- A version that was edited on the way to a new version `u` of a kind: other versions keep
their file and dependencies, and only relocatable files are rewritten. -/
structure Object.Edited (u : Nat) (k : ObjectKind) (o o' : Object) : Prop where
  uid : o'.uid = o.uid
  file : o'.file = o.file
  kind : o'.kind = o.kind
  stamp : o'.stamp = o.stamp
  elf : o.uid ≠ u ∨ k ≠ .relocatable → o'.elf = o.elf
  dependencies : o.uid ≠ u → o'.dependencies = o.dependencies

theorem Object.Edited.refl (u : Nat) (k : ObjectKind) (o : Object) : o.Edited u k o :=
  ⟨rfl, rfl, rfl, rfl, fun _ => rfl, fun _ => rfl⟩

theorem Object.Edited.trans {k : ObjectKind} {o1 o2 o3 : Object} (first : o1.Edited u k o2)
    (second : o2.Edited u k o3) : o1.Edited u k o3 where
  uid := second.uid.trans first.uid
  file := second.file.trans first.file
  kind := second.kind.trans first.kind
  stamp := second.stamp.trans first.stamp
  elf other := by
    rw [← first.elf other]
    exact second.elf (first.uid ▸ other)
  dependencies other := by
    rw [← first.dependencies other]
    exact second.dependencies (first.uid ▸ other)

/-- The members of an identity that a load without effect leaves alone. -/
@[ext]
structure Visible where
  name : String
  flags : Flags
  tlsModuleId : Nat
  tlsOffset : Int
  base : Nat
  dynamic : Nat
  deriving DecidableEq

def ObjectIdentity.visible (i : ObjectIdentity) : Visible :=
  ⟨i.name, i.flags, i.tlsModuleId, i.tlsOffset, i.base, i.dynamic⟩

/-- An identity whose members were written to, but not its chain of versions. -/
structure ObjectIdentity.Edited (u : Nat) (k : ObjectKind) (i i' : ObjectIdentity) : Prop where
  id : i'.id = i.id
  ns : i'.ns = i.ns
  initialized : i'.flags.initialized = i.flags.initialized
  updatable : i'.flags.updatable = i.flags.updatable
  premapped : i'.flags.premapped = i.flags.premapped
  skipIdentical : i'.flags.skipIdentical = i.flags.skipIdentical
  bindGlobal : i.flags.bindGlobal = true → i'.flags.bindGlobal = true
  versions : List.Forall₂ (Object.Edited u k) i.versions i'.versions

/-- An identity of which only hooks, watch and versions were written to. -/
structure ObjectIdentity.Silent (u : Nat) (k : ObjectKind) (i i' : ObjectIdentity) : Prop
    extends ObjectIdentity.Edited u k i i' where
  visible : i'.visible = i.visible

section Identities

variable {u : Nat} {k : ObjectKind} {i i' : ObjectIdentity}

theorem versions_edited_refl (versions : List Object) :
    List.Forall₂ (Object.Edited u k) versions versions :=
  List.forall₂_same.mpr fun o _ => Object.Edited.refl u k o

theorem versions_edited_trans {l1 l2 l3 : List Object}
    (first : List.Forall₂ (Object.Edited u k) l1 l2)
    (second : List.Forall₂ (Object.Edited u k) l2 l3) :
    List.Forall₂ (Object.Edited u k) l1 l3 := by
  induction first generalizing l3 with
  | nil => exact second
  | cons one _ ih =>
    obtain ⟨o, l, two, rest, rfl⟩ := List.forall₂_cons_left_iff.mp second
    exact List.Forall₂.cons (one.trans two) (ih rest)

instance : IsPreorder ObjectIdentity (ObjectIdentity.Edited u k) where
  refl i := ⟨rfl, rfl, rfl, rfl, rfl, rfl, fun on => on, versions_edited_refl i.versions⟩
  trans _ _ _ first second :=
    { id := second.id.trans first.id
      ns := second.ns.trans first.ns
      initialized := second.initialized.trans first.initialized
      updatable := second.updatable.trans first.updatable
      premapped := second.premapped.trans first.premapped
      skipIdentical := second.skipIdentical.trans first.skipIdentical
      bindGlobal := fun on => second.bindGlobal (first.bindGlobal on)
      versions := by
        exact versions_edited_trans first.versions second.versions }

instance : IsPreorder ObjectIdentity (ObjectIdentity.Silent u k) where
  refl i := ⟨refl_of (ObjectIdentity.Edited u k) i, rfl⟩
  trans _ _ _ first second :=
    ⟨trans_of (ObjectIdentity.Edited u k) first.toEdited second.toEdited,
      second.visible.trans first.visible⟩

end Identities

/-! ## The lookup list -/

/-- The addresses of an identity and of its versions. -/
def ObjectIdentity.addresses (i : ObjectIdentity) : List Nat := i.id :: i.versions.map Object.uid

/-- Identities that were added at addresses from `lo` to `hi`. -/
structure Added (lo hi : Nat) (new : List ObjectIdentity) : Prop where
  range : ∀ x ∈ new.flatMap ObjectIdentity.addresses, lo ≤ x ∧ x < hi
  distinct : (new.flatMap ObjectIdentity.addresses).Nodup
  own : ∀ i ∈ new, ∀ o ∈ i.versions, o.file = i.id
  idle : ∀ i ∈ new, i.flags.initialized = false

theorem Added.nil (lo hi : Nat) : Added lo hi [] :=
  ⟨by simp, by simp, by simp, by simp⟩

theorem Added.mono {lo lo' hi hi' : Nat} (added : Added lo hi new) (lower : lo' ≤ lo)
    (upper : hi ≤ hi') : Added lo' hi' new where
  range x member := by
    have := added.range x member
    omega
  distinct := added.distinct
  own := added.own
  idle := added.idle

theorem Added.append {lo mid hi : Nat} {first second : List ObjectIdentity}
    (before : Added lo mid first) (after : Added mid hi second) (lower : lo ≤ mid)
    (upper : mid ≤ hi) : Added lo hi (first ++ second) where
  range x member := by
    rw [List.flatMap_append, List.mem_append] at member
    rcases member with member | member
    · have := before.range x member
      omega
    · have := after.range x member
      omega
  distinct := by
    rw [List.flatMap_append, List.nodup_append]
    refine ⟨before.distinct, after.distinct, ?_⟩
    rintro x inFirst y inSecond rfl
    have := before.range x inFirst
    have := after.range x inSecond
    omega
  own i member := (List.mem_append.mp member).elim (before.own i) (after.own i)
  idle i member := (List.mem_append.mp member).elim (before.idle i) (after.idle i)

theorem Added.single (range : ∀ x ∈ i.addresses, lo ≤ x ∧ x < hi) (distinct : i.addresses.Nodup)
    (own : ∀ o ∈ i.versions, o.file = i.id) (idle : i.flags.initialized = false) :
    Added lo hi [i] where
  range := by simpa only [List.flatMap_singleton] using range
  distinct := by simpa only [List.flatMap_singleton] using distinct
  own j member := by
    rw [List.mem_singleton.mp member]
    exact own
  idle j member := by
    rw [List.mem_singleton.mp member]
    exact idle

theorem Added.sublist {new new' : List ObjectIdentity} (added : Added lo hi new)
    (sublist : new'.Sublist new) : Added lo hi new' where
  range x member := added.range x ((sublist.flatMap _).subset member)
  distinct := (sublist.flatMap _).nodup added.distinct
  own i member := added.own i (sublist.subset member)
  idle i member := added.idle i (sublist.subset member)

theorem Added.id_range (added : Added lo hi new) : ∀ i ∈ new, lo ≤ i.id ∧ i.id < hi := by
  intro i member
  exact added.range i.id (List.mem_flatMap.mpr ⟨i, member, List.mem_cons_self ..⟩)

/-- The identities have addresses that are marked as used. -/
def Loader.Old (s : Loader) : Prop := ∀ i ∈ s.lookup, i.id < s.fresh

theorem Loader.Old.of_lookup (old : s.Old) (lookup : s'.lookup = s.lookup)
    (fresh : s.fresh ≤ s'.fresh) : s'.Old := by
  intro i member
  rw [lookup] at member
  exact (old i member).trans_le fresh

theorem Loader.Old.file (old : s.Old) {file : Nat} (found : s.identity file = some i) :
    file < s.fresh :=
  Loader.id_of_identity found ▸ old i (Loader.mem_of_identity found)

theorem Loader.Old.grown (old : s.Old) {file : Nat} (keep : ∀ a, (f a).id = a.id)
    (lookup : s'.lookup = update ObjectIdentity.id file f s.lookup ++ new)
    (added : Added s.fresh s'.fresh new) (fresh : s.fresh ≤ s'.fresh) : s'.Old := by
  intro i member
  rw [lookup, List.mem_append] at member
  rcases member with member | member
  · have isOld : i.id ∈ s.lookup.map ObjectIdentity.id := by
      rw [← keys_update keep file]
      exact List.mem_map_of_mem member
    obtain ⟨a, inLookup, same⟩ := List.mem_map.mp isOld
    exact same ▸ (old a inLookup).trans_le fresh
  · exact (added.id_range i member).2

/-- Identities were appended, one for each successful `open`, and nothing else changed. -/
structure Grows (s s' : Loader) : Prop where
  fresh : s.fresh ≤ s'.fresh
  target : s'.target = s.target
  processStarted : s'.processStarted = s.processStarted
  updatePending : s'.updatePending = s.updatePending
  relocations : s.Old → s'.relocations = s.relocations
  added : s.Old → ∃ (new : List ObjectIdentity) (opened : List Nat),
    s'.lookup = s.lookup ++ new ∧ Added s.fresh s'.fresh new ∧
      s'.events = s.events ++ opened.map Event.opened ∧ new.length = opened.length

theorem Quiet.grows (quiet : Quiet s s') : Grows s s' where
  fresh := quiet.fresh
  target := quiet.target
  processStarted := quiet.processStarted
  updatePending := quiet.updatePending
  relocations _ := quiet.relocations
  added _ := ⟨[], [], by simp [quiet.lookup], Added.nil _ _, by simp [quiet.events], rfl⟩

theorem Grows.old (grows : Grows s s') (old : s.Old) : s'.Old := by
  obtain ⟨new, opened, lookup, added, -⟩ := grows.added old
  have lookup' : s'.lookup = update ObjectIdentity.id 0 (fun a => a) s.lookup ++ new := by
    rw [update_id, lookup]
  exact old.grown (fun _ => rfl) lookup' added grows.fresh

theorem Grows.trans (first : Grows s₁ s₂) (second : Grows s₂ s₃) :
    Grows s₁ s₃ where
  fresh := first.fresh.trans second.fresh
  target := second.target.trans first.target
  processStarted := second.processStarted.trans first.processStarted
  updatePending := second.updatePending.trans first.updatePending
  relocations old := (second.relocations (first.old old)).trans (first.relocations old)
  added old := by
    obtain ⟨new1, opened1, lookup1, added1, events1, length1⟩ := first.added old
    obtain ⟨new2, opened2, lookup2, added2, events2, length2⟩ := second.added (first.old old)
    refine ⟨new1 ++ new2, opened1 ++ opened2, ?_, ?_, ?_, ?_⟩
    · rw [lookup2, lookup1, List.append_assoc]
    · exact added1.append added2 first.fresh second.fresh
    · rw [events2, events1, List.map_append, List.append_assoc]
    · rw [List.length_append, List.length_append, length1, length2]

instance : IsPreorder Loader Grows where
  refl s := (Quiet.refl s).grows
  trans _ _ _ := Grows.trans

/-- The identity `file` was changed along `E`, other identities were only appended, and
symbols were bound for the objects `B` at most. -/
structure Edits (B : Set Nat) (E : ObjectIdentity → ObjectIdentity → Prop) (file : Nat)
    (s s' : Loader) : Prop where
  fresh : s.fresh ≤ s'.fresh
  target : s'.target = s.target
  processStarted : s'.processStarted = s.processStarted
  updatePending : s'.updatePending = s.updatePending
  relocations : ∀ i, s.identity file = some i → s.Old →
    ∀ u, u ∉ B → s'.relocations u = s.relocations u
  edited : ∀ i, s.identity file = some i → s.Old →
    ∃ (f : ObjectIdentity → ObjectIdentity) (new : List ObjectIdentity) (opened : List Nat),
      (∀ a, (f a).id = a.id) ∧ E i (f i) ∧
      s'.lookup = update ObjectIdentity.id file f s.lookup ++ new ∧ Added s.fresh s'.fresh new ∧
      s'.events = s.events ++ opened.map Event.opened ∧ new.length = opened.length

section Edits

variable {B : Set Nat} {E : ObjectIdentity → ObjectIdentity → Prop} {file : Nat}

theorem Grows.edits [IsPreorder ObjectIdentity E] (grows : Grows s s') :
    Edits B E file s s' where
  fresh := grows.fresh
  target := grows.target
  processStarted := grows.processStarted
  updatePending := grows.updatePending
  relocations _ _ old u _ := by rw [grows.relocations old]
  edited i _ old := by
    obtain ⟨new, opened, lookup, added, events, length⟩ := grows.added old
    refine ⟨fun a => a, new, opened, fun _ => rfl, refl_of E i, ?_, added, events, length⟩
    rw [update_id, lookup]

theorem identity_edited (found : s.identity file = some i) (keep : ∀ a, (f a).id = a.id)
    (lookup : s'.lookup = update ObjectIdentity.id file f s.lookup ++ new) :
    s'.identity file = some (f i) := by
  unfold Loader.identity
  rw [lookup]
  refine lookup_append_of_some new ?_
  rw [lookup_update_same keep]
  exact congrArg (Option.map f) found

theorem Edits.next (edits : Edits B E file s s') (found : s.identity file = some i) (old : s.Old) :
    s'.Old ∧ ∃ i', s'.identity file = some i' ∧ E i i' := by
  obtain ⟨f, new, opened, keep, edited, lookup, added, -⟩ := edits.edited i found old
  exact ⟨old.grown keep lookup added edits.fresh, f i, identity_edited found keep lookup, edited⟩

theorem Edits.comp {E₁ E₂ E₃ : ObjectIdentity → ObjectIdentity → Prop}
    (first : Edits B E₁ file s₁ s₂) (second : Edits B E₂ file s₂ s₃)
    (compose : ∀ i j k, E₁ i j → E₂ j k → E₃ i k) : Edits B E₃ file s₁ s₃ where
  fresh := first.fresh.trans second.fresh
  target := second.target.trans first.target
  processStarted := second.processStarted.trans first.processStarted
  updatePending := second.updatePending.trans first.updatePending
  relocations i found old u other := by
    obtain ⟨old', i', found', -⟩ := first.next found old
    exact (second.relocations i' found' old' u other).trans (first.relocations i found old u other)
  edited i found old := by
    obtain ⟨f, new1, opened1, keep1, edited1, lookup1, added1, events1, length1⟩ :=
      first.edited i found old
    obtain ⟨g, new2, opened2, keep2, edited2, lookup2, added2, events2, length2⟩ :=
      second.edited (f i) (identity_edited found keep1 lookup1)
        (old.grown keep1 lookup1 added1 first.fresh)
    -- the second edit does not reach the identities that the first one appended
    have apart : file ∉ new1.map ObjectIdentity.id := by
      intro member
      obtain ⟨a, inNew, isFile⟩ := List.mem_map.mp member
      have := added1.id_range a inNew
      have := old.file found
      omega
    refine ⟨fun a => g (f a), new1 ++ new2, opened1 ++ opened2, ?_, compose _ _ _ edited1 edited2,
      ?_, added1.append added2 first.fresh second.fresh, ?_, ?_⟩
    · intro a
      rw [keep2, keep1]
    · rw [lookup2, lookup1, update_append, update_update keep1, update_of_not_mem g apart,
        List.append_assoc]
    · rw [events2, events1, List.map_append, List.append_assoc]
    · rw [List.length_append, List.length_append, length1, length2]

instance [IsPreorder ObjectIdentity E] : IsPreorder Loader (Edits B E file) where
  refl s := (Quiet.refl s).grows.edits
  trans _ _ _ first second := first.comp second fun _ _ _ => trans_of E

/-- Edits during which nothing was opened add no identities. -/
theorem Edits.unopened (edits : Edits B E file s s') (events : s'.events = s.events)
    (found : s.identity file = some i) (old : s.Old) :
    ∃ f : ObjectIdentity → ObjectIdentity, (∀ a, (f a).id = a.id) ∧ E i (f i) ∧
      s'.lookup = update ObjectIdentity.id file f s.lookup := by
  obtain ⟨f, new, opened, keep, edited, lookup, -, events', length⟩ := edits.edited i found old
  rw [events, List.self_eq_append_right, List.map_eq_nil_iff] at events'
  rw [events', List.length_nil, List.length_eq_zero_iff] at length
  rw [length, List.append_nil] at lookup
  exact ⟨f, keep, edited, lookup⟩

end Edits

/-! ## Rules -/

section Rules

variable {α : Type} {x : LoaderM α} {B : Set Nat} {E E' : ObjectIdentity → ObjectIdentity → Prop}
  [IsPreorder ObjectIdentity E] {file : Nat}

theorem grows_of_quiet (quiet : Keeps Quiet x) : Keeps Grows x :=
  quiet.mono fun _ _ step => step.grows

theorem edits_of_grows (grows : Keeps Grows x) : Keeps (Edits B E file) x :=
  grows.mono fun _ _ step => step.edits

theorem edits_of_quiet (quiet : Keeps Quiet x) : Keeps (Edits B E file) x :=
  edits_of_grows (grows_of_quiet quiet)

theorem edits_of_relocates (bound : u ∈ B) (relocates : Keeps (Relocates u) x) :
    Keeps (Edits B E file) x := by
  refine relocates.mono fun s s' step => ?_
  have quiet := (step.quiet.grows.edits : Edits B E file _ s')
  refine ⟨quiet.fresh, quiet.target, quiet.processStarted, quiet.updatePending, ?_, quiet.edited⟩
  intro i found old u' other
  exact step.others u' fun same => other (same ▸ bound)

omit [IsPreorder ObjectIdentity E] in
theorem edits_modifyIdentity (keep : ∀ a, (f a).id = a.id) (step : ∀ i, E i (f i)) :
    Keeps (Edits B E file) (modify (Loader.modifyIdentity file f)) := by
  refine keeps_modify fun s => ⟨le_rfl, rfl, rfl, rfl, fun _ _ _ _ _ => rfl, ?_⟩
  intro i _ _
  exact ⟨f, [], [], keep, step i, by simp [Loader.modifyIdentity], Added.nil _ _, by
    simp [Loader.modifyIdentity], rfl⟩

omit [IsPreorder ObjectIdentity E] in
theorem Edits.mono (edits : Edits B E file s s') (weaker : ∀ i i', E i i' → E' i i') :
    Edits B E' file s s' := by
  refine ⟨edits.fresh, edits.target, edits.processStarted, edits.updatePending,
    edits.relocations, ?_⟩
  intro i found old
  obtain ⟨f, new, opened, keep, edited, rest⟩ := edits.edited i found old
  exact ⟨f, new, opened, keep, weaker _ _ edited, rest⟩

omit [IsPreorder ObjectIdentity E] in
theorem edits_mono (weaker : ∀ i i', E i i' → E' i i') (edits : Keeps (Edits B E file) x) :
    Keeps (Edits B E' file) x :=
  Keeps.mono edits fun _ _ step => step.mono weaker

end Rules

/-! ## Versions -/

section Objects

variable {B : Set Nat} {u : Nat} {k : ObjectKind}

theorem edited_of_silent {α : Type} {x : LoaderM α} {file : Nat}
    (silent : Keeps (Edits B (ObjectIdentity.Silent u k) file) x) :
    Keeps (Edits B (ObjectIdentity.Edited u k) file) x :=
  edits_mono (fun _ _ step => step.toEdited) silent

/-- A write to a version that keeps what `Object.Edited` names. -/
theorem silent_modifyVersion {uid : Nat} (step : ∀ o : Object, o.uid = uid → o.Edited u k (g o))
    (i : ObjectIdentity) :
    i.Silent u k (i.modifyVersion uid g) := by
  refine ⟨⟨rfl, rfl, rfl, rfl, rfl, rfl, fun on => on, ?_⟩, rfl⟩
  refine List.forall₂_map_right_iff.mpr (List.forall₂_same.mpr fun o _ => ?_)
  split
  · exact step o ‹_›
  · exact Object.Edited.refl u k o

theorem uids_edited {l l' : List Object} (edited : List.Forall₂ (Object.Edited u k) l l') :
    l'.map Object.uid = l.map Object.uid := by
  induction edited with
  | nil => rfl
  | cons first _ ih => rw [List.map_cons, List.map_cons, first.uid, ih]

theorem silent_modifyObject {r : ObjectRef}
    (step : ∀ o : Object, o.uid = r.uid → o.Edited u k (g o)) :
    Keeps (Edits B (ObjectIdentity.Silent u k) r.file) (modify (Loader.modifyObject r g)) :=
  edits_modifyIdentity (fun _ => rfl) (silent_modifyVersion step)

end Objects

end Luci
