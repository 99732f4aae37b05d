import Luci.Proofs.Addresses
import Luci.Proofs.Mapping
import Luci.Proofs.RelocatableData

/-!
# The chain of versions

What a load leaves of the files that were loaded before: it puts at most one version in front of
the chain, with the header of the file it was created from, and nothing that was noted about the
other versions changes.
-/

namespace Luci

open Exec KeyedList

variable {u : Nat} {c : Object} {op : Opened} {r : ObjectRef} {k : ObjectKind}
  {result : Option ObjectRef} {memory : Option MemoryImage}

/-! ## The notes of all versions -/

/-- What is noted about the file of a version. -/
abbrev Note := Header × Data × Bool × ObjectKind × (Nat → UInt8)

def Object.note (o : Object) : Note := (o.elf.header, o.data, o.binaryHash, o.kind, o.elf.bytes)

/-- The flags that decide about updates are the same. -/
structure ObjectIdentity.SameMode (i i' : ObjectIdentity) : Prop where
  updatable : i'.flags.updatable = i.flags.updatable
  skipIdentical : i'.flags.skipIdentical = i.flags.skipIdentical

theorem ObjectIdentity.SameMode.trans {i1 i2 i3 : ObjectIdentity} (first : i1.SameMode i2)
    (second : i2.SameMode i3) : i1.SameMode i3 :=
  ⟨second.updatable.trans first.updatable, second.skipIdentical.trans first.skipIdentical⟩

theorem ObjectIdentity.Edited.mode {i i' : ObjectIdentity} (edited : i.Edited u k i') :
    i.SameMode i' :=
  ⟨edited.updatable, edited.skipIdentical⟩

/-- A version that `create` has accepted: the object as it was installed. -/
structure Admitted (e : Env) (i : ObjectIdentity) (op : Opened) (o : Object) : Prop where
  header : o.elf.header = op.elf.header
  bytes : o.elf.bytes = op.elf.bytes
  data : o.data = { op.data with hash := op.hash e i }
  binaryHash : o.binaryHash = (i.flags.updatable && decide (op.type ≠ .rel))
  relocatable : o.kind = .relocatable ↔ op.type = .rel
  differs : ¬ op.Identical e i
  checked : i.flags.updatable = true → op.type ≠ .rel → ∀ c, i.current = some c →
    c.binaryHash = true ∧ ∃ s c', c'.note = c.note ∧ o.patchable e s (some c') = some true

/-- The content that a load finds. -/
def presented (e : Env) (i : ObjectIdentity) : Option MemoryImage → Option Image
  | some m => some m.image
  | none => (e.world.file i.path).map File.image

section Opened

variable {e : Env} {s s' : Loader} {i : ObjectIdentity} {file : Nat} {type : ElfType} {op : Opened}

theorem checkElf_ok {data : Data} {elf : Elf}
    (run : checkElf i data elf type s = some (.ok op, s')) :
    op = ⟨data, elf, if type = .none then elf.header.type else type⟩ := by
  unfold checkElf at run
  split at run
  · obtain ⟨_, s2, -, run⟩ := bind_inv run
    cases run
  · cases run
    rfl

/-- What `open` hands over is the content of the file. -/
theorem openObject_presented (identity : s.identity file = some i)
    (run : openObject e file memory type s = some (.ok op, s')) :
    ∃ image, presented e i memory = some image ∧ op.elf = image.elf ∧ op.data.size = image.size ∧
      op.type = if type = .none then image.elf.header.type else type := by
  obtain ⟨_, found, run⟩ := getIdentity_bind_inv run
  obtain rfl := Option.some.inj (identity.symm.trans found)
  split at run
  · cases run
  cases memory with
  | some m =>
    obtain rfl := checkElf_ok run
    exact ⟨m.image, rfl, rfl, rfl, rfl⟩
  | none =>
    obtain ⟨-, run⟩ := require_bind_inv run
    cases isFile : e.world.file i.path with
    | none =>
      simp only [isFile] at run
      cases run
    | some content =>
      simp only [isFile] at run
      obtain ⟨fd, s1, -, run⟩ := bind_inv run
      cases fd with
      | none => cases run
      | some fd =>
        obtain ⟨ok, s2, -, run⟩ := bind_inv run
        cases ok with
        | false =>
          cases run
        | true =>
          rw [if_pos rfl] at run
          split at run
          · cases run
          · obtain ⟨mapped, s3, -, run⟩ := bind_inv run
            cases mapped with
            | none => cases run
            | some mapped =>
              obtain rfl := checkElf_ok run
              exact ⟨content.image, by rw [presented, isFile]; rfl, rfl, rfl, rfl⟩

end Opened

section Notes

variable {e : Env} {library : LibraryCall} (grows : library.Keeps Grows)
  {s s' : Loader} {o : Object} {i : ObjectIdentity} {file : Nat} {type : ElfType} {info : Info}

theorem note_edited {o o' : Object} (edited : o.Edited u k o')
    (other : o.uid ≠ u ∨ k ≠ .relocatable) : o'.note = o.note := by
  obtain ⟨data, binaryHash⟩ := Prod.mk.inj edited.stamp
  rw [Object.note, edited.elf other, data, binaryHash, edited.kind, Object.note]

theorem notes_edited {l l' : List Object} (edited : List.Forall₂ (Object.Edited u k) l l')
    (other : k ≠ .relocatable ∨ u ∉ l.map Object.uid) : l'.map Object.note = l.map Object.note := by
  induction edited with
  | nil => rfl
  | @cons o o' l l' first rest ih =>
    rw [List.map_cons, List.mem_cons, not_or] at other
    have here : o.uid ≠ u ∨ k ≠ .relocatable := by
      rcases other with kind | apart
      · exact .inr kind
      · exact .inl (Ne.symm apart.1)
    rw [List.map_cons, List.map_cons, note_edited first here, ih (other.imp_right And.right)]

/-- The assertion and the check of a new version against the current one. -/
theorem checkUpdate_accepts (identity : s.identity file = some i) (current : i.current = some c)
    (run : checkUpdate e file o s = some (true, s')) :
    c.binaryHash ∧ o.patchable e s (some c) = some true := by
  have passes := ((checkUpdate_result identity current run).1.mp rfl).1
  refine ⟨?_, passes⟩
  unfold checkUpdate at run
  rw [bind_of_eq (get_apply s)] at run
  obtain ⟨i', identity', run⟩ := getIdentity_bind_inv run
  cases identity.symm.trans identity'
  simp only [current] at run
  exact (require_bind_inv run).1

theorem current_note {i i' : ObjectIdentity}
    (notes : i'.versions.map Object.note = i.versions.map Object.note)
    (current : i.current = some c) :
    ∃ c', i'.current = some c' ∧ c'.note = c.note := by
  have heads := congrArg List.head? notes
  rw [List.head?_map, List.head?_map, show i.versions.head? = some c from current] at heads
  exact Option.map_eq_some_iff.mp heads

include grows

theorem employ_notes (old : s.Old) (identity : s.identity o.file = some i)
    (apart : o.uid ∉ i.versions.map Object.uid) (empty : o.symbols = [])
    (run : employ e library o type s = some ((some r, info), s')) :
    s'.Old ∧ ∃ i', s'.identity o.file = some i' ∧ i.SameMode i' ∧
      i'.versions.map Object.note = o.note :: i.versions.map Object.note := by
  obtain ⟨-, edits⟩ := employ_edits grows Loader.binds_univ run
  obtain ⟨old', i', identity', accepted⟩ := edits.next identity old
  refine ⟨old', i', identity', ⟨accepted.updatable, accepted.skipIdentical⟩, ?_⟩
  obtain ⟨v, rest, first, others, shape⟩ := List.forall₂_cons_left_iff.mp accepted.versions
  rw [shape, List.map_cons, notes_edited others (.inr apart)]
  congr 1
  by_cases kind : o.kind = .relocatable
  · obtain ⟨current, isCurrent, head, -⟩ := employ_employs identity kind empty run
    rw [Loader.current, identity', Option.bind_some, ObjectIdentity.current, shape] at isCurrent
    cases isCurrent
    obtain ⟨data, binaryHash⟩ := Prod.mk.inj first.stamp
    obtain ⟨header, bytes⟩ := Prod.mk.inj head.stored
    rw [Object.note, header, bytes, data, binaryHash, first.kind, Object.note]
  · exact note_edited first (.inr kind)

/-- What `create` leaves of the chain after the construction of an object. -/
theorem createObject_notes {s1 : Loader} (old : s.Old) (identity : s.identity file = some i)
    (known : ∀ v ∈ i.versions, v.uid < s.fresh) (differs : ¬ op.Identical e i)
    (constructed : constructObject e file
      { op with data := { op.data with hash := op.hash e i } } s = some (some o, s1))
    (run : createObject e library file o op.type s1 = some ((some r, info), s')) :
    s'.Old ∧ ∃ i', s'.identity file = some i' ∧ i.SameMode i' ∧
      ∃ o, Admitted e i op o ∧
        i'.versions.map Object.note = o.note :: i.versions.map Object.note := by
  have isNew := constructObject_new constructed
  have kind := isNew.kind
  have edits : Edits ∅ (ObjectIdentity.Edited o.uid o.kind) file s s1 :=
    edited_constructObject file _ _ _ _ constructed
  obtain ⟨old1, i1, identity1, edited⟩ := edits.next identity old
  have absent : o.uid ∉ i.versions.map Object.uid := by
    intro member
    obtain ⟨v, isVersion, same⟩ := List.mem_map.mp member
    have used := known v isVersion
    rw [same, isNew.uid] at used
    exact absurd used (Nat.lt_irrefl _)
  have notes1 := notes_edited edited.versions (.inr absent)
  have absent1 : o.uid ∉ i1.versions.map Object.uid := by
    rwa [uids_edited edited.versions]
  obtain ⟨_, found, run⟩ := getIdentity_bind_inv run
  obtain rfl := Option.some.inj (identity1.symm.trans found)
  by_cases updates : (i1.flags.updatable && decide (op.type ≠ .rel))
  · rw [if_pos updates] at run
    obtain ⟨compatible, s2, checked, run⟩ := bind_inv run
    cases compatible with
    | false =>
      obtain ⟨_, s3, -, run⟩ := bind_inv run
      cases run
    | true =>
      have silent : Edits ∅ (ObjectIdentity.Silent o.uid .dynamic) file s1 s2 :=
        silent_checkUpdate file _ _ _ _ checked
      obtain ⟨old2, i2, identity2, edited2⟩ := silent.next identity1 old1
      have notes2 := notes_edited edited2.versions (.inl (by decide))
      have absent2 : o.uid ∉ i2.versions.map Object.uid := by
        rwa [uids_edited edited2.versions]
      have identity2 : s2.identity (o.hashed e i1).file = some i2 := isNew.file.symm ▸ identity2
      obtain ⟨old', i', identity', mode, notes⟩ :=
        employ_notes grows old2 identity2 absent2 isNew.symbols run
      refine ⟨old', i', isNew.file ▸ identity', ?_, o.hashed e i1, ?_, ?_⟩
      · exact edited.mode.trans (edited2.toEdited.mode.trans mode)
      · rw [edited.updatable] at updates
        refine ⟨congrArg Elf.header isNew.elf, congrArg Elf.bytes isNew.elf, isNew.data, updates.symm, kind, differs, ?_⟩
        intro _ _ c isCurrent
        obtain ⟨c1, isCurrent1, same⟩ := current_note notes1 isCurrent
        obtain ⟨hashed, patchable⟩ := checkUpdate_accepts identity1 isCurrent1 checked
        have sameHash : c1.binaryHash = c.binaryHash := congrArg (fun note => note.2.2.1) same
        exact ⟨sameHash ▸ hashed, s1, c1, same, patchable⟩
      · rw [notes, notes2, notes1]
  · rw [if_neg updates] at run
    rw [← isNew.file] at identity1
    obtain ⟨old', i', identity', mode, notes⟩ :=
      employ_notes grows old1 identity1 absent1 isNew.symbols run
    refine ⟨old', i', isNew.file ▸ identity', edited.mode.trans mode, o, ?_, ?_⟩
    · rw [edited.updatable] at updates
      refine ⟨congrArg Elf.header isNew.elf, congrArg Elf.bytes isNew.elf, isNew.data, ?_, kind, differs, ?_⟩
      · rw [isNew.binaryHash]
        exact (Bool.not_eq_true _ ▸ updates).symm
      · intro updatable isOther
        simp [updatable, isOther] at updates
    · rw [notes, notes1]

theorem create_notes (old : s.Old) (identity : s.identity file = some i)
    (known : ∀ v ∈ i.versions, v.uid < s.fresh)
    (run : create e library file op s = some ((result, info), s')) :
    s'.Old ∧ ∃ i', s'.identity file = some i' ∧ i.SameMode i' ∧
      match result with
      | none => i'.versions.map Object.note = i.versions.map Object.note
      | some _ => ∃ o, Admitted e i op o ∧
          i'.versions.map Object.note = o.note :: i.versions.map Object.note := by
  cases result with
  | none =>
    obtain ⟨u, k, isNew, edits⟩ := create_edits grows Loader.binds_univ run
    obtain ⟨old', i', identity', rejected⟩ := edits.next identity old
    have absent : u ∉ i.versions.map Object.uid := by
      intro member
      obtain ⟨v, isVersion, same⟩ := List.mem_map.mp member
      have used := known v isVersion
      omega
    have edited := rejected absent
    exact ⟨old', i', identity', edited.mode, notes_edited edited.versions (.inr absent)⟩
  | some r =>
    rw [create_eq] at run
    obtain ⟨_, found, run⟩ := getIdentity_bind_inv run
    obtain rfl := Option.some.inj (identity.symm.trans found)
    by_cases identical : (i.flags.updatable && i.flags.skipIdentical &&
        i.sameHash (op.hash e i) op.data.size)
    · rw [if_pos identical] at run
      cases run
    rw [if_neg identical] at run
    obtain ⟨made, s1, constructed, run⟩ := bind_inv run
    cases made with
    | none => cases run
    | some o => exact createObject_notes grows old identity known identical constructed run

/-- What a load leaves of the chain: at most one version is put in front. -/
theorem load_notes (separate : s.Separate) (identity : s.identity file = some i)
    (run : load e library file memory type s = some (result, s')) :
    ∃ i', s'.identity file = some i' ∧ i.SameMode i' ∧
      match result with
      | none => i'.versions.map Object.note = i.versions.map Object.note
      | some _ => ∃ op s1 o, openObject e file memory type s = some (.ok op, s1) ∧
          Admitted e i op o ∧
          i'.versions.map Object.note = o.note :: i.versions.map Object.note := by
  obtain ⟨opened, s1, opening, run⟩ := bind_inv run
  have quiet : Quiet s s1 := frame_openObject _ _ _ _ _ _ opening
  have identity1 : s1.identity file = some i := Loader.identity_congr quiet.lookup ▸ identity
  have old1 : s1.Old := separate.old.of_lookup quiet.lookup quiet.fresh
  cases opened with
  | error failure =>
    obtain ⟨_, s2, hook, run⟩ := bind_inv run
    cases run
    have silent : Edits ∅ (ObjectIdentity.Silent 0 .dynamic) file s1 s' :=
      silent_initialHook file _ _ _ hook
    obtain ⟨-, i', identity', edited⟩ := silent.next identity1 old1
    exact ⟨i', identity', edited.toEdited.mode, notes_edited edited.versions (.inl (by decide))⟩
  | ok op =>
    obtain ⟨⟨object, info⟩, s2, created, run⟩ := bind_inv run
    obtain ⟨_, s3, after, run⟩ := bind_inv run
    obtain ⟨_, s4, hook, run⟩ := bind_inv run
    cases run
    have known : ∀ v ∈ i.versions, v.uid < s1.fresh := fun v isVersion =>
      (separate.version_lt identity isVersion).trans_le quiet.fresh
    obtain ⟨old2, i2, identity2, mode, notes2⟩ :=
      create_notes grows old1 identity1 known created
    have silent : Edits ∅ (ObjectIdentity.Silent 0 .dynamic) file s2 s' :=
      trans_of (Edits ∅ (ObjectIdentity.Silent 0 .dynamic) file)
        (silent_afterCreate file _ _ _ _ _ after) (silent_initialHook file _ _ _ hook)
    obtain ⟨-, i', identity', edited⟩ := silent.next identity2 old2
    have same := notes_edited edited.versions (.inl (by decide))
    refine ⟨i', identity', mode.trans edited.toEdited.mode, ?_⟩
    cases result with
    | none => exact same.trans notes2
    | some r =>
      obtain ⟨o, admitted, notes⟩ := notes2
      exact ⟨op, s1, o, opening, admitted, same.trans notes⟩

end Notes

end Luci
