import Luci.Proofs.OpenCleanup
import Luci.Proofs.Operations

/-!
# Addresses of identities and versions

Identities and versions get addresses that were not in use before, so no two of them ever have
the same one. This holds in every state, with identities inserted anywhere in the list.
-/

namespace Luci

open Exec KeyedList

/-- All addresses of identities and versions. -/
def Loader.addresses (s : Loader) : List Nat := s.lookup.flatMap ObjectIdentity.addresses

/-- No address is used twice, and all of them are marked as used. -/
structure Loader.Separate (s : Loader) : Prop where
  nodup : s.addresses.Nodup
  used : ∀ x ∈ s.addresses, x < s.fresh

/-- The addresses are the same. -/
abbrev SameAddresses : Loader → Loader → Prop := SameView ObjectIdentity.addresses

section Separate

variable {s s' : Loader} {i : ObjectIdentity} {file : Nat}

theorem Loader.Separate.old (separate : s.Separate) : s.Old := by
  intro i member
  exact separate.used i.id (List.mem_flatMap.mpr ⟨i, member, List.mem_cons_self ..⟩)

theorem Loader.Separate.ids (separate : s.Separate) : (s.lookup.map ObjectIdentity.id).Nodup := by
  refine List.Nodup.sublist ?_ separate.nodup
  unfold Loader.addresses
  induction s.lookup with
  | nil => exact List.Sublist.slnil
  | cons i is ih =>
    exact ((List.nil_sublist _).cons_cons i.id).append ih

theorem Loader.Separate.versions (separate : s.Separate) (member : i ∈ s.lookup) :
    (i.versions.map Object.uid).Nodup :=
  (List.nodup_cons.mp ((List.nodup_flatMap.mp separate.nodup).1 i member)).2

theorem Loader.Separate.version_lt (separate : s.Separate) (found : s.identity file = some i)
    {o : Object} (isVersion : o ∈ i.versions) : o.uid < s.fresh :=
  separate.used o.uid (List.mem_flatMap.mpr ⟨i, Loader.mem_of_identity found,
    List.mem_cons_of_mem _ (List.mem_map_of_mem isVersion)⟩)

theorem Loader.Separate.absent {u : Nat} (separate : s.Separate) (found : s.identity file = some i)
    (isNew : s.fresh ≤ u) : u ∉ i.versions.map Object.uid := by
  intro member
  obtain ⟨o, isVersion, rfl⟩ := List.mem_map.mp member
  exact absurd (separate.version_lt found isVersion) (Nat.not_lt.mpr isNew)

theorem separate_of_perm (added : List Nat) (separate : s.Separate)
    (fresh : s.fresh ≤ s'.fresh) (perm : s'.addresses.Perm (added ++ s.addresses))
    (nodup : added.Nodup) (range : ∀ x ∈ added, s.fresh ≤ x ∧ x < s'.fresh) : s'.Separate where
  nodup := by
    rw [perm.nodup_iff, List.nodup_append]
    refine ⟨nodup, separate.nodup, ?_⟩
    rintro x new y old rfl
    have isNew := range x new
    have isOld := separate.used x old
    omega
  used x member := by
    rcases List.mem_append.mp (perm.mem_iff.mp member) with new | old
    · exact (range x new).2
    · exact (separate.used x old).trans_le fresh

theorem SameAddresses.separate (same : SameAddresses s s') (separate : s.Separate) : s'.Separate := by
  refine separate_of_perm [] separate same.fresh ?_ List.nodup_nil ?_
  · unfold Loader.addresses
    rw [List.flatMap_def, List.flatMap_def, same.lookup, List.nil_append]
  · exact fun x member => absurd member List.not_mem_nil

theorem Loader.Separate.grown {f : ObjectIdentity → ObjectIdentity} {new : List ObjectIdentity}
    (versions : List Nat) {mid : Nat} (separate : s.Separate) (found : s.identity file = some i)
    (lookup : s'.lookup = update ObjectIdentity.id file f s.lookup ++ new)
    (keep : (f i).id = i.id)
    (added : (f i).versions.map Object.uid = versions ++ i.versions.map Object.uid)
    (nodup : versions.Nodup) (range : ∀ x ∈ versions, s.fresh ≤ x ∧ x < mid)
    (others : Added mid s'.fresh new) (first : s.fresh ≤ mid) (second : mid ≤ s'.fresh) :
    s'.Separate := by
  have isFile : i.id = file := Loader.id_of_identity found
  obtain ⟨front, back, split⟩ := List.mem_iff_append.mp (Loader.mem_of_identity found)
  have ids := separate.ids
  rw [split, List.map_append, List.map_cons, List.nodup_middle, List.nodup_cons] at ids
  have absent := ids.1
  rw [isFile, List.mem_append, not_or] at absent
  have updated : update ObjectIdentity.id file f s.lookup = front ++ f i :: back := by
    rw [split, update_append, update_cons, if_pos isFile, update_of_not_mem f absent.1,
      update_of_not_mem f absent.2]
  have newAddresses : s'.addresses = front.flatMap ObjectIdentity.addresses ++
      (i.id :: (versions ++ i.versions.map Object.uid)) ++ back.flatMap ObjectIdentity.addresses ++
        new.flatMap ObjectIdentity.addresses := by
    unfold Loader.addresses
    rw [lookup, updated, List.flatMap_append, List.flatMap_append, List.flatMap_cons]
    rw [ObjectIdentity.addresses, keep, added]
    simp only [List.append_assoc]
  have oldAddresses : s.addresses = front.flatMap ObjectIdentity.addresses ++
      (i.id :: i.versions.map Object.uid) ++ back.flatMap ObjectIdentity.addresses := by
    unfold Loader.addresses
    rw [split, List.flatMap_append, List.flatMap_cons, ObjectIdentity.addresses]
    simp only [List.append_assoc]
  apply separate_of_perm (versions ++ new.flatMap ObjectIdentity.addresses) separate
    (first.trans second)
  · rw [newAddresses, oldAddresses]
    refine List.perm_iff_count.mpr fun x => ?_
    simp only [List.count_append, List.count_cons]
    omega
  · rw [List.nodup_append]
    refine ⟨nodup, others.distinct, ?_⟩
    rintro x inVersions y inNew rfl
    have := range x inVersions
    have := others.range x inNew
    omega
  · intro x member
    rcases List.mem_append.mp member with inVersions | inNew
    · have := range x inVersions
      omega
    · have := others.range x inNew
      omega

theorem Loader.Separate.popped (separate : s.Separate) :
    { s with lookup := s.lookup.dropLast }.Separate := by
  have fewer := (List.dropLast_sublist s.lookup).flatMap ObjectIdentity.addresses
  exact ⟨separate.nodup.sublist fewer, fun x member => separate.used x (fewer.subset member)⟩

end Separate

/-! ## Loads -/

section Loads

variable {e : Env} {s s' : Loader} {i : ObjectIdentity} {a : OpenCall} {file : Nat}

theorem Emplaced.separate (emplaced : Emplaced a s i s') (separate : s.Separate) : s'.Separate := by
  have single : i.addresses = [s.fresh] := by
    rw [ObjectIdentity.addresses, emplaced.id, emplaced.versions, List.map_nil]
  apply separate_of_perm [s.fresh] separate (emplaced.fresh ▸ Nat.le_succ _)
  · have lookup := emplaced.lookup
    unfold Loader.emplace at lookup
    unfold Loader.addresses
    split at lookup
    · obtain ⟨front, j, back, before, -, after⟩ := insertBefore_eq_some lookup
      rw [before, after, List.flatMap_append, List.flatMap_cons, single, List.flatMap_append]
      exact List.perm_middle
    · rw [← Option.some.inj lookup, List.flatMap_append, List.flatMap_singleton, single]
      exact List.perm_append_comm
  · exact List.nodup_singleton _
  · intro x member
    rw [List.mem_singleton.mp member, emplaced.fresh]
    exact ⟨le_rfl, Nat.lt_succ_self _⟩

theorem load_separate {openRec : OpenRec} (grows : openRec.Grows) {memory : Option MemoryImage}
    {type : ElfType} {result : Option ObjectRef} (separate : s.Separate)
    (found : s.identity file = some i)
    (run : load e (libraryCall e openRec) file memory type s = some (result, s')) : s'.Separate := by
  have loaded := load_edits (grows_libraryCall grows) Loader.binds_univ run
  cases result with
  | none =>
    obtain ⟨u, k, isNew, edits⟩ := loaded
    obtain ⟨f, new, opened, keep, rejected, lookup, added, -⟩ := edits.edited i found separate.old
    have apart := separate.absent found isNew
    have same : (f i).versions.map Object.uid = i.versions.map Object.uid :=
      uids_edited (rejected apart).versions
    exact separate.grown [] found lookup (keep i) same List.nodup_nil
      (fun x member => absurd member List.not_mem_nil) added le_rfl edits.fresh
  | some r =>
    obtain ⟨o, mid, -, -, isNew, known, -, events, first, second⟩ := loaded
    obtain ⟨f, new, opened, keep, accepted, lookup, added, -⟩ :=
      accepted_lookup found separate.old first events second
    have versions : (f i).versions.map Object.uid = [o.uid] ++ i.versions.map Object.uid :=
      uids_edited accepted.versions
    refine separate.grown [o.uid] found lookup (keep i) versions (List.nodup_singleton _) ?_ added
      first.fresh second.fresh
    intro x member
    rw [List.mem_singleton.mp member]
    exact ⟨isNew, known⟩

end Loads

/-! ## Operations -/

/-- The addresses stay distinct. -/
def KeepsSeparate (s s' : Loader) : Prop := s.Separate → s'.Separate

instance : IsPreorder Loader KeepsSeparate where
  refl _ separate := separate
  trans _ _ _ first second separate := second (first separate)

section Operations

variable {e : Env}

theorem keepsSeparate_openFile (n : Nat) : ∀ a, Keeps KeepsSeparate (openFile e n a) := by
  apply keeps_openFile
  · exact fun _ _ quiet => SameAddresses.separate quiet.sameView
  · exact fun s next separate => ⟨separate.nodup, separate.used⟩
  · exact fun emplaced => emplaced.separate
  · intro n _ file memory type s result s' run separate
    obtain ⟨i, found⟩ := load_found run
    exact load_separate (grows_openFile n) separate found run
  · exact fun s file separate => ⟨separate.nodup, separate.used⟩
  · exact fun s separate => separate.popped

/-! ### What does not load anything -/

theorem keepsParts_sameAddresses : KeepsParts SameAddresses e where
  toKeepsRelocation := KeepsRelocation.mono (keepsRelocation_calmView (fun _ _ => rfl)
    fun i uid _ keep => congrArg (i.id :: ·)
      (map_update (g := Object.uid) (fun v => congrArg Prod.fst (keep v)) uid i.versions))
    fun _ _ step => step.toSameView
  initializes := sameView_initializeFrom fun _ => rfl

theorem moveFront_separate {s : Loader} (file : Nat) (separate : s.Separate) :
    (s.moveFront file).Separate := by
  have fresh : s.fresh ≤ (s.moveFront file).fresh := le_rfl
  apply separate_of_perm [] separate fresh
  · apply List.Perm.flatMap_right
    have both := List.filter_append_perm (fun i : ObjectIdentity => decide (i.id = file)) s.lookup
    simpa [Loader.moveFront] using both
  · exact List.nodup_nil
  · exact fun x member => absurd member List.not_mem_nil

end Operations

end Luci
