import Luci.Object.Base

/-!
# Reading after writing

How the accessors of the loader state see the writes to identities, objects and the
tables beside them.
-/

namespace Luci.Loader

open KeyedList

variable {file : Nat} {o : Object} {s s' : Loader} {r : ObjectRef} {g : Object → Object}
  {a i : ObjectIdentity}

variable {s : Loader} {f : ObjectIdentity → ObjectIdentity} {i j : Nat}

theorem identity_modifyIdentity_same (keep : ∀ a, (f a).id = a.id) :
    (s.modifyIdentity i f).identity i = (s.identity i).map f :=
  lookup_update_same keep i s.lookup

theorem identity_modifyIdentity_ne (keep : ∀ a, (f a).id = a.id) (different : j ≠ i) :
    (s.modifyIdentity i f).identity j = s.identity j :=
  lookup_update_ne keep different s.lookup

theorem ids_modifyIdentity (keep : ∀ a, (f a).id = a.id) :
    (s.modifyIdentity i f).lookup.map ObjectIdentity.id = s.lookup.map ObjectIdentity.id :=
  keys_update keep i s.lookup

/-- A write that keeps the versions is not seen by `current`. -/
theorem current_modifyIdentity (keep : ∀ a, (f a).id = a.id)
    (versions : ∀ a, (f a).versions = a.versions) :
    (s.modifyIdentity i f).current j = s.current j := by
  unfold current
  by_cases same : j = i
  · subst same
    rw [identity_modifyIdentity_same keep]
    cases s.identity j with
    | none => rfl
    | some a => simp [ObjectIdentity.current, versions]
  · rw [identity_modifyIdentity_ne keep same]

theorem identity_isSome_iff : (∃ a, s.identity i = some a) ↔ i ∈ s.lookup.map ObjectIdentity.id :=
  lookup_isSome_iff

theorem id_of_identity (found : s.identity i = some a) : a.id = i :=
  key_of_lookup found

theorem mem_of_identity (found : s.identity i = some a) : a ∈ s.lookup :=
  mem_of_lookup found

theorem identity_of_current (found : s.current i = some o) :
    ∃ a, s.identity i = some a ∧ a.current = some o :=
  Option.bind_eq_some_iff.mp found

theorem current_modifyObject (found : s.current i = some o) (own : o.file = i) :
    (s.modifyObject o.ref g).current i = some (g o) := by
  obtain ⟨a, isIdentity, isCurrent⟩ := identity_of_current found
  obtain ⟨older, versions⟩ := List.head?_eq_some_iff.mp isCurrent
  have same : (s.modifyObject o.ref g).identity o.file =
      (s.identity o.file).map (ObjectIdentity.modifyVersion o.uid g) :=
    identity_modifyIdentity_same fun _ => rfl
  rw [own, isIdentity] at same
  unfold current
  rw [same]
  simp [ObjectIdentity.current, ObjectIdentity.modifyVersion, versions, update_cons]

theorem uid_of_object (found : s.object r = some o) : o.uid = r.uid := by
  obtain ⟨i, -, version⟩ := Option.bind_eq_some_iff.mp found
  exact key_of_lookup version

theorem object_of_current (found : s.current i = some o) (own : o.file = i) :
    s.object o.ref = some o := by
  obtain ⟨a, isIdentity, isCurrent⟩ := identity_of_current found
  obtain ⟨older, versions⟩ := List.head?_eq_some_iff.mp isCurrent
  have sameFile : o.ref.file = i := own
  unfold object
  rw [sameFile, isIdentity, Option.bind_some, versions, lookup_cons]
  exact if_pos rfl

theorem object_modifyObject (found : s.object r = some o) (keep : ∀ a, (g a).uid = a.uid) :
    (s.modifyObject r g).object r = some (g o) := by
  obtain ⟨a, isIdentity, version⟩ := Option.bind_eq_some_iff.mp found
  have same : (s.modifyObject r g).identity r.file =
      (s.identity r.file).map (ObjectIdentity.modifyVersion r.uid g) :=
    identity_modifyIdentity_same fun _ => rfl
  unfold object
  rw [same, isIdentity]
  have written := lookup_update_same keep r.uid a.versions
  rwa [version] at written

/-! ## Congruence -/

section Congruence

variable {s' : Loader} (same : s'.lookup = s.lookup)

include same

theorem identity_congr : s'.identity = s.identity := by
  funext i
  rw [identity, same, identity]

theorem current_congr : s'.current = s.current := by
  funext i
  rw [current, identity_congr same, current]

theorem object_congr : s'.object = s.object := by
  funext r
  rw [object, identity_congr same, object]

end Congruence

end Luci.Loader

namespace Luci

/-! ## Inversion of the accessors -/

theorem getIdentity_inv (run : getIdentity file s = some (i, s')) :
    s.identity file = some i ∧ s' = s := by
  obtain ⟨t, s1, got, found⟩ := Exec.bind_inv run
  obtain ⟨rfl, rfl⟩ := Exec.get_inv got
  exact Exec.orAbort_inv found

theorem getObject_inv (run : getObject r s = some (o, s')) : s.object r = some o ∧ s' = s := by
  obtain ⟨t, s1, got, found⟩ := Exec.bind_inv run
  obtain ⟨rfl, rfl⟩ := Exec.get_inv got
  exact Exec.orAbort_inv found

section Bind

variable {α : Type} {s : Loader} {result : α × Loader}

theorem getIdentity_bind_inv {f : ObjectIdentity → LoaderM α}
    (run : (getIdentity file >>= f) s = some result) :
    ∃ i, s.identity file = some i ∧ f i s = some result := by
  obtain ⟨i, s1, first, rest⟩ := Exec.bind_inv run
  obtain ⟨found, same⟩ := getIdentity_inv first
  rw [same] at rest
  exact ⟨i, found, rest⟩

theorem getObject_bind_inv {f : Object → LoaderM α} (run : (getObject r >>= f) s = some result) :
    ∃ o, s.object r = some o ∧ f o s = some result := by
  obtain ⟨o, s1, first, rest⟩ := Exec.bind_inv run
  obtain ⟨found, same⟩ := getObject_inv first
  rw [same] at rest
  exact ⟨o, found, rest⟩

end Bind

/-- An object that was found has the address it was looked for at. -/
theorem getObject_uid (run : getObject r s = some (o, s')) : o.uid = r.uid :=
  Loader.uid_of_object (getObject_inv run).1

theorem getObject_eq (found : s.object r = some o) : getObject r s = some (o, s) := by
  simp [getObject, Exec.bind_apply, found]

theorem getIdentity_eq (found : s.identity file = some i) : getIdentity file s = some (i, s) := by
  simp [getIdentity, Exec.bind_apply, found]

end Luci
