import Luci.Proofs.Access
import Luci.Loader

/-!
# Constructing an object

What the constructors of the classes leave, once for all of them: an object with a new address and
without symbols, and a state in which only the identity, the next free address and the next address
for libraries have changed.
-/

namespace Luci

open Exec KeyedList

/-- What the constructors write to the identity. -/
def ObjectIdentity.constructed (k : ObjectKind) (elf : Elf) (i : ObjectIdentity) :
    ObjectIdentity :=
  match k with
  | .executable => i
  | .dynamic => { i with name := (elf.getSoname.filter fun name => name ≠ "").getD i.name }
  | .relocatable => { i with flags := { i.flags with
      updateOutdated := i.flags.updateOutdated || i.flags.updatable } }

/-- Does the constructor for this type of file take over a `DT_SONAME`? -/
def Elf.dynamic (elf : Elf) (type : ElfType) : Bool :=
  type = .dyn || type = .exec && elf.segments.any fun segment => segment.type = .dynamic

/-- The state in which the constructor looks for a place for the object. -/
def Loader.constructed (s : Loader) (file : Nat) (k : ObjectKind) (elf : Elf) : Loader :=
  { s.modifyIdentity file (ObjectIdentity.constructed k elf) with fresh := s.fresh + 1 }

/-- A new object of a file, at an address that was not in use. -/
structure Constructed (e : Env) (file : Nat) (op : Opened) (s s' : Loader) (o : Object) : Prop where
  elf : o.elf = op.elf
  data : o.data = op.data
  binaryHash : o.binaryHash = false
  dependencies : o.dependencies = []
  symbols : o.symbols = []
  uid : o.uid = s.fresh
  kind : o.kind = .relocatable ↔ op.type = .rel
  dynamic : o.kind = .dynamic ↔ op.elf.dynamic op.type = true
  base : o.kind = .relocatable → ∀ p, s.current file = some p → o.base = p.base
  state : s' = s.constructed file o.kind op.elf ∨
    ∃ size start, nextAddress e size (s.constructed file o.kind op.elf) = some (start, s') ∧
      (size = 0 ∨ size = op.elf.maxSize ∧ start = o.base)
  file : o.file = file

section Construction

variable {e : Env} {file : Nat} {op : Opened} {s s' : Loader} {o : Object}

theorem setSoname_inv {elf : Elf} {u : Unit} (run : setSoname file elf.getSoname s = some (u, s')) :
    s' = s.modifyIdentity file (ObjectIdentity.constructed .dynamic elf) := by
  have unnamed : ∀ t : Loader, t = s → (elf.getSoname.filter fun name => name ≠ "") = none →
      t = s.modifyIdentity file (ObjectIdentity.constructed .dynamic elf) := by
    intro t same none
    unfold Loader.modifyIdentity ObjectIdentity.constructed
    simp only [none, Option.getD_none]
    rw [same, update_id]
  unfold setSoname at run
  cases soname : elf.getSoname with
  | none =>
    rw [soname] at run
    exact unnamed s' (pure_inv run).2 (by simp [soname])
  | some name =>
    rw [soname] at run
    dsimp only at run
    by_cases empty : name = ""
    · rw [if_neg (not_not.mpr empty)] at run
      exact unnamed s' (pure_inv run).2 (by simp [soname, empty])
    · rw [if_pos empty] at run
      rw [modify_inv run]
      unfold ObjectIdentity.constructed
      simp [soname, Option.filter_some, empty]

/-- Dynamic objects get a place unless they bring their own. -/
theorem constructDynamic_inv {pie : Bool} (type : op.type = if pie then .dyn else .exec)
    (dynamic : op.elf.dynamic op.type)
    (run : constructDynamic e file op.elf op.data pie s = some (o, s')) :
    Constructed e file op s s' o := by
  have kind : ObjectKind.dynamic = .relocatable ↔ op.type = .rel := by
    cases pie <;> simp [type]
  obtain ⟨uid, s1, fresh, run⟩ := bind_inv run
  cases fresh
  obtain ⟨_, s2, named, run⟩ := bind_inv run
  obtain rfl : s2 = s.constructed file .dynamic op.elf := setSoname_inv named
  obtain ⟨i, -, run⟩ := getIdentity_bind_inv run
  split at run
  · obtain ⟨rfl, rfl⟩ := pure_inv run
    exact ⟨rfl, rfl, rfl, rfl, rfl, rfl, kind, by simp [dynamic, Object.construct], nofun, .inl rfl,
      rfl⟩
  · split at run
    · obtain ⟨rfl, rfl⟩ := pure_inv run
      exact ⟨rfl, rfl, rfl, rfl, rfl, rfl, kind, by simp [dynamic, Object.construct], nofun,
        .inl rfl, rfl⟩
    · obtain ⟨base, s3, reserved, run⟩ := bind_inv run
      obtain ⟨rfl, rfl⟩ := pure_inv run
      exact ⟨rfl, rfl, rfl, rfl, rfl, rfl, kind, by simp [dynamic, Object.construct], nofun,
        .inr ⟨_, base, reserved, .inr ⟨rfl, rfl⟩⟩, rfl⟩

theorem constructRelocatable_inv (type : op.type = .rel)
    (run : constructRelocatable e file op.elf op.data s = some (o, s')) :
    Constructed e file op s s' o := by
  have dynamic : ObjectKind.relocatable = .dynamic ↔ op.elf.dynamic op.type := by
    simp [Elf.dynamic, type]
  obtain ⟨uid, s1, fresh, run⟩ := bind_inv run
  cases fresh
  obtain ⟨_, s2, marked, run⟩ := bind_inv run
  obtain rfl : s2 = s.constructed file .relocatable op.elf := modify_inv marked
  rw [bind_of_eq (get_apply _)] at run
  have same : (s.constructed file .relocatable op.elf).current file = s.current file :=
    Loader.current_modifyIdentity (by intro; rfl) (by intro; rfl)
  rw [same] at run
  obtain ⟨address, s3, reserved, run⟩ := bind_inv run
  have state : ∃ size start, nextAddress e size (s.constructed file .relocatable op.elf) =
      some (start, s3) ∧ (size = 0 ∨ size = op.elf.maxSize ∧ start = o.base) :=
    ⟨0, address, reserved, .inl rfl⟩
  cases current : s.current file with
  | none =>
    simp only [current] at run
    obtain ⟨rfl, rfl⟩ := pure_inv run
    refine ⟨rfl, rfl, rfl, rfl, rfl, rfl, by simp [type, Object.construct], dynamic,
      fun _ p found => ?_, .inr state, rfl⟩
    cases current.symm.trans found
  | some c =>
    simp only [current] at run
    obtain ⟨-, run⟩ := require_bind_inv run
    obtain ⟨rfl, rfl⟩ := pure_inv run
    refine ⟨rfl, rfl, rfl, rfl, rfl, rfl, by simp [type, Object.construct], dynamic,
      fun _ p found => ?_, .inr state, rfl⟩
    cases current.symm.trans found
    rfl

/-- Either there is no class for the file, or an object is constructed. -/
theorem constructObject_inv {constructed : Option Object}
    (run : constructObject e file op s = some (constructed, s')) :
    (constructed = none ∧ s' = s ∧ op.type ≠ .exec ∧ op.type ≠ .dyn ∧ op.type ≠ .rel) ∨
      ∃ o, constructed = some o ∧ Constructed e file op s s' o := by
  unfold constructObject at run
  cases type : op.type with
  | exec =>
    simp only [type] at run
    split at run
    · next dynamic =>
      obtain ⟨o, s1, construct, run⟩ := bind_inv run
      cases run
      exact .inr ⟨o, rfl, constructDynamic_inv (by simp [type]) (by simp [Elf.dynamic, type, dynamic])
        construct⟩
    · next static =>
      obtain ⟨uid, s1, fresh, run⟩ := bind_inv run
      cases fresh
      cases run
      refine .inr ⟨_, rfl, rfl, rfl, rfl, rfl, rfl, rfl, by simp [type, Object.construct],
        by simp [Elf.dynamic, type, static, Object.construct], nofun,
        .inl ?_, rfl⟩
      unfold Loader.constructed Loader.modifyIdentity Object.construct ObjectIdentity.constructed
      rw [update_id]
  | dyn =>
    simp only [type] at run
    obtain ⟨o, s1, construct, run⟩ := bind_inv run
    cases run
    exact .inr ⟨o, rfl, constructDynamic_inv (by simp [type]) (by simp [Elf.dynamic, type]) construct⟩
  | rel =>
    simp only [type] at run
    obtain ⟨o, s1, construct, run⟩ := bind_inv run
    cases run
    exact .inr ⟨o, rfl, constructRelocatable_inv type construct⟩
  | none =>
    simp only [type] at run
    cases run
    exact .inl ⟨rfl, rfl, by simp, by simp, by simp⟩
  | other value =>
    simp only [type] at run
    cases run
    exact .inl ⟨rfl, rfl, by simp, by simp, by simp⟩

theorem constructObject_new (run : constructObject e file op s = some (some o, s')) :
    Constructed e file op s s' o := by
  rcases constructObject_inv run with ⟨impossible, -⟩ | ⟨o', same, new⟩
  · cases impossible
  · cases same
    exact new

theorem Constructed.rest (new : Constructed e file op s s' o) :
    ∃ next, s' = { s.constructed file o.kind op.elf with nextLibraryAddress := next } := by
  rcases new.state with same | ⟨size, start, reserved, -⟩
  · exact ⟨_, same⟩
  · cases reserved
    exact ⟨_, rfl⟩

theorem Constructed.fresh (new : Constructed e file op s s' o) : s.fresh < s'.fresh := by
  obtain ⟨next, rfl⟩ := new.rest
  exact Nat.lt_succ_self _

theorem Constructed.events (new : Constructed e file op s s' o) : s'.events = s.events := by
  obtain ⟨next, rfl⟩ := new.rest
  rfl

end Construction

end Luci
