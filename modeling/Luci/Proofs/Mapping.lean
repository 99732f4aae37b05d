import Luci.Proofs.Construction
import Luci.Proofs.Growth

/-!
# Mapping the segments of an object

The pages of a segment, which nothing moves, and what the system calls on them do to the
address space. `FramedLoad` relations hold across the writes of a load to identities as well.
-/

namespace Luci

open Exec VirtualMemory

variable {length start : Nat} {f : Object → Object} {protection : Protection}
  {R : Loader → Loader → Prop}

/-! ## Writes of a load -/

/-- Across `create`, an identity keeps its file, its watch and its hook. -/
structure ObjectIdentity.Tended (i i' : ObjectIdentity) : Prop where
  id : i'.id = i.id
  path : i'.path = i.path
  wd : i'.wd = i.wd
  hook : i'.hook = i.hook
  updatable : i'.flags.updatable = i.flags.updatable
  executedBinary : i'.flags.executedBinary = i.flags.executedBinary

instance : IsPreorder ObjectIdentity ObjectIdentity.Tended where
  refl _ := ⟨rfl, rfl, rfl, rfl, rfl, rfl⟩
  trans _ _ _ first second :=
    { id := second.id.trans first.id
      path := second.path.trans first.path
      wd := second.wd.trans first.wd
      hook := second.hook.trans first.hook
      updatable := second.updatable.trans first.updatable
      executedBinary := second.executedBinary.trans first.executedBinary }

/-- A relation that also holds across the writes of `create` to identities and their versions, and
across the registration of thread local storage. -/
class FramedCreate (R : Loader → Loader → Prop) : Prop extends Framed R where
  created : ∀ (s : Loader) (file : Nat) (f : ObjectIdentity → ObjectIdentity),
    (∀ i : ObjectIdentity, i.Tended (f i)) → R s (s.modifyIdentity file f)
  registers : ∀ file size align image imageSize,
    Keeps R (addTlsModule file size align image imageSize)

/-- Name and namespace, by which `library` finds an identity, are the same. -/
structure ObjectIdentity.SameName (i i' : ObjectIdentity) : Prop where
  name : i'.name = i.name
  ns : i'.ns = i.ns

instance : IsPreorder ObjectIdentity ObjectIdentity.SameName where
  refl _ := ⟨rfl, rfl⟩
  trans _ _ _ first second := ⟨second.name.trans first.name, second.ns.trans first.ns⟩

/-- A relation that holds across these writes if they do not rename an identity. -/
class FramedEdits (R : Loader → Loader → Prop) : Prop extends Framed R where
  edited : ∀ (s : Loader) (file : Nat) (f : ObjectIdentity → ObjectIdentity),
    (∀ i : ObjectIdentity, i.Tended (f i) ∧ i.SameName (f i)) → R s (s.modifyIdentity file f)
  registers : ∀ file size align image imageSize,
    Keeps R (addTlsModule file size align image imageSize)

instance (R : Loader → Loader → Prop) [FramedCreate R] : FramedEdits R where
  edited s file f keep := FramedCreate.created s file f fun i => (keep i).1
  registers := FramedCreate.registers

/-- A framed relation that also holds across every write of a load to identities, their versions
and the thread local storage. -/
class FramedLoad (R : Loader → Loader → Prop) : Prop extends Framed R where
  identity : ∀ (s : Loader) (file : Nat) (f : ObjectIdentity → ObjectIdentity),
    (∀ i, (f i).id = i.id) → R s (s.modifyIdentity file f)
  tls : ∀ (s : Loader) (tls : Tls), R s { s with tls := tls }

/-- The registration of thread local storage writes to one identity and to the list of modules. -/
theorem keeps_addTlsModule [IsPreorder Loader R] (file : Nat)
    (identities : ∀ (s : Loader) (moduleId : Nat) (offset : Int),
      R s (s.modifyIdentity file (ObjectIdentity.setTls moduleId offset)))
    (modules : ∀ (s : Loader) (tls : Tls), R s { s with tls := tls })
    (size align image imageSize : Nat) :
    Keeps R (addTlsModule file size align image imageSize) := by
  apply keeps_bind (keeps_require (R := R) _)
  intro _
  refine keeps_bind keeps_get fun s => ?_
  apply keeps_bind (keeps_modify fun s => identities s _ _)
  exact fun _ => keeps_modify fun s => modules s _

instance (R : Loader → Loader → Prop) [FramedLoad R] : FramedCreate R where
  created s file f keep := FramedLoad.identity s file f fun i => (keep i).id
  registers file := keeps_addTlsModule file
    (fun s _ _ => FramedLoad.identity s file _ fun _ => rfl) FramedLoad.tls

theorem frame_modifyIdentity [FramedLoad R] (file : Nat) {f : ObjectIdentity → ObjectIdentity}
    (keep : ∀ i, (f i).id = i.id) :
    Keeps R (modify (Loader.modifyIdentity file f)) :=
  keeps_modify fun s => FramedLoad.identity s file f keep

theorem frame_install [FramedLoad R] (o : Object) : Keeps R (install o) :=
  frame_modifyIdentity o.file fun _ => rfl

section FramedEdits

variable {R : Loader → Loader → Prop} [FramedEdits R] {e : Env}

theorem frame_editIdentity (file : Nat) {f : ObjectIdentity → ObjectIdentity}
    (keep : ∀ i : ObjectIdentity, i.Tended (f i) ∧ i.SameName (f i)) :
    Keeps R (modify (Loader.modifyIdentity file f)) :=
  keeps_modify fun s => FramedEdits.edited s file f keep

@[grind ←] theorem frame_modifyObject (r : ObjectRef) : Keeps R (modify (Loader.modifyObject r f)) :=
  frame_editIdentity _ fun _ => ⟨⟨rfl, rfl, rfl, rfl, rfl, rfl⟩, rfl, rfl⟩

@[grind ←] theorem frame_checkDebugHash (i : ObjectIdentity) (o current : Object) :
    Keeps R (checkDebugHash e i o current) := by
  refine keeps_ite (fun _ => keeps_pure true) fun _ => ?_
  cases o.queryDebugHash e i with
  | none => exact keeps_pure true
  | some hash => exact keeps_bind (frame_modifyObject _) fun _ => by grind

theorem frame_checkUpdate (file : Nat) (o : Object) : Keeps R (checkUpdate e file o) := by
  unfold checkUpdate
  grind

theorem frame_preloadDyn (r : ObjectRef) (dyn : Dyn) : Keeps R (preloadDyn e r dyn) := by
  have paths : ∀ i text, Keeps R (addpath e i text) := by
    intro i text
    exact keeps_ite (fun _ => keeps_bind (keeps_require _) fun _ => keeps_pure _) fun _ =>
      keeps_pure _
  unfold preloadDyn
  cases dyn with
  | flags value => exact frame_editIdentity _ fun _ => ⟨⟨rfl, rfl, rfl, rfl, rfl, rfl⟩, rfl, rfl⟩
  | flags1 value => exact frame_editIdentity _ fun _ => ⟨⟨rfl, rfl, rfl, rfl, rfl, rfl⟩, rfl, rfl⟩
  | soname name => exact frame_modifyObject _
  | rpath text => grind
  | runpath text => grind
  | needed library => exact keeps_pure ()
  | pltgot address => exact keeps_pure ()
  | other tag value => exact keeps_pure ()

theorem frame_preloadLibraries {library : LibraryCall} (r : ObjectRef) (calls : library.Keeps R) :
    Keeps R (preloadLibraries e library r) := by
  refine keeps_bind (frame_getObject _) fun o => ?_
  refine keeps_bind (keeps_forEach _ fun dyn _ => frame_preloadDyn r dyn) fun _ => ?_
  refine keeps_bind (frame_getIdentity _) fun i => keeps_eachOf _ fun lib _ => ?_
  refine keeps_ite (fun _ => keeps_pure true) fun _ => ?_
  refine keeps_bind (frame_getIdentity _) fun i => keeps_bind (frame_getObject _) fun o => ?_
  refine keeps_bind (calls _ _ _ _ _ rfl) fun dep => ?_
  cases dep with
  | none => exact keeps_pure false
  | some dep => exact keeps_bind (frame_modifyObject _) fun _ => keeps_pure true

/-- The end of `create`, given what it does to prepare a version. -/
theorem frame_finishCreate {o : Object} (type : ElfType)
    (preprepared : Keeps R (preprepareObject e o)) (prepared : Keeps R (prepareObject e o)) :
    Keeps R (finishCreate e o type) := by
  refine keeps_bind (frame_getIdentity _) fun i => ?_
  refine keeps_bind (keeps_onlyIf fun _ => ?_) fun _ => ?_
  · refine keeps_bind keeps_get fun s => keeps_bind (keeps_require _) fun _ => ?_
    refine keeps_bind (keeps_onlyIf fun _ => ?_) fun _ => frame_modifyObject _
    refine keeps_bind (frame_editIdentity _ fun _ => ⟨⟨rfl, rfl, rfl, rfl, rfl, rfl⟩, rfl, rfl⟩) fun _ => ?_
    exact keeps_bind preprepared fun _ => keeps_bind prepared fun _ => keeps_pure _
  · refine keeps_bind (frame_editIdentity _ fun _ => ⟨⟨rfl, rfl, rfl, rfl, rfl, rfl⟩, rfl, rfl⟩) fun _ => ?_
    exact keeps_bind keeps_get fun _ => keeps_pure _

end FramedEdits

section FramedCreate

variable {R : Loader → Loader → Prop} [FramedCreate R] {e : Env}

theorem frame_constructObject (file : Nat) (op : Opened) : Keeps R (constructObject e file op) := by
  intro s constructed s' run
  rcases constructObject_inv run with ⟨-, rfl, -⟩ | ⟨o, -, new⟩
  · exact refl_of R _
  · obtain ⟨next, rfl⟩ := new.rest
    have created : ∀ i : ObjectIdentity, i.Tended (i.constructed o.kind op.elf) := by
      intro i
      cases o.kind <;> exact ⟨rfl, rfl, rfl, rfl, rfl, rfl⟩
    refine trans_of R (FramedCreate.created s file _ created) ?_
    exact Framed.unused (s.modifyIdentity file _) s.ticks (s.fresh + 1) next _ (Nat.le_succ _)

end FramedCreate

section FramedLoad

variable {R : Loader → Loader → Prop} [FramedLoad R] {e : Env}

theorem frame_hookRefresh (file : Nat) : Keeps R (hookRefresh e file) := by
  refine frame_modifyIdentity file fun i => ?_
  split <;> rfl

theorem frame_initialHook (file : Nat) : Keeps R (initialHook e file) :=
  keeps_bind (frame_getIdentity _) fun _ => keeps_onlyIf fun _ => frame_hookRefresh file

theorem frame_watch (file : Nat) (force closeExisting : Bool) :
    Keeps R (watch e file force closeExisting) := by
  refine keeps_bind (frame_getIdentity _) fun i => keeps_ite (fun _ => ?_) fun _ => keeps_pure _
  refine keeps_bind (by grind) fun _ => keeps_bind (frame_addWatch _) fun wd => ?_
  exact keeps_bind (frame_modifyIdentity file fun _ => rfl) fun _ => keeps_pure _

theorem frame_afterCreate (file : Nat) (data : Data) (object : Option ObjectRef) :
    Keeps R (afterCreate e file data object) := by
  refine keeps_bind (frame_getIdentity _) fun i => keeps_ite (fun _ => by grind) fun _ => ?_
  exact keeps_bind (frame_watch file _ _) fun _ => keeps_pure _

end FramedLoad

/-! ## One segment -/

section Place

variable (seg : MemorySegment)

theorem pageStart_aligned : seg.pageStart % pageSize = 0 := by
  unfold MemorySegment.pageStart
  have := Nat.div_add_mod seg.address pageSize
  rw [show seg.address - seg.address % pageSize = pageSize * (seg.address / pageSize) by omega]
  exact Nat.mul_mod_right _ _

theorem pageSize_whole : seg.pageSize % pageSize = 0 := by
  unfold MemorySegment.pageSize
  generalize (seg.address - seg.pageStart + seg.size + pageSize - 1) % 2 ^ 64 = bytes
  have := Nat.div_add_mod bytes pageSize
  dsimp only
  rw [show bytes - bytes % pageSize = pageSize * (bytes / pageSize) by omega]
  exact Nat.mul_mod_right _ _

variable {seg}

theorem MemorySegment.Bounded.limit (bounded : seg.Bounded) :
    seg.pageStart + seg.pageSize ≤ userLimit := by
  unfold MemorySegment.Bounded userLimit at *
  unfold MemorySegment.pageSize MemorySegment.pageStart VirtualMemory.pageSize
  dsimp only
  omega

theorem MemorySegment.Bounded.fits (bounded : seg.Bounded) : seg.Fits := by
  unfold MemorySegment.Bounded userLimit at bounded
  unfold MemorySegment.Fits VirtualMemory.pageSize
  omega

theorem pageStart_le_address (seg : MemorySegment) : seg.pageStart ≤ seg.address := Nat.sub_le _ _

theorem address_in_pages (seg : MemorySegment) (fits : seg.Fits) :
    seg.pageStart ≤ seg.address ∧ seg.address + seg.size ≤ seg.pageStart + seg.pageSize := by
  unfold MemorySegment.Fits at fits
  unfold MemorySegment.pageSize MemorySegment.pageStart VirtualMemory.pageSize at *
  dsimp only
  omega

end Place

/-- A segment at the same place with the same rights. -/
structure SamePlace (a b : MemorySegment) : Prop where
  base : b.base = a.base
  offset : b.offset = a.offset
  size : b.size = a.size
  protection : b.protection = a.protection

section SamePlace

variable {a b c : MemorySegment}

theorem SamePlace.address (same : SamePlace a b) : b.address = a.address := by
  unfold MemorySegment.address
  rw [same.base, same.offset]

theorem SamePlace.pageStart (same : SamePlace a b) : b.pageStart = a.pageStart := by
  unfold MemorySegment.pageStart
  rw [same.address]

theorem SamePlace.pageSize (same : SamePlace a b) : b.pageSize = a.pageSize := by
  unfold MemorySegment.pageSize
  rw [same.address, same.pageStart, same.size]

end SamePlace

/-! ## Mapping -/

section Map

variable {e : Env} {o : Object} {seg seg' : MemorySegment} {s s' : Loader} {ok : Bool}

theorem mmapFixed_inv {backing : Backing}
    (run : mmapFixed e start length protection backing s = some (ok, s')) :
    ok = false ∧ s'.vm = s.vm ∨ ok ∧ s.vm.isFree start length ∧
      s'.vm = s.vm.map start length protection backing ∧ start + length ≤ userLimit := by
  obtain ⟨done, s1, called, run⟩ := bind_inv run
  cases called
  rw [bind_of_eq (get_apply _)] at run
  split at run
  · rename_i possible
    cases run
    rw [Bool.and_eq_true, Bool.and_eq_true, decide_eq_true_eq] at possible
    exact Or.inr ⟨rfl, possible.2, rfl, possible.1.2⟩
  · cases run
    exact Or.inl ⟨rfl, rfl⟩

theorem call_inv {f : Loader → Loader}
    (run : (do
      if ← syscall e then do
        modify f
        return true
      else return false : LoaderM Bool) s = some (ok, s')) :
    s' = if ok then f { s with ticks := s.ticks + 1 } else { s with ticks := s.ticks + 1 } := by
  obtain ⟨done, s1, called, run⟩ := bind_inv run
  cases called
  split at run <;> cases run <;> rfl

theorem mprotect_inv (run : mprotect e start length protection s = some (ok, s')) :
    ok = false ∧ s'.vm = s.vm ∨ ok ∧ s'.vm = s.vm.protect start length protection := by
  rw [call_inv run]
  cases ok <;> simp

theorem munmap_inv (run : munmap e start length s = some (ok, s')) :
    ok = false ∧ s'.vm = s.vm ∨ ok ∧ s'.vm = s.vm.unmap start length := by
  rw [call_inv run]
  cases ok <;> simp

end Map

end Luci
