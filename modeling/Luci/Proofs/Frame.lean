import Luci.Proofs.Access
import Luci.Loader

/-!
# What operations on memory leave alone

Most functions of the loader work on memory: they map, read and write segments and use
descriptors. `Framed` relations hold across everything such a function may change, and the
rules of `Exec.Keeps` carry them from the system calls to the operations on segments and
objects. A function that writes the memory map of an object or binds its symbols needs in
addition that the relation allows this for the object.

`Quiet` is the relation that says what none of these functions touches; it allows removing
mappings, too. `Relocates` is the same for the functions that also note the symbols they
bind.
-/

namespace Luci

open Exec VirtualMemory

variable {uid : Nat} {o : Object} {fix : Bool} {s s₁ : Loader} {reloc : Relocation}
  {key : Option (Nat × Nat)}

/-- A relation that holds across every change of memory that removes no mapping, and across every
change of the remaining time, of addresses, remembered contents, descriptors and files. -/
class Framed (R : Loader → Loader → Prop) : Prop extends IsPreorder Loader R where
  unused : ∀ (s : Loader) (ticks fresh next : Nat) (files : List FileEvent), s.fresh ≤ fresh →
    R s { s with ticks := ticks, fresh := fresh, nextLibraryAddress := next, files := files }
  vm : ∀ (s : Loader) (vm : Vm), Vm.Extends s.vm vm → R s { s with vm := vm }
  datarelContent : ∀ (s : Loader) (content : Nat → List ((Option Nat × Nat) × Nat)),
    R s { s with datarelContent := content }

/-- The relation allows writes to the memory map of an object. -/
def WritesMap (R : Loader → Loader → Prop) (uid : Nat) : Prop :=
  ∀ (s : Loader) (segments : List MemorySegment), R s (s.setMemoryMap uid segments)

/-- The relation allows the calls of `library` that `preload_libraries` makes. -/
def LibraryCall.Keeps (library : LibraryCall) (R : Loader → Loader → Prop) : Prop :=
  ∀ lib flags rpath runpath ns, flags.initialized = false →
    Exec.Keeps R (library lib flags rpath runpath ns)

/-- The relation allows that an object binds symbols. -/
def BindsSymbols (R : Loader → Loader → Prop) (uid : Nat) : Prop :=
  ∀ (s : Loader) (reloc : Relocation) (sym : VersionedSymbol),
    R s (s.insertRelocation uid reloc sym)

section Frame

variable {R : Loader → Loader → Prop} [Framed R] {e : Env}

/-! ## System calls -/

@[grind ←] theorem frame_syscall : Keeps R (syscall e) := by
  rintro s ok s' ⟨⟩
  exact Framed.unused s _ _ _ _ le_rfl

@[grind ←] theorem frame_addWatch (path : String) : Keeps R (addWatch e path) :=
  keeps_bind frame_syscall fun _ => keeps_pure _

theorem frame_files (files : Loader → List FileEvent) :
    Keeps R (modify fun s : Loader => { s with files := files s }) :=
  keeps_modify fun s => Framed.unused s _ _ _ _ le_rfl

@[grind ←] theorem frame_openDescriptor : Keeps R (openDescriptor e) := by
  refine keeps_bind frame_syscall fun ok => keeps_ite (fun _ => ?_) fun _ => keeps_pure none
  rintro s a s' ⟨⟩
  exact Framed.unused s _ _ _ _ (Nat.le_succ _)

@[grind ←] theorem frame_closeDescriptor (fd : Option Nat) : Keeps R (closeDescriptor fd) :=
  frame_files _

@[grind ←] theorem frame_mapFile (size : Nat) : Keeps R (mapFile e size) := by
  refine keeps_bind keeps_get fun s => keeps_bind frame_syscall fun ok => ?_
  exact keeps_ite (fun _ => keeps_bind (frame_files _) fun _ => keeps_pure _) fun _ => keeps_pure _

@[grind ←] theorem frame_unmapFile (addr size : Nat) : Keeps R (unmapFile addr size) :=
  frame_files _

@[grind ←] theorem frame_resetAddress (addr : Nat) : Keeps R (resetAddress addr) :=
  keeps_modify fun s => Framed.unused s _ _ _ _ le_rfl

@[grind ←] theorem frame_nextAddress (size : Nat) : Keeps R (nextAddress e size) := by
  rintro s next s' ⟨⟩
  exact Framed.unused s _ _ _ _ le_rfl

@[grind ←] theorem frame_mmapFixed (start length : Nat) (protection : Protection)
    (backing : Backing) : Keeps R (mmapFixed e start length protection backing) := by
  refine keeps_bind frame_syscall fun ok => ?_
  intro s mapped s' run
  rw [bind_of_eq (get_apply s)] at run
  split at run
  · next free =>
    cases run
    rw [Bool.and_eq_true] at free
    exact Framed.vm s _ (Vm.extends_map free.2)
  · cases run
    exact refl s

@[grind ←] theorem frame_newBacking (content : Nat → UInt8) : Keeps R (newBacking content) := by
  rintro s backing s' ⟨⟩
  exact Framed.vm s _ (Vm.Extends.of_page rfl)

theorem frame_newMemoryFile (fd : Nat) :
    Keeps R (modify fun s : Loader => { s with vm := s.vm.newMemoryFile fd }) :=
  keeps_modify fun s => Framed.vm s _ (Vm.Extends.of_page rfl)

@[grind ←] theorem frame_mmapAnywhere (length : Nat) (protection : Protection)
    (content : Nat → UInt8) : Keeps R (mmapAnywhere e length protection content) := by
  unfold mmapAnywhere
  grind

@[grind ←] theorem frame_mprotect (start length : Nat) (protection : Protection) :
    Keeps R (mprotect e start length protection) := by
  refine keeps_bind frame_syscall fun ok => keeps_ite (fun _ => ?_) fun _ => keeps_pure _
  refine keeps_bind (keeps_modify fun s => ?_) fun _ => keeps_pure _
  exact Framed.vm s _ Vm.extends_protect

theorem frame_writeVm {write : Vm → Option Vm}
    (keep : ∀ vm vm', write vm = some vm' → vm'.page = vm.page) :
    Keeps R (do
      let s ← get
      let vm ← orAbort (write s.vm)
      set { s with vm := vm } : LoaderM PUnit) := by
  intro s u s' run
  rw [bind_of_eq (get_apply s)] at run
  obtain ⟨vm, written, run⟩ := orAbort_bind_inv run
  cases run
  exact Framed.vm s _ (Vm.Extends.of_page (keep _ _ written))

@[grind ←] theorem frame_copyBytes (address n : Nat) (bytes : Nat → UInt8) :
    Keeps R (copyBytes address n bytes) :=
  frame_writeVm fun _ _ run => (Vm.writeBytes_stored bytes n run).page

@[grind ←] theorem frame_writeMemory (n address value : Nat) :
    Keeps R (writeMemory n address value) :=
  frame_writeVm fun _ _ run => (Vm.writeNat_stored run).page

@[grind ←] theorem frame_readMemory (n address : Nat) : Keeps R (readMemory n address) := by
  unfold readMemory
  grind

/-! ## Segments and objects -/

@[grind ←] theorem frame_place (o : Object) (seg : MemorySegment) (protection : Protection)
    (backing : Backing) (copy : Bool) : Keeps R (seg.place e o protection backing copy) := by
  unfold MemorySegment.place
  grind

@[grind ←] theorem frame_map (o : Object) (seg : MemorySegment) : Keeps R (seg.map e o) := by
  refine keeps_bind keeps_get fun s => ?_
  refine keeps_ite (fun _ => ?_) fun _ => ?_
  · cases seg.fd with
    | some fd => grind
    | none =>
      refine keeps_bind (keeps_require _) fun _ => ?_
      refine keeps_bind frame_openDescriptor fun fd => ?_
      cases fd with
      | none => exact keeps_pure _
      | some fd =>
        refine keeps_bind frame_syscall fun ok => keeps_ite (fun _ => ?_) fun _ => keeps_pure _
        exact keeps_bind (frame_newMemoryFile fd) fun _ => frame_place _ _ _ _ _
  · grind

@[grind ←] theorem frame_composeMapped (seg : MemorySegment) : Keeps R (seg.composeMapped e) := by
  unfold MemorySegment.composeMapped
  grind

@[grind ←] theorem frame_compose (o : Object) (seg : MemorySegment) : Keeps R (seg.compose e o) := by
  unfold MemorySegment.compose
  grind

theorem frame_forSegments (writes : WritesMap R uid)
    {f : MemorySegment → LoaderM (Bool × MemorySegment)} (each : ∀ seg, Keeps R (f seg))
    (rest : List MemorySegment) : ∀ done, Keeps R (forSegments uid f done rest) := by
  induction rest with
  | nil => intro done; exact keeps_pure true
  | cons seg rest ih =>
    intro done
    refine keeps_bind (each seg) fun (ok, seg) => ?_
    exact keeps_bind (keeps_modify fun s => writes s _) fun _ => keeps_map (ih (done ++ [seg]))

theorem frame_mapObject (o : Object) (writes : WritesMap R o.uid) : Keeps R (o.map e) :=
  keeps_bind keeps_get fun _ => frame_forSegments writes (frame_map o) _ []

@[grind ←] theorem frame_getIdentity (file : Nat) : Keeps R (getIdentity file) := by
  unfold getIdentity
  grind

@[grind ←] theorem frame_getObject (r : ObjectRef) : Keeps R (getObject r) := by
  unfold getObject
  grind

/-! ## Files -/

@[grind ←] theorem frame_checkElf (i : ObjectIdentity) (data : Data) (elf : Elf) (type : ElfType) :
    Keeps R (checkElf i data elf type) := by
  unfold checkElf
  grind

@[grind ←] theorem frame_debuggerFile : Keeps R (debuggerFile e) := by
  unfold debuggerFile
  grind

@[grind ←] theorem frame_mapContent (i : ObjectIdentity) (fd size : Nat) :
    Keeps R (mapContent e i fd size) := by
  refine keeps_bind (frame_mapFile size) fun addr => ?_
  cases addr with
  | none => grind
  | some addr => grind

@[grind ←] theorem frame_openPath (i : ObjectIdentity) (type : ElfType) :
    Keeps R (openPath e i type) := by
  refine keeps_bind (keeps_require _) fun _ => ?_
  cases e.world.file i.path with
  | none => grind
  | some file =>
    refine keeps_bind frame_openDescriptor fun fd => ?_
    cases fd with
    | none => grind
    | some fd => grind

@[grind ←] theorem frame_openObject (file : Nat) (memory : Option MemoryImage) (type : ElfType) :
    Keeps R (openObject e file memory type) := by
  unfold openObject
  grind

/-! ## Values of relocations -/

@[grind ←] theorem frame_commonAddress (c : Common) : Keeps R (commonAddress e c) := by
  unfold commonAddress
  grind

@[grind ←] theorem frame_prepareCommon (o : Object) (c : Common) (sym : Symbol) :
    Keeps R (prepareCommon e o c sym) := by
  unfold prepareCommon
  grind

theorem frame_composeBase (writes : WritesMap R o.uid) (seg : Option (Nat × MemorySegment)) :
    Keeps R (composeBase e o seg) := by
  cases seg with
  | none => exact keeps_pure _
  | some entry =>
    refine keeps_bind (frame_compose o entry.2) fun (buffer, seg) => ?_
    exact keeps_bind (keeps_modify fun s => writes s _) fun _ => keeps_pure _

@[grind ←] theorem frame_fixValue (reloc : Relocation) (got base symbolSize value : Nat) :
    Keeps R (fixValue e reloc got base symbolSize value) := by
  unfold fixValue
  grind

@[grind ←] theorem frame_noteContent (file : Nat) (key : Option (Nat × Nat)) (value : Nat) :
    Keeps R (noteContent file key value) := by
  cases key with
  | none => exact keeps_pure _
  | some key => exact keeps_modify fun s => Framed.datarelContent s _

theorem frame_outdatedValue (o : Object) (reloc : Relocation) (fix : Bool) (value : Nat) :
    Keeps R (outdatedValue e o reloc fix value) := by
  unfold outdatedValue
  grind

theorem frame_applyValue (writes : WritesMap R o.uid) (seg : Option (Nat × MemorySegment))
    (key : Option (Nat × Nat)) (reloc : Relocation) (fix : Bool) (symbolSize value : Nat) :
    Keeps R (applyValue e o seg key reloc fix symbolSize value) := by
  refine keeps_bind (frame_outdatedValue o reloc fix value) fun outdated => ?_
  refine keeps_ite (fun _ => ?_) fun _ => keeps_pure _
  refine keeps_bind (frame_composeBase writes seg) fun base => ?_
  exact keeps_bind (frame_fixValue _ _ _ _ _) fun _ => frame_noteContent _ _ _

@[grind ←] theorem frame_changedContent (o : Object) (address : Nat) (key : Option (Nat × Nat)) :
    Keeps R (changedContent o address key) := by
  unfold changedContent
  grind

@[grind ←] theorem frame_incrementWord (base address : Nat) :
    Keeps R (incrementWord base address) := by
  unfold incrementWord
  grind

@[grind ←] theorem frame_relaxGot (base : Nat) (reloc : Relocation) :
    Keeps R (relaxGot base reloc) := by
  unfold relaxGot
  grind

@[grind ←] theorem frame_finishSections (o : Object) : Keeps R (finishSections o) := by
  unfold finishSections writeEhHeader
  grind

/-! ## Binding of symbols -/

/-- What `segmentAt` has found is still in the memory map. -/
def Loader.Holds (s : Loader) (uid : Nat) (found : Option (Nat × MemorySegment)) : Prop :=
  ∀ n seg, found = some (n, seg) → (s.memoryMap uid)[n]? = some seg

/-- The relation holds across the composition of a segment of an object. -/
def KeepsCompose (R : Loader → Loader → Prop) (e : Env) (uid : Nat) : Prop :=
  ∀ (o : Object) (found : Option (Nat × MemorySegment)) (s : Loader) (base : Nat) (s' : Loader),
    o.uid = uid → s.Holds uid found → composeBase e o found s = some (base, s') → R s s'

theorem WritesMap.keepsCompose (writes : WritesMap R uid) : KeepsCompose R e uid := by
  intro o found s base s' isUid _ run
  exact frame_composeBase (isUid ▸ writes) found _ _ _ run

theorem holds_segmentAt (s : Loader) (uid address : Nat) :
    s.Holds uid (s.segmentAt uid address) := by
  intro n seg isEntry
  unfold Loader.segmentAt at isEntry
  cases index : (s.memoryMap uid).findIdx? fun seg => seg.contains address with
  | none =>
    rw [index] at isEntry
    cases isEntry
  | some m =>
    rw [index] at isEntry
    obtain ⟨seg', isSeg, same⟩ := Option.map_eq_some_iff.mp isEntry
    cases same
    exact isSeg

/-- No memory map has changed. -/
def SameMaps (s s' : Loader) : Prop := s'.memoryMap = s.memoryMap

instance : IsPreorder Loader SameMaps where
  refl _ := rfl
  trans _ _ _ first second := second.trans first

instance : Framed SameMaps where
  unused _ _ _ _ _ _ := rfl
  vm _ _ _ := rfl
  datarelContent _ _ := rfl

theorem Loader.Holds.same {found : Option (Nat × MemorySegment)} (holds : s.Holds uid found)
    (maps : SameMaps s s₁) : s₁.Holds uid found := by
  intro n seg isEntry
  rw [show s₁.memoryMap = s.memoryMap from maps]
  exact holds n seg isEntry

section Binding

variable {uid : Nat} (composes : KeepsCompose R e uid) (binds : BindsSymbols R uid)
  {o : Object} {found : Option (Nat × MemorySegment)} {s s' : Loader}

include composes

theorem frame_applyHeld (isUid : o.uid = uid) (holds : s.Holds uid found) {symbolSize value : Nat}
    {u : Unit} (run : applyValue e o found key reloc fix symbolSize value s = some (u, s')) :
    R s s' := by
  obtain ⟨outdated, s₁, compared, run⟩ := bind_inv run
  have first : R s s₁ := frame_outdatedValue o reloc fix value _ _ _ compared
  have maps : SameMaps s s₁ := frame_outdatedValue o reloc fix value _ _ _ compared
  refine trans_of R first ?_
  split at run
  · obtain ⟨base, s2, based, run⟩ := bind_inv run
    refine trans_of R (composes o found s₁ base s2 isUid (holds.same maps) based) ?_
    have rest : Keeps R (do
        fixValue e reloc o.globalOffsetTable base symbolSize value
        noteContent o.file key value) :=
      keeps_bind (frame_fixValue _ _ _ _ _) fun _ => frame_noteContent _ _ _
    exact rest _ _ _ run
  · cases run
    exact refl_of R _

include binds

theorem frame_relocateSymbol (isUid : o.uid = uid) (holds : s.Holds uid found) {i : ObjectIdentity}
    {result : Nat × Bool} (run : relocateSymbol e o i found key reloc fix s = some (result, s')) :
    R s s' := by
  unfold relocateSymbol at run
  rw [bind_of_eq (get_apply s)] at run
  obtain ⟨⟨needSymbol, query⟩, -, run⟩ := orAbort_bind_inv run
  obtain ⟨symbol, -, run⟩ := orAbort_bind_inv run
  cases symbol with
  | none =>
    cases run
    exact refl_of R s
  | some symbol =>
    obtain ⟨_, s₁, bound, run⟩ := bind_inv run
    have maps : SameMaps s s₁ := by
      rw [modify_inv bound]
      rfl
    have first : R s s₁ := by
      rw [modify_inv bound, isUid]
      exact binds s reloc symbol
    obtain ⟨symobj, -, run⟩ := getObject_bind_inv run
    obtain ⟨symfile, -, run⟩ := getIdentity_bind_inv run
    obtain ⟨_, s2, applied, run⟩ := bind_inv run
    rw [(pure_inv run).2]
    exact trans_of R first (frame_applyHeld composes isUid (holds.same maps) applied)

theorem frame_relocate (r : ObjectRef) (isRef : r.uid = uid) (reloc : Relocation) (fix : Bool) :
    Keeps R (relocate e r reloc fix) := by
  intro s result s' run
  unfold relocate at run
  rw [bind_of_eq (get_apply s)] at run
  obtain ⟨o, isObject, run⟩ := getObject_bind_inv run
  have isUid : o.uid = uid := (Loader.uid_of_object isObject).trans isRef
  obtain ⟨i, -, run⟩ := getIdentity_bind_inv run
  extract_lets address seg key at run
  obtain ⟨content, s₁, changed, run⟩ := bind_inv run
  have first : R s s₁ := frame_changedContent o address key _ _ _ changed
  have maps : SameMaps s s₁ := frame_changedContent o address key _ _ _ changed
  have holds : s₁.Holds uid seg := by
    rw [← isUid]
    exact (holds_segmentAt s o.uid address).same maps
  refine trans_of R first ?_
  cases content with
  | some cached =>
    cases run
    exact refl_of R _
  | none =>
    dsimp only at run
    split at run
    · obtain ⟨_, s2, applied, run⟩ := bind_inv run
      rw [(pure_inv run).2]
      exact frame_applyHeld composes isUid holds applied
    · exact frame_relocateSymbol composes binds isUid holds run

end Binding

section Relocation

variable {r : ObjectRef} (relocates : ∀ reloc fix, Keeps R (relocate e r reloc fix))

include relocates

theorem frame_relocateAll (relocs : List Relocation) : Keeps R (relocateAll e r relocs) := by
  induction relocs with
  | nil => exact keeps_pure false
  | cons reloc relocs ih =>
    refine keeps_bind (relocates reloc true) fun (value, fatal) => ?_
    exact keeps_ite (fun _ => keeps_pure true) fun _ => ih

theorem frame_preparePlt (o : Object) : Keeps R (preparePlt e r o) := by
  refine keeps_bind (frame_writeMemory _ _ _) fun _ => ?_
  refine keeps_bind (frame_writeMemory _ _ _) fun _ => ?_
  refine keeps_bind (frame_getIdentity _) fun i => ?_
  refine keeps_ite (fun _ => frame_relocateAll relocates _) fun _ => ?_
  exact keeps_bind (keeps_forEach _ fun _ _ => frame_incrementWord _ _) fun _ => keeps_pure _

theorem frame_prepareDynamic : Keeps R (prepareDynamic e r) := by
  refine keeps_bind (frame_getObject r) fun o => ?_
  refine keeps_bind (frame_relocateAll relocates _) fun error => ?_
  refine keeps_bind (keeps_forEach _ fun _ _ => frame_incrementWord _ _) fun _ => ?_
  refine keeps_ite (fun _ => ?_) fun _ => keeps_pure _
  exact keeps_bind (frame_preparePlt relocates o) fun error => keeps_pure _

theorem frame_updateRelocation (entry : Relocation × VersionedSymbol) :
    Keeps R (updateRelocation e r entry) := by
  refine keeps_bind keeps_get fun s => ?_
  refine keeps_bind (frame_getObject r) fun o => ?_
  refine keeps_bind (frame_getIdentity _) fun i => ?_
  refine keeps_ite (fun _ => ?_) fun _ => keeps_pure _
  exact keeps_bind (relocates _ _) fun _ => keeps_pure _

theorem frame_updateDynamic : Keeps R (updateDynamic e r) := by
  refine keeps_bind keeps_get fun s => ?_
  refine keeps_bind (keeps_forEach _ fun entry _ => frame_updateRelocation relocates entry)
    fun _ => ?_
  exact keeps_pure true

end Relocation

/-! ## Relocatable objects -/

section Relocatable

variable {r : ObjectRef} (binds : BindsSymbols R r.uid)

include binds

theorem frame_relocateDefined (isRef : o.uid = r.uid) (i : ObjectIdentity) (reloc : Relocation)
    (needed : Symbol) (postpone : Bool) :
    Keeps R (relocateDefined e o i reloc needed postpone) := by
  rw [← isRef] at binds
  refine keeps_ite (fun _ => keeps_pure _) fun _ => ?_
  refine keeps_bind keeps_get fun s => ?_
  extract_lets pltEntry newer
  rcases newer with _ | ⟨current, latest, owner⟩
  · refine keeps_bind (keeps_modify fun s => binds s reloc _) fun _ => ?_
    exact keeps_bind (frame_fixValue _ _ _ _ _) fun _ => keeps_pure _
  · refine keeps_bind (keeps_modify fun s => binds s reloc _) fun _ => ?_
    exact keeps_bind (frame_fixValue _ _ _ _ _) fun _ => keeps_pure _

theorem frame_relocateExternal (isRef : o.uid = r.uid) (i : ObjectIdentity) (reloc : Relocation)
    (needed : Symbol) (postpone : Bool) :
    Keeps R (relocateExternal e o i reloc needed postpone) := by
  rw [← isRef] at binds
  refine keeps_bind keeps_get fun s => keeps_bind (keeps_orAbort _) fun found => ?_
  cases found with
  | none => exact keeps_pure _
  | some symbol =>
    refine keeps_bind (keeps_modify fun s => binds s reloc symbol) fun _ => ?_
    grind

theorem frame_relocateInRelocatable (reloc : Relocation) (postpone : Bool) :
    Keeps R (relocateInRelocatable e r reloc postpone) := by
  refine keeps_bind_of (frame_getObject r) fun o _ _ found => ?_
  have isRef := getObject_uid found
  refine keeps_bind (frame_getIdentity _) fun i => ?_
  refine keeps_bind (frame_relaxGot _ _) fun _ => ?_
  refine keeps_ite (fun _ => by grind) fun _ => ?_
  refine keeps_bind (keeps_orAbort _) fun needed => ?_
  refine keeps_ite (fun _ => ?_) fun _ => ?_
  · exact frame_relocateDefined binds isRef i reloc needed postpone
  · exact frame_relocateExternal binds isRef i reloc needed postpone

theorem frame_relocateTables (relocs : List Relocation) : Keeps R (relocateTables e r relocs) := by
  induction relocs with
  | nil => exact keeps_pure _
  | cons reloc relocs ih =>
    refine keeps_bind (frame_relocateInRelocatable binds reloc true) fun (value, postponed) => ?_
    exact keeps_bind ih fun (success, rest) => keeps_pure _

theorem frame_prepareRelocatable : Keeps R (prepareRelocatable e r) := by
  refine keeps_bind (frame_getObject r) fun o => ?_
  refine keeps_bind (frame_relocateTables binds _) fun (success, postponed) => ?_
  refine keeps_bind (keeps_eachOf postponed fun reloc _ => ?_) fun postponedSuccess => ?_
  · exact keeps_bind (frame_relocateInRelocatable binds reloc false) fun _ => keeps_pure _
  · exact keeps_bind (frame_finishSections o) fun _ => keeps_pure _

theorem frame_updateRelocatable : Keeps R (updateRelocatable e r) := by
  refine keeps_bind keeps_get fun s => ?_
  refine keeps_bind (keeps_forEach _ fun entry _ => ?_) fun _ => keeps_pure true
  refine keeps_bind keeps_get fun s => keeps_ite (fun _ => ?_) fun _ => keeps_pure _
  exact keeps_bind (frame_relocateInRelocatable binds _ _) fun _ => keeps_pure _

end Relocatable

/-- Preparing an object relocates it and binds its symbols only. -/
theorem frame_prepareObject (relocates : ∀ reloc fix, Keeps R (relocate e o.ref reloc fix))
    (binds : BindsSymbols R o.uid) :
    Keeps R (prepareObject e o) := by
  unfold prepareObject
  cases o.kind with
  | executable => exact keeps_pure true
  | dynamic => exact frame_prepareDynamic relocates
  | relocatable => exact frame_prepareRelocatable binds

/-- Updating an object relocates it and binds its symbols only. -/
theorem frame_updateObject (relocates : ∀ reloc fix, Keeps R (relocate e o.ref reloc fix))
    (binds : BindsSymbols R o.uid) :
    Keeps R (updateObject e o) := by
  unfold updateObject
  cases o.kind with
  | executable => exact keeps_pure true
  | dynamic => exact frame_updateDynamic relocates
  | relocatable => exact frame_updateRelocatable binds

end Frame

/-! ## The rest of the state -/

/-- Nothing has changed but memory, segments, descriptors and unused addresses. -/
@[grind]
structure Quiet (s s' : Loader) : Prop where
  lookup : s'.lookup = s.lookup
  dependencies : s'.dependencies = s.dependencies
  nextNamespace : s'.nextNamespace = s.nextNamespace
  target : s'.target = s.target
  processStarted : s'.processStarted = s.processStarted
  updatePending : s'.updatePending = s.updatePending
  tls : s'.tls = s.tls
  relocations : s'.relocations = s.relocations
  events : s'.events = s.events
  fresh : s.fresh ≤ s'.fresh

theorem Quiet.refl (s : Loader) : Quiet s s :=
  ⟨rfl, rfl, rfl, rfl, rfl, rfl, rfl, rfl, rfl, le_rfl⟩

theorem Quiet.trans {s₁ s2 s3 : Loader} (first : Quiet s₁ s2) (second : Quiet s2 s3) :
    Quiet s₁ s3 where
  lookup := second.lookup.trans first.lookup
  dependencies := second.dependencies.trans first.dependencies
  nextNamespace := second.nextNamespace.trans first.nextNamespace
  target := second.target.trans first.target
  processStarted := second.processStarted.trans first.processStarted
  updatePending := second.updatePending.trans first.updatePending
  tls := second.tls.trans first.tls
  relocations := second.relocations.trans first.relocations
  events := second.events.trans first.events
  fresh := first.fresh.trans second.fresh

instance : IsPreorder Loader Quiet where
  refl := Quiet.refl
  trans _ _ _ := Quiet.trans

instance : Framed Quiet where
  unused _ _ _ _ _ more := ⟨rfl, rfl, rfl, rfl, rfl, rfl, rfl, rfl, rfl, more⟩
  vm _ _ _ := ⟨rfl, rfl, rfl, rfl, rfl, rfl, rfl, rfl, rfl, le_rfl⟩
  datarelContent _ _ := ⟨rfl, rfl, rfl, rfl, rfl, rfl, rfl, rfl, rfl, le_rfl⟩

@[grind ←] theorem Quiet.setMemoryMap (s : Loader) (uid : Nat) (segments : List MemorySegment) :
    Quiet s (s.setMemoryMap uid segments) :=
  ⟨rfl, rfl, rfl, rfl, rfl, rfl, rfl, rfl, rfl, le_rfl⟩

section Quiet

variable {e : Env}

theorem quiet_writesMap (uid : Nat) : WritesMap Quiet uid := fun s => Quiet.setMemoryMap s uid

theorem quiet_modifyVm (f : Loader → Vm) :
    Keeps Quiet (modify fun s : Loader => { s with vm := f s }) :=
  keeps_modify fun _ => ⟨rfl, rfl, rfl, rfl, rfl, rfl, rfl, rfl, rfl, le_rfl⟩

@[grind ←] theorem quiet_munmap (start length : Nat) : Keeps Quiet (munmap e start length) := by
  refine keeps_bind frame_syscall fun ok => keeps_ite (fun _ => ?_) fun _ => keeps_pure _
  exact keeps_bind (quiet_modifyVm _) fun _ => keeps_pure _

theorem quiet_mremap (source length destination : Nat) :
    Keeps Quiet (mremap e source length destination) := by
  refine keeps_bind frame_syscall fun ok => keeps_ite (fun _ => ?_) fun _ => keeps_pure _
  exact keeps_bind (quiet_modifyVm _) fun _ => keeps_pure _

@[grind ←] theorem quiet_finalizeSegment (force : Bool) (seg : MemorySegment) :
    Keeps Quiet (seg.finalize e force) := by
  refine keeps_ite (fun _ => keeps_pure _) fun _ => ?_
  refine keeps_ite (fun _ => ?_) fun _ => by grind
  refine keeps_bind (frame_mprotect _ _ _) fun isProtected => ?_
  exact keeps_bind (quiet_mremap _ _ _) fun moved => by grind

@[grind ←] theorem quiet_unmapSegment (seg : MemorySegment) : Keeps Quiet (seg.unmap e) := by
  refine keeps_ite (fun _ => keeps_pure _) fun _ => ?_
  refine keeps_bind (quiet_munmap _ _) fun ok => keeps_ite (fun _ => ?_) fun _ => keeps_pure _
  refine keeps_bind (keeps_onlyIf fun _ => ?_) fun _ => keeps_pure _
  exact keeps_bind (quiet_munmap _ _) fun _ => keeps_pure _

@[grind ←] theorem quiet_mapObject (o : Object) : Keeps Quiet (o.map e) :=
  frame_mapObject o (quiet_writesMap o.uid)

@[grind ←] theorem quiet_finalizeObject (o : Object) : Keeps Quiet (o.finalize e) :=
  keeps_bind keeps_get fun _ =>
    frame_forSegments (quiet_writesMap o.uid) (quiet_finalizeSegment false) _ []

@[grind ←] theorem quiet_release (o : Object) : Keeps Quiet (o.release e) := by
  refine keeps_bind keeps_get fun s => ?_
  refine keeps_bind (frame_forSegments (quiet_writesMap o.uid) quiet_unmapSegment _ []) fun _ => ?_
  grind

end Quiet

/-- Like `Quiet`, but the object `uid` may also have bound symbols. -/
@[grind]
structure Relocates (uid : Nat) (s s' : Loader) : Prop where
  quiet : Quiet { s with relocations := s'.relocations } s'
  others : ∀ u, u ≠ uid → s'.relocations u = s.relocations u

theorem Quiet.relocates {s s' : Loader} (uid : Nat) (quiet : Quiet s s') : Relocates uid s s' := by
  grind

instance (uid : Nat) : IsPreorder Loader (Relocates uid) where
  refl s := (Quiet.refl s).relocates uid
  trans _ _ _ first second := by
    refine ⟨?_, fun u other => (second.others u other).trans (first.others u other)⟩
    have := first.quiet
    have := second.quiet
    grind

instance (uid : Nat) : Framed (Relocates uid) where
  unused s _ _ _ _ more := Quiet.relocates uid (Framed.unused s _ _ _ _ more)
  vm s _ grows := Quiet.relocates uid (Framed.vm s _ grows)
  datarelContent s _ := Quiet.relocates uid (Framed.datarelContent s _)

section Relocates

variable {e : Env}

theorem relocates_writesMap (uid u : Nat) : WritesMap (Relocates uid) u :=
  fun s segments => (Quiet.setMemoryMap s u segments).relocates uid

theorem relocates_bindsSymbols (uid : Nat) : BindsSymbols (Relocates uid) uid := by
  intro s reloc sym
  unfold Loader.insertRelocation
  grind

theorem relocates_relocate (r : ObjectRef) (reloc : Relocation) (fix : Bool) :
    Keeps (Relocates r.uid) (relocate e r reloc fix) :=
  frame_relocate (relocates_writesMap r.uid r.uid).keepsCompose (relocates_bindsSymbols r.uid) r rfl
    reloc fix

theorem relocates_relocateAll (r : ObjectRef) (relocs : List Relocation) :
    Keeps (Relocates r.uid) (relocateAll e r relocs) :=
  frame_relocateAll (relocates_relocate r) relocs

theorem relocates_prepareObject (o : Object) : Keeps (Relocates o.uid) (prepareObject e o) :=
  frame_prepareObject (relocates_relocate o.ref) (relocates_bindsSymbols o.uid)

theorem relocates_updateObject (o : Object) : Keeps (Relocates o.uid) (updateObject e o) :=
  frame_updateObject (relocates_relocate o.ref) (relocates_bindsSymbols o.uid)

end Relocates

end Luci
