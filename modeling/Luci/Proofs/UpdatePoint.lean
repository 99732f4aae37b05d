import Luci.Proofs.Hooks
import Luci.Proofs.Operations

/-!
# Waiting for the update point

The helper thread applies an update itself unless one of the loaded objects has a custom
update point, `__luci_update`; then it only marks the update as pending
(`src/loader_helper.cpp:134-150`). `hook_refresh` asks with `resolve_symbol` for the update
point, and `resolve_symbol` finds definitions: an object that calls `__luci_update` has none.
-/

namespace Luci

open Exec KeyedList

/-! ## Identities during a load -/

/-- All identities have an address of their own. -/
def Loader.Distinct (s : Loader) : Prop := s.Old ∧ (s.lookup.map ObjectIdentity.id).Nodup

section Distinct

variable {B : Set Nat} {E : ObjectIdentity → ObjectIdentity → Prop} {file : Nat} {s s' : Loader}

theorem ids_sublist (l : List ObjectIdentity) :
    (l.map ObjectIdentity.id).Sublist (l.flatMap ObjectIdentity.addresses) := by
  induction l with
  | nil => exact List.Sublist.slnil
  | cons i l ih =>
    exact List.Sublist.cons_cons i.id (ih.trans (List.sublist_append_right _ _))

theorem Edits.distinct {i : ObjectIdentity} (edits : Edits B E file s s')
    (found : s.identity file = some i) (distinct : s.Distinct) : s'.Distinct := by
  obtain ⟨f, new, opened, keep, -, lookup, added, -⟩ := edits.edited i found distinct.1
  refine ⟨distinct.1.grown keep lookup added edits.fresh, ?_⟩
  rw [lookup, List.map_append, keys_update keep, List.nodup_append]
  refine ⟨distinct.2, (ids_sublist new).nodup added.distinct, ?_⟩
  intro a old b new' same
  obtain ⟨i, inOld, rfl⟩ := List.mem_map.mp old
  obtain ⟨j, inNew, rfl⟩ := List.mem_map.mp new'
  have before := distinct.1 i inOld
  have after := (added.id_range j inNew).1
  omega

end Distinct

/-- Addresses stay distinct, and hooks that were looked up stay the same. -/
def Settles (s s' : Loader) : Prop :=
  s.Distinct → s'.Distinct ∧ ∀ file i, s.identity file = some i → i.hook.object.isSome = true →
    ∃ i', s'.identity file = some i' ∧ i'.hook = i.hook

instance : IsPreorder Loader Settles where
  refl s distinct := ⟨distinct, fun file i found _ => ⟨i, found, rfl⟩⟩
  trans _ _ _ first second distinct := by
    obtain ⟨distinct₁, kept₁⟩ := first distinct
    obtain ⟨distinct₂, kept₂⟩ := second distinct₁
    refine ⟨distinct₂, fun file i found hooked => ?_⟩
    obtain ⟨i₁, found₁, hook₁⟩ := kept₁ file i found hooked
    obtain ⟨i₂, found₂, hook₂⟩ := kept₂ file i₁ found₁ (hook₁.symm ▸ hooked)
    exact ⟨i₂, found₂, hook₂.trans hook₁⟩

theorem Quiet.settles {s s' : Loader} (quiet : Quiet s s') : Settles s s' := by
  intro distinct
  refine ⟨⟨quiet.grows.old distinct.1, quiet.lookup ▸ distinct.2⟩, fun file i found _ => ?_⟩
  exact ⟨i, (congrFun (Loader.identity_congr quiet.lookup) file).trans found, rfl⟩

section Loads

variable {e : Env} {fuel : Nat}

theorem settles_loadFrom (file : Nat) (memory : Option MemoryImage) :
    Keeps Settles (loadFrom e fuel file memory) := by
  intro s result s' run distinct
  have calls := grows_libraryCall (e := e) (grows_openFile (e := e) fuel)
  refine ⟨?_, fun file' i found hooked => ?_⟩
  · have edits := load_edits calls Loader.binds_univ run
    obtain ⟨i, found⟩ := load_found run
    cases result with
    | none =>
      obtain ⟨u, k, -, edits⟩ := edits
      exact edits.distinct found distinct
    | some r =>
      obtain ⟨o, mid, -, -, -, -, -, -, first, second⟩ := edits
      obtain ⟨-, i1, found1, -⟩ := first.next found distinct.1
      exact second.distinct found1 (first.distinct found distinct)
  · obtain ⟨i', found', same⟩ :=
      (keepsHooks_load calls file memory .none _ _ _ run distinct.1).2 file' i found
    exact ⟨i', found', (same hooked).1⟩

theorem settles_loadAll (due : List Nat) : Keeps Settles (loadAll e fuel due) :=
  keeps_loadAll (fun _ _ quiet => quiet.settles) settles_loadFrom due

end Loads

/-! ## Hooks that are looked up during a load -/

/-- The hook of an identity is untouched, or it was looked up in one version. -/
def Loader.HookedOnce (e : Env) (file : Nat) (s : Loader) : Prop :=
  ∀ i, s.identity file = some i → i.hook = Hook.empty ∨ ∃ v, HookRun e file s [v]

/-- No hook is looked up twice. -/
def LooksUpOnce (e : Env) (s s' : Loader) : Prop :=
  ∀ file, s.HookedOnce e file → s'.HookedOnce e file

instance {e : Env} : IsPreorder Loader (LooksUpOnce e) where
  refl _ _ hooked := hooked
  trans _ _ _ first second file hooked := second file (first file hooked)

section LooksUp

variable {e : Env} {file : Nat} {s s' : Loader} {world : World}

theorem Loader.HookedOnce.of_same (hooked : s.HookedOnce e file)
    (same : ∀ i', s'.identity file = some i' → ∃ i, s.identity file = some i ∧
      i'.hook = i.hook ∧ i'.flags.updatable = i.flags.updatable) : s'.HookedOnce e file := by
  intro i' found'
  obtain ⟨i, found, hook, updatable⟩ := same i' found'
  rcases hooked i found with empty | ⟨v, run⟩
  · exact .inl (hook.trans empty)
  · exact .inr ⟨v, run.other found found' hook updatable⟩

theorem looksUpOnce_of_lookup (lookup : s'.lookup = s.lookup) : LooksUpOnce e s s' := by
  refine fun file hooked => hooked.of_same fun i found => ⟨i, ?_, rfl, rfl⟩
  rwa [Loader.identity_congr lookup] at found

theorem looksUpOnce_modifyIdentity (s : Loader) (file : Nat) {f : ObjectIdentity → ObjectIdentity}
    (keep : ∀ i : ObjectIdentity, i.Tended (f i)) : LooksUpOnce e s (s.modifyIdentity file f) := by
  intro b hooked
  refine hooked.of_same fun i' found => ?_
  by_cases same : b = file
  · rw [same, Loader.identity_modifyIdentity_same fun i => (keep i).id] at found
    obtain ⟨i, isFile, rfl⟩ := Option.map_eq_some_iff.mp found
    exact ⟨i, same ▸ isFile, (keep i).hook, (keep i).updatable⟩
  · rw [Loader.identity_modifyIdentity_ne (fun i => (keep i).id) same] at found
    exact ⟨i', found, rfl, rfl⟩

instance : Framed (LooksUpOnce e) where
  unused _ _ _ _ _ _ := looksUpOnce_of_lookup rfl
  vm _ _ _ := looksUpOnce_of_lookup rfl
  datarelContent _ _ := looksUpOnce_of_lookup rfl

instance : FramedCreate (LooksUpOnce e) where
  created s file _ keep := looksUpOnce_modifyIdentity s file keep
  registers file := keeps_addTlsModule file
    (fun s _ _ => looksUpOnce_modifyIdentity s file fun _ => ⟨rfl, rfl, rfl, rfl, rfl, rfl⟩)
    fun _ _ => looksUpOnce_of_lookup rfl

/-- The hook is looked up if it is untouched and there is a version. -/
theorem looksUpOnce_initialHook (file : Nat) :
    Keeps (LooksUpOnce e) (initialHook (e.withWorld world) file) := by
  intro s u s' run b hooked
  obtain ⟨i, found, run⟩ := getIdentity_bind_inv run
  unfold Exec.onlyIf at run
  split at run
  case isFalse => rwa [(pure_inv run).2]
  rename_i unhooked
  have isRefreshed := hookRefresh_inv run
  by_cases other : b = file
  · subst other
    rcases hooked i found with empty | ⟨v, before⟩
    · intro i' found'
      rw [isRefreshed, Loader.identity_modifyIdentity_same refreshed_id, found] at found'
      cases found'
      by_cases updatable : i.flags.updatable = true
      · cases current : i.current with
        | some o => exact .inr ⟨o, .initial world found updatable empty current run⟩
        | none =>
          refine .inl ?_
          unfold ObjectIdentity.refreshed
          rw [if_pos updatable, current, empty]
          rfl
      · refine .inl ?_
        unfold ObjectIdentity.refreshed
        rwa [if_neg updatable]
    · obtain ⟨j, found', -, follows⟩ := before.follows
      cases found.symm.trans found'
      rw [follows.object] at unhooked
      cases unhooked
  · refine hooked.of_same fun i' found' => ⟨i', ?_, rfl, rfl⟩
    rwa [isRefreshed, Loader.identity_modifyIdentity_ne refreshed_id other] at found'

theorem looksUpOnce_load {library : LibraryCall} (calls : library.Keeps (LooksUpOnce e)) (file : Nat)
    (memory : Option MemoryImage) (type : ElfType) :
    Keeps (LooksUpOnce e) (load (e.withWorld world) library file memory type) := by
  refine keeps_bind (frame_openObject file memory type) fun opened => ?_
  cases opened with
  | error failure => exact keeps_bind (looksUpOnce_initialHook file) fun _ => keeps_pure _
  | ok op =>
    apply keeps_bind
    · apply frame_create
      · exact fun uid s segments => looksUpOnce_of_lookup rfl
      · exact fun uid s reloc sym => looksUpOnce_of_lookup rfl
      · exact calls
      · exact fun o => keeps_modify fun s => looksUpOnce_modifyIdentity s o.file fun _ =>
          ⟨rfl, rfl, rfl, rfl, rfl, rfl⟩
      · exact fun o => (quiet_release o).mono fun _ _ quiet => looksUpOnce_of_lookup quiet.lookup
    intro result
    apply keeps_bind
    · refine keeps_afterCreate (fun _ _ quiet => looksUpOnce_of_lookup quiet.lookup) ?_ op.data result.1
      refine fun wd => keeps_modify fun s b hooked => hooked.of_same fun i' found => ?_
      by_cases same : b = file
      · rw [same, Loader.identity_modifyIdentity_same (by intro; rfl)] at found
        obtain ⟨i, isFile, rfl⟩ := Option.map_eq_some_iff.mp found
        exact ⟨i, same ▸ isFile, rfl, rfl⟩
      · rw [Loader.identity_modifyIdentity_ne (by intro; rfl) same] at found
        exact ⟨i', found, rfl, rfl⟩
    intro _
    exact keeps_bind (looksUpOnce_initialHook file) fun _ => keeps_pure _

theorem looksUpOnce_openFile (n : Nat) :
    ∀ a, Keeps (LooksUpOnce e) (openFile (e.withWorld world) n a) := by
  apply keeps_openFile
  · exact fun _ _ quiet => looksUpOnce_of_lookup quiet.lookup
  · exact fun s next => looksUpOnce_of_lookup rfl
  · intro a s i s' emplaced file hooked j found
    rcases emplaced.identity_cases found with rfl | before
    · exact .inl emplaced.hook
    · have same : s'.HookedOnce e file := hooked.of_same fun j' found' => by
        cases found.symm.trans found'
        exact ⟨j, before, rfl, rfl⟩
      exact same j found
  · intro n opens file memory type
    refine looksUpOnce_load (fun lib flags rpath runpath ns _ => ?_) file memory type
    exact keeps_library (fun a _ _ => opens a) lib rpath runpath true
  · exact fun s file => looksUpOnce_of_lookup rfl
  · exact fun s file hooked => hooked.of_same fun i found =>
      ⟨i, identity_of_dropLast rfl found, rfl, rfl⟩

theorem looksUpOnce_loadAll (fuel : Nat) (due : List Nat) :
    Keeps (LooksUpOnce e) (loadAll (e.withWorld world) fuel due) := by
  refine keeps_loadAll (fun _ _ quiet => looksUpOnce_of_lookup quiet.lookup) (fun file memory => ?_) due
  refine looksUpOnce_load (fun lib flags rpath runpath ns _ => ?_) file memory .none
  exact keeps_library (fun a _ _ => looksUpOnce_openFile fuel a) lib rpath runpath true

end LooksUp

/-! ## The helper thread -/

/-- `filemodification_load` loads files and then only marks the update as pending. -/
def OnlyPends (e : Env) (fuel : Nat) (due : List Nat) (s s' : Loader) : Prop :=
  ∃ updated s₁, loadAll e fuel due s = some (updated, s₁) ∧
    s' = if updated then { s₁ with updatePending := true } else s₁

section Helper

variable {e : Env} {fuel : Nat} {due : List Nat} {s s' : Loader}

theorem updateLoaded_applied {u : Unit} (run : updateLoaded e s = some (u, s')) :
    s'.updatePending = false := by
  obtain ⟨ok, s1, -, run⟩ := bind_inv run
  obtain ⟨-, run⟩ := require_bind_inv run
  rw [modify_inv run]

theorem filemodificationLoad_inv {u : Unit} (run : filemodificationLoad e fuel due s = some (u, s')) :
    ∃ updated s1, loadAll e fuel due s = some (updated, s1) ∧
      (updated = false ∧ s' = s1 ∨ updated ∧
        ((∃ i ∈ s1.lookup, i.hook.updatePoint) ∧ s' = { s1 with updatePending := true } ∨
          (∀ i ∈ s1.lookup, i.hook.updatePoint = false) ∧ s'.updatePending = false)) := by
  obtain ⟨updated, s1, loaded, run⟩ := bind_inv run
  refine ⟨updated, s1, loaded, ?_⟩
  cases updated with
  | false =>
    rw [(pure_inv run).2]
    exact .inl ⟨rfl, rfl⟩
  | true =>
    refine .inr ⟨rfl, ?_⟩
    rw [if_pos rfl, bind_of_eq (get_apply s1)] at run
    split at run
    · rename_i point
      rw [modify_inv run]
      obtain ⟨i, member, isPoint⟩ := List.any_eq_true.mp point
      exact .inl ⟨⟨i, member, isPoint⟩, rfl⟩
    · rename_i point
      refine .inr ⟨fun i member => ?_, updateLoaded_applied run⟩
      by_contra isPoint
      exact point (List.any_eq_true.mpr ⟨i, member, Bool.not_eq_false _ ▸ isPoint⟩)

theorem onlyPends_iff {u : Unit} (run : filemodificationLoad e fuel due s = some (u, s')) :
    OnlyPends e fuel due s s' ↔ ∀ s1, loadAll e fuel due s = some (true, s1) →
      ∃ i ∈ s1.lookup, i.hook.updatePoint := by
  obtain ⟨updated, s1, loaded, decided⟩ := filemodificationLoad_inv run
  unfold OnlyPends
  rw [loaded]
  rcases decided with ⟨rfl, rfl⟩ | ⟨rfl, ⟨point, rfl⟩ | ⟨noPoint, applied⟩⟩
  · simp
  · simp [point]
  · constructor
    · rintro ⟨_, _, ⟨⟩, rfl⟩
      cases applied
    · intro pointed
      obtain ⟨i, member, point⟩ := pointed s1 rfl
      rw [noPoint i member] at point
      cases point

/-- For loaded objects with hooks that are untouched or were looked up in their versions: the
helper thread leaves an update to the program if and only if nothing new could be loaded, one
of the objects defined `__luci_update` when its hook was looked up, or so did one whose hook is
looked up only now, such as a library that comes with the update, in the version it is looked up
in. -/
theorem filemodificationLoad_onlyPends_iff {world : World} (distinct : s.Distinct)
    (hooked : ∀ file i, s.identity file = some i →
      i.hook = Hook.empty ∨ ∃ history, HookRun e file s history)
    (run : filemodificationLoad (e.withWorld world) fuel due s = some ((), s')) :
    OnlyPends (e.withWorld world) fuel due s s' ↔
      ∀ s₁, loadAll (e.withWorld world) fuel due s = some (true, s₁) →
        (∃ file v history, HookRun e file s (v :: history) ∧
          (v.function e "__luci_update").isSome = true) ∨
        ∃ file v, (∀ j, s.identity file = some j → j.hook = Hook.empty) ∧
          HookRun e file s₁ [v] ∧ (v.function e "__luci_update").isSome = true := by
  rw [onlyPends_iff run]
  refine forall₂_congr fun s₁ loaded => ?_
  obtain ⟨distinct1, kept⟩ := settles_loadAll due _ _ _ loaded distinct
  constructor
  · rintro ⟨i1, member, point⟩
    have found1 : s₁.identity i1.id = some i1 := lookup_of_mem distinct1.2 member
    by_cases new : ∀ j, s.identity i1.id = some j → j.hook = Hook.empty
    · have once := looksUpOnce_loadAll fuel due _ _ _ loaded i1.id fun j found => .inl (new j found)
      rcases once i1 found1 with empty | ⟨v, looked⟩
      · rw [empty] at point
        cases point
      · obtain ⟨i, found, -, follows⟩ := looked.follows
        cases found1.symm.trans found
        rw [follows.updatePoint] at point
        exact Or.inr ⟨i1.id, v, new, looked, point⟩
    · push Not at new
      obtain ⟨i, found, touched⟩ := new
      obtain ⟨history, before⟩ := (hooked i1.id i found).resolve_left touched
      obtain ⟨i', found', -, follows⟩ := before.follows
      cases found.symm.trans found'
      cases history with
      | nil => exact absurd before.history_isSome (by simp)
      | cons v history =>
        refine Or.inl ⟨i1.id, v, history, before, ?_⟩
        have looked : i.hook.object.isSome = true := by rw [follows.object]; rfl
        obtain ⟨i'', found'', hook⟩ := kept i1.id i found looked
        cases found1.symm.trans found''
        rw [hook, follows.updatePoint] at point
        exact point
  · rintro (⟨file, v, history, before, defines⟩ | ⟨file, v, -, looked, defines⟩)
    · obtain ⟨i, found, -, follows⟩ := before.follows
      have looked : i.hook.object.isSome = true := by rw [follows.object]; rfl
      obtain ⟨i', found', hook⟩ := kept file i found looked
      refine ⟨i', Loader.mem_of_identity found', ?_⟩
      rw [hook, follows.updatePoint]
      exact defines
    · obtain ⟨i, found, -, follows⟩ := looked.follows
      refine ⟨i, Loader.mem_of_identity found, ?_⟩
      rw [follows.updatePoint]
      exact defines

end Helper

/-! ## A library that calls the update point -/

/-- The object refers to the symbol but does not define it. -/
def Object.refersTo (o : Object) (name : String) : Bool :=
  (o.elf.dynamicSymbols.any fun entry => entry.1.name = name) &&
    o.elf.dynamicSymbols.all fun entry => entry.1.name ≠ name || entry.1.undefined

/-- The library `liby.so` calls `__luci_update`, as `README.md` suggests. -/
def callsUpdate (time : Nat) : Env :=
  fileY (File.ofElf time (Elf.library [] [.reference "__luci_update"] []))

/-- The first version is loaded and the helper thread is told of the second. -/
theorem callsUpdate_run : ∃ s s' : Loader, s.Distinct ∧
    (∀ file i, s.identity file = some i →
      i.hook = Hook.empty ∨ ∃ history, HookRun (callsUpdate 0) file s history) ∧
    (∃ o, s.current 0 = some o ∧ o.refersTo "__luci_update") ∧
    filemodificationLoad ((callsUpdate 0).withWorld (callsUpdate 1).world) 1 [0] s = some ((), s') ∧
    (∃ s1, loadAll ((callsUpdate 0).withWorld (callsUpdate 1).world) 1 [0] s = some (true, s1)) ∧
    s'.updatePending = false := by
  have first : (loadFrom (callsUpdate 0) 1 0 none newY).map (fun p => (p.1.isSome,
      p.2.lookup.map ObjectIdentity.id, (p.2.current 0).map fun o => o.refersTo "__luci_update")) =
      some (true, [0], some true) := by
    decide +kernel
  have loads : ((do let _ ← loadFrom (callsUpdate 0) 1 0 none; loadAll (callsUpdate 1) 1 [0] :
      LoaderM Bool) newY).map Prod.fst = some true := by
    decide +kernel
  have all : ((do let _ ← loadFrom (callsUpdate 0) 1 0 none
                  filemodificationLoad (callsUpdate 1) 1 [0] : LoaderM Unit) newY).map
      (fun p => p.2.updatePending) = some false := by
    decide +kernel
  obtain ⟨⟨result, s⟩, load1, facts⟩ := Option.map_eq_some_iff.mp first
  simp only [Prod.mk.injEq, Option.map_eq_some_iff] at facts
  obtain ⟨isSome, ids, o, current, refers⟩ := facts
  obtain ⟨r, rfl⟩ := Option.isSome_iff_exists.mp isSome
  have old : newY.Old := by
    intro i member
    rw [List.mem_singleton.mp member]
    exact Nat.zero_lt_one
  have distinct : s.Distinct := by
    refine (settles_loadFrom 0 none _ _ _ load1 ⟨old, ?_⟩).1
    exact List.nodup_singleton 0
  have load1' : load ((callsUpdate 0).withWorld (callsUpdate 0).world) (libraryCall (callsUpdate 0)
      (openFile (callsUpdate 0) 1)) 0 none .none newY = some (some r, s) := load1
  obtain ⟨v, -, started⟩ := HookRun.first (grows_libraryCall (grows_openFile 1)) old rfl rfl rfl load1'
  rw [bind_of_eq load1] at loads all
  obtain ⟨⟨updated, s1⟩, loaded, isUpdated⟩ := Option.map_eq_some_iff.mp loads
  obtain ⟨⟨_, s'⟩, run, applied⟩ := Option.map_eq_some_iff.mp all
  obtain rfl : updated := isUpdated
  refine ⟨s, s', distinct, fun file i found => ?_, ⟨o, current, refers⟩, run, ⟨s1, loaded⟩, applied⟩
  have isFile : file ∈ s.lookup.map ObjectIdentity.id := Loader.identity_isSome_iff.mp ⟨i, found⟩
  rw [ids] at isFile
  rw [List.mem_singleton.mp isFile]
  exact .inr ⟨[v], started⟩

/-- The helper thread updates a program that asks for an update point. -/
theorem callsUpdate_applied : ∃ s s' : Loader, s.Distinct ∧
    (∀ file i, s.identity file = some i →
      i.hook = Hook.empty ∨ ∃ history, HookRun (callsUpdate 0) file s history) ∧
    (∃ o, s.current 0 = some o ∧ o.refersTo "__luci_update" = true) ∧
    filemodificationLoad ((callsUpdate 0).withWorld (callsUpdate 1).world) 1 [0] s = some ((), s') ∧
    ¬ OnlyPends ((callsUpdate 0).withWorld (callsUpdate 1).world) 1 [0] s s' := by
  obtain ⟨s, s', distinct, hooked, refers, run, ⟨s1, loaded⟩, applied⟩ := callsUpdate_run
  refine ⟨s, s', distinct, hooked, refers, run, ?_⟩
  rintro ⟨updated, s2, loaded', rfl⟩
  cases loaded.symm.trans loaded'
  cases applied

theorem filemodificationLoad_onlyPends_iff_callsUpdate : ∃ s s' : Loader, s.Distinct ∧
    filemodificationLoad ((callsUpdate 0).withWorld (callsUpdate 1).world) 1 [0] s = some ((), s') ∧
    (OnlyPends ((callsUpdate 0).withWorld (callsUpdate 1).world) 1 [0] s s' ↔
      ∀ s₁, loadAll ((callsUpdate 0).withWorld (callsUpdate 1).world) 1 [0] s = some (true, s₁) →
        (∃ file v history, HookRun (callsUpdate 0) file s (v :: history) ∧
          (v.function (callsUpdate 0) "__luci_update").isSome = true) ∨
        ∃ file v, (∀ j, s.identity file = some j → j.hook = Hook.empty) ∧
          HookRun (callsUpdate 0) file s₁ [v] ∧
          (v.function (callsUpdate 0) "__luci_update").isSome = true) := by
  obtain ⟨s, s', distinct, hooked, -, run, -⟩ := callsUpdate_run
  exact ⟨s, s', distinct, run, filemodificationLoad_onlyPends_iff distinct hooked run⟩

end Luci
