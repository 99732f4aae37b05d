import Luci.Proofs.Debounce
import Luci.Proofs.Preparation
import Luci.Proofs.UpdatePoint

/-!
# Watched files

An updatable identity is to be noticed when its file changes: it is watched, or it is on the
work list of the helper thread. The watch is lost with the file, and it is installed anew when
the system reports that, or at a load that succeeds. If the file is missing at both times the
identity is never looked at again.
-/

namespace Luci

open Exec Relation

variable {u : Unit} {α : Type} {h : Helper} {file : Nat} {i : ObjectIdentity}
  {events : List InotifyEvent}

/-! ## What a load does to watches -/

/-- The watch of an identity is the same or new. -/
structure ObjectIdentity.Rewatches (e : Env) (i i' : ObjectIdentity) : Prop where
  path : i'.path = i.path
  updatable : i'.flags.updatable = i.flags.updatable
  wd : i'.wd = i.wd ∨ i'.wd = some (e.world.watchDescriptor i.path)

instance (e : Env) : IsPreorder ObjectIdentity (ObjectIdentity.Rewatches e) where
  refl _ := ⟨rfl, rfl, .inl rfl⟩
  trans _ _ _ first second := by
    refine ⟨second.path.trans first.path, second.updatable.trans first.updatable, ?_⟩
    rcases second.wd with same | new
    · rw [same]
      exact first.wd
    · rw [first.path] at new
      exact .inr new

/-- Every watch is the same or new. -/
abbrev KeepsWatches (e : Env) : Loader → Loader → Prop := Along (ObjectIdentity.Rewatches e)

/-- Nothing but the identity `file` is changed. -/
def Spares (file : Nat) (s s' : Loader) : Prop :=
  s.Old → s'.Old ∧ ∀ other, other ≠ file → s'.identity other = s.identity other

instance (file : Nat) : IsPreorder Loader (Spares file) where
  refl s old := ⟨old, fun _ _ => rfl⟩
  trans _ _ _ first second old := by
    obtain ⟨old₁, kept₁⟩ := first old
    obtain ⟨old₂, kept₂⟩ := second old₁
    exact ⟨old₂, fun other different => (kept₂ other different).trans (kept₁ other different)⟩

section Watch

variable {e : Env} {file : Nat} {s s' : Loader}

theorem Quiet.spares (quiet : Quiet s s') : Spares file s s' := fun old =>
  ⟨quiet.grows.old old, fun other _ => congrFun (Loader.identity_congr quiet.lookup) other⟩

theorem spares_wd (wd : Option Nat) :
    Keeps (Spares file) (modify (Loader.modifyIdentity file fun i => { i with wd := wd })) := by
  refine keeps_modify fun s old => ⟨?_, fun other different => ?_⟩
  · have lookup : (s.modifyIdentity file fun i => { i with wd := wd }).lookup =
        KeyedList.update ObjectIdentity.id file (fun i => { i with wd := wd }) s.lookup ++ [] := by
      simp [Loader.modifyIdentity]
    exact old.grown (by intro; rfl) lookup (Added.nil _ _) le_rfl
  · exact Loader.identity_modifyIdentity_ne (by intro; rfl) different

theorem spares_watch (force closeExisting : Bool) :
    Keeps (Spares file) (watch e file force closeExisting) :=
  keeps_watch (fun _ _ quiet => quiet.spares) spares_wd force closeExisting

theorem Rewatched.rewatches {force : Bool} {wd : Option Nat}
    (works : ∀ tick, e.world.succeeds tick) (present : (e.world.file i.path).isSome)
    (renewed : Rewatched e force i wd) : i.Rewatches e { i with wd := wd } := by
  unfold Rewatched at renewed
  refine ⟨rfl, rfl, ?_⟩
  split at renewed
  · obtain ⟨tick, new⟩ := renewed
    rw [works, present] at new
    exact .inr new
  · exact .inl renewed

theorem Spares.keepsWatches {i i' : ObjectIdentity} (spares : Spares file s s')
    (found : s.identity file = some i) (found' : s'.identity file = some i')
    (step : i.Rewatches e i') : KeepsWatches e s s' := by
  intro old
  obtain ⟨old', others⟩ := spares old
  refine ⟨old', fun other j found1 => ?_⟩
  by_cases own : other = file
  · subst own
    cases found.symm.trans found1
    exact ⟨i', found', step⟩
  · rw [others other own]
    exact ⟨j, found1, refl_of (ObjectIdentity.Rewatches e) j⟩

theorem afterCreate_keepsWatches {data : Data} {object : Option ObjectRef}
    (works : ∀ tick, e.world.succeeds tick) (found : s.identity file = some i)
    (present : (e.world.file i.path).isSome)
    (run : afterCreate e file data object s = some (u, s')) : KeepsWatches e s s' := by
  have spares : Spares file s s' :=
    keeps_afterCreate (fun _ _ quiet => quiet.spares) spares_wd data object _ _ _ run
  rcases afterCreate_inv found run with ⟨-, same⟩ | ⟨-, wd, found', renewed⟩
  · exact spares.keepsWatches found same (refl_of (ObjectIdentity.Rewatches e) i)
  · exact spares.keepsWatches found found' (renewed.rewatches works present)

theorem rewatches_refreshed (e0 : Env) (i : ObjectIdentity) : i.Rewatches e0 (i.refreshed e) := by
  unfold ObjectIdentity.refreshed
  split
  · exact ⟨rfl, rfl, .inl rfl⟩
  · exact refl_of (ObjectIdentity.Rewatches e0) i

theorem keepsWatches_of_attends {x : LoaderM α} (attends : Keeps Attends x) :
    Keeps (KeepsWatches e) x :=
  attends.mono fun _ _ step => step.mono fun _ _ tended =>
    ⟨tended.path, tended.updatable, .inl tended.wd⟩

theorem keepsWatches_hookRefresh (e0 : Env) (file : Nat) :
    Keeps (KeepsWatches e0) (hookRefresh e file) := by
  intro s u s' run
  rw [hookRefresh_inv run]
  exact along_modifyIdentity s file refreshed_id fun i _ => rewatches_refreshed e0 i

theorem keepsWatches_initialHook (file : Nat) : Keeps (KeepsWatches e) (initialHook e file) := by
  apply keeps_bind (along_of_quiet (frame_getIdentity file))
  intro i
  exact keeps_onlyIf fun _ => keepsWatches_hookRefresh e file

theorem load_keepsWatches {library : LibraryCall} {memory : Option MemoryImage} {type : ElfType}
    {result : Option ObjectRef} (grows : library.Keeps Grows) (works : ∀ tick, e.world.succeeds tick) (found : s.identity file = some i)
    (present : (e.world.file i.path).isSome)
    (run : load e library file memory type s = some (result, s')) : KeepsWatches e s s' := by
  obtain ⟨opened, s1, opening, run⟩ := bind_inv run
  have quiet : Quiet s s1 := frame_openObject file memory type _ _ _ opening
  have opens : KeepsWatches e s s1 := quiet.grows.along
  cases opened with
  | error failure =>
    obtain ⟨_, s2, hook, run⟩ := bind_inv run
    rw [(pure_inv run).2]
    exact trans_of (KeepsWatches e) opens (keepsWatches_initialHook file _ _ _ hook)
  | ok op =>
    obtain ⟨⟨object, info⟩, s2, created, run⟩ := bind_inv run
    obtain ⟨_, s3, after, run⟩ := bind_inv run
    obtain ⟨_, s4, hook, run⟩ := bind_inv run
    rw [(pure_inv run).2]
    intro old
    obtain ⟨old1, -⟩ := opens old
    have creates : Attends s1 s2 := attends_create grows file op _ _ _ created
    obtain ⟨-, attended⟩ := creates old1
    have found1 : s1.identity file = some i := by
      rw [Loader.identity_congr quiet.lookup, found]
    obtain ⟨i2, found2, tended⟩ := attended file i found1
    have present2 : (e.world.file i2.path).isSome := by
      rw [tended.path]
      exact present
    have step2 : KeepsWatches e s1 s2 :=
      keepsWatches_of_attends (attends_create grows file op) _ _ _ created
    have step3 := afterCreate_keepsWatches works found2 present2 after
    have step4 : KeepsWatches e s3 s4 := keepsWatches_initialHook file _ _ _ hook
    exact trans_of (KeepsWatches e) (trans_of (KeepsWatches e) opens step2)
      (trans_of (KeepsWatches e) step3 step4) old

end Watch

section Loads

variable {e : Env} {fuel : Nat}

theorem keepsWatches_filemodificationLoadHelper (works : ∀ tick, e.world.succeeds tick)
    (file : Nat) : Keeps (KeepsWatches e) (filemodificationLoadHelper e fuel file) :=
  keeps_filemodificationLoadHelper (fun _ _ quiet => quiet.grows.along)
    (load_keepsWatches (grows_libraryCall (grows_openFile fuel)) works)

/-! ## What an update does to watches -/

theorem keepsRelocation_keepsWatches : KeepsRelocation (KeepsWatches e) e := by
  have writes : ∀ (s : Loader) (r : ObjectRef) g, KeepsWatches e s (s.modifyObject r g) :=
    fun s r _ => along_modifyIdentity s r.file (fun _ => rfl) fun _ _ => ⟨rfl, rfl, .inl rfl⟩
  have relocates : ∀ s s' uid, Relocates uid s s' → KeepsWatches e s s' :=
    fun _ _ _ step => along_of_lookup step.quiet.lookup step.quiet.fresh
  constructor
  · exact fun r status => keeps_modify fun s => writes s r _
  · exact fun o => keeps_preprepareObject o (fun _ _ quiet => quiet.grows.along)
      fun s g _ => writes s o.ref g
  · exact fun o => (relocates_prepareObject o).mono fun s s' => relocates s s' o.uid
  · exact fun o => (relocates_updateObject o).mono fun s s' => relocates s s' o.uid
  · exact fun o => along_of_quiet (quiet_finalizeObject o)
  · exact fun file => keepsWatches_hookRefresh e file
  · exact fun _ _ _ _ _ => along_of_lookup rfl le_rfl

theorem keepsWatches_afterLoads : Keeps (KeepsWatches e) (afterLoads e) := by
  refine keeps_bind keeps_get fun s => ?_
  apply keeps_ite
  · exact fun _ => keeps_modify fun _ => along_of_lookup rfl le_rfl
  · exact fun _ => keepsRelocation_keepsWatches.updateLoaded

end Loads

/-! ## The helper thread -/

/-- The loads of the helper thread: watches are kept, and no notification is taken. -/
def LoadsOnly (e : Env) (h h' : Helper) : Prop :=
  KeepsWatches e h.loader h'.loader ∧ h'.removed = h.removed

instance (e : Env) : IsPreorder Helper (LoadsOnly e) where
  refl h := ⟨refl_of (KeepsWatches e) h.loader, rfl⟩
  trans _ _ _ first second :=
    ⟨trans_of (KeepsWatches e) first.1 second.1, second.2.trans first.2⟩

section Iteration

variable {e e₁ e₂ : Env} {fuel now file : Nat} {h h' : Helper} {event : InotifyEvent}

theorem loadsOnly_inLoader {x : LoaderM α} (keeps : Keeps (KeepsWatches e) x) :
    Keeps (LoadsOnly e) (inLoader x) := by
  intro h a h' run
  obtain ⟨s, runs, rfl⟩ := inLoader_inv run
  exact ⟨keeps _ _ _ runs, rfl⟩

theorem loadsOnly_modify {f : Helper → Helper} (loader : ∀ h, (f h).loader = h.loader)
    (removed : ∀ h, (f h).removed = h.removed) : Keeps (LoadsOnly e) (modify f) := by
  refine keeps_modify fun h => ⟨?_, removed h⟩
  rw [loader]
  exact refl_of (KeepsWatches e) h.loader

theorem loadsOnly_loadDue (works : ∀ tick, e.world.succeeds tick)
    (worklist : List (Nat × Nat)) : Keeps (LoadsOnly e) (loadDue e fuel now worklist) := by
  induction worklist with
  | nil => exact keeps_pure false
  | cons entry rest ih =>
    apply keeps_ite
    · intro _
      refine keeps_bind (loadsOnly_modify (fun _ => rfl) fun _ => rfl) fun _ => ?_
      apply keeps_bind
      · exact loadsOnly_inLoader (keepsWatches_filemodificationLoadHelper works entry.2)
      intro updated
      refine keeps_bind (loadsOnly_modify (fun _ => rfl) fun _ => rfl) fun _ => ?_
      exact keeps_bind ih fun others => keeps_pure _
    · exact fun _ => keeps_pure false

theorem loadsOnly_filemodificationLoadAt (works : ∀ tick, e.world.succeeds tick) :
    Keeps (LoadsOnly e) (filemodificationLoadAt e fuel now) := by
  refine keeps_bind keeps_get fun h => ?_
  apply keeps_bind (loadsOnly_loadDue works h.worklist)
  intro updated
  exact keeps_onlyIf fun _ => loadsOnly_inLoader keepsWatches_afterLoads

/-- The event reports that the watch of the identity is gone. -/
def ObjectIdentity.Unwatched (event : InotifyEvent) (i : ObjectIdentity) : Prop :=
  event.queueOverflow = false ∧ event.ignored = true ∧ event.wd = i.wd

theorem detectFile_loader (run : detectFile e now event file h = some (u, h')) :
    h'.removed = h.removed ∧ ∃ i, h.loader.identity file = some i ∧
      (i.Unwatched event ∧ (∃ ok, watch e file true true h.loader = some (ok, h'.loader)) ∨
        ¬ i.Unwatched event ∧ h'.loader = h.loader) := by
  obtain ⟨i, h1, found, run⟩ := bind_inv run
  obtain ⟨s, isIdentity, rfl⟩ := inLoader_inv found
  obtain ⟨present, rfl⟩ := getIdentity_inv isIdentity
  unfold ObjectIdentity.Unwatched
  cases overflow : event.queueOverflow with
  | true =>
    rw [overflow] at run
    rw [modify_inv run]
    exact ⟨rfl, i, present, .inr ⟨by simp, rfl⟩⟩
  | false =>
    rw [overflow] at run
    by_cases ours : event.wd = i.wd
    · rw [if_pos ours] at run
      cases ignored : event.ignored with
      | true =>
        rw [ignored] at run
        obtain ⟨ok, h2, watched, run⟩ := bind_inv run
        obtain ⟨s, watches, rfl⟩ := inLoader_inv watched
        rw [(pure_inv run).2]
        exact ⟨rfl, i, present, .inl ⟨⟨rfl, rfl, ours⟩, ok, watches⟩⟩
      | false =>
        rw [ignored] at run
        rw [modify_inv run]
        exact ⟨rfl, i, present, .inr ⟨by simp, rfl⟩⟩
    · rw [if_neg ours] at run
      rw [(pure_inv run).2]
      exact ⟨rfl, i, present, .inr ⟨by simp [ours], rfl⟩⟩

/-- An event for the list of files. An identity whose watch is gone gets a new one. -/
theorem detectFiles_rewatches (files : List Nat) (works : ∀ tick, e.world.succeeds tick)
    (unused : i.Unwatched event → event.wd ≠ some (e.world.watchDescriptor i.path))
    (present : i.Unwatched event → (e.world.file i.path).isSome)
    (updatable : i.flags.updatable) (old : h.loader.Old)
    (found : h.loader.identity file = some i)
    (run : forEach (detectFile e now event) files h = some (u, h')) :
    h'.loader.Old ∧ h'.removed = h.removed ∧ ∃ i', h'.loader.identity file = some i' ∧
      i.Rewatches e i' ∧ (file ∈ files → i.Unwatched event →
        i'.wd = some (e.world.watchDescriptor i.path)) := by
  induction files generalizing h i with
  | nil =>
    rw [(pure_inv run).2]
    exact ⟨old, rfl, i, found, refl_of (ObjectIdentity.Rewatches e) i, by simp⟩
  | cons first files ih =>
    obtain ⟨_, h1, step, rest⟩ := bind_inv run
    obtain ⟨removed, j, foundFirst, outcome⟩ := detectFile_loader step
    by_cases own : first = file
    · subst own
      cases found.symm.trans foundFirst
      rcases outcome with ⟨unwatched, ok, watches⟩ | ⟨watched, same⟩
      · obtain ⟨old1, -⟩ := spares_watch _ _ _ _ _ watches old
        obtain ⟨wd, found1, renewed⟩ := watch_inv found watches
        have isNew : wd = some (e.world.watchDescriptor i.path) := by
          unfold Rewatched at renewed
          rw [updatable, if_pos (by simp)] at renewed
          obtain ⟨tick, isNew⟩ := renewed
          rw [works, present unwatched] at isNew
          exact isNew
        subst isNew
        have notAgain : ¬ ObjectIdentity.Unwatched event
            { i with wd := some (e.world.watchDescriptor i.path) } :=
          fun again => unused unwatched again.2.2
        obtain ⟨old', removed', i', found', rewatches, -⟩ :=
          ih (fun again => absurd again notAgain) (fun again => absurd again notAgain) updatable
            old1 found1 rest
        have isNew : i'.wd = some (e.world.watchDescriptor i.path) := by
          rcases rewatches.wd with same | new
          · exact same
          · exact new
        exact ⟨old', removed'.trans removed, i', found',
          ⟨rewatches.path, rewatches.updatable, .inr isNew⟩, fun _ _ => isNew⟩
      · rw [← same] at found old
        obtain ⟨old', removed', i', found', rewatches, -⟩ := ih unused present updatable old found rest
        exact ⟨old', removed'.trans removed, i', found', rewatches,
          fun _ unwatched => absurd unwatched watched⟩
    · have kept : h1.loader.Old ∧ h1.loader.identity file = some i := by
        rcases outcome with ⟨-, ok, watches⟩ | ⟨-, same⟩
        · obtain ⟨old1, others⟩ := spares_watch _ _ _ _ _ watches old
          exact ⟨old1, (others file (Ne.symm own)).trans found⟩
        · rw [same]
          exact ⟨old, found⟩
      obtain ⟨old', removed', i', found', rewatches, renewed⟩ :=
        ih unused present updatable kept.1 kept.2 rest
      refine ⟨old', removed'.trans removed, i', found', rewatches, fun member => ?_⟩
      exact renewed ((List.mem_cons.mp member).resolve_left (Ne.symm own))

/-- The identity has a watch whose end has not been reported. -/
structure Helper.Watched (file : Nat) (i : ObjectIdentity) (h : Helper) : Prop where
  old : h.loader.Old
  found : h.loader.identity file = some i
  updatable : i.flags.updatable = true
  active : ∃ w, i.wd = some w ∧ w ∉ h.removed

/-- System calls succeed, and a new watch has a descriptor whose end has not been reported. -/
structure Renewable (e : Env) (path : String) (removed : List Nat) (events : List InotifyEvent) :
    Prop where
  works : ∀ tick, e.world.succeeds tick = true
  unused : e.world.watchDescriptor path ∉ removed
  later : ∀ event ∈ events, event.ignored = true →
    event.wd ≠ some (e.world.watchDescriptor path)

/-- The descriptors whose end an event reports. -/
def InotifyEvent.removes (event : InotifyEvent) : List Nat :=
  if event.queueOverflow = false ∧ event.ignored = true then event.wd.toList else []

theorem note_removed : (h.note now event).removed = event.removes ++ h.removed := by
  unfold Helper.note InotifyEvent.removes
  cases event.queueOverflow <;> cases event.ignored <;> rfl

theorem mem_removes {w : Nat} :
    w ∈ event.removes ↔ event.queueOverflow = false ∧ event.ignored ∧ event.wd = some w := by
  unfold InotifyEvent.removes
  split
  · rename_i removes
    simp [removes]
  · rename_i keeps
    constructor
    · simp
    · rintro ⟨overflow, ignored, -⟩
      exact absurd ⟨overflow, ignored⟩ keeps

theorem note_loader : (h.note now event).loader = h.loader := by
  unfold Helper.note
  split
  · rfl
  · split <;> rfl

theorem detectEvent_watched (watched : h.Watched file i)
    (renewable : Renewable e i.path h.removed [event])
    (present : i.Unwatched event → (e.world.file i.path).isSome)
    (run : detectEvent e now event h = some (u, h')) :
    ∃ i', h'.Watched file i' ∧ i.Rewatches e i' ∧
      (∀ w ∈ h'.removed, w ∈ h.removed ∨ w ∈ event.removes) := by
  obtain ⟨_, run⟩ := require_bind_inv run
  unfold onlyIf at run
  split at run
  · have old : (h.note now event).loader.Old := by
      rw [note_loader]
      exact watched.old
    have found : (h.note now event).loader.identity file = some i := by
      rw [note_loader]
      exact watched.found
    obtain ⟨old', removed, i', found', rewatches, renewed⟩ := detectFiles_rewatches _ renewable.works
      (fun unwatched => renewable.later event (by simp) unwatched.2.1) present watched.updatable
      old found run
    rw [note_removed] at removed
    refine ⟨i', ⟨old', found', rewatches.updatable.trans watched.updatable, ?_⟩, rewatches, ?_⟩
    · rw [removed]
      have isListed : file ∈ (h.note now event).loader.lookup.map ObjectIdentity.id :=
        List.mem_map.mpr ⟨i, Loader.mem_of_identity found, Loader.id_of_identity found⟩
      by_cases unwatched : i.Unwatched event
      · refine ⟨_, renewed isListed unwatched, fun member => ?_⟩
        rcases List.mem_append.mp member with now | before
        · exact renewable.later event (by simp) unwatched.2.1 (mem_removes.mp now).2.2
        · exact renewable.unused before
      · obtain ⟨w, isWatch, active⟩ := watched.active
        rcases rewatches.wd with same | new
        · refine ⟨w, same.trans isWatch, fun member => ?_⟩
          rcases List.mem_append.mp member with now | before
          · obtain ⟨overflow, ignored, isWd⟩ := mem_removes.mp now
            exact unwatched ⟨overflow, ignored, isWd.trans isWatch.symm⟩
          · exact active before
        · refine ⟨_, new, fun member => ?_⟩
          rcases List.mem_append.mp member with now | before
          · obtain ⟨-, ignored, isWd⟩ := mem_removes.mp now
            exact renewable.later event (by simp) ignored isWd
          · exact renewable.unused before
    · intro w member
      rw [removed] at member
      exact (List.mem_append.mp member).symm
  · rw [(pure_inv run).2]
    exact ⟨i, watched, refl_of (ObjectIdentity.Rewatches e) i, fun w member => .inl member⟩

/-- Each of the events does so if the file is there in case the end of its watch is reported. -/
theorem filemodificationDetect_watched (watched : h.Watched file i)
    (renewable : Renewable e i.path h.removed events)
    (present : ∀ event ∈ events, i.Unwatched event → (e.world.file i.path).isSome)
    (run : filemodificationDetect e now events h = some (u, h')) :
    ∃ i', h'.Watched file i' ∧ i'.path = i.path ∧
      (∀ w ∈ h'.removed, w ∈ h.removed ∨ ∃ event ∈ events, w ∈ event.removes) := by
  induction events generalizing h i with
  | nil =>
    rw [(pure_inv run).2]
    exact ⟨i, watched, rfl, fun w member => .inl member⟩
  | cons event events ih =>
    obtain ⟨_, h1, first, rest⟩ := bind_inv run
    obtain ⟨isFirst, others⟩ := List.forall_mem_cons.mp renewable.later
    obtain ⟨i1, watched1, rewatches, removed1⟩ := detectEvent_watched watched
      ⟨renewable.works, renewable.unused, by simpa using isFirst⟩ (present event (by simp)) first
    have unused1 : e.world.watchDescriptor i.path ∉ h1.removed := by
      intro member
      rcases removed1 _ member with before | now
      · exact renewable.unused before
      · obtain ⟨-, ignored, isWd⟩ := mem_removes.mp now
        exact isFirst ignored isWd
    have present1 : ∀ event ∈ events, i1.Unwatched event →
        (e.world.file i1.path).isSome := by
      intro event member unwatched
      rw [rewatches.path]
      rcases rewatches.wd with same | new
      · exact present event (List.mem_cons_of_mem _ member)
          ⟨unwatched.1, unwatched.2.1, unwatched.2.2.trans same⟩
      · exact absurd (unwatched.2.2.trans new) (others event member unwatched.2.1)
    have renewable1 : Renewable e i1.path h1.removed events := by
      rw [rewatches.path]
      exact ⟨renewable.works, unused1, others⟩
    obtain ⟨i', watched', path, removed'⟩ := ih watched1 renewable1 present1 rest
    refine ⟨i', watched', path.trans rewatches.path, fun w member => ?_⟩
    rcases removed' w member with before | ⟨event', inEvents, removes⟩
    · rcases removed1 w before with before | removes
      · exact .inl before
      · exact .inr ⟨event, by simp, removes⟩
    · exact .inr ⟨event', List.mem_cons_of_mem _ inEvents, removes⟩

theorem LoadsOnly.watched (loads : LoadsOnly e h h') (watched : h.Watched file i)
    (unused : e.world.watchDescriptor i.path ∉ h.removed) :
    ∃ i', h'.Watched file i' := by
  obtain ⟨old, kept⟩ := loads.1 watched.old
  obtain ⟨i', found', rewatches⟩ := kept file i watched.found
  obtain ⟨w, isWatch, active⟩ := watched.active
  refine ⟨i', old, found', rewatches.updatable.trans watched.updatable, ?_⟩
  rw [loads.2]
  rcases rewatches.wd with same | new
  · exact ⟨w, same.trans isWatch, active⟩
  · exact ⟨_, new, unused⟩

end Iteration

/-! ## Whole runs -/

/-- The identity has a watch whose end has not been reported, or it is on the work list. -/
def Helper.Observed (file : Nat) (h : Helper) : Prop :=
  (∃ i w, h.loader.identity file = some i ∧ i.wd = some w ∧ w ∉ h.removed) ∨
    ∃ time, (time, file) ∈ h.worklist

/-- An iteration of the loop under a condition on the surroundings of its two parts, its events
and the state before. -/
def Iterates (allowed : Env → Env → List InotifyEvent → Helper → Prop) (h h' : Helper) : Prop :=
  ∃ e₁ e₂ fuel now events, allowed e₁ e₂ events h ∧
    helperIteration e₁ e₂ fuel now events h = some ((), h')

/-- The system does what it can, also for the watch of this identity. -/
def Supported (file : Nat) (e₁ e₂ : Env) (events : List InotifyEvent) (h : Helper) : Prop :=
  ∀ i, h.loader.identity file = some i →
    Renewable e₁ i.path h.removed events ∧ Renewable e₂ i.path h.removed events

/-- The file is there again when the end of its watch is reported. -/
def Replaced (file : Nat) (e₁ e₂ : Env) (events : List InotifyEvent) (h : Helper) : Prop :=
  Supported file e₁ e₂ events h ∧ ∀ i, h.loader.identity file = some i →
    ∀ event ∈ events, i.Unwatched event → (e₁.world.file i.path).isSome = true

/-- Under this condition an iteration keeps the identity watched. -/
theorem Iterates.watched {h h' : Helper} (iterates : Iterates (Replaced file) h h')
    (watched : h.Watched file i) :
    ∃ i', h'.Watched file i' := by
  obtain ⟨e₁, e₂, fuel, now, events, ⟨supported, present⟩, run⟩ := iterates
  obtain ⟨renewable1, renewable2⟩ := supported i watched.found
  obtain ⟨_, h1, detects, run⟩ := bind_inv run
  obtain ⟨i1, watched1, path, removed⟩ :=
    filemodificationDetect_watched watched renewable1 (present i watched.found) detects
  have loads : LoadsOnly e₂ h1 h' :=
    keeps_onlyIf (fun _ => loadsOnly_filemodificationLoadAt renewable2.works) _ _ _ run
  refine loads.watched watched1 ?_
  rw [path]
  intro member
  rcases removed _ member with before | ⟨event, inEvents, removes⟩
  · exact renewable2.unused before
  · obtain ⟨-, ignored, isWd⟩ := mem_removes.mp removes
    exact renewable2.later event inEvents ignored isWd

/-- If the file is always there again when the end of its watch is reported, an updatable
identity that was watched is observed in every state between two iterations. -/
theorem replaced_stays_observed {file w : Nat} {h₀ h : Helper} {i : ObjectIdentity}
    (old : h₀.loader.Old) (found : h₀.loader.identity file = some i)
    (updatable : i.flags.updatable = true) (isWatched : i.wd = some w) (active : w ∉ h₀.removed)
    (run : ReflTransGen (Iterates (Replaced file)) h₀ h) : h.Observed file := by
  have watched : ∃ i', h.Watched file i' := by
    induction run with
    | refl => exact ⟨i, old, found, updatable, w, isWatched, active⟩
    | tail _ iterates ih =>
      obtain ⟨i', watched⟩ := ih
      exact iterates.watched watched
  obtain ⟨i', watched⟩ := watched
  obtain ⟨w', isWatch, active'⟩ := watched.active
  exact .inl ⟨i', w', watched.found, isWatch, active'⟩

/-! ## A file that is missing for a second -/

/-- The next watch gets this descriptor. -/
def Env.nextWatch (wd : Nat) (e : Env) : Env :=
  e.withWorld { e.world with watchDescriptor := fun _ => wd }

theorem supported_nextWatch {file wd : Nat} {e : Env} (works : ∀ tick, e.world.succeeds tick)
    (unused : wd ∉ h.removed)
    (later : ∀ event ∈ events, event.ignored → event.wd ≠ some wd) :
    Supported file (e.nextWatch wd) (e.nextWatch wd) events h := by
  intro i found
  have renewable : Renewable (e.nextWatch wd) i.path h.removed events := ⟨works, unused, later⟩
  exact ⟨renewable, renewable⟩

/-- The end of a watch. -/
def InotifyEvent.ignore (wd : Nat) : InotifyEvent := ⟨some wd, false, false, true⟩

/-- No file, and the next watch would get the descriptor 13. -/
def missingY : Env := Env.nextWatch 13 Env.noFiles

/-- The library is deleted, and is still missing one second later. -/
def deleteY : HelperM (Helper × Helper) := do
  let _ ← inLoader (loadFrom needsNothing 1 0 none)
  let h₀ ← get
  helperIteration missingY missingY 1 0 [.change 12, .ignore 12]
  let h₁ ← get
  helperIteration missingY missingY 1 secondNs []
  return (h₀, h₁)

theorem old_newY : newY.Old := by
  intro i member
  rw [List.mem_singleton.mp member]
  exact Nat.zero_lt_one

/-- The watch is gone with the file, and the failed load has removed the entry of the work
list: when the file comes back it is neither watched nor loaded. -/
theorem deleteY_unobserved : ∃ (h₀ h : Helper) (i : ObjectIdentity) (w : Nat), h₀.loader.Old ∧
    h₀.loader.identity 0 = some i ∧ i.flags.updatable = true ∧ i.wd = some w ∧ w ∉ h₀.removed ∧
    ReflTransGen (Iterates (Supported 0)) h₀ h ∧ ¬ h.Observed 0 := by
  have all : (deleteY ⟨newY, [], [], []⟩).map (fun p =>
      ((p.1.1.loader.identity 0).map (fun i => (i.flags.updatable, i.wd)), p.1.2.removed,
        (p.2.loader.identity 0).map ObjectIdentity.wd, p.2.worklist.isEmpty)) =
      some (some (true, some 12), [12], some none, true) := by
    decide +kernel
  obtain ⟨⟨⟨h₀, h1⟩, h⟩, run, facts⟩ := Option.map_eq_some_iff.mp all
  simp only [Prod.mk.injEq, Option.map_eq_some_iff, List.isEmpty_iff] at facts
  obtain ⟨⟨i, found, updatable, isWatched⟩, removed1, ⟨i', found', unwatched⟩, worklist⟩ := facts
  unfold deleteY at run
  obtain ⟨result, _, loads, run⟩ := bind_inv run
  obtain ⟨s, loaded, rfl⟩ := inLoader_inv loads
  rw [bind_of_eq (get_apply _)] at run
  obtain ⟨_, _, first, run⟩ := bind_inv run
  rw [bind_of_eq (get_apply _)] at run
  obtain ⟨_, _, second, run⟩ := bind_inv run
  cases run
  have old : s.Old := by
    have calls := grows_libraryCall (e := needsNothing) (grows_openFile (e := needsNothing) 1)
    exact (keepsHooks_load calls 0 none .none _ _ _ loaded old_newY).1
  refine ⟨_, h, i, 12, old, found, updatable, isWatched, by simp, ?_, ?_⟩
  · have works : ∀ tick, Env.noFiles.world.succeeds tick = true := fun _ => rfl
    refine .tail (.single ⟨_, _, _, _, _, supported_nextWatch works (by simp) (by decide), first⟩) ?_
    exact ⟨_, _, _, _, _, supported_nextWatch works (by simp [removed1]) (by simp), second⟩
  · rintro (⟨j, w, foundJ, watchedJ, -⟩ | ⟨time, member⟩)
    · cases foundJ.symm.trans found'
      cases watchedJ.symm.trans unwatched
    · rw [worklist] at member
      cases member

/-- A library that is replaced at once gets a new watch. -/
theorem replaced_stays_observed_needsNothing : ∃ h : Helper,
    ReflTransGen (Iterates (Replaced 0)) ⟨watchedY, [], [], []⟩ h ∧ h.removed = [12] ∧
      h.Observed 0 := by
  have old : watchedY.Old := by
    intro i member
    rw [List.mem_singleton.mp member]
    exact Nat.zero_lt_one
  have iterates : (helperIteration (Env.nextWatch 13 needsNothing) (Env.nextWatch 13 needsNothing) 1 0
      [.change 12, .ignore 12] ⟨watchedY, [], [], []⟩).map (fun p => p.2.removed) = some [12] := by
    decide +kernel
  obtain ⟨⟨_, h⟩, iterated, removed⟩ := Option.map_eq_some_iff.mp iterates
  have run : ReflTransGen (Iterates (Replaced 0)) ⟨watchedY, [], [], []⟩ h := by
    have works : ∀ tick, needsNothing.world.succeeds tick = true := fun _ => rfl
    refine .single ⟨_, _, _, _, _, ⟨supported_nextWatch works (by simp) (by decide), ?_⟩, iterated⟩
    intro i found event _ _
    cases found
    decide
  exact ⟨h, run, removed, replaced_stays_observed old rfl rfl rfl (by simp) run⟩

end Luci
