import Luci.Proofs.Creation
import Luci.Proofs.OpenCleanup

/-!
# The hooks of an identity

`ObjectIdentity::hook_refresh` (`src/object/identity.cpp:63-80`) looks the functions
`__luci_serialize` and `__luci_deserialize` up in the current version, at the first load and
after every update, and keeps a function that the version does not define. So the hook
holds, of every function, the definition of the last version that had one. The functions
that `ObjectIdentity::update` calls are those of the right versions unless a version has
dropped a function that an earlier one defined.
-/

namespace Luci

open Exec KeyedList

variable {α : Type} {u : Unit} {r : ObjectRef} {type : ElfType} {i j : ObjectIdentity}
  {memory : Option MemoryImage}

/-- The function with this name that a version defines. -/
def Object.function (e : Env) (o : Object) (name : String) : Option VersionedSymbol :=
  o.resolveSymbol e.libs name (Version.ofName e.libs none)

/-- The hook of a new identity. -/
def Hook.empty : Hook := ⟨none, none, none, false⟩

/-! ## One update -/

/-- The call of a serialize function, if there is one. -/
def ObjectIdentity.serializeCall (i : ObjectIdentity) : List Event :=
  (i.hook.serialize.map fun function =>
    Event.serialize function (if i.current.map Object.ref = i.hook.object then 0 else 1)).toList

/-- The call of a deserialize function, if there is one. -/
def ObjectIdentity.deserializeCall (i : ObjectIdentity) : List Event :=
  (i.hook.deserialize.map Event.deserialize).toList

/-- The identity after `hook_refresh`. -/
def ObjectIdentity.refreshed (e : Env) (i : ObjectIdentity) : ObjectIdentity :=
  if i.flags.updatable then
    { i with hook :=
      match i.current with
      | some current => i.hook.refresh e current
      | none => { i.hook with object := none } }
  else i

/-- The identities and the log are the same. -/
def Unspoken (s s' : Loader) : Prop := s'.lookup = s.lookup ∧ s'.events = s.events

instance : IsPreorder Loader Unspoken where
  refl _ := ⟨rfl, rfl⟩
  trans _ _ _ first second := ⟨second.1.trans first.1, second.2.trans first.2⟩

section Update

variable {e : Env} {file : Nat} {i : ObjectIdentity} {o : Object} {s s' : Loader} {ok : Bool}

theorem refreshed_id (i : ObjectIdentity) : (i.refreshed e).id = i.id := by
  unfold ObjectIdentity.refreshed
  split <;> rfl

theorem hook_refreshed (updatable : i.flags.updatable) (current : i.current = some o) :
    (i.refreshed e).hook = i.hook.refresh e o := by
  unfold ObjectIdentity.refreshed
  rw [if_pos updatable, current]

theorem updatable_refreshed (i : ObjectIdentity) :
    (i.refreshed e).flags.updatable = i.flags.updatable := by
  unfold ObjectIdentity.refreshed
  split <;> rfl

theorem hookRefresh_inv (run : hookRefresh e file s = some (u, s')) :
    s' = s.modifyIdentity file (ObjectIdentity.refreshed e) := modify_inv run

theorem callSerialize_inv (run : callSerialize i s = some (u, s')) :
    s' = { s with events := s.events ++ i.serializeCall } := by
  unfold callSerialize at run
  unfold ObjectIdentity.serializeCall
  cases hook : i.hook.serialize with
  | some function =>
    rw [hook] at run
    exact modify_inv run
  | none =>
    rw [hook] at run
    rw [(pure_inv run).2]
    simp

theorem callDeserialize_inv (run : callDeserialize i s = some (u, s')) :
    s' = { s with events := s.events ++ i.deserializeCall } := by
  unfold callDeserialize at run
  unfold ObjectIdentity.deserializeCall
  cases hook : i.hook.deserialize with
  | some function =>
    rw [hook] at run
    exact modify_inv run
  | none =>
    rw [hook] at run
    rw [(pure_inv run).2]
    simp

/-- An update calls the serialize function of the old hook and the deserialize function of the
new one. -/
theorem updateIdentity_inv (found : s.identity file = some i)
    (run : updateIdentity e file s = some (ok, s')) :
    s'.identity file = some (i.refreshed e) ∧
      s'.events = s.events ++ (i.serializeCall ++ (i.refreshed e).deserializeCall) := by
  obtain ⟨i', found', run⟩ := getIdentity_bind_inv run
  cases found.symm.trans found'
  obtain ⟨_, s1, serialized, run⟩ := bind_inv run
  obtain ⟨success, s2, updated, run⟩ := bind_inv run
  obtain ⟨_, s3, refreshed, run⟩ := bind_inv run
  obtain ⟨j, found3, run⟩ := getIdentity_bind_inv run
  obtain ⟨_, s4, deserialized, run⟩ := bind_inv run
  rw [(pure_inv run).2]
  have lookup1 : s1.lookup = s.lookup := by rw [callSerialize_inv serialized]
  have unspoken : Unspoken s1 s2 := by
    refine keeps_eachOf _ (fun o _ => ?_) _ _ _ updated
    exact (relocates_updateObject o).mono fun _ _ step => ⟨step.quiet.lookup, step.quiet.events⟩
  have found2 : s2.identity file = some i := by
    rw [Loader.identity_congr (unspoken.1.trans lookup1), found]
  have isRefreshed := hookRefresh_inv refreshed
  have found3' : s3.identity file = some (i.refreshed e) := by
    rw [isRefreshed, Loader.identity_modifyIdentity_same refreshed_id, found2]
    rfl
  cases found3.symm.trans found3'
  have events2 : s2.events = s.events ++ i.serializeCall := by
    rw [unspoken.2, callSerialize_inv serialized]
  rw [callDeserialize_inv deserialized]
  refine ⟨?_, ?_⟩
  · exact found3
  · have events3 : s3.events = s2.events := by rw [isRefreshed]; rfl
    rw [events3, events2, List.append_assoc]

end Update

/-! ## Whole runs -/

/-- A run of the loader seen from one updatable identity, with the versions that its hook was
looked up in, the last one first. A new hook is looked up once (`src/object/identity.cpp:104-105`)
and then in every update; all other steps leave it alone. The operating system may answer
differently in every step. -/
inductive HookRun (e : Env) (file : Nat) : Loader → List Object → Prop where
  | initial {s s' : Loader} {i : ObjectIdentity} {o : Object} (world : World)
      (found : s.identity file = some i) (updatable : i.flags.updatable = true)
      (new : i.hook = Hook.empty) (current : i.current = some o)
      (step : hookRefresh (e.withWorld world) file s = some ((), s')) : HookRun e file s' [o]
  | update {s s' : Loader} {history : List Object} {o : Object} {ok : Bool} (world : World)
      (before : HookRun e file s history) (current : s.current file = some o)
      (step : updateIdentity (e.withWorld world) file s = some (ok, s')) :
      HookRun e file s' (o :: history)
  | other {s s' : Loader} {history : List Object} {i i' : ObjectIdentity}
      (before : HookRun e file s history) (found : s.identity file = some i)
      (found' : s'.identity file = some i') (hook : i'.hook = i.hook)
      (updatable : i'.flags.updatable = i.flags.updatable) : HookRun e file s' history

/-- The hook after a run: of every function the last definition, and of the rest what the last
version says. -/
structure Hook.Follows (e : Env) (history : List Object) (hook : Hook) : Prop where
  serialize : hook.serialize = history.findSome? fun o => o.function e "__luci_serialize"
  deserialize : hook.deserialize = history.findSome? fun o => o.function e "__luci_deserialize"
  object : hook.object = history.head?.map Object.ref
  updatePoint : hook.updatePoint = history.head?.any fun o => (o.function e "__luci_update").isSome

section Runs

variable {e : Env} {file : Nat} {s s' : Loader} {history : List Object}

theorem follows_empty (e : Env) : Hook.empty.Follows e [] := ⟨rfl, rfl, rfl, rfl⟩

theorem Hook.Follows.refresh {hook : Hook} (follows : hook.Follows e history) (world : World)
    (o : Object) : (hook.refresh (e.withWorld world) o).Follows e (o :: history) where
  serialize := by
    rw [List.findSome?_cons, ← follows.serialize]
    show (o.function e "__luci_serialize").or hook.serialize = _
    cases o.function e "__luci_serialize" <;> rfl
  deserialize := by
    rw [List.findSome?_cons, ← follows.deserialize]
    show (o.function e "__luci_deserialize").or hook.deserialize = _
    cases o.function e "__luci_deserialize" <;> rfl
  object := rfl
  updatePoint := rfl

/-- In every state of a run the hook is that of the versions it was looked up in. -/
theorem HookRun.follows (run : HookRun e file s history) :
    ∃ i, s.identity file = some i ∧ i.flags.updatable ∧ i.hook.Follows e history := by
  induction run with
  | @initial s s' i o world found updatable new current step =>
    refine ⟨i.refreshed (e.withWorld world), ?_, (updatable_refreshed i).trans updatable, ?_⟩
    · rw [hookRefresh_inv step, Loader.identity_modifyIdentity_same refreshed_id, found]
      rfl
    · rw [hook_refreshed updatable current, new]
      exact (follows_empty e).refresh world o
  | @update s s' history o ok world before current step ih =>
    obtain ⟨i, found, updatable, follows⟩ := ih
    have isCurrent : i.current = some o := by
      rw [Loader.current, found] at current
      exact current
    refine ⟨i.refreshed (e.withWorld world), (updateIdentity_inv found step).1,
      (updatable_refreshed i).trans updatable, ?_⟩
    rw [hook_refreshed updatable isCurrent]
    exact follows.refresh world o
  | other before found found' hook updatable ih =>
    obtain ⟨j, foundBefore, isUpdatable, follows⟩ := ih
    cases found.symm.trans foundBefore
    exact ⟨_, found', updatable.trans isUpdatable, hook.symm ▸ follows⟩

theorem HookRun.history_isSome (run : HookRun e file s history) : history.head?.isSome := by
  induction run with
  | initial => rfl
  | update => rfl
  | other _ _ _ _ _ ih => exact ih

/-- What is found in a list is in its first element, unless that lacks what a later one has. -/
theorem findSome?_head_iff {α β : Type} (f : α → Option β) (a : α) (l : List α) :
    (∀ b, (a :: l).findSome? f = some b → f a = some b) ↔
      (f a).isSome ∨ ∀ c ∈ l, f c = none := by
  rw [List.findSome?_cons]
  cases first : f a with
  | some b => simp
  | none =>
    constructor
    · intro only
      refine .inr fun c member => ?_
      by_contra isSome
      obtain ⟨b, found⟩ := Option.isSome_iff_exists.mp
        (List.findSome?_isSome_iff.mpr ⟨c, member, Option.isSome_iff_ne_none.mpr isSome⟩)
      exact absurd (only b found) (by simp)
    · rintro (isSome | nothing) b found
      · cases isSome
      · rw [List.findSome?_eq_none_iff.mpr nothing] at found
        cases found

/-- The calls of an update transfer the state from one version to another: only functions that
these versions define are called. -/
structure Transfers (e : Env) (old new : Object) (calls : List Event) : Prop where
  serialize : ∀ function argument, Event.serialize function argument ∈ calls →
    old.function e "__luci_serialize" = some function
  deserialize : ∀ function, Event.deserialize function ∈ calls →
    new.function e "__luci_deserialize" = some function

/-- A version defines the function, or no version before it has defined it. -/
def Supplied (e : Env) (name : String) (o : Object) (earlier : List Object) : Prop :=
  (o.function e name).isSome = true ∨ ∀ v ∈ earlier, v.function e name = none

theorem supplied_iff {name : String} {o : Object} {earlier : List Object} :
    Supplied e name o earlier ↔ ∀ function,
      (o :: earlier).findSome? (fun v => v.function e name) = some function →
        o.function e name = some function :=
  (findSome?_head_iff (fun v : Object => v.function e name) o earlier).symm

theorem mem_serializeCall {function : VersionedSymbol} :
    (∃ argument, Event.serialize function argument ∈ i.serializeCall ++ j.deserializeCall) ↔
      i.hook.serialize = some function := by
  unfold ObjectIdentity.serializeCall ObjectIdentity.deserializeCall
  cases i.hook.serialize <;> cases j.hook.deserialize <;> simp [eq_comm]

theorem mem_deserializeCall {function : VersionedSymbol} :
    Event.deserialize function ∈ i.serializeCall ++ j.deserializeCall ↔
      j.hook.deserialize = some function := by
  unfold ObjectIdentity.serializeCall ObjectIdentity.deserializeCall
  cases i.hook.serialize <;> cases j.hook.deserialize <;> simp [eq_comm]

/-- In every run, an update calls functions of the right versions if and only if the version
of the last update has not dropped `__luci_serialize` and the version that is current now has
not dropped `__luci_deserialize`. -/
theorem updateIdentity_transfers_iff {old o : Object} {world : World} {ok : Bool}
    (before : HookRun e file s (old :: history)) (current : s.current file = some o)
    (run : updateIdentity (e.withWorld world) file s = some (ok, s')) :
    ∃ calls, s'.events = s.events ++ calls ∧
      (Transfers e old o calls ↔
        Supplied e "__luci_serialize" old history ∧
          Supplied e "__luci_deserialize" o (old :: history)) := by
  obtain ⟨i, found, updatable, follows⟩ := before.follows
  obtain ⟨i', found', -, follows'⟩ := (HookRun.update world before current run).follows
  obtain ⟨isRefreshed, events⟩ := updateIdentity_inv found run
  cases isRefreshed.symm.trans found'
  refine ⟨_, events, ?_⟩
  rw [supplied_iff, supplied_iff, ← follows.serialize, ← follows'.deserialize]
  constructor
  · intro transfers
    constructor
    · intro function isHook
      obtain ⟨argument, called⟩ := mem_serializeCall.mpr isHook
      exact transfers.serialize function argument called
    · intro function isHook
      exact transfers.deserialize function (mem_deserializeCall.mpr isHook)
  · rintro ⟨serialize, deserialize⟩
    constructor
    · intro function argument called
      exact serialize function (mem_serializeCall.mp ⟨argument, called⟩)
    · intro function called
      exact deserialize function (mem_deserializeCall.mp called)

end Runs

/-! ## Loads -/

/-- A hook that has been looked up is the same. -/
def ObjectIdentity.SameHook (i i' : ObjectIdentity) : Prop :=
  i.hook.object.isSome = true → i'.hook = i.hook ∧ i'.flags.updatable = i.flags.updatable

instance : IsPreorder ObjectIdentity ObjectIdentity.SameHook where
  refl _ _ := ⟨rfl, rfl⟩
  trans _ _ _ first second hooked := by
    obtain ⟨hook₁, updatable₁⟩ := first hooked
    obtain ⟨hook₂, updatable₂⟩ := second (hook₁.symm ▸ hooked)
    exact ⟨hook₂.trans hook₁, updatable₂.trans updatable₁⟩

/-- Every hook that has been looked up is the same. -/
abbrev KeepsHooks : Loader → Loader → Prop := Along ObjectIdentity.SameHook

section Load

variable {e : Env} {library : LibraryCall} {file : Nat} {s s' : Loader}

theorem keepsHooks_of_attends {x : LoaderM α} (attends : Keeps Attends x) : Keeps KeepsHooks x :=
  attends.mono fun _ _ step => step.mono fun _ _ tended _ => ⟨tended.hook, tended.updatable⟩

theorem keepsHooks_initialHook (file : Nat) : Keeps KeepsHooks (initialHook e file) := by
  intro s u s' run
  obtain ⟨i, found, run⟩ := getIdentity_bind_inv run
  unfold Exec.onlyIf at run
  split at run
  · rename_i unhooked
    rw [hookRefresh_inv run]
    refine along_modifyIdentity s file refreshed_id fun j found' hooked => ?_
    cases found.symm.trans found'
    rw [Option.isNone_iff_eq_none.mp unhooked] at hooked
    cases hooked
  · rw [(pure_inv run).2]
    exact refl_of KeepsHooks s

variable (grows : library.Keeps Grows)

include grows

/-- Loading a file leaves the hooks of all identities alone once they have been looked up. -/
theorem keepsHooks_load (file : Nat) (memory : Option MemoryImage) (type : ElfType) :
    Keeps KeepsHooks (load e library file memory type) := by
  apply keeps_bind (keepsHooks_of_attends (frame_openObject file memory type))
  intro opened
  cases opened with
  | error failure =>
    apply keeps_bind (keepsHooks_initialHook file)
    exact fun _ => keeps_pure _
  | ok op =>
    apply keeps_bind (keepsHooks_of_attends (attends_create grows file op))
    intro result
    apply keeps_bind
    · exact keeps_afterCreate (R := KeepsHooks) (fun _ _ quiet => quiet.grows.along)
        (fun _ => keeps_modify fun s => along_modifyIdentity s file (fun _ => rfl)
          fun _ _ _ => ⟨rfl, rfl⟩) op.data result.1
    intro _
    apply keeps_bind (keepsHooks_initialHook file)
    exact fun _ => keeps_pure _

theorem create_current {op : Opened} {info : Info} (old : s.Old) (found : s.identity file = some i)
    (run : create e library file op s = some ((some r, info), s')) :
    ∃ o, s'.current file = some o := by
  obtain ⟨o, mid, -, -, -, -, -, -, -, first, second⟩ :=
    create_edits grows (B := Set.univ) Loader.binds_univ run
  obtain ⟨old1, i1, found1, -⟩ := first.next found old
  obtain ⟨-, i2, found2, accepted⟩ := second.next found1 old1
  obtain ⟨o', rest, -, -, versions⟩ := List.forall₂_cons_left_iff.mp accepted.versions
  refine ⟨o', ?_⟩
  rw [Loader.current, found2]
  show i2.versions.head? = some o'
  rw [versions]
  rfl

/-- The first load of an identity begins a run. -/
theorem HookRun.first {world : World} (old : s.Old) (found : s.identity file = some i)
    (updatable : i.flags.updatable) (new : i.hook = Hook.empty)
    (step : Luci.load (e.withWorld world) library file memory type s = some (some r, s')) :
    ∃ o, s'.current file = some o ∧ HookRun e file s' [o] := by
  obtain ⟨opened, s1, opening, step⟩ := bind_inv step
  have quiet : Quiet s s1 := frame_openObject _ _ _ _ _ _ opening
  cases opened with
  | error failure =>
    obtain ⟨_, s2, -, step⟩ := bind_inv step
    cases step
  | ok op =>
    obtain ⟨⟨object, info⟩, s2, created, step⟩ := bind_inv step
    obtain ⟨_, s3, after, step⟩ := bind_inv step
    obtain ⟨_, s4, hook, step⟩ := bind_inv step
    obtain ⟨rfl, rfl⟩ := pure_inv step
    have found1 : s1.identity file = some i := by rw [Loader.identity_congr quiet.lookup, found]
    have old1 : s1.Old := quiet.grows.old old
    obtain ⟨old2, kept⟩ := attends_create grows file op _ _ _ created old1
    obtain ⟨i2, found2, tended⟩ := kept file i found1
    obtain ⟨o, current⟩ := create_current grows old1 found1 created
    rw [Loader.current, found2] at current
    have after' : s3.identity file = some i2 ∨ ∃ wd, s3.identity file = some { i2 with wd := wd } := by
      rcases afterCreate_inv found2 after with ⟨-, same⟩ | ⟨-, wd, watched, -⟩
      · exact .inl same
      · exact .inr ⟨wd, watched⟩
    obtain ⟨i3, found3, hook3, updatable3, current3⟩ : ∃ i3, s3.identity file = some i3 ∧
        i3.hook = Hook.empty ∧ i3.flags.updatable ∧ i3.current = some o := by
      rcases after' with same | ⟨wd, same⟩
      · exact ⟨_, same, tended.hook.trans new, tended.updatable.trans updatable, current⟩
      · exact ⟨_, same, tended.hook.trans new, tended.updatable.trans updatable, current⟩
    obtain ⟨i3', found3', hook⟩ := getIdentity_bind_inv hook
    cases found3.symm.trans found3'
    rw [show i3.hook.object = none by rw [hook3]; rfl] at hook
    refine ⟨o, ?_, HookRun.initial world found3 updatable3 hook3 current3 hook⟩
    rw [hookRefresh_inv hook, Loader.current, Loader.identity_modifyIdentity_same refreshed_id, found3]
    show (i3.refreshed (e.withWorld world)).current = some o
    rw [← current3]
    unfold ObjectIdentity.refreshed
    split <;> rfl

/-- A load of any file continues a run. -/
theorem HookRun.load {e0 : Env} {file' : Nat} {result : Option ObjectRef} {history : List Object}
    (before : HookRun e0 file s history) (old : s.Old)
    (step : load e library file' memory type s = some (result, s')) :
    HookRun e0 file s' history := by
  obtain ⟨i, found, updatable, follows⟩ := before.follows
  have looked : i.hook.object.isSome := by
    rw [follows.object, Option.isSome_map]
    exact before.history_isSome
  obtain ⟨-, kept⟩ := keepsHooks_load grows file' memory type _ _ _ step old
  obtain ⟨i', found', same⟩ := kept file i found
  exact before.other found found' (same looked).1 (same looked).2

end Load

/-! ## A version that drops its hooks -/

/-- The library `liby.so` defines these functions. -/
def definesFunctions (time : Nat) (names : List String) : Env :=
  fileY (File.ofElf time (Elf.library [] (names.map Symbol.function) []))

/-- The first version has both hooks. -/
def withHooks : Env := definesFunctions 0 ["__luci_serialize", "__luci_deserialize"]

/-- The second version has none. -/
def withoutHooks : Env := definesFunctions 1 ["f"]

/-- The identity of the library before its first load. -/
def newY : Loader :=
  { Loader.initial with
    lookup := [{ ObjectIdentity.global 0 "liby.so" [] with
      flags := { Flags.zero with updatable := true } }]
    fresh := 1 }

/-- Load both versions, then update. -/
def dropHooks : LoaderM (Loader × Bool) := do
  let _ ← loadFrom withHooks 1 0 none
  let _ ← loadFrom withoutHooks 1 0 none
  let s ← get
  let ok ← updateIdentity withoutHooks 0
  return (s, ok)

/-- The parts of a state that show which functions were called. -/
def Loader.observeHooks (s : Loader) : List Event × Option (Option VersionedSymbol) :=
  (s.events, (s.current 0).map fun o => o.function withHooks "__luci_deserialize")

/-- Both loads succeed, and the second version is current when it is updated. -/
theorem dropHooks_run : ∃ s s' old new ok, HookRun withHooks 0 s [old] ∧
    s.current 0 = some new ∧
    updateIdentity (withHooks.withWorld withoutHooks.world) 0 s = some (ok, s') ∧
    s.events = [] ∧ (∃ function, Event.deserialize function ∈ s'.events) ∧
    new.function withHooks "__luci_deserialize" = none := by
  have first : (loadFrom withHooks 1 0 none newY).map (fun p => p.1.isSome) = some true := by
    decide +kernel
  have all : (dropHooks newY).map (fun p => (p.1.1.observeHooks,
      p.2.events.any fun event => match event with | .deserialize _ => true | _ => false)) =
      some (([], some none), true) := by
    decide +kernel
  obtain ⟨⟨result, s1⟩, load1, isSome⟩ := Option.map_eq_some_iff.mp first
  obtain ⟨r, rfl⟩ := Option.isSome_iff_exists.mp isSome
  obtain ⟨⟨⟨s, ok⟩, s'⟩, run, facts⟩ := Option.map_eq_some_iff.mp all
  have old : newY.Old := by
    intro i member
    rw [List.mem_singleton.mp member]
    exact Nat.zero_lt_one
  have calls : ∀ e : Env, LibraryCall.Keeps (libraryCall e (openFile e 1)) Grows :=
    fun e => grows_libraryCall (grows_openFile 1)
  have load1' : load (withHooks.withWorld withHooks.world) (libraryCall withHooks
      (openFile withHooks 1)) 0 none .none newY = some (some r, s1) := load1
  obtain ⟨v, -, started⟩ := HookRun.first (calls withHooks) old rfl rfl rfl load1'
  unfold dropHooks at run
  rw [bind_of_eq load1] at run
  obtain ⟨result2, s2, load2, run⟩ := bind_inv run
  rw [bind_of_eq (get_apply s2)] at run
  obtain ⟨ok', s3, updated, run⟩ := bind_inv run
  cases run
  have old1 : s1.Old := by
    have kept := keepsHooks_load (calls withHooks) 0 none .none _ _ _ load1 old
    exact kept.1
  have loaded := started.load (calls withoutHooks) old1 load2
  unfold Loader.observeHooks at facts
  simp only [Prod.mk.injEq, Option.map_eq_some_iff] at facts
  obtain ⟨⟨events, new, current, undefined⟩, called⟩ := facts
  obtain ⟨event, member, isCall⟩ := List.any_eq_true.mp called
  refine ⟨s, s', v, new, ok, loaded, current, updated, events, ?_, undefined⟩
  cases event with
  | deserialize function => exact ⟨function, member⟩
  | _ => cases isCall

/-- The update calls the deserialize function of the first version on the data of the second,
which defines none. -/
theorem dropHooks_calls_old : ∃ s s' old new ok, HookRun withHooks 0 s [old] ∧
    s.current 0 = some new ∧
    updateIdentity (withHooks.withWorld withoutHooks.world) 0 s = some (ok, s') ∧
    ∀ calls, s'.events = s.events ++ calls → ¬ Transfers withHooks old new calls := by
  obtain ⟨s, s', old, new, ok, run, current, updated, events, ⟨function, called⟩, undefined⟩ :=
    dropHooks_run
  refine ⟨s, s', old, new, ok, run, current, updated, fun calls isCalls transfers => ?_⟩
  rw [events, List.nil_append] at isCalls
  have defined := transfers.deserialize function (isCalls ▸ called)
  rw [undefined] at defined
  cases defined

theorem updateIdentity_transfers_iff_dropHooks : ∃ (s s' : Loader) (old new : Object),
    HookRun withHooks 0 s [old] ∧ s.current 0 = some new ∧ ∃ calls, s'.events = s.events ++ calls ∧
      (Transfers withHooks old new calls ↔ Supplied withHooks "__luci_serialize" old [] ∧
        Supplied withHooks "__luci_deserialize" new [old]) := by
  obtain ⟨s, s', old, new, ok, run, current, updated, -⟩ := dropHooks_run
  exact ⟨s, s', old, new, run, current, updateIdentity_transfers_iff run current updated⟩

end Luci
