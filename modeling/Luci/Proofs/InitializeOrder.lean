import Luci.Loader
import Luci.Reference
import Luci.Proofs.Access
import Luci.Misc.Dfs

/-!
# The order of initializers

`ObjectIdentity::initialize` is a depth-first search over the dependencies: the flag
`initialized` is the mark that is set on entry, and the log of initializer calls is
the finishing order. The loop over `reverse(lookup)` in `Loader::prepare` is the
search from every identity. The results about the search carry over.
-/

namespace Luci

open Dfs Exec

/-- The identities have a current version, and its dependencies are in the lookup list. -/
structure Loader.Loaded (s : Loader) : Prop where
  distinct : (s.lookup.map ObjectIdentity.id).Nodup
  current : ∀ i ∈ s.lookup.map ObjectIdentity.id, ∃ o, s.current i = some o
  own : ∀ i o, s.current i = some o → o.file = i
  closed : ∀ i o, s.current i = some o → ∀ d ∈ o.dependencies, d ∈ s.lookup.map ObjectIdentity.id

/-- It is enough to look at the elements of the lookup list. -/
theorem Loader.Loaded.of_lookup {s : Loader} (distinct : (s.lookup.map ObjectIdentity.id).Nodup)
    (each : ∀ a ∈ s.lookup, ∃ o, a.current = some o ∧ o.file = a.id ∧
      ∀ d ∈ o.dependencies, d ∈ s.lookup.map ObjectIdentity.id) : s.Loaded := by
  have objects : ∀ i o, s.current i = some o → o.file = i ∧
      ∀ d ∈ o.dependencies, d ∈ s.lookup.map ObjectIdentity.id := by
    intro i o current
    obtain ⟨a, found, isCurrent⟩ := Loader.identity_of_current current
    obtain ⟨o', isCurrent', own, closed⟩ := each a (Loader.mem_of_identity found)
    obtain rfl : o' = o := Option.some.inj (isCurrent'.symm.trans isCurrent)
    exact ⟨own.trans (Loader.id_of_identity found), closed⟩
  refine ⟨distinct, ?_, fun i o current => (objects i o current).1,
    fun i o current => (objects i o current).2⟩
  intro i member
  obtain ⟨a, found⟩ := Loader.identity_isSome_iff.mpr member
  obtain ⟨o, isCurrent, -⟩ := each a (Loader.mem_of_identity found)
  exact ⟨o, by simp [Loader.current, found, isCurrent]⟩

/-- The direct dependencies of an identity. -/
def Loader.dependenciesOf (s : Loader) (i : Nat) : List Nat :=
  ((s.current i).map Object.dependencies).getD []

/-- The identities that are marked as initialized. -/
def Loader.initializedIds (s : Loader) : List Nat :=
  (s.lookup.filter fun i => i.flags.initialized).map ObjectIdentity.id

/-- The initializer call of the current version of an identity. -/
def Loader.initEvent (s : Loader) (i : Nat) : Event :=
  .init ⟨i, ((s.current i).map Object.uid).getD 0⟩

/-- Mark an identity if it is in the list. -/
def ObjectIdentity.mark (marked : List Nat) (i : ObjectIdentity) : ObjectIdentity :=
  if i.id ∈ marked then i.markInitialized else i

/-- The state after the part of the search that a trace describes. -/
def Loader.afterInit (s : Loader) (t : Trace Nat) : Loader :=
  { s with
    lookup := s.lookup.map (ObjectIdentity.mark t.marked)
    events := s.events ++ t.order.map s.initEvent }

section Mark

variable {marked : List Nat} {i : ObjectIdentity}

@[simp] theorem mark_id : (i.mark marked).id = i.id := by
  unfold ObjectIdentity.mark
  split <;> rfl

@[simp] theorem mark_versions : (i.mark marked).versions = i.versions := by
  unfold ObjectIdentity.mark
  split <;> rfl

theorem mark_initialized :
    (i.mark marked).flags.initialized ↔ i.flags.initialized ∨ i.id ∈ marked := by
  unfold ObjectIdentity.mark
  split <;> simp_all [ObjectIdentity.markInitialized]

theorem mark_of_initialized (already : i.flags.initialized) : i.mark marked = i := by
  have same : { i.flags with initialized := true } = i.flags := by
    rw [← already]
  unfold ObjectIdentity.mark ObjectIdentity.markInitialized
  rw [same]
  split <;> rfl

theorem mark_cons (a : Nat) :
    i.mark (a :: marked) = if i.id = a then (i.mark marked).markInitialized else i.mark marked := by
  unfold ObjectIdentity.mark
  by_cases same : i.id = a
  · rw [if_pos (by simp [same]), if_pos same]
    split <;> rfl
  · simp [same]

end Mark

section Simulation

variable {s : Loader} {t : Trace Nat}

theorem afterInit_identity (i : Nat) :
    (s.afterInit t).identity i = (s.identity i).map (ObjectIdentity.mark t.marked) :=
  KeyedList.lookup_map (fun _ => mark_id) s.lookup i

@[simp] theorem afterInit_current (i : Nat) : (s.afterInit t).current i = s.current i := by
  unfold Loader.current
  rw [afterInit_identity]
  cases s.identity i with
  | none => rfl
  | some a => simp [ObjectIdentity.current]

@[simp] theorem afterInit_depth : (s.afterInit t).depth = s.depth := by
  simp [Loader.depth, Loader.afterInit]

theorem modifyIdentity_afterInit (a : Nat) :
    (s.afterInit t).modifyIdentity a ObjectIdentity.markInitialized =
      s.afterInit ⟨a :: t.marked, t.order⟩ := by
  have marks : ObjectIdentity.mark (a :: t.marked) = fun i =>
      if i.id = a then (i.mark t.marked).markInitialized else i.mark t.marked :=
    funext fun i => mark_cons a
  unfold Loader.modifyIdentity KeyedList.update Loader.afterInit
  simp only [List.map_map, Function.comp_def, mark_id, marks]

theorem logEvent_afterInit {a : Nat} {o : Object} (current : s.current a = some o)
    (own : o.file = a) :
    logEvent (.init o.ref) (s.afterInit t) = some ((), s.afterInit ⟨t.marked, t.order ++ [a]⟩) := by
  have event : Event.init o.ref = s.initEvent a := by
    simp [Loader.initEvent, current, Object.ref, own]
  simp [logEvent, Loader.afterInit, event]

theorem initialized_afterInit {a : Nat} {i : ObjectIdentity}
    (marks : ∀ a ∈ s.initializedIds, a ∈ t.marked) (found : s.identity a = some i) :
    (i.mark t.marked).flags.initialized ↔ a ∈ t.marked := by
  have isId := Loader.id_of_identity found
  rw [mark_initialized, isId]
  refine ⟨fun either => either.elim (fun already => marks a ?_) id, Or.inr⟩
  rw [← isId]
  exact List.mem_map_of_mem (List.mem_filter.mpr ⟨Loader.mem_of_identity found, already⟩)

/-- The loop over a list of identities is the search from these roots. -/
theorem allOf_eq_foldlM {f : Nat → LoaderM Bool} {n : Nat}
    (one : ∀ (a : Nat) (t : Trace Nat), a ∈ s.lookup.map ObjectIdentity.id →
      (∀ a ∈ s.initializedIds, a ∈ t.marked) →
      f a (s.afterInit t) = (visit s.dependenciesOf n t a).map fun t' => (true, s.afterInit t'))
    (l : List Nat) : ∀ t : Trace Nat, (∀ a ∈ l, a ∈ s.lookup.map ObjectIdentity.id) →
      (∀ a ∈ s.initializedIds, a ∈ t.marked) →
      allOf f l (s.afterInit t) =
        (l.foldlM (visit s.dependenciesOf n) t).map fun t' => (true, s.afterInit t') := by
  induction l with
  | nil => intro t _ _; rfl
  | cons a l ih =>
    intro t inside marks
    have first := one a t (inside a (by simp)) marks
    unfold allOf
    rw [bind_apply, first, List.foldlM_cons]
    cases visited : visit s.dependenciesOf n t a with
    | none => rfl
    | some t' =>
      obtain ⟨new, ext, -, -⟩ := visit_extends n t a t' visited
      have marks' : ∀ a ∈ s.initializedIds, a ∈ t'.marked :=
        fun a member => (ext.marked a).mpr (Or.inl (marks a member))
      exact ih t' (fun b member => inside b (by simp [member])) marks'

theorem initializeIdentity_eq_visit (loaded : s.Loaded) (n : Nat) :
    ∀ (a : Nat) (t : Trace Nat), a ∈ s.lookup.map ObjectIdentity.id →
      (∀ a ∈ s.initializedIds, a ∈ t.marked) →
      initializeIdentity n a (s.afterInit t) =
        (visit s.dependenciesOf n t a).map fun t' => (true, s.afterInit t') := by
  induction n with
  | zero => intro a t _ _; rfl
  | succ n ih =>
    intro a t member marks
    obtain ⟨o, current⟩ := loaded.current a member
    obtain ⟨i, found, -⟩ := Loader.identity_of_current current
    have getO : getCurrent a (s.afterInit t) = some (o, s.afterInit t) := by
      simp [getCurrent, bind_apply, current]
    have getI : getIdentity a (s.afterInit t) = some (i.mark t.marked, s.afterInit t) :=
      getIdentity_eq (by rw [afterInit_identity, found]; rfl)
    unfold initializeIdentity visit
    rw [bind_of_eq getO, bind_of_eq getI]
    by_cases marked : a ∈ t.marked
    · rw [if_pos ((initialized_afterInit marks found).mpr marked), if_pos marked]
      rfl
    · rw [if_neg (fun already => marked ((initialized_afterInit marks found).mp already)),
        if_neg marked, bind_of_eq (modify_apply _ _), modifyIdentity_afterInit]
      have children : s.dependenciesOf a = o.dependencies := by
        simp [Loader.dependenciesOf, current]
      have below := allOf_eq_foldlM ih o.dependencies ⟨a :: t.marked, t.order⟩
        (loaded.closed a o current) fun b initialized => List.mem_cons_of_mem a (marks b initialized)
      rw [bind_apply, below, children]
      cases o.dependencies.foldlM (visit s.dependenciesOf n) ⟨a :: t.marked, t.order⟩ with
      | none => rfl
      | some t' => exact bind_of_eq (logEvent_afterInit current (loaded.own a o current))

/-- Before anything is initialized, the state is the one of the trace without new marks. -/
theorem afterInit_start (loaded : s.Loaded) : s.afterInit ⟨s.initializedIds, []⟩ = s := by
  have unchanged : s.lookup.map (ObjectIdentity.mark s.initializedIds) = s.lookup := by
    refine (List.map_congr_left fun i member => ?_).trans s.lookup.map_id
    by_cases marked : i.id ∈ s.initializedIds
    · obtain ⟨j, initialized, sameId⟩ := List.mem_map.mp marked
      obtain ⟨inLookup, already⟩ := List.mem_filter.mp initialized
      obtain rfl := List.inj_on_of_nodup_map loaded.distinct inLookup member sameId
      exact mark_of_initialized already
    · exact if_neg marked
  unfold Loader.afterInit
  simp [unchanged]

theorem initializeFrom_eq_visit (loaded : s.Loaded) (a : Nat) (t : Trace Nat)
    (member : a ∈ s.lookup.map ObjectIdentity.id) (marks : ∀ a ∈ s.initializedIds, a ∈ t.marked) :
    initializeFrom a (s.afterInit t) =
      (visit s.dependenciesOf s.depth t a).map fun t' => (true, s.afterInit t') := by
  unfold initializeFrom
  rw [bind_of_eq (get_apply _), afterInit_depth]
  exact initializeIdentity_eq_visit loaded s.depth a t member marks

end Simulation

/-! ## The loop of `Loader::prepare` -/

section Loop

variable {s : Loader} (loaded : s.Loaded)

include loaded

theorem dependency_loaded {a d : Nat} (member : a ∈ s.lookup.map ObjectIdentity.id)
    (edge : d ∈ s.dependenciesOf a) : d ∈ s.lookup.map ObjectIdentity.id := by
  obtain ⟨o, current⟩ := loaded.current a member
  refine loaded.closed a o current d ?_
  simpa [Loader.dependenciesOf, current] using edge

theorem reach_loaded {a d : Nat} (member : a ∈ s.lookup.map ObjectIdentity.id)
    (reach : Reach s.dependenciesOf a d) : d ∈ s.lookup.map ObjectIdentity.id := by
  induction reach with
  | refl => exact member
  | tail _ edge ih => exact dependency_loaded loaded ih edge

omit loaded in
theorem mem_reversed {a : Nat} : a ∈ s.reversed ↔ a ∈ s.lookup.map ObjectIdentity.id := by
  simp [Loader.reversed]

theorem search_lookup (t : Trace Nat) :
    ∃ t', s.reversed.foldlM (visit s.dependenciesOf s.depth) t = some t' := by
  refine search_terminates (s.lookup.map ObjectIdentity.id).toFinset ?_ ?_ s.reversed ?_ t
  · intro x member c edge
    rw [List.mem_toFinset] at member ⊢
    exact dependency_loaded loaded member edge
  · have few := List.toFinset_card_le (s.lookup.map ObjectIdentity.id)
    rw [List.length_map] at few
    unfold Loader.depth
    omega
  · intro a member
    rw [List.mem_toFinset]
    exact mem_reversed.mp member

/-- The initializers run by `Loader::prepare`: the loop over the reversed lookup list
terminates and succeeds, and the log grows by the calls of `order`. Each identity that was
not marked before occurs in it exactly once and no other does, and an identity comes after
everything it depends on unless it reaches a cycle or something marked before. -/
theorem initialize_order :
    ∃ order s', allOf initializeFrom s.reversed s = some (true, s') ∧
      s'.events = s.events ++ order.map s.initEvent ∧
      order.Nodup ∧
      (∀ i, i ∈ order ↔ i ∈ s.lookup.map ObjectIdentity.id ∧ i ∉ s.initializedIds) ∧
      ∀ a front back, order = front ++ a :: back →
        (∀ b, Reach s.dependenciesOf a b → ¬ Path s.dependenciesOf b b ∧ b ∉ s.initializedIds) →
        ∀ d, Path s.dependenciesOf a d → d ∈ front := by
  obtain ⟨t, search⟩ := search_lookup loaded ⟨s.initializedIds, []⟩
  obtain ⟨order, ext, roots, reached⟩ := search_extends search
  have run := allOf_eq_foldlM (initializeFrom_eq_visit loaded) s.reversed ⟨s.initializedIds, []⟩
    (fun a member => mem_reversed.mp member) fun a member => member
  rw [afterInit_start loaded, search] at run
  have newOrder : t.order = order := by simpa using ext.order
  refine ⟨order, s.afterInit t, run, ?_, ext.nodup, ?_, ?_⟩
  · simp [Loader.afterInit, newOrder]
  · intro i
    constructor
    · intro member
      obtain ⟨root, isRoot, reach⟩ := reached i member
      exact ⟨reach_loaded loaded (mem_reversed.mp isRoot) reach, ext.fresh i member⟩
    · rintro ⟨member, unmarked⟩
      have marked := roots i (mem_reversed.mpr member)
      exact ((ext.marked i).mp marked).resolve_left unmarked
  · intro a front back split clean d path
    exact ext.before path (fun b reach => (clean b reach).1) (fun b reach => (clean b reach).2) split

end Loop

/-- An identity with one version that needs the given identities. -/
def needing (id : Nat) (needed : List Nat) : ObjectIdentity :=
  .global id "lib.so"
    [{ Object.construct id id .dynamic (Elf.sharedObject []) Data.none with dependencies := needed }]

/-- A cycle of two identities and one that depends on it. -/
def loadedCycle : Loader :=
  { Loader.initial with lookup := [needing 0 [1], needing 1 [2], needing 2 [1]] }

theorem initialize_order_loadedCycle :
    loadedCycle.Loaded ∧
      ∃ (order : List Nat) (s' : Loader),
        allOf initializeFrom loadedCycle.reversed loadedCycle = some (true, s') ∧
        s'.events = loadedCycle.events ++ order.map loadedCycle.initEvent ∧ order.Nodup := by
  have loaded : loadedCycle.Loaded := by
    refine Loader.Loaded.of_lookup (by decide) ?_
    simp [loadedCycle, needing, ObjectIdentity.global, ObjectIdentity.current, Object.construct]
  obtain ⟨order, s', run, events, nodup, -⟩ := initialize_order loaded
  exact ⟨loaded, order, s', run, events, nodup⟩

end Luci
