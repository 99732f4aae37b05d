import Mathlib.Data.List.Nodup
import Mathlib.Logic.Relation
import Luci.Gdb
import Luci.Reference

/-!
# The debugger's list follows the version chains

While identities and versions are only added, the old list is a subsequence of the versions. The
one pass of `refresh` then finds every old node at its version and inserts the new ones between
them.
-/

namespace Luci

open Relation

variable {pid fresh : Nat} {versions : List (ObjectIdentity × Object)} {rest : List LinkMap}
  {config : Config} {g : Gdb} {s s' : Loader}

/-- What a node says about its version. -/
def LinkMap.key (n : LinkMap) : Nat × Nat := (n.lVersions, n.lAddr)

/-- The version and its base address. -/
def versionKey (v : ObjectIdentity × Object) : Nat × Nat := (v.2.uid, v.2.base)

/-- What happens between two calls of `refresh`. -/
inductive Loader.Adds : Loader → Loader → Prop
  /-- An identity is emplaced in `lookup`. -/
  | identity {s s' : Loader} {before after : List ObjectIdentity} {o : ObjectIdentity}
    (old : s.lookup = before ++ after) (new : s'.lookup = before ++ o :: after)
    (empty : o.versions = []) : Adds s s'
  /-- An identity gets a version, an object of its own. -/
  | version {s s' : Loader} {before after : List ObjectIdentity} {o o' : ObjectIdentity} {c : Object}
    (old : s.lookup = before ++ o :: after) (new : s'.lookup = before ++ o' :: after)
    (head : o'.versions = c :: o.versions) (own : ∀ v ∈ s.versions, v.2.uid ≠ c.uid) : Adds s s'

/-- Additions and a call of `refresh`. -/
def Gdb.Step (config : Config) (pid : Nat) (x y : Gdb × Loader) : Prop :=
  ReflTransGen Loader.Adds x.2 y.2 ∧ y.1 = x.1.refresh config pid y.2

/-- The list shows the versions in their order. -/
def Gdb.Shows (g : Gdb) (s : Loader) : Prop :=
  g.flatLinkMap.map LinkMap.key = s.versions.map versionKey

/-- Different versions are different objects. -/
def Loader.DistinctVersions (s : Loader) : Prop := (s.versions.map fun v => v.2.uid).Nodup

/-- The pass over a list that is a subsequence of the versions. -/
theorem refreshFrom_merges (distinct : (versions.map fun v => v.2.uid).Nodup)
    (old : (rest.map LinkMap.key).Sublist (versions.map versionKey)) :
    (refreshFrom pid versions rest fresh).1.map LinkMap.key = versions.map versionKey ∧
      rest.Sublist (refreshFrom pid versions rest fresh).1 := by
  induction versions generalizing rest fresh with
  | nil =>
    obtain rfl : rest = [] := by simpa using old
    exact ⟨rfl, .slnil⟩
  | cons v versions ih =>
    obtain ⟨o, c⟩ := v
    rw [List.map_cons, List.nodup_cons] at distinct
    cases rest with
    | nil =>
      obtain ⟨keys, -⟩ := @ih (fresh + 1) [] distinct.2 (List.nil_sublist _)
      exact ⟨congrArg _ keys, List.nil_sublist _⟩
    | cons i later =>
      rw [List.map_cons, List.map_cons, List.sublist_cons_iff] at old
      -- a node of this version cannot belong to a later one, which is another object
      by_cases here : i.lVersions = c.uid
      · rcases old with old | ⟨_, same, old⟩
        · obtain ⟨v, member, same⟩ := List.mem_map.mp (old.subset List.mem_cons_self)
          have uid : v.2.uid = c.uid := (congrArg Prod.fst same).trans here
          exact absurd (List.mem_map.mpr ⟨v, member, uid⟩) distinct.1
        · rw [List.cons.injEq] at same
          obtain ⟨keys, kept⟩ := @ih fresh later distinct.2 (same.2 ▸ old)
          simp only [refreshFrom, refreshVersion, here, ne_eq, not_true, if_false, List.map_cons,
            keys, same.1, true_and]
          exact kept.cons_cons i
      · rcases old with old | ⟨_, same, old⟩
        · obtain ⟨keys, kept⟩ := @ih (fresh + 1) (i :: later) distinct.2 old
          simp only [refreshFrom, refreshVersion, here, ne_eq, not_false_iff, if_true,
            List.map_cons, keys]
          exact ⟨rfl, kept.cons _⟩
        · rw [List.cons.injEq] at same
          exact absurd (congrArg Prod.fst same.1) here

theorem Loader.Adds.sublist (adds : s.Adds s') :
    (s.versions.map versionKey).Sublist (s'.versions.map versionKey) := by
  cases adds with
  | identity old new empty => simp [Loader.versions, old, new, empty]
  | version old new head own =>
    simp [Loader.versions, old, new, head, Function.comp_def, versionKey]

theorem Loader.Adds.distinct (adds : s.Adds s') (distinct : s.DistinctVersions) : s'.DistinctVersions := by
  unfold Loader.DistinctVersions at distinct ⊢
  cases adds with
  | identity old new empty => simpa [Loader.versions, old, new, empty] using distinct
  | @version before after o o' c old new head own =>
    have inserted : (s'.versions.map fun v => v.2.uid).Perm
        (c.uid :: s.versions.map fun v => v.2.uid) := by
      simp [Loader.versions, old, new, head, Function.comp_def]
    rw [inserted.nodup_iff, List.nodup_cons]
    refine ⟨fun member => ?_, distinct⟩
    obtain ⟨v, isVersion, same⟩ := List.mem_map.mp member
    exact own v isVersion same

theorem Loader.Adds.run (adds : ReflTransGen Loader.Adds s s') (distinct : s.DistinctVersions) :
    (s.versions.map versionKey).Sublist (s'.versions.map versionKey) ∧ s'.DistinctVersions := by
  induction adds with
  | refl => exact ⟨.refl _, distinct⟩
  | tail _ step ih => exact ⟨ih.1.trans step.sublist, step.distinct ih.2⟩

theorem Gdb.refresh_rBrk (g : Gdb) : (g.refresh config pid s).rBrk = g.rBrk := by
  unfold Gdb.refresh
  split <;> rfl

/-- One call of `refresh` on a list that shows what there was before. -/
theorem Gdb.refresh_shows (enabled : (g.rBrk && config.debugger)) (distinct : s.DistinctVersions)
    (old : (g.flatLinkMap.map LinkMap.key).Sublist (s.versions.map versionKey)) :
    (g.refresh config pid s).Shows s ∧
      g.flatLinkMap.Sublist (g.refresh config pid s).flatLinkMap := by
  unfold Gdb.refresh
  rw [if_pos enabled]
  exact refreshFrom_merges distinct old

/-- After each call the list has exactly the versions of all identities, in the order of `lookup`,
newest first, each once and with its own base address. The next call keeps the nodes. -/
theorem refresh_follows {config : Config} {pid : Nat} {g₀ g : Gdb} {s₀ s : Loader}
    (enabled : (g₀.rBrk && config.debugger) = true) (empty : g₀.flatLinkMap = [])
    (distinct : s₀.DistinctVersions)
    (run : ReflTransGen (Gdb.Step config pid) (g₀.refresh config pid s₀, s₀) (g, s)) :
    g.Shows s ∧ (g.flatLinkMap.map LinkMap.lVersions).Nodup ∧
      ∀ s', ReflTransGen Loader.Adds s s' →
        g.flatLinkMap.Sublist (g.refresh config pid s').flatLinkMap := by
  have reached : ∀ x : Gdb × Loader,
      ReflTransGen (Gdb.Step config pid) (g₀.refresh config pid s₀, s₀) x →
      x.1.Shows x.2 ∧ x.2.DistinctVersions ∧ (x.1.rBrk && config.debugger) = true := by
    intro x run
    induction run with
    | refl =>
      refine ⟨(Gdb.refresh_shows enabled distinct ?_).1, distinct, ?_⟩
      · rw [empty]
        exact List.nil_sublist _
      · rwa [Gdb.refresh_rBrk]
    | tail _ step ih =>
      obtain ⟨shows, distinct, enabled⟩ := ih
      obtain ⟨adds, isNext⟩ := step
      obtain ⟨more, distinct⟩ := Loader.Adds.run adds distinct
      rw [isNext, Gdb.refresh_rBrk]
      exact ⟨(Gdb.refresh_shows enabled distinct (shows ▸ more)).1, distinct, enabled⟩
  obtain ⟨shows, distinct, enabled⟩ := reached _ run
  refine ⟨shows, ?_, fun s' adds => ?_⟩
  · have uids := congrArg (List.map Prod.fst) shows
    rw [List.map_map, List.map_map] at uids
    exact uids ▸ distinct
  · obtain ⟨more, distinct⟩ := Loader.Adds.run adds distinct
    exact (Gdb.refresh_shows enabled distinct (shows ▸ more)).2

/-- A loader with one library in these versions. -/
def libraryVersions (uids : List Nat) : Loader :=
  { Loader.initial with lookup := [.global 0 "liba.so" (uids.map fun uid =>
      .construct uid 0 .dynamic (.empty .dyn) Data.none)] }

theorem refresh_follows_update : ∃ g g' : Gdb, g'.Shows (libraryVersions [2, 1]) ∧
    Gdb.Step .default 1 (g, libraryVersions [1]) (g', libraryVersions [2, 1]) := by
  have adds : (libraryVersions [1]).Adds (libraryVersions [2, 1]) :=
    .version (show _ = [] ++ _ from rfl) rfl rfl (by decide)
  have distinct : (libraryVersions [1]).DistinctVersions := by
    unfold Loader.DistinctVersions
    decide
  let g : Gdb := ⟨true, none, [], 0⟩
  have step : Gdb.Step .default 1 (g.refresh .default 1 (libraryVersions [1]), libraryVersions [1])
      (_, libraryVersions [2, 1]) := ⟨.single adds, rfl⟩
  exact ⟨_, _, (refresh_follows rfl rfl distinct (.single step)).1, step⟩

end Luci
