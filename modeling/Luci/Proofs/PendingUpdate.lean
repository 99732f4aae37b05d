import Luci.Threads
import Luci.Proofs.UpdatePoint

/-!
# A pending update is applied once

Two threads that test `update_pending` before either of them has the lock both run
`update()`. If a thread tests the flag only while no other one is between its test and its
return, then after the flag was raised at most one call applies the update.
-/

namespace Luci.Threads

open Relation

variable {s s' : State} {entry : Entry} {action : Action} {actions : List Action}

/-- The call has run `update()`. -/
def Entry.applied : Entry → Bool
  | .returned _ 1 => true
  | _ => false

/-- Between two changes of `update_pending` from false to true at most one call runs `update()`
and returns 1; all others return 0. -/
def Once (record : List Entry) : Prop :=
  ∀ front phase back, record = front ++ phase ++ back → Entry.raised ∉ phase →
    phase.countP Entry.applied ≤ 1 ∧
      ∀ thread value, Entry.returned thread value ∈ phase → value = 0 ∨ value = 1

/-- The number of calls that have run `update()` since the flag was raised. -/
def appliedSince : List Entry → Nat
  | [] => 0
  | .raised :: _ => 0
  | entry :: record => (if entry.applied then 1 else 0) + appliedSince record

section Record

variable {record : List Entry}

theorem appliedSince_cons (other : entry ≠ .raised) :
    appliedSince (entry :: record) = (if entry.applied then 1 else 0) + appliedSince record := by
  cases entry with
  | raised => exact absurd rfl other
  | returned thread value => rfl

theorem countP_le_appliedSince {phase back : List Entry} (quiet : Entry.raised ∉ phase) :
    phase.countP Entry.applied ≤ appliedSince (phase ++ back) := by
  induction phase with
  | nil => exact Nat.zero_le _
  | cons entry phase ih =>
    have other : entry ≠ .raised := fun same => quiet (same ▸ List.mem_cons_self)
    have rest := ih fun member => quiet (List.mem_cons_of_mem _ member)
    rw [List.cons_append, appliedSince_cons other, List.countP_cons]
    omega

theorem Once.nil : Once [] := by
  intro front phase back split
  have empty : phase = [] := by
    simp only [List.nil_eq, List.append_eq_nil_iff] at split
    exact split.1.2
  simp [empty]

theorem Once.cons (once : Once record) (few : appliedSince (entry :: record) ≤ 1)
    (value : ∀ thread value, entry = .returned thread value → value = 0 ∨ value = 1) :
    Once (entry :: record) := by
  intro front phase back split quiet
  cases front with
  | cons first front =>
    simp only [List.cons_append, List.cons.injEq] at split
    exact once front phase back split.2 quiet
  | nil =>
    rw [List.nil_append] at split
    refine ⟨(countP_le_appliedSince quiet).trans (split ▸ few), ?_⟩
    cases phase with
    | nil => simp
    | cons first phase =>
      simp only [List.cons_append, List.cons.injEq] at split
      intro thread v member
      rcases List.mem_cons.mp member with isFirst | later
      · exact value thread v (split.1.trans isFirst.symm)
      · refine (once [] phase back split.2 fun raised => ?_).2 thread v later
        exact quiet (List.mem_cons_of_mem _ raised)

end Record

/-! ## Steps -/

/-- What a step does. -/
inductive Moves (s : State) : Action → State → Prop where
  | waits {thread : Nat} (pending : s.loader.updatePending = true) :
      Moves s (.test thread) (s.move thread .waiting)
  | idles {thread : Nat} : Moves s (.test thread) (s.add (.returned thread 0))
  | locks {thread : Nat} (waiting : s.position thread = .waiting) :
      Moves s (.lock thread) { s.move thread .locked with owner := some (.caller thread) }
  | applies {thread : Nat} {e : Env} {loader : Loader} (locked : s.position thread = .locked)
      (applied : loader.updatePending = false) : Moves s (.update thread e)
        { (s.move thread .outside).add (.returned thread 1) with loader := loader, owner := none }
  | loads {e : Env} {fuel : Nat} {due : List Nat} {loader : Loader} :
      Moves s (.load e fuel due) (s.loaded loader)
  | ignores {action : Action} {loader : Loader} {owner : Option Owner}
      (same : loader.updatePending = s.loader.updatePending) :
      Moves s action { s with loader := loader, owner := owner }

theorem moves_of_step (taken : step s action = some s') : Moves s action s' := by
  cases action with
  | test thread =>
    obtain ⟨-, taken⟩ := Option.ite_none_right_eq_some.mp taken
    by_cases pending : s.loader.updatePending
    · rw [if_pos pending] at taken
      cases taken
      exact .waits pending
    · rw [if_neg pending] at taken
      cases taken
      exact .idles
  | lock thread =>
    obtain ⟨⟨waiting, -⟩, taken⟩ := Option.ite_none_right_eq_some.mp taken
    cases taken
    exact .locks waiting
  | update thread e =>
    obtain ⟨locked, taken⟩ := Option.ite_none_right_eq_some.mp taken
    obtain ⟨⟨u, loader⟩, updated, rfl⟩ := Option.map_eq_some_iff.mp taken
    exact .applies locked (updateLoaded_applied updated)
  | lockHelper =>
    obtain ⟨-, taken⟩ := Option.ite_none_right_eq_some.mp taken
    cases taken
    exact .ignores rfl
  | load e fuel due =>
    obtain ⟨-, taken⟩ := Option.ite_none_right_eq_some.mp taken
    obtain ⟨result, -, rfl⟩ := Option.map_eq_some_iff.mp taken
    exact .loads
  | other loader =>
    obtain ⟨same, taken⟩ := Option.ite_none_right_eq_some.mp taken
    cases taken
    exact .ignores same

/-- A step in which a thread tests the flag only if no thread is between its test and its
return. -/
def Serial (s s' : State) : Prop :=
  ∃ action, step s action = some s' ∧
    ∀ thread, action = .test thread → ∀ t, s.position t = .outside

/-- While the flag is set or a thread has seen it set, no call has run `update()` since. -/
structure Guarded (s : State) : Prop where
  once : Once s.record
  pending : s.loader.updatePending = true → appliedSince s.record = 0
  inside : ∀ t, s.position t ≠ .outside → appliedSince s.record = 0
  alone : ∀ t u, s.position t ≠ .outside → s.position u ≠ .outside → t = u
  few : appliedSince s.record ≤ 1

section Steps

variable {s s' : State}

theorem position_move (s : State) (thread t : Nat) (position : Position) :
    (s.move thread position).position t = if t = thread then position else s.position t := rfl

theorem guarded_start (loader : Loader) : Guarded (State.start loader) where
  once := Once.nil
  pending _ := rfl
  inside _ _ := rfl
  alone _ _ isInside := absurd rfl isInside
  few := Nat.zero_le _

theorem Guarded.loaded (guarded : Guarded s) (loader : Loader) : Guarded (s.loaded loader) := by
  unfold State.loaded
  by_cases raised : (!s.loader.updatePending && loader.updatePending)
  · rw [if_pos raised]
    exact ⟨guarded.once.cons (Nat.zero_le _) nofun, fun _ => rfl, fun _ _ => rfl, guarded.alone,
      Nat.zero_le _⟩
  · rw [if_neg raised]
    refine ⟨guarded.once, fun pending => ?_, guarded.inside, guarded.alone, guarded.few⟩
    have pending' : loader.updatePending := pending
    rw [pending', Bool.and_true, Bool.not_eq_true', Bool.not_eq_false] at raised
    exact guarded.pending raised

theorem Guarded.step (guarded : Guarded s) (taken : Serial s s') : Guarded s' := by
  obtain ⟨action, taken, serial⟩ := taken
  cases moves_of_step taken with
  | @waits thread pending =>
    have isOutside := serial thread rfl
    have only : ∀ t, (s.move thread .waiting).position t ≠ .outside → t = thread := by
      intro t isInside
      by_contra other
      rw [position_move, if_neg other] at isInside
      exact isInside (isOutside t)
    refine ⟨guarded.once, guarded.pending, fun _ _ => guarded.pending pending, ?_, guarded.few⟩
    intro t u first second
    rw [only t first, only u second]
  | @idles thread =>
    have same : appliedSince (.returned thread 0 :: s.record) = appliedSince s.record := by
      exact Nat.zero_add _
    refine ⟨guarded.once.cons (same ▸ guarded.few) ?_, ?_, ?_, guarded.alone, same ▸ guarded.few⟩
    · rintro _ _ ⟨⟩
      exact Or.inl rfl
    · intro pending
      exact same.trans (guarded.pending pending)
    · intro t isInside
      exact same.trans (guarded.inside t isInside)
  | @locks thread waiting =>
    have isInside : s.position thread ≠ .outside := by simp [waiting]
    have inside : ∀ t, (s.move thread .locked).position t ≠ .outside → s.position t ≠ .outside := by
      intro t moved
      rw [position_move] at moved
      split at moved
      · rename_i same
        exact same ▸ isInside
      · exact moved
    exact ⟨guarded.once, guarded.pending, fun t moved => guarded.inside t (inside t moved),
      fun t u first second => guarded.alone t u (inside t first) (inside u second), guarded.few⟩
  | @applies thread e loader locked applied =>
    have isInside : s.position thread ≠ .outside := by simp [locked]
    have none : appliedSince s.record = 0 := guarded.inside thread isInside
    have one : appliedSince (.returned thread 1 :: s.record) = 1 := by
      rw [appliedSince_cons (by simp), none]
      rfl
    have gone : ∀ t, (s.move thread .outside).position t = .outside := by
      intro t
      rw [position_move]
      split
      · rfl
      · rename_i other
        by_contra isInside'
        exact other (guarded.alone t thread isInside' isInside)
    refine ⟨guarded.once.cons one.le ?_, ?_, ?_, ?_, one.le⟩
    · rintro _ _ ⟨⟩
      exact Or.inr rfl
    · intro pending
      rw [show loader.updatePending = true from pending] at applied
      cases applied
    · exact fun t moved => absurd (gone t) moved
    · exact fun t u moved => absurd (gone t) moved
  | loads => exact guarded.loaded _
  | ignores same =>
    exact ⟨guarded.once, fun pending => guarded.pending (same ▸ pending), guarded.inside,
      guarded.alone, guarded.few⟩

/-- In every run in which a thread tests `update_pending` only while no other one is between its
test and its return, a pending update is applied by at most one call. -/
theorem serial_applied_once {loader : Loader} (run : ReflTransGen Serial (State.start loader) s) :
    Once s.record := by
  have guarded : Guarded s := by
    induction run with
    | refl => exact guarded_start loader
    | tail _ taken ih => exact ih.step taken
  exact guarded.once

end Steps

/-! ## Two threads -/

/-- The library defines the update point in both versions. -/
def pointY (time : Nat) : Env := definesFunctions time ["__luci_update"]

/-- Both threads see the flag before either has the lock. -/
def twoCallers : List Action :=
  [.lockHelper, .load (pointY 1) 1 [0], .test 0, .test 1, .lock 0, .update 0 (pointY 1), .lock 1,
    .update 1 (pointY 1)]

/-- The first version is loaded. -/
def loadedPoint : Option Loader := (loadFrom (pointY 0) 1 0 none newY).map Prod.snd

/-- Both calls apply the update and return 1. -/
theorem twoCallers_both_apply : ∃ loader s, loadedPoint = some loader ∧
    run (State.start loader) twoCallers = some s ∧
    s.record = [.returned 1 1, .returned 0 1, .raised] ∧ ¬ Once s.record := by
  have observed : (loadedPoint.bind fun loader => run (State.start loader) twoCallers).map
      State.record = some [.returned 1 1, .returned 0 1, .raised] := by
    decide +kernel
  obtain ⟨s, ran, record⟩ := Option.map_eq_some_iff.mp observed
  obtain ⟨loader, isLoader, ran⟩ := Option.bind_eq_some_iff.mp ran
  refine ⟨loader, s, isLoader, ran, record, fun once => ?_⟩
  have both := (once [] [.returned 1 1, .returned 0 1] [.raised] record (by simp)).1
  exact absurd both (by decide)

theorem run_cons :
    run s (action :: actions) = some s' ↔ ∃ s1, step s action = some s1 ∧ run s1 actions = some s' := by
  exact Option.bind_eq_some_iff

theorem serial_of_run (noTest : ∀ action ∈ actions, ∀ thread, action ≠ .test thread)
    (ran : run s actions = some s') : ReflTransGen Serial s s' := by
  induction actions generalizing s with
  | nil =>
    cases ran
    exact ReflTransGen.refl
  | cons action actions ih =>
    obtain ⟨s1, taken, ran⟩ := run_cons.mp ran
    have first : Serial s s1 :=
      ⟨action, taken, fun thread same => absurd same (noTest action List.mem_cons_self thread)⟩
    exact ReflTransGen.head first
      (ih (fun a member => noTest a (List.mem_cons_of_mem _ member)) ran)

/-- The helper thread loads the second version, then one thread applies it. -/
def oneCaller : List Action :=
  [.lockHelper, .load (pointY 1) 1 [0], .test 0, .lock 0, .update 0 (pointY 1)]

theorem serial_applied_once_oneCaller : ∃ loader s, loadedPoint = some loader ∧
    ReflTransGen Serial (State.start loader) s ∧ s.record = [.returned 0 1, .raised] ∧
    Once s.record := by
  have observed : (loadedPoint.bind fun loader => run (State.start loader) oneCaller).map
      State.record = some [.returned 0 1, .raised] := by
    decide +kernel
  obtain ⟨s, ran, record⟩ := Option.map_eq_some_iff.mp observed
  obtain ⟨loader, isLoader, ran⟩ := Option.bind_eq_some_iff.mp ran
  obtain ⟨s1, locked, ran⟩ := run_cons.mp ran
  obtain ⟨s2, loads, ran⟩ := run_cons.mp ran
  obtain ⟨s3, tested, ran⟩ := run_cons.mp ran
  have keep1 : s1.position = (State.start loader).position := by
    cases moves_of_step locked
    rfl
  have keep2 : s2.position = s1.position := by
    cases moves_of_step loads with
    | loads =>
      unfold State.loaded
      dsimp only
      split <;> rfl
    | ignores => rfl
  have outside : ∀ t, s2.position t = .outside := by
    intro t
    rw [keep2, keep1]
    rfl
  have first : ReflTransGen Serial (State.start loader) s2 := by
    have both : run (State.start loader) [.lockHelper, .load (pointY 1) 1 [0]] = some s2 :=
      run_cons.mpr ⟨s1, locked, run_cons.mpr ⟨s2, loads, rfl⟩⟩
    exact serial_of_run (by simp) both
  have second : Serial s2 s3 := ⟨_, tested, fun _ _ => outside⟩
  have all := (first.tail second).trans (serial_of_run (by simp) ran)
  exact ⟨loader, s, isLoader, all, record, serial_applied_once all⟩

end Luci.Threads
