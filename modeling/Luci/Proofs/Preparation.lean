import Luci.Proofs.Frame
import Luci.Reference

/-!
# Preparation

`ObjectIdentity::prepare` marks the current object as being prepared, descends into the
dependencies and relocates the object. A failure on the way leaves the mark behind, and
a later call takes it for a circular dependency.
-/

namespace Luci

open Exec

/-- An object without its status. -/
def Object.unprepared (o : Object) : Object := { o with status := .mapped }

/-- An identity without the status of its versions. -/
def ObjectIdentity.unprepared (i : ObjectIdentity) : ObjectIdentity :=
  { i with versions := i.versions.map Object.unprepared }

/-- Nothing has changed but memory, bound symbols and the status of objects. -/
structure Prepares (s s' : Loader) : Prop where
  quiet : Quiet { s with lookup := s'.lookup, relocations := s'.relocations } s'
  lookup : s'.lookup.map ObjectIdentity.unprepared = s.lookup.map ObjectIdentity.unprepared

theorem Relocates.prepares {uid : Nat} {s s' : Loader} (step : Relocates uid s s') :
    Prepares s s' := by
  have quiet := step.quiet
  have same : s'.lookup = s.lookup := quiet.lookup
  exact ⟨by grind, by rw [same]⟩

instance : IsPreorder Loader Prepares where
  refl s := ((Quiet.refl s).relocates 0).prepares
  trans _ _ _ first second := by
    refine ⟨?_, second.lookup.trans first.lookup⟩
    have := first.quiet
    have := second.quiet
    grind

/-- A relation that allows for the marks and for what the classes do is kept by `prepare`. -/
theorem keeps_prepareIdentity {R : Loader → Loader → Prop} [IsPreorder Loader R] {e : Env}
    (marks : ∀ r status, Keeps R (setStatus r status)) (prepares : ∀ o, Keeps R (prepareObject e o))
    (n : Nat) : ∀ file, Keeps R (prepareIdentity e n file) := by
  induction n with
  | zero => exact fun file => keeps_abort
  | succ n ih =>
    intro file
    refine keeps_bind (keeps_bind keeps_get fun _ => keeps_orAbort _) fun o => ?_
    cases o.status with
    | mapped =>
      refine keeps_bind (marks o.ref .preparing) fun _ => ?_
      refine keeps_bind (keeps_allOf _ fun dep _ => ih dep) fun ok => ?_
      refine keeps_ite (fun _ => ?_) fun _ => keeps_pure false
      refine keeps_bind (prepares o) fun ok => ?_
      refine keeps_ite (fun _ => ?_) fun _ => keeps_pure false
      exact keeps_bind (marks o.ref .prepared) fun _ => keeps_pure true
    | preparing => exact keeps_pure true
    | prepared => exact keeps_pure true

section Frame

variable {e : Env}

theorem prepares_setStatus (r : ObjectRef) (status : ObjectStatus) :
    Keeps Prepares (setStatus r status) := by
  refine keeps_modify fun s => ⟨?_, ?_⟩
  · unfold Loader.modifyObject Loader.modifyIdentity
    grind
  · refine KeyedList.map_update (fun i => ?_) r.file s.lookup
    have same : ∀ o : Object, Object.unprepared { o with status := status } = o.unprepared :=
      fun _ => rfl
    have versions := @KeyedList.map_update _ _ _ Object.uid _ _ _ same r.uid i.versions
    exact congrArg (fun versions => { i with versions := versions }) versions

theorem prepares_prepareObject (o : Object) : Keeps Prepares (prepareObject e o) :=
  (relocates_prepareObject o).mono fun _ _ step => step.prepares

theorem prepares_prepareIdentity (n : Nat) : ∀ file, Keeps Prepares (prepareIdentity e n file) :=
  keeps_prepareIdentity prepares_setStatus prepares_prepareObject n

end Frame

theorem Prepares.identity {s s' : Loader} (step : Prepares s s') (i : Nat) :
    (s'.identity i).map ObjectIdentity.unprepared =
      (s.identity i).map ObjectIdentity.unprepared := by
  have keep : ∀ a : ObjectIdentity, a.unprepared.id = a.id := fun _ => rfl
  unfold Loader.identity
  rw [← KeyedList.lookup_map keep, ← KeyedList.lookup_map keep, step.lookup]

/-- Preparing keeps the current objects, apart from their status. -/
theorem Prepares.current {s s' : Loader} (step : Prepares s s') (i : Nat) :
    (s'.current i).map Object.unprepared = (s.current i).map Object.unprepared := by
  have current : ∀ a : ObjectIdentity, a.unprepared.current = a.current.map Object.unprepared :=
    fun a => List.head?_map
  have bind : ∀ found : Option ObjectIdentity, (found.bind ObjectIdentity.current).map
      Object.unprepared = (found.map ObjectIdentity.unprepared).bind ObjectIdentity.current := by
    intro found
    cases found with
    | none => rfl
    | some a => exact (current a).symm
  unfold Loader.current
  rw [bind, bind, step.identity]

/-! ## Update -/

section Update

variable {R : Loader → Loader → Prop} [IsPreorder Loader R] {e : Env} {file : Nat}

theorem keeps_getIdentity (file : Nat) : Keeps R (getIdentity file) :=
  keeps_bind keeps_get fun _ => keeps_orAbort _

/-- The object whose initializers were called. -/
def Event.initOf : Event → Option ObjectRef
  | .init object => some object
  | _ => none

/-- A relation that allows for new entries in the log, for what the classes do and for a new
hook is kept by `update`. -/
theorem keeps_updateIdentity (logs : ∀ event : Event, event.initOf = none → Keeps R (logEvent event))
    (updates : ∀ o, Keeps R (updateObject e o)) (refreshes : Keeps R (hookRefresh e file)) :
    Keeps R (updateIdentity e file) := by
  apply keeps_bind (keeps_getIdentity (R := R) file)
  intro i
  apply keeps_bind
  · unfold callSerialize
    cases i.hook.serialize with
    | none => exact keeps_pure ()
    | some function => exact logs _ rfl
  intro _
  apply keeps_bind (keeps_eachOf _ fun o _ => updates o)
  intro ok
  apply keeps_bind refreshes
  intro _
  apply keeps_bind (keeps_getIdentity (R := R) file)
  intro i
  apply keeps_bind
  · unfold callDeserialize
    cases i.hook.deserialize with
    | none => exact keeps_pure ()
    | some function => exact logs _ rfl
  exact fun _ => keeps_pure ok

end Update

/-! ## The result of a call from outside -/

/-- The current object of an identity has been prepared. -/
def Loader.isPrepared (s : Loader) (file : Nat) : Prop :=
  ∃ o, s.current file = some o ∧ o.status = .prepared

section Result

variable {e : Env} {file : Nat} {s s' : Loader} {o : Object}

theorem getCurrent_eq (current : s.current file = some o) : getCurrent file s = some (o, s) := by
  simp [getCurrent, bind_apply, current]

theorem isPrepared_setStatus {s1 : Loader} (same : Prepares s s1) (current : s.current file = some o)
    (own : o.file = file) (run : setStatus o.ref .prepared s1 = some ((), s')) :
    s'.isPrepared file := by
  obtain rfl := modify_inv run
  have kept := same.current file
  rw [current] at kept
  obtain ⟨o1, current1, sameObject⟩ := Option.map_eq_some_iff.mp kept
  have sameRef : o1.unprepared.ref = o.unprepared.ref := by rw [sameObject]
  have own1 : o1.file = file := (congrArg ObjectRef.file sameRef).trans own
  rw [show o.ref = o1.ref from sameRef.symm]
  exact ⟨_, Loader.current_modifyObject current1 own1, rfl⟩

/-- A call that returns true has prepared the object, unless it was marked before. -/
theorem isPrepared_of_mapped {n : Nat} (current : s.current file = some o) (own : o.file = file)
    (mapped : o.status = .mapped) (run : prepareIdentity e (n + 1) file s = some (true, s')) :
    s'.isPrepared file := by
  unfold prepareIdentity at run
  rw [bind_of_eq (getCurrent_eq current)] at run
  simp only [mapped] at run
  obtain ⟨_, s1, marked, run⟩ := bind_inv run
  obtain ⟨ok, s2, below, run⟩ := bind_inv run
  have dependencies := keeps_allOf o.dependencies fun dep _ => prepares_prepareIdentity (e := e) n dep
  have same : Prepares s s2 :=
    trans_of Prepares (prepares_setStatus _ _ _ _ _ marked) (dependencies _ _ _ below)
  cases ok with
  | false => cases run
  | true =>
    obtain ⟨prepared, s3, relocated, run⟩ := bind_inv run
    cases prepared with
    | false => cases run
    | true =>
      obtain ⟨_, s4, finished, run⟩ := bind_inv run
      obtain ⟨-, rfl⟩ := pure_inv run
      exact isPrepared_setStatus (trans_of Prepares same (prepares_prepareObject _ _ _ _ relocated))
        current own finished

theorem prepareIdentity_of_marked {n : Nat} (current : s.current file = some o)
    (marked : o.status ≠ .mapped) : prepareIdentity e (n + 1) file s = some (true, s) := by
  unfold prepareIdentity
  rw [bind_of_eq (getCurrent_eq current)]
  cases status : o.status with
  | mapped => exact absurd status marked
  | preparing => rfl
  | prepared => rfl

/-- A call of `prepare` from outside that returns true leaves a prepared object exactly
when the object was not marked as being prepared before the call. -/
theorem prepareFrom_prepared_iff (current : s.current file = some o) (own : o.file = file)
    (run : prepareFrom e file s = some (true, s')) :
    s'.isPrepared file ↔ o.status ≠ .preparing := by
  have call : prepareIdentity e (s.lookup.length + 1) file s = some (true, s') := run
  by_cases mapped : o.status = .mapped
  · have prepared := isPrepared_of_mapped current own mapped call
    simp [mapped, prepared]
  · rw [prepareIdentity_of_marked current mapped] at call
    cases call
    have status : s.isPrepared file ↔ o.status = .prepared := by
      simp [Loader.isPrepared, current]
    rw [status]
    constructor
    · intro prepared
      rw [prepared]
      decide
    · intro unmarked
      cases status : o.status with
      | mapped => exact absurd status mapped
      | preparing => exact absurd status unmarked
      | prepared => rfl

end Result

/-- A library of the file `file` that needs others. -/
def Object.needing (file : Nat) (dependencies : List Nat) : Object :=
  { Object.construct (file + 1) file .dynamic (Elf.sharedObject []) Data.none with
    dependencies := dependencies }

/-- Two libraries that need each other, and a third one. -/
def loadedCircle : Loader :=
  { Loader.initial with lookup := [.global 0 "libx.so" [.needing 0 [2, 4]],
      .global 2 "liby.so" [.needing 2 [0]], .global 4 "libz.so" [.needing 4 []]] }

theorem prepareFrom_prepared_iff_loadedCircle :
    ∃ s', prepareFrom .noFiles 0 loadedCircle = some (true, s') ∧
      (s'.isPrepared 0 ↔ (Object.needing 0 [2, 4]).status ≠ .preparing) := by
  refine ⟨_, rfl, ?_⟩
  have current : loadedCircle.current 0 = some (.needing 0 [2, 4]) := rfl
  exact prepareFrom_prepared_iff (e := .noFiles) current rfl rfl

/-- The only file is a library with a relocation against a symbol that nothing defines. -/
def undefinedY : Env :=
  Env.reference Config.default fun path =>
    if path = "/lib/liby.so" then
      some (File.ofElf 0 (Elf.library [] [.reference "y"] [⟨8, rX866464, 1, 0⟩]))
    else none

/-- Open the library twice. -/
def dlopenTwice : LoaderM (Option Nat × Option Nat) := do
  let first ← dlopen undefinedY 1 (some "liby.so") Flags.zero (some 0) true
  let second ← dlopen undefinedY 1 (some "liby.so") Flags.zero (some 0) true
  return (first, second)

/-- The first attempt fails at the relocation. The second one succeeds, although the
object is still only marked as being prepared. -/
theorem dlopenTwice_succeeds :
    (dlopenTwice Loader.initial).map (fun (r, s) => (r, (s.current 0).map Object.status)) =
      some ((none, some 0), some .preparing) := by
  decide +kernel

end Luci
