import Luci.Proofs.TlsAccess

/-!
# The release of a thread

`TLS::allocate` records the size of a thread's memory with the surplus that glibc reserves.
`TLS::free` asserts a size without it. Neither the recorded size nor the size of the initial
storage changes in between, so the assertion fails for every thread of the loader.
-/

namespace Luci

open Exec

variable {t : TlsEnv} {s s' : TlsState} {thread : Nat}

/-- The calls between the creation of a thread and its end. -/
inductive TlsState.Call (t : TlsEnv) : TlsState → TlsState → Prop
  | addModule {s s' : TlsState} (c : ModuleCall) (run : c.register s = some ((), s')) : Call t s s'
  | getAddr {s s' : TlsState} {thread moduleId address : Nat} {alloc : Bool}
    (run : Luci.getAddr t thread moduleId alloc s = some (address, s')) : Call t s s'

/-- The recorded size of a thread's memory. -/
def TlsState.mapSize (s : TlsState) (thread : Nat) : Option Nat :=
  (s.thread thread).map Thread.mapSize

/-- The sizes that `free` compares stay, once a thread has been set up. -/
structure TlsState.SameSizes (s s' : TlsState) : Prop where
  initialSize : s.tls.gen ≠ 0 → s'.tls.initialSize = s.tls.initialSize
  started : s.tls.gen ≠ 0 → s'.tls.gen ≠ 0
  mapSize : ∀ thread size, s.mapSize thread = some size → s'.mapSize thread = some size

instance : IsPreorder TlsState TlsState.SameSizes where
  refl s := ⟨fun _ => rfl, id, fun _ _ => id⟩
  trans a b c first second := by
    refine ⟨fun gen => ?_, fun gen => second.started (first.started gen),
      fun thread size known => second.mapSize thread size (first.mapSize thread size known)⟩
    rw [second.initialSize (first.started gen), first.initialSize gen]

theorem TlsState.SameSizes.of_eq (tls : s'.tls = s.tls) (size : s'.mapSize = s.mapSize) :
    s.SameSizes s' :=
  ⟨fun _ => by rw [tls], fun started => by rwa [tls], fun _ _ known => by rwa [size]⟩

theorem TlsState.SameSizes.setThread {th : Thread} (same : s.SameSizes s')
    (found : s.thread thread = some th) (dtv : Option Dtv) :
    s.SameSizes (s'.setThread thread { th with dtv := dtv }) := by
  refine ⟨same.initialSize, same.started, fun a size known => ?_⟩
  by_cases here : a = thread
  · rw [here, TlsState.mapSize, found] at known
    rw [here, TlsState.mapSize, TlsState.setThread_same]
    exact known
  · rw [← same.mapSize a size known]
    exact congrArg _ (if_neg here)

@[grind ←] theorem keeps_modifyDtv (f : Dtv → Dtv) :
    Keeps TlsState.SameSizes (modify (TlsState.modifyDtv thread f)) := by
  refine keeps_modify fun s => .of_eq rfl (funext fun a => ?_)
  by_cases here : a = thread <;>
    simp [TlsState.mapSize, TlsState.modifyDtv, here, Function.comp_def]

@[grind ←] theorem keeps_dropDtv : Keeps TlsState.SameSizes (modify (TlsState.dropDtv thread)) := by
  refine keeps_modify fun s => .of_eq rfl (funext fun a => ?_)
  by_cases here : a = thread <;>
    simp [TlsState.mapSize, TlsState.dropDtv, here, Function.comp_def]

@[grind ←] theorem keeps_freeBlock (address : Nat) : Keeps TlsState.SameSizes (freeBlock address) :=
  keeps_modify fun _ => .of_eq rfl rfl

@[grind ←] theorem keeps_getDtv : Keeps TlsState.SameSizes (getDtv thread) := by
  unfold getDtv getThread
  grind

@[grind ←] theorem keeps_dtvFreeEntry (i : Nat) :
    Keeps TlsState.SameSizes (dtvFreeEntry thread i) := by
  refine keeps_bind keeps_getDtv fun dtv => keeps_bind keeps_get fun s => ?_
  exact keeps_onlyIf fun _ => keeps_freeBlock _

theorem keeps_dtvFree : Keeps TlsState.SameSizes (dtvFree thread) := by
  unfold dtvFree
  grind

@[grind ←] theorem keeps_allocBlock (size : Nat) :
    Keeps TlsState.SameSizes (allocBlock t size) := by
  intro s address s' run
  rw [allocBlock_apply] at run
  cases answer : t.alloc s.heap size <;> rw [answer] at run <;> cases run <;> exact .of_eq rfl rfl

theorem keeps_reallocBlock (old size : Nat) :
    Keeps TlsState.SameSizes (reallocBlock t old size) := by
  intro s address s' run
  unfold reallocBlock at run
  rw [bind_of_eq (get_apply s)] at run
  cases answer : t.alloc s.heap size <;> simp only [answer] at run <;> cases run <;>
    exact .of_eq rfl rfl

@[grind ←] theorem keeps_dtvAllocate : Keeps TlsState.SameSizes (dtvAllocate t thread) := by
  intro s size s' run
  unfold dtvAllocate at run
  rw [bind_of_eq (get_apply s)] at run
  obtain ⟨th, s1, found, run⟩ := bind_inv run
  obtain ⟨found, rfl⟩ := orAbort_inv found
  cases isDtv : th.dtv <;> simp only [isDtv] at run <;>
    obtain ⟨address, s2, allocated, run⟩ := bind_inv run
  · have same := keeps_allocBlock _ _ _ _ allocated
    cases address <;> cases run
    · exact same
    · exact same.setThread found _
  · have same := keeps_reallocBlock _ _ _ _ _ allocated
    cases address <;> cases run
    · exact same
    · exact same.setThread found _

@[grind ←] theorem keeps_dtvRequire : Keeps TlsState.SameSizes (dtvRequire t thread) := by
  unfold dtvRequire
  grind

@[grind ←] theorem keeps_dtvCopy (moduleId address : Nat) :
    Keeps TlsState.SameSizes (dtvCopy thread moduleId address) := by
  refine keeps_bind keeps_get fun s => keeps_bind (keeps_orAbort _) fun m => ?_
  refine keeps_bind keeps_getDtv fun dtv => keeps_bind (keeps_require _) fun _ => ?_
  refine keeps_bind (keeps_modify fun s => .of_eq rfl rfl) fun _ => ?_
  exact keeps_bind (keeps_modifyDtv _) fun _ => keeps_require _

@[grind ←] theorem keeps_lazyAlloc (moduleId : Nat) :
    Keeps TlsState.SameSizes (lazyAlloc t thread moduleId) := by
  have stores : ∀ data mem : Nat, Keeps TlsState.SameSizes
      (modify (TlsState.storePointer data mem)) := fun _ _ =>
    keeps_modify fun _ => .of_eq rfl rfl
  unfold lazyAlloc
  grind

theorem keeps_getAddr (moduleId : Nat) (alloc : Bool) :
    Keeps TlsState.SameSizes (getAddr t thread moduleId alloc) := by
  unfold getAddr checkGeneration
  grind

/-- A module that is added later does not take part in the initial storage. -/
theorem keeps_register (c : ModuleCall) : Keeps TlsState.SameSizes c.register := by
  rintro s ⟨⟩ s' run
  obtain ⟨-, rfl⟩ := c.register_inv run
  refine ⟨fun started => ?_, fun started => ?_, fun _ _ known => known⟩
  · simp [Tls.add, Tls.addModule, started]
  · simp [started]

theorem TlsState.Call.sameSizes (call : TlsState.Call t s s') : s.SameSizes s' := by
  cases call with
  | addModule c run => exact keeps_register c _ _ _ run
  | getAddr run => exact keeps_getAddr _ _ _ _ _ run

@[grind ←] theorem keeps_dtvSetupModule (moduleId : Nat) :
    Keeps TlsState.SameSizes (dtvSetupModule thread moduleId) := by
  unfold dtvSetupModule
  grind

theorem keeps_dtvSetup : Keeps TlsState.SameSizes (dtvSetup t thread) := by
  have starts : Keeps TlsState.SameSizes (modify TlsState.start) := by
    refine keeps_modify fun s => ⟨fun _ => rfl, fun started => ?_, fun _ _ known => known⟩
    simp [TlsState.start, started]
  have finds : Keeps TlsState.SameSizes (getThread thread) := by
    unfold getThread
    grind
  refine keeps_bind starts fun _ => keeps_bind finds fun th => ?_
  refine keeps_bind (keeps_onlyIf fun _ => keeps_dtvRequire) fun _ => ?_
  grind

/-- The thread has been set up, and the surplus is part of its size. -/
theorem createThread_mapSize (run : createThread t none s = some (thread, s')) :
    s'.tls.gen ≠ 0 ∧
      s'.mapSize thread = some (s'.tls.initialSize + t.threadSize + tlsSurplus) := by
  rw [createThread_none] at run
  obtain ⟨thread', s1, first, rest⟩ := bind_inv run
  obtain ⟨mem, -, rfl, rfl⟩ := newThread_inv first
  obtain ⟨rfl, setup⟩ := createThread_some_inv rest
  obtain ⟨dtv, started⟩ := started_of_run (TlsState.setThread_same _ _ _) rfl setup
  refine ⟨started.gen_ne_zero, ?_⟩
  rw [started.tls]
  refine (keeps_bind keeps_dtvAllocate (fun _ => keeps_dtvSetup) _ _ _ setup).mapSize _ _ ?_
  unfold TlsState.mapSize TlsState.withThread
  rw [TlsState.setThread_same]
  rfl

/-- `free` ends in its assertion for every thread of the loader. -/
theorem freeThread_fails {t : TlsEnv} {s₀ s₁ s : TlsState} {thread : Nat}
    (created : createThread t none s₀ = some (thread, s₁))
    (calls : Relation.ReflTransGen (TlsState.Call t) s₁ s) :
    freeThread t thread true s = none := by
  have same : s₁.SameSizes s := by
    induction calls with
    | refl => exact refl_of _ s₁
    | tail _ call ih => exact trans_of _ ih call.sameSizes
  obtain ⟨started, size⟩ := createThread_mapSize created
  rw [Option.eq_none_iff_forall_ne_some]
  rintro ⟨⟨⟩, s'⟩ run
  obtain ⟨⟨⟩, s2, freed, run⟩ := bind_inv run
  have same := trans_of _ same (keeps_dtvFree _ _ _ freed)
  have known := same.mapSize _ _ size
  unfold onlyIf freeThreadStruct at run
  rw [if_pos rfl, bind_of_eq (get_apply s2)] at run
  obtain ⟨th, s3, found, run⟩ := bind_inv run
  obtain ⟨asserted, -⟩ := require_bind_inv run
  obtain ⟨isThread, rfl⟩ := orAbort_inv found
  rw [TlsState.mapSize, isThread, Option.map_some, Option.some.injEq] at known
  rw [decide_eq_true_eq, known, same.initialSize started] at asserted
  exact absurd asserted (by unfold tlsSurplus; omega)

theorem freeThread_fails_first : ∃ thread s, createThread .reference none .initial =
    some (thread, s) ∧ freeThread .reference thread true s = none := by
  have runs : (createThread .reference none .initial).isSome = true := by decide +kernel
  obtain ⟨⟨thread, s⟩, created⟩ := Option.isSome_iff_exists.mp runs
  exact ⟨thread, s, created, freeThread_fails created .refl⟩

/-- Already the end of a thread that never used thread local storage fails. -/
theorem freeThread_unused : (createThread .reference none .initial).isSome = true ∧
    ((createThread .reference none .initial).bind fun r =>
      freeThread .reference r.1 true r.2).isSome = false := by
  decide +kernel

end Luci
