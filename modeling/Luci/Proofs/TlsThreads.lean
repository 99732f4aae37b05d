import Luci.Proofs.TlsLayout

/-!
# Effects on the thread local storage

What `get_addr` and the creation of a thread do to the state, for the vector of the
thread concerned and for everything else.
-/

namespace Luci

open Exec

variable {u : Unit} {t : TlsEnv} {m : TlsModule} {s s' : TlsState}
  {address mem moduleId thread : Nat}

/-- The vector of a thread. -/
def TlsState.dtv (s : TlsState) (thread : Nat) : Option Dtv := (s.thread thread).bind Thread.dtv

/-! ## Effects -/

theorem getDtv_apply {dtv : Dtv} (found : s.dtv thread = some dtv) :
    getDtv thread s = some (dtv, s) := by
  obtain ⟨th, isThread, isDtv⟩ := Option.bind_eq_some_iff.mp found
  unfold getDtv
  rw [bind_of_eq (getThread_apply isThread), isDtv]
  rfl

theorem getDtv_inv {dtv : Dtv} (run : getDtv thread s = some (dtv, s')) :
    s.dtv thread = some dtv ∧ s' = s := by
  obtain ⟨th, s1, first, rest⟩ := bind_inv run
  obtain ⟨isThread, rfl⟩ := orAbort_inv first
  obtain ⟨isDtv, rfl⟩ := orAbort_inv rest
  exact ⟨Option.bind_eq_some_iff.mpr ⟨th, isThread, isDtv⟩, rfl⟩

namespace TlsState

theorem dtv_modifyDtv_same {dtv : Dtv} (f : Dtv → Dtv) (found : s.dtv thread = some dtv) :
    (s.modifyDtv thread f).dtv thread = some (f dtv) := by
  obtain ⟨th, isThread, isDtv⟩ := Option.bind_eq_some_iff.mp found
  unfold TlsState.dtv modifyDtv
  simp [isThread, isDtv]

end TlsState

/-- A block is filled and its address noted. -/
def TlsState.assign (s : TlsState) (thread moduleId address : Nat) (m : TlsModule) : TlsState :=
  ({ s with memory := s.initBlock m address } : TlsState).modifyDtv thread fun dtv =>
    dtv.assign moduleId address

theorem dtvCopy_inv {dtv : Dtv} (found : s.dtv thread = some dtv)
    (run : dtvCopy thread moduleId address s = some (u, s')) :
    ∃ m, s.tls.modules[moduleId - 1]? = some m ∧ dtv.val moduleId = 0 ∧ dtv.toFree moduleId = 0 ∧
      s' = s.assign thread moduleId address m := by
  unfold dtvCopy at run
  rw [bind_of_eq (get_apply s)] at run
  obtain ⟨m, isModule, run⟩ := orAbort_bind_inv run
  rw [bind_of_eq (getDtv_apply found)] at run
  obtain ⟨unallocated, run⟩ := require_bind_inv run
  obtain ⟨owned, rfl⟩ := require_inv run
  exact ⟨m, isModule, of_decide_eq_true unallocated, of_decide_eq_true owned, rfl⟩

theorem dtvCopy_apply (address : Nat) {dtv : Dtv} (found : s.dtv thread = some dtv)
    (isModule : s.tls.modules[moduleId - 1]? = some m) (unallocated : dtv.val moduleId = 0)
    (owned : dtv.toFree moduleId = 0) :
    dtvCopy thread moduleId address s = some ((), s.assign thread moduleId address m) := by
  unfold dtvCopy
  rw [bind_of_eq (get_apply s), isModule, orAbort_some,
    bind_of_eq (pure_apply m s), bind_of_eq (getDtv_apply found),
    decide_eq_true unallocated, decide_eq_true owned]
  rfl

theorem checkGeneration_apply (t : TlsEnv) {dtv : Dtv} (found : s.dtv thread = some dtv)
    (generation : dtv.generation = s.tls.gen) :
    checkGeneration t thread s = some ((), s) := by
  unfold checkGeneration
  rw [bind_of_eq (get_apply s), bind_of_eq (getDtv_apply found),
    if_neg (not_not.mpr generation)]
  rfl

/-- The block of a dynamic module is allocated. -/
def TlsState.allocated (t : TlsEnv) (s : TlsState) (thread moduleId mem : Nat) (m : TlsModule) :
    TlsState :=
  ((s.withBlock mem m.allocationSize).storePointer (m.dataIn t mem) mem).assign thread moduleId
    (m.dataIn t mem) m

theorem lazyAlloc_inv {dtv : Dtv} (found : s.dtv thread = some dtv)
    (run : lazyAlloc t thread moduleId s = some (u, s')) :
    ∃ m mem, s.tls.initialCount < moduleId ∧ s.tls.modules[moduleId - 1]? = some m ∧
      t.alloc s.heap m.allocationSize = some mem ∧ s' = s.allocated t thread moduleId mem m := by
  unfold lazyAlloc at run
  rw [bind_of_eq (get_apply s)] at run
  obtain ⟨dynamic, run⟩ := require_bind_inv run
  obtain ⟨m, isModule, run⟩ := orAbort_bind_inv run
  obtain ⟨answer, s1, first, run⟩ := bind_inv run
  obtain ⟨mem, isAnswer, run⟩ := orAbort_bind_inv run
  rw [allocBlock_apply] at first
  cases isAlloc : t.alloc s.heap m.allocationSize with
  | none =>
    simp only [isAlloc, isAnswer, Option.some.injEq, Prod.mk.injEq, reduceCtorEq, false_and] at first
  | some address =>
    simp only [isAlloc] at first
    obtain ⟨rfl, rfl⟩ := first
    have found' : ((s.withBlock address m.allocationSize).storePointer (m.dataIn t address)
        address).dtv thread = some dtv := found
    obtain ⟨m', isModule', -, -, rfl⟩ := dtvCopy_inv found' run
    obtain rfl : m = m' := Option.some.inj (isModule.symm.trans isModule')
    simp only [Bool.and_eq_true, decide_eq_true_eq] at dynamic
    exact ⟨m, address, dynamic.1, isModule, isAlloc, rfl⟩

theorem lazyAlloc_apply {dtv : Dtv} (found : s.dtv thread = some dtv)
    (dynamic : s.tls.initialCount < moduleId) (known : moduleId ≤ s.tls.modules.length)
    (isModule : s.tls.modules[moduleId - 1]? = some m)
    (answer : t.alloc s.heap m.allocationSize = some mem) (unallocated : dtv.val moduleId = 0)
    (owned : dtv.toFree moduleId = 0) :
    lazyAlloc t thread moduleId s = some ((), s.allocated t thread moduleId mem m) := by
  have first : allocBlock t m.allocationSize s =
      some (some mem, s.withBlock mem m.allocationSize) := by
    rw [allocBlock_apply, answer]
  have found' : ((s.withBlock mem m.allocationSize).storePointer (m.dataIn t mem) mem).dtv thread =
      some dtv := found
  unfold lazyAlloc
  rw [bind_of_eq (get_apply s), decide_eq_true dynamic, decide_eq_true known,
    Bool.and_self, require_true, bind_of_eq (pure_apply () s), isModule,
    orAbort_some, bind_of_eq (pure_apply m s), bind_of_eq first]
  exact dtvCopy_apply _ found' isModule unallocated owned

theorem TlsState.dtv_allocated {dtv : Dtv} (found : s.dtv thread = some dtv) :
    (s.allocated t thread moduleId mem m).dtv thread =
      some (dtv.assign moduleId (m.dataIn t mem)) :=
  TlsState.dtv_modifyDtv_same _ found

section Access

variable {t : TlsEnv} {s : TlsState} {thread moduleId : Nat} {dtv : Dtv}
  (found : s.dtv thread = some dtv) (generation : dtv.generation = s.tls.gen)
include found generation

/-- After the generation the capacity of the vector is checked. -/
theorem getAddr_eq : getAddr t thread moduleId true s =
    (do
      require (moduleId ≤ dtv.moduleSize)
      onlyIf (dtv.val moduleId = 0) (lazyAlloc t thread moduleId)
      let dtv ← getDtv thread
      return dtv.val moduleId : TlsM Nat) s := by
  unfold getAddr
  rw [Bool.not_true, if_neg Bool.false_ne_true,
    bind_of_eq (checkGeneration_apply t found generation),
    bind_of_eq (getDtv_apply found)]

theorem getAddr_beyond (beyond : dtv.moduleSize < moduleId) :
    getAddr t thread moduleId true s = none := by
  rw [getAddr_eq found generation, decide_eq_false (by omega)]
  rfl

theorem getAddr_allocated (inside : moduleId ≤ dtv.moduleSize) (allocated : dtv.val moduleId ≠ 0) :
    getAddr t thread moduleId true s = some (dtv.val moduleId, s) := by
  rw [getAddr_eq found generation, decide_eq_true inside, require_true,
    bind_of_eq (pure_apply () s), decide_eq_false allocated]
  unfold onlyIf
  rw [if_neg Bool.false_ne_true, bind_of_eq (pure_apply () s),
    bind_of_eq (getDtv_apply found)]
  rfl

theorem getAddr_unallocated (inside : moduleId ≤ dtv.moduleSize) (empty : dtv.val moduleId = 0) :
    getAddr t thread moduleId true s =
      (do
        lazyAlloc t thread moduleId
        let dtv ← getDtv thread
        return dtv.val moduleId : TlsM Nat) s := by
  rw [getAddr_eq found generation, decide_eq_true inside, decide_eq_true empty]
  rfl

/-- What a returning call does: the block is there, or it is allocated now. -/
theorem getAddr_inv (run : getAddr t thread moduleId true s = some (address, s')) :
    moduleId ≤ dtv.moduleSize ∧
      ((dtv.val moduleId ≠ 0 ∧ address = dtv.val moduleId ∧ s' = s) ∨
        (dtv.val moduleId = 0 ∧ ∃ m mem, s.tls.initialCount < moduleId ∧
          s.tls.modules[moduleId - 1]? = some m ∧ t.alloc s.heap m.allocationSize = some mem ∧
          address = m.dataIn t mem ∧ s' = s.allocated t thread moduleId mem m)) := by
  by_cases inside : moduleId ≤ dtv.moduleSize
  · refine ⟨inside, ?_⟩
    by_cases empty : dtv.val moduleId = 0
    · rw [getAddr_unallocated found generation inside empty] at run
      obtain ⟨⟨⟩, s1, first, run⟩ := bind_inv run
      obtain ⟨m, mem, dynamic, isModule, answer, rfl⟩ := lazyAlloc_inv found first
      rw [bind_of_eq (getDtv_apply (TlsState.dtv_allocated found))] at run
      obtain ⟨rfl, rfl⟩ := pure_inv run
      exact Or.inr ⟨empty, m, mem, dynamic, isModule, answer, by simp [Dtv.assign], rfl⟩
    · rw [getAddr_allocated found generation inside empty] at run
      simp only [Option.some.injEq, Prod.mk.injEq] at run
      exact Or.inl ⟨empty, run.1.symm, run.2.symm⟩
  · rw [getAddr_beyond found generation (by omega)] at run
    cases run

theorem getAddr_lazy (inside : moduleId ≤ dtv.moduleSize) (dynamic : s.tls.initialCount < moduleId)
    (known : moduleId ≤ s.tls.modules.length) (isModule : s.tls.modules[moduleId - 1]? = some m)
    (answer : t.alloc s.heap m.allocationSize = some mem) (empty : dtv.val moduleId = 0)
    (owned : dtv.toFree moduleId = 0) :
    getAddr t thread moduleId true s =
      some (m.dataIn t mem, s.allocated t thread moduleId mem m) := by
  rw [getAddr_unallocated found generation inside empty,
    bind_of_eq (lazyAlloc_apply found dynamic known isModule answer empty owned),
    bind_of_eq (getDtv_apply (TlsState.dtv_allocated found))]
  simp [Dtv.assign]

end Access

/-! ## New threads -/

/-- The part of a state that concerns neither the threads nor the memory. -/
structure TlsState.SameModules (s s' : TlsState) : Prop where
  tls : s'.tls = s.tls
  identities : s'.identities = s.identities

/-- The vector of one thread was filled for some modules. -/
structure TlsState.Filled (s s' : TlsState) (thread : Nat) (ids : List Nat) (dtv dtv' : Dtv) :
    Prop where
  same : s.SameModules s'
  heap : s'.heap = s.heap
  others : ∀ a, a ≠ thread → s'.thread a = s.thread a
  found : s'.dtv thread = some dtv'
  moduleSize : dtv'.moduleSize = dtv.moduleSize
  toFree : dtv'.toFree = dtv.toFree
  inside : ∀ i ∈ ids, ∃ m, s.tls.modules[i - 1]? = some m ∧ dtv'.val i = m.address thread
  outside : ∀ i, i ∉ ids → dtv'.val i = dtv.val i

theorem dtvSetupModule_inv {dtv : Dtv} (found : s.dtv thread = some dtv)
    (run : dtvSetupModule thread moduleId s = some (u, s')) :
    s.Filled s' thread [moduleId] dtv (dtv.assign moduleId
      (((s.tls.modules[moduleId - 1]?).map fun m => m.address thread).getD 0)) := by
  unfold dtvSetupModule at run
  rw [bind_of_eq (get_apply s), bind_of_eq (getDtv_apply found)] at run
  obtain ⟨-, run⟩ := require_bind_inv run
  obtain ⟨m, isModule, run⟩ := orAbort_bind_inv run
  obtain ⟨-, run⟩ := require_bind_inv run
  obtain ⟨m', isModule', -, -, rfl⟩ := dtvCopy_inv found run
  rw [isModule]
  refine ⟨⟨rfl, rfl⟩, rfl, ?_, TlsState.dtv_modifyDtv_same _ found, rfl, rfl, ?_, ?_⟩
  · intro a other
    exact if_neg other
  · intro i member
    obtain rfl := List.mem_singleton.mp member
    exact ⟨m, isModule, by simp [Dtv.assign]⟩
  · intro i absent
    have other : i ≠ moduleId := fun same => absent (by simp [same])
    simp [Dtv.assign, other]

theorem dtvSetupModules_inv (ids : List Nat) : ∀ {s s' : TlsState} {dtv : Dtv}
    {u : Unit}, s.dtv thread = some dtv →
      forEach (dtvSetupModule thread) ids s = some (u, s') →
      ∃ dtv', s.Filled s' thread ids dtv dtv' := by
  induction ids with
  | nil =>
    intro s s' dtv u found run
    obtain ⟨-, rfl⟩ := pure_inv run
    refine ⟨dtv, ⟨rfl, rfl⟩, rfl, fun _ _ => rfl, found, rfl, rfl, ?_, fun _ _ => rfl⟩
    intro i member
    cases member
  | cons moduleId ids ih =>
    intro s s' dtv u found run
    obtain ⟨⟨⟩, s1, first, run⟩ := bind_inv run
    have one := dtvSetupModule_inv found first
    obtain ⟨dtv', rest⟩ := ih one.found run
    refine ⟨dtv', ⟨rest.same.tls.trans one.same.tls, rest.same.identities.trans one.same.identities⟩,
      rest.heap.trans one.heap, ?_, rest.found, rest.moduleSize.trans one.moduleSize,
      rest.toFree.trans one.toFree, ?_, ?_⟩
    · intro a other
      exact (rest.others a other).trans (one.others a other)
    · intro i member
      by_cases later : i ∈ ids
      · obtain ⟨m, isModule, value⟩ := rest.inside i later
        rw [one.same.tls] at isModule
        exact ⟨m, isModule, value⟩
      · obtain rfl : i = moduleId := by simpa [later] using member
        obtain ⟨m, isModule, value⟩ := one.inside i List.mem_cons_self
        exact ⟨m, isModule, (rest.outside i later).trans value⟩
    · intro i absent
      rw [List.mem_cons, not_or] at absent
      exact (rest.outside i absent.2).trans (one.outside i (by simp [absent.1]))

theorem createThread_none (t : TlsEnv) :
    createThread t none = newThread t >>= fun thread => createThread t (some thread) := by
  unfold createThread allocateThread
  simp only [bind_assoc, pure_bind]

theorem createThread_some_inv {thread thread' : Nat}
    (run : createThread t (some thread) s = some (thread', s')) : thread' = thread ∧
      (dtvAllocate t thread >>= fun _ => dtvSetup t thread) s = some ((), s') := by
  unfold createThread allocateThread at run
  simp only [bind_assoc, pure_bind] at run
  obtain ⟨n, s1, first, run⟩ := bind_inv run
  obtain ⟨⟨⟩, s2, second, run⟩ := bind_inv run
  obtain ⟨rfl, rfl⟩ := pure_inv run
  exact ⟨rfl, by rw [bind_of_eq first, second]⟩

theorem newThread_inv (run : newThread t s = some (thread, s')) :
    ∃ mem, t.alloc s.heap (s.tls.raiseAlign.allocationSize t) = some mem ∧
      thread = s.tls.raiseAlign.threadPointer mem ∧ s' = s.withThread t mem := by
  cases answer : t.alloc s.heap (s.tls.raiseAlign.allocationSize t) with
  | none =>
    unfold newThread at run
    rw [bind_of_eq (modify_apply _ s), bind_of_eq (get_apply _),
      bind_apply, allocBlock_apply] at run
    rw [answer] at run
    cases run
  | some mem =>
    rw [newThread_apply t answer] at run
    simp only [Option.some.injEq, Prod.mk.injEq] at run
    exact ⟨mem, rfl, run.1.symm, run.2.symm⟩

/-- A thread got its vector with the initial modules. -/
structure TlsState.Started (s s' : TlsState) (thread : Nat) (dtv : Dtv) : Prop where
  tls : s'.tls = s.start.tls
  identities : s'.identities = s.identities
  heap : ∃ r, s'.heap = r :: s.heap
  others : ∀ a, a ≠ thread → s'.thread a = s.thread a
  found : s'.dtv thread = some dtv
  moduleSize : dtv.moduleSize = s.tls.dtvSize
  generation : dtv.generation = s'.tls.gen
  toFree : ∀ i, dtv.toFree i = 0
  inside : ∀ i, 1 ≤ i → i ≤ s.tls.initialCount →
    ∃ m, s.tls.modules[i - 1]? = some m ∧ dtv.val i = m.address thread
  outside : ∀ i, ¬ (1 ≤ i ∧ i ≤ s.tls.initialCount) → dtv.val i = 0

theorem Dtv.zero_grow_val (address newSize i : Nat) : (Dtv.zero.grow address newSize).val i = 0 := by
  simp [Dtv.grow, Dtv.zero]

theorem Dtv.zero_grow_toFree (address newSize i : Nat) :
    (Dtv.zero.grow address newSize).toFree i = 0 := by
  simp [Dtv.grow, Dtv.zero]

/-- `dtv_setup` for a thread that has a vector: the initial modules are entered. -/
theorem dtvSetup_inv {dtv : Dtv} (found : s.dtv thread = some dtv)
    (run : dtvSetup t thread s = some (u, s')) :
    ∃ s1 dtv1, s.start.Filled s1 thread (List.range' 1 s.tls.initialCount) dtv dtv1 ∧
      s' = s1.modifyDtv thread fun dtv => { dtv with generation := s.start.tls.gen } := by
  obtain ⟨th, isThread, isDtv⟩ := Option.bind_eq_some_iff.mp found
  have isThread : s.start.thread thread = some th := isThread
  have found : s.start.dtv thread = some dtv := found
  unfold dtvSetup at run
  rw [bind_of_eq (modify_apply _ s), bind_of_eq (getThread_apply isThread), isDtv,
    Option.isNone_some] at run
  unfold onlyIf at run
  rw [if_neg Bool.false_ne_true, bind_of_eq (pure_apply () _),
    bind_of_eq (get_apply _)] at run
  obtain ⟨-, run⟩ := require_bind_inv run
  rw [bind_of_eq (getDtv_apply found)] at run
  obtain ⟨-, run⟩ := require_bind_inv run
  obtain ⟨⟨⟩, s1, loop, run⟩ := bind_inv run
  obtain ⟨dtv1, filled⟩ := dtvSetupModules_inv _ found loop
  exact ⟨s1, dtv1, filled, modify_inv run⟩

/-- A thread without vector is allocated one, or the run ends in an assertion. -/
theorem started_of_run {th : Thread} (isThread : s.thread thread = some th) (empty : th.dtv = none)
    (run : (dtvAllocate t thread >>= fun _ => dtvSetup t thread) s = some (u, s')) :
    ∃ dtv, s.Started s' thread dtv := by
  obtain ⟨n, s1, allocated, run⟩ := bind_inv run
  rw [dtvAllocate_apply t isThread empty] at allocated
  cases answer : t.alloc s.heap (dtvBytes s.tls.dtvSize) with
  | none =>
    -- the vector is asked for again, in vain
    rw [answer] at allocated
    obtain ⟨rfl, rfl⟩ := allocated
    have again : dtvAllocate t thread s.start = some (0, s.start) := by
      have same : t.alloc s.start.heap (dtvBytes s.start.tls.dtvSize) = none := answer
      rw [dtvAllocate_apply t (s := s.start) isThread empty, same]
    unfold dtvSetup at run
    rw [bind_of_eq (modify_apply _ s),
      bind_of_eq (getThread_apply (s := s.start) isThread), empty] at run
    obtain ⟨⟨⟩, s2, required, -⟩ := bind_inv run
    unfold onlyIf dtvRequire at required
    rw [Option.isNone_none, if_pos rfl, bind_of_eq again] at required
    cases required
  | some address =>
    rw [answer] at allocated
    obtain ⟨rfl, rfl⟩ := allocated
    have found : ((s.withBlock address (dtvBytes s.tls.dtvSize)).setThread thread
        { th with dtv := some (Dtv.zero.grow address s.tls.dtvSize) }).dtv thread =
          some (Dtv.zero.grow address s.tls.dtvSize) := by
      unfold TlsState.dtv
      rw [TlsState.setThread_same]
      rfl
    obtain ⟨s1, dtv, filled, rfl⟩ := dtvSetup_inv found run
    refine ⟨{ dtv with generation := s.start.tls.gen }, ?_⟩
    refine ⟨filled.same.tls, filled.same.identities, ⟨_, filled.heap⟩, ?_,
      TlsState.dtv_modifyDtv_same _ filled.found, filled.moduleSize, ?_, ?_, ?_, ?_⟩
    · intro a other
      rw [show (s1.modifyDtv thread _).thread a = s1.thread a from if_neg other,
        filled.others a other]
      exact if_neg other
    · show s.start.tls.gen = s1.tls.gen
      rw [filled.same.tls]
      rfl
    · intro i
      rw [filled.toFree]
      exact Dtv.zero_grow_toFree _ _ i
    · intro i lower upper
      have behind : i < 1 + s.tls.initialCount := by omega
      exact filled.inside i (List.mem_range'_1.mpr ⟨lower, behind⟩)
    · intro i absent
      rw [filled.outside i]
      · exact Dtv.zero_grow_val _ _ i
      · intro member
        obtain ⟨lower, upper⟩ := List.mem_range'_1.mp member
        have upper : i < 1 + s.tls.initialCount := upper
        exact absent ⟨lower, by omega⟩

end Luci
