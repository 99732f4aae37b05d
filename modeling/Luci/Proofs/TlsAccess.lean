import Mathlib.Logic.Relation
import Luci.Proofs.TlsThreads

/-!
# Access to thread local storage

Runs of the thread local storage: modules are registered, threads are created, and
threads ask for the blocks of modules, in any order. The invariant says what the
vector of each thread holds. A block is never moved, and it is found exactly as long as
the vector has an entry for the module, since nothing advances the generation that
would make a vector grow.
-/

namespace Luci

open Exec

variable {dtv : Dtv} {t : TlsEnv} {m : TlsModule} {c : ModuleCall} {s s₁ : TlsState}
  {heap : List Range} {address file k mem moduleId thread : Nat}

/-- What is assumed of the allocator and of `Math::align`. -/
structure TlsEnv.Lawful (t : TlsEnv) : Prop where
  threadSize : 0 < t.threadSize
  positive : ∀ {heap size address}, t.alloc heap size = some address → 0 < address
  bounded : ∀ {heap size address}, t.alloc heap size = some address → address + size ≤ 2 ^ 64
  fresh : ∀ {heap size address}, t.alloc heap size = some address →
    ∀ r ∈ heap, Range.Apart ⟨address, size⟩ r
  le_align : ∀ value alignment, value ≤ t.align value alignment
  align_le : ∀ value alignment, t.align value alignment ≤ value + alignment

namespace TlsState

/-- Nothing has happened yet. -/
structure Fresh (s : TlsState) : Prop where
  tls : s.tls = Tls.initial
  thread : ∀ a, s.thread a = none
  identities : ∀ i, s.identities i = (0, 0)

/-- The memory of a thread whose structure is not allocated by the loader. -/
def area (t : TlsEnv) (s : TlsState) (thread : Nat) : Range :=
  ⟨thread - s.tls.initialSize, s.tls.initialSize + t.threadSize⟩

/-- A thread in memory that was allocated by glibc. -/
def adopt (t : TlsEnv) (s : TlsState) (thread : Nat) : TlsState :=
  (s.withBlock (s.area t thread).start (s.area t thread).size).setThread thread ⟨0, 0, none⟩

/-- What happens to the thread local storage. -/
inductive Step (t : TlsEnv) : TlsState → TlsState → Prop
  /-- An object with thread local storage is loaded. -/
  | register {s s' : TlsState} (c : ModuleCall) (new : (s.identities c.object).1 = 0)
    (run : c.register s = some ((), s')) : Step t s s'
  /-- A thread is created. -/
  | create {s s' : TlsState} {thread : Nat} (run : createThread t none s = some (thread, s')) :
    Step t s s'
  /-- A thread is created in memory provided by glibc. -/
  | adopt {s s' : TlsState} {thread : Nat} (lower : s.tls.initialSize < thread)
    (upper : thread + t.threadSize ≤ 2 ^ 64)
    (free : ∀ r ∈ s.heap, (s.area t thread).Apart r)
    (run : createThread t (some thread) (s.adopt t thread) = some (thread, s')) : Step t s s'
  /-- A thread asks for a block. -/
  | access {s s' : TlsState} {thread moduleId address : Nat} (positive : 1 ≤ moduleId)
    (known : moduleId ≤ s.tls.modules.length)
    (run : getAddr t thread moduleId true s = some (address, s')) : Step t s s'
  /-- An object is updated. -/
  | update {s : TlsState} (currentBase : Nat → Nat) :
    Step t s { s with currentBase := currentBase }

/-- A sequence of steps. -/
def Run (t : TlsEnv) : TlsState → TlsState → Prop := Relation.ReflTransGen (Step t)

end TlsState

/-! ## The invariant -/

/-- What the vector of a thread holds. -/
structure TlsState.Serves (t : TlsEnv) (s : TlsState) (thread : Nat) (dtv : Dtv) : Prop where
  started : s.tls.gen ≠ 0
  generation : dtv.generation = s.tls.gen
  capacity : s.tls.initialCount ≤ dtv.moduleSize
  lower : s.tls.initialSize < thread
  upper : thread < 2 ^ 64
  area : (s.area t thread).Covered s.heap
  toFree : ∀ i, dtv.toFree i = 0
  within : ∀ i, dtv.val i ≠ 0 → i ≤ dtv.moduleSize
  initial : ∀ k m, k < s.tls.initialCount → s.tls.modules[k]? = some m →
    dtv.val (k + 1) = m.address thread
  dynamic : ∀ k, s.tls.initialCount ≤ k → dtv.val (k + 1) ≠ 0 →
    ∃ m, s.tls.modules[k]? = some m ∧ (m.block (dtv.val (k + 1))).Covered s.heap ∧
      (m.block (dtv.val (k + 1))).stop ≤ 2 ^ 64
  apart : ∀ (j k : Nat) (m n : TlsModule), j ≠ k → dtv.val (j + 1) ≠ 0 → dtv.val (k + 1) ≠ 0 →
    s.tls.modules[j]? = some m → s.tls.modules[k]? = some n →
    (m.block (dtv.val (j + 1))).Apart (n.block (dtv.val (k + 1)))

/-- The invariant of the thread local storage. -/
structure TlsState.Inv (t : TlsEnv) (s : TlsState) : Prop where
  laid : s.tls.Laid
  positive : ∀ m ∈ s.tls.modules, 0 < m.size
  unfixed : ∀ k m, s.tls.initialCount ≤ k → s.tls.modules[k]? = some m → m.offset = 0
  registered : ∀ i, (s.identities i).1 ≠ 0 →
    ∃ m, s.tls.modules[(s.identities i).1 - 1]? = some m ∧ m.offset = (s.identities i).2
  threads : ∀ thread th, s.thread thread = some th → ∃ dtv, th.dtv = some dtv ∧
    s.Serves t thread dtv

theorem TlsState.Inv.serves (inv : s.Inv t) (found : s.dtv thread = some dtv) :
    s.Serves t thread dtv := by
  obtain ⟨th, isThread, isDtv⟩ := Option.bind_eq_some_iff.mp found
  obtain ⟨dtv', isDtv', serves⟩ := inv.threads thread th isThread
  obtain rfl : dtv = dtv' := Option.some.inj (isDtv.symm.trans isDtv')
  exact serves

theorem TlsState.Fresh.inv (fresh : s.Fresh) : s.Inv t := by
  refine ⟨?_, ?_, ?_, ?_, ?_⟩
  · rw [fresh.tls]
    exact Tls.laid_initial
  · rw [fresh.tls]
    intro m member
    cases member
  · rw [fresh.tls]
    intro k m _ found
    cases found
  · intro i nonzero
    rw [fresh.identities i] at nonzero
    exact absurd rfl nonzero
  · intro thread th isThread
    rw [fresh.thread thread] at isThread
    cases isThread

/-- More modules, more live blocks, and the same initial storage. -/
structure TlsState.Extended (s s' : TlsState) : Prop where
  gen : s'.tls.gen = s.tls.gen
  count : s'.tls.initialCount = s.tls.initialCount
  size : s'.tls.initialSize = s.tls.initialSize
  modules : ∃ more, s'.tls.modules = s.tls.modules ++ more
  heap : ∃ more, s'.heap = more ++ s.heap

namespace TlsState

variable {t : TlsEnv} {s s' : TlsState} {thread : Nat} {dtv : Dtv}

theorem Extended.getElem? (extended : s.Extended s') (below : k < s.tls.modules.length) :
    s'.tls.modules[k]? = s.tls.modules[k]? := by
  obtain ⟨more, modules⟩ := extended.modules
  rw [modules, List.getElem?_append_left below]

theorem Extended.mem_heap (extended : s.Extended s') : ∀ q ∈ s.heap, q ∈ s'.heap := by
  obtain ⟨more, heap⟩ := extended.heap
  intro q member
  rw [heap]
  exact List.mem_append_right more member

theorem Extended.area (extended : s.Extended s') : s'.area t thread = s.area t thread := by
  unfold TlsState.area
  rw [extended.size]

section Serves

variable (serves : s.Serves t thread dtv)

include serves

theorem Serves.lt_length (laid : s.tls.Laid) (allocated : dtv.val (k + 1) ≠ 0) :
    k < s.tls.modules.length := by
  by_cases below : k < s.tls.initialCount
  · exact Nat.lt_of_lt_of_le below laid.count
  · obtain ⟨m, found, -⟩ := serves.dynamic k (by omega) allocated
    exact (List.getElem?_eq_some_iff.mp found).1

theorem Serves.extend (laid : s.tls.Laid) (extended : s.Extended s') : s'.Serves t thread dtv := by
  have known := fun {k} => serves.lt_length (k := k) laid
  refine ⟨?_, ?_, ?_, ?_, serves.upper, ?_, serves.toFree, serves.within, ?_, ?_, ?_⟩
  · rw [extended.gen]
    exact serves.started
  · rw [extended.gen]
    exact serves.generation
  · rw [extended.count]
    exact serves.capacity
  · rw [extended.size]
    exact serves.lower
  · rw [extended.area]
    exact serves.area.mono extended.mem_heap
  · intro k m below found
    rw [extended.count] at below
    rw [extended.getElem? (Nat.lt_of_lt_of_le below laid.count)] at found
    exact serves.initial k m below found
  · intro k behind allocated
    rw [extended.count] at behind
    obtain ⟨m, found, covered, bound⟩ := serves.dynamic k behind allocated
    rw [extended.getElem? (known allocated)]
    exact ⟨m, found, covered.mono extended.mem_heap, bound⟩
  · intro j k m n different first second isFirst isSecond
    rw [extended.getElem? (known first)] at isFirst
    rw [extended.getElem? (known second)] at isSecond
    exact serves.apart j k m n different first second isFirst isSecond

theorem Serves.covered (laid : s.tls.Laid) (found : s.tls.modules[k]? = some m)
    (allocated : dtv.val (k + 1) ≠ 0) :
    (m.block (dtv.val (k + 1))).Covered s.heap := by
  by_cases below : k < s.tls.initialCount
  · have bounds := laid.block_bounds (Nat.le_of_lt serves.lower) serves.upper below found
    rw [serves.initial k m below found]
    refine serves.area.within ⟨?_, ?_⟩
    · show thread - s.tls.initialSize ≤ m.address thread
      omega
    · show m.address thread + m.size ≤ thread - s.tls.initialSize + (s.tls.initialSize + t.threadSize)
      omega
  · obtain ⟨m', found', covered, -⟩ := serves.dynamic k (by omega) allocated
    obtain rfl : m = m' := Option.some.inj (found.symm.trans found')
    exact covered

theorem Serves.initial_ne_zero (laid : s.tls.Laid) (below : k < s.tls.initialCount) :
    dtv.val (k + 1) ≠ 0 := by
  have inside := Nat.lt_of_lt_of_le below laid.count
  have found := List.getElem?_eq_getElem inside
  have bounds := laid.block_bounds (Nat.le_of_lt serves.lower) serves.upper below found
  rw [serves.initial k _ below found]
  have := serves.lower
  omega

end Serves

/-- The blocks that a thread has are not moved. -/
def Kept (s s' : TlsState) : Prop :=
  ∀ thread dtv, s.dtv thread = some dtv → ∃ dtv', s'.dtv thread = some dtv' ∧
    dtv'.moduleSize = dtv.moduleSize ∧ ∀ i, dtv.val i ≠ 0 → dtv'.val i = dtv.val i

theorem Kept.refl (s : TlsState) : s.Kept s :=
  fun _ dtv found => ⟨dtv, found, rfl, fun _ _ => rfl⟩

theorem Kept.of_dtv (same : ∀ thread dtv, s.dtv thread = some dtv → s'.dtv thread = some dtv) :
    s.Kept s' :=
  fun thread dtv found => ⟨dtv, same thread dtv found, rfl, fun _ _ => rfl⟩

theorem Kept.trans {s₁ s2 s3 : TlsState} (first : s₁.Kept s2) (second : s2.Kept s3) :
    s₁.Kept s3 := by
  intro thread dtv found
  obtain ⟨dtv2, found2, size2, same2⟩ := first thread dtv found
  obtain ⟨dtv3, found3, size3, same3⟩ := second thread dtv2 found2
  refine ⟨dtv3, found3, size3.trans size2, ?_⟩
  intro i allocated
  have kept := same2 i allocated
  rw [same3 i (by rw [kept]; exact allocated), kept]

end TlsState

/-! ## Steps -/

theorem ModuleCall.register_inv {s s' : TlsState} (run : c.register s = some ((), s')) :
    c.Valid ∧ s' = { s with
      tls := s.tls.add c
      identities := fun i => if i = c.object then
          (s.tls.modules.length + 1,
            (s.tls.addModule c.object c.size c.align c.image c.imageSize).2.1)
        else s.identities i } := by
  have valid : c.Valid := by
    obtain ⟨positive, run⟩ := require_bind_inv run
    rw [bind_of_eq (get_apply s)] at run
    obtain ⟨image, -⟩ := require_bind_inv run
    exact ⟨of_decide_eq_true positive, of_decide_eq_true image⟩
  rw [ModuleCall.register_apply valid s] at run
  simp only [Option.some.injEq, Prod.mk.injEq, true_and] at run
  exact ⟨valid, run.symm⟩

/-- The new module is the last one, and it has the offset that is noted in the identity. -/
theorem Tls.add_modules (tls : Tls) (c : ModuleCall) :
    (tls.add c).modules = tls.modules ++
      [c.toModule (tls.addModule c.object c.size c.align c.image c.imageSize).2.1] := by
  unfold Tls.add Tls.addModule
  by_cases start : tls.gen = 0
  · rw [if_pos start]
    rfl
  · rw [if_neg start]
    rfl

namespace TlsState

variable {t : TlsEnv} {s s' : TlsState}

theorem Inv.register (inv : s.Inv t) (run : c.register s = some ((), s')) :
    s'.Inv t ∧ s.Kept s' := by
  obtain ⟨valid, rfl⟩ := ModuleCall.register_inv run
  refine ⟨⟨inv.laid.add c, ?_, ?_, ?_, ?_⟩, Kept.of_dtv fun _ _ found => found⟩
  · intro m member
    rw [show (TlsState.tls _).modules = _ from s.tls.add_modules c] at member
    rcases List.mem_append.mp member with old | new
    · exact inv.positive m old
    · rw [List.mem_singleton.mp new]
      exact valid.1
  · intro k m behind found
    by_cases start : s.tls.gen = 0
    · -- every module is an initial one
      have whole := (inv.laid.add c).whole ((s.tls.add_gen c).trans start)
      have inside : k < (s.tls.add c).modules.length := (List.getElem?_eq_some_iff.mp found).1
      have behind : (s.tls.add c).initialCount ≤ k := behind
      omega
    · rw [s.tls.add_dynamic c start] at behind found
      rcases getElem?_concat_inv found with old | ⟨-, rfl⟩
      · exact inv.unfixed k m behind old
      · rfl
  · intro i nonzero
    dsimp only at nonzero ⊢
    rw [s.tls.add_modules c]
    by_cases same : i = c.object
    · rw [if_pos same]
      exact ⟨_, List.getElem?_concat_length, rfl⟩
    · rw [if_neg same] at nonzero ⊢
      obtain ⟨m, found, offset⟩ := inv.registered i nonzero
      rw [List.getElem?_append_left (List.getElem?_eq_some_iff.mp found).1]
      exact ⟨m, found, offset⟩
  · intro thread th isThread
    obtain ⟨dtv, isDtv, serves⟩ := inv.threads thread th isThread
    refine ⟨dtv, isDtv, serves.extend inv.laid ?_⟩
    have dynamic := s.tls.add_dynamic c serves.started
    refine ⟨s.tls.add_gen c, ?_, ?_, ⟨_, s.tls.add_modules c⟩, [], rfl⟩
    · rw [dynamic]
    · rw [dynamic]

/-- Memory for a thread was added. -/
structure Hosts (t : TlsEnv) (s s₁ : TlsState) (thread : Nat) : Prop where
  gen : s₁.tls.gen = s.tls.gen
  count : s₁.tls.initialCount = s.tls.initialCount
  size : s₁.tls.initialSize = s.tls.initialSize
  modules : s₁.tls.modules = s.tls.modules
  laid : s₁.tls.Laid
  identities : s₁.identities = s.identities
  heap : ∃ r, s₁.heap = r :: s.heap ∧ (s.area t thread).Within r ∧ ∀ q ∈ s.heap, r.Apart q
  others : ∀ a, a ≠ thread → s₁.thread a = s.thread a
  lower : s.tls.initialSize < thread
  upper : thread < 2 ^ 64

/-- After the first thread there are no more initial modules. -/
theorem Started.gen_ne_zero (started : s₁.Started s' thread dtv) : s'.tls.gen ≠ 0 := by
  rw [started.tls]
  show (if s₁.tls.gen = 0 then 1 else s₁.tls.gen) ≠ 0
  split
  · exact Nat.one_ne_zero
  · assumption

theorem Started.laid (started : s₁.Started s' thread dtv) (laid : s₁.tls.Laid) : s'.tls.Laid := by
  have nonzero := started.gen_ne_zero
  rw [started.tls] at nonzero ⊢
  exact ⟨laid.align, laid.count, fun zero => absurd zero nonzero, laid.bound, laid.order⟩

section Creation

variable {s₁ : TlsState} {thread : Nat} {dtv : Dtv} (lawful : t.Lawful) (inv : s.Inv t)
  (hosts : Hosts t s s₁ thread) (started : s₁.Started s' thread dtv)
include lawful inv hosts

theorem Hosts.absent : s.thread thread = none := by
  cases isThread : s.thread thread with
  | none => rfl
  | some th =>
    obtain ⟨dtv, -, serves⟩ := inv.threads thread th isThread
    obtain ⟨r, -, within, fresh⟩ := hosts.heap
    have apart := serves.area.apart fresh within
    have positive : 0 < (s.area t thread).size := by
      show 0 < s.tls.initialSize + t.threadSize
      have := lawful.threadSize
      omega
    exact absurd apart (Range.not_apart_self positive)

omit lawful inv in
include started in
theorem Hosts.heap_append : ∃ more, s'.heap = more ++ s.heap := by
  obtain ⟨r, heap, -⟩ := hosts.heap
  obtain ⟨q, heap'⟩ := started.heap
  exact ⟨[q, r], by rw [heap', heap]; rfl⟩

omit lawful inv in
include started in
theorem Hosts.modules_same : s'.tls.modules = s.tls.modules ∧
    s'.tls.initialCount = s.tls.initialCount ∧ s'.tls.initialSize = s.tls.initialSize := by
  rw [started.tls]
  exact ⟨hosts.modules, hosts.count, hosts.size⟩

omit lawful in
include started in
theorem Hosts.extended {a : Nat} {th : Thread} (isThread : s.thread a = some th) :
    s.Extended s' := by
  obtain ⟨dtv, -, serves⟩ := inv.threads a th isThread
  obtain ⟨modules, count, size⟩ := hosts.modules_same started
  refine ⟨?_, count, size, ⟨[], by rw [modules, List.append_nil]⟩, hosts.heap_append started⟩
  rw [started.tls]
  show (if s₁.tls.gen = 0 then 1 else s₁.tls.gen) = s.tls.gen
  rw [hosts.gen, if_neg serves.started]

omit lawful in
include started in
theorem Hosts.serves : s'.Serves t thread dtv := by
  obtain ⟨modules, count, size⟩ := hosts.modules_same started
  have laid := started.laid hosts.laid
  have room : s'.tls.initialSize ≤ thread := by
    rw [size]
    exact Nat.le_of_lt hosts.lower
  have inside : ∀ i, dtv.val i ≠ 0 → 1 ≤ i ∧ i ≤ s.tls.initialCount := by
    intro i allocated
    by_contra outside
    rw [← hosts.count] at outside
    exact allocated (started.outside i outside)
  have initial : ∀ k m, k < s'.tls.initialCount → s'.tls.modules[k]? = some m →
      dtv.val (k + 1) = m.address thread := by
    intro k m below found
    rw [count] at below
    obtain ⟨m', found', value⟩ := started.inside (k + 1) (by omega) (by rw [hosts.count]; omega)
    rw [hosts.modules] at found'
    rw [modules] at found
    obtain rfl : m = m' := Option.some.inj (found.symm.trans found')
    exact value
  refine ⟨started.gen_ne_zero, started.generation, ?_, ?_, hosts.upper, ?_, started.toFree, ?_,
    initial, ?_, ?_⟩
  · rw [count, started.moduleSize]
    have := inv.laid.count
    unfold Tls.dtvSize
    rw [hosts.modules]
    omega
  · rw [size]
    exact hosts.lower
  · obtain ⟨r, heap, within, -⟩ := hosts.heap
    obtain ⟨q, heap'⟩ := started.heap
    refine ⟨r, ?_, ?_⟩
    · rw [heap', heap]
      simp
    · unfold TlsState.area at within ⊢
      rw [size]
      exact within
  · intro i allocated
    rw [started.moduleSize]
    have := (inside i allocated).2
    have := inv.laid.count
    unfold Tls.dtvSize
    rw [hosts.modules]
    omega
  · intro k behind allocated
    have := (inside (k + 1) allocated).2
    omega
  · intro j k m n different first second isFirst isSecond
    have below := (inside (j + 1) first).2
    have below' := (inside (k + 1) second).2
    rw [initial j m (by omega) isFirst, initial k n (by omega) isSecond]
    exact laid.block_apart room hosts.upper different (by omega) (by omega) isFirst isSecond

include started in
theorem Hosts.keeps : s'.Inv t ∧ s.Kept s' := by
  obtain ⟨modules, count, size⟩ := hosts.modules_same started
  have others : ∀ a, a ≠ thread → s'.thread a = s.thread a := by
    intro a other
    rw [started.others a other, hosts.others a other]
  refine ⟨⟨started.laid hosts.laid, ?_, ?_, ?_, ?_⟩, ?_⟩
  · rw [modules]
    exact inv.positive
  · rw [modules, count]
    exact inv.unfixed
  · rw [modules, started.identities, hosts.identities]
    exact inv.registered
  · intro a th isThread
    by_cases same : a = thread
    · subst same
      have found := started.found
      obtain ⟨th', isThread', isDtv⟩ := Option.bind_eq_some_iff.mp found
      obtain rfl : th = th' := Option.some.inj (isThread.symm.trans isThread')
      exact ⟨dtv, isDtv, hosts.serves inv started⟩
    · rw [others a same] at isThread
      obtain ⟨dtv', isDtv, serves⟩ := inv.threads a th isThread
      exact ⟨dtv', isDtv, serves.extend inv.laid (hosts.extended inv started isThread)⟩
  · apply Kept.of_dtv
    intro a dtv' found
    have other : a ≠ thread := by
      rintro rfl
      unfold TlsState.dtv at found
      rw [hosts.absent lawful inv] at found
      cases found
    unfold TlsState.dtv at found ⊢
    rw [others a other]
    exact found

end Creation

theorem Inv.hosts_withThread (inv : s.Inv t) (lawful : t.Lawful)
    (answer : t.alloc s.heap (s.tls.raiseAlign.allocationSize t) = some mem) :
    Hosts t s (s.withThread t mem) (s.tls.raiseAlign.threadPointer mem) := by
  have laid := inv.laid.raiseAlign
  obtain ⟨lower, upper⟩ := laid.threadPointer_bounds t mem
  have bounded := lawful.bounded answer
  have positive := lawful.positive answer
  have size : s.tls.raiseAlign.initialSize = s.tls.initialSize := rfl
  refine ⟨rfl, rfl, rfl, rfl, laid, rfl, ⟨_, rfl, ?_, lawful.fresh answer⟩, ?_, ?_, ?_⟩
  · unfold Range.Within Range.stop TlsState.area
    dsimp only
    omega
  · intro a other
    exact if_neg other
  · omega
  · omega

theorem Inv.create (inv : s.Inv t) (lawful : t.Lawful)
    (run : createThread t none s = some (thread, s')) : s'.Inv t ∧ s.Kept s' := by
  rw [createThread_none] at run
  obtain ⟨thread', s₁, new, run⟩ := bind_inv run
  obtain ⟨mem, answer, rfl, rfl⟩ := newThread_inv new
  obtain ⟨-, run⟩ := createThread_some_inv run
  obtain ⟨dtv, started⟩ := started_of_run (setThread_same _ _ _) rfl run
  exact (inv.hosts_withThread lawful answer).keeps lawful inv started

theorem Inv.hosts_adopt (inv : s.Inv t) (lower : s.tls.initialSize < thread)
    (upper : thread < 2 ^ 64) (free : ∀ r ∈ s.heap, (s.area t thread).Apart r) :
    Hosts t s (s.adopt t thread) thread := by
  refine ⟨rfl, rfl, rfl, rfl, inv.laid, rfl, ⟨_, rfl, Range.Within.refl _, free⟩, ?_, lower, upper⟩
  intro a other
  exact if_neg other

theorem Inv.adopt (inv : s.Inv t) (lawful : t.Lawful) (lower : s.tls.initialSize < thread)
    (upper : thread + t.threadSize ≤ 2 ^ 64) (free : ∀ r ∈ s.heap, (s.area t thread).Apart r)
    (run : createThread t (some thread) (s.adopt t thread) = some (thread, s')) :
    s'.Inv t ∧ s.Kept s' := by
  have small : thread < 2 ^ 64 := by
    have := lawful.threadSize
    omega
  obtain ⟨-, run⟩ := createThread_some_inv run
  obtain ⟨dtv, started⟩ := started_of_run (setThread_same _ _ _) rfl run
  exact (inv.hosts_adopt lower small free).keeps lawful inv started

end TlsState

section Block

variable {t : TlsEnv} (lawful : t.Lawful) {s : TlsState} {m : TlsModule} {mem : Nat}
  (answer : t.alloc s.heap m.allocationSize = some mem)
include lawful

theorem TlsModule.dataIn_within : (m.block (m.dataIn t mem)).Within ⟨mem, m.allocationSize⟩ := by
  have lower := lawful.le_align (mem + pointerSize) m.align
  have upper := lawful.align_le (mem + pointerSize) m.align
  unfold TlsModule.block TlsModule.dataIn TlsModule.allocationSize Range.Within Range.stop
  dsimp only
  omega

theorem TlsModule.dataIn_ne_zero : m.dataIn t mem ≠ 0 := by
  have lower := lawful.le_align (mem + pointerSize) m.align
  unfold TlsModule.dataIn
  have : pointerSize = 8 := rfl
  omega

include answer

theorem TlsModule.dataIn_stop : (m.block (m.dataIn t mem)).stop ≤ 2 ^ 64 :=
  Nat.le_trans (TlsModule.dataIn_within lawful).2 (lawful.bounded answer)

end Block

namespace TlsState

variable {t : TlsEnv} {s s' : TlsState} {thread : Nat} {dtv : Dtv}

theorem extended_allocated (thread moduleId mem : Nat) (m : TlsModule) :
    s.Extended (s.allocated t thread moduleId mem m) :=
  ⟨rfl, rfl, rfl, ⟨[], (List.append_nil _).symm⟩, [⟨mem, m.allocationSize⟩], rfl⟩

theorem Serves.allocated (serves : s.Serves t thread dtv) (lawful : t.Lawful) (laid : s.tls.Laid)
    (inside : k + 1 ≤ dtv.moduleSize) (dynamic : s.tls.initialCount ≤ k)
    (found : s.tls.modules[k]? = some m) (answer : t.alloc s.heap m.allocationSize = some mem) :
    (s.allocated t thread (k + 1) mem m).Serves t thread
      (dtv.assign (k + 1) (m.dataIn t mem)) := by
  have old := serves.extend laid (extended_allocated (t := t) thread (k + 1) mem m)
  have new : (dtv.assign (k + 1) (m.dataIn t mem)).val (k + 1) = m.dataIn t mem := if_pos rfl
  have others : ∀ j, j ≠ k → (dtv.assign (k + 1) (m.dataIn t mem)).val (j + 1) = dtv.val (j + 1) := by
    intro j other
    exact if_neg (by omega)
  -- the new block is apart from all the others
  have fresh : ∀ j n, j ≠ k → dtv.val (j + 1) ≠ 0 → s.tls.modules[j]? = some n →
      (m.block (m.dataIn t mem)).Apart (n.block (dtv.val (j + 1))) := by
    intro j n _ allocated isModule
    exact (serves.covered laid isModule allocated).apart (lawful.fresh answer)
      (TlsModule.dataIn_within lawful)
  refine ⟨old.started, old.generation, old.capacity, old.lower, old.upper, old.area, old.toFree,
    ?_, ?_, ?_, ?_⟩
  · intro i allocated
    by_cases same : i = k + 1
    · rw [same]
      exact inside
    · rw [show (dtv.assign (k + 1) (m.dataIn t mem)).val i = dtv.val i from if_neg same] at allocated
      exact old.within i allocated
  · intro j n below isModule
    have below : j < s.tls.initialCount := below
    rw [others j (by omega)]
    exact old.initial j n below isModule
  · intro j behind allocated
    by_cases same : j = k
    · subst same
      rw [new]
      exact ⟨m, found, Range.Covered.head (TlsModule.dataIn_within lawful) _,
        TlsModule.dataIn_stop lawful answer⟩
    · rw [others j same] at allocated ⊢
      exact old.dynamic j behind allocated
  · intro i j a b different first second isFirst isSecond
    by_cases same : i = k
    · subst same
      obtain rfl : a = m := Option.some.inj (isFirst.symm.trans found)
      rw [others j different.symm] at second ⊢
      rw [new]
      exact fresh j b different.symm second isSecond
    · rw [others i same] at first ⊢
      by_cases same' : j = k
      · subst same'
        obtain rfl : b = m := Option.some.inj (isSecond.symm.trans found)
        rw [new]
        exact (fresh i a same first isFirst).symm
      · rw [others j same'] at second ⊢
        exact serves.apart i j a b different first second isFirst isSecond

theorem getAddr_dtv (run : getAddr t thread moduleId true s = some (address, s')) :
    ∃ dtv, s.dtv thread = some dtv := by
  obtain ⟨⟨⟩, s₁, first, -⟩ := bind_inv run
  unfold checkGeneration at first
  rw [bind_of_eq (get_apply s)] at first
  obtain ⟨dtv, s2, second, -⟩ := bind_inv first
  exact ⟨dtv, (getDtv_inv second).1⟩

theorem Inv.access (inv : s.Inv t) (lawful : t.Lawful) (positive : 1 ≤ moduleId)
    (run : getAddr t thread moduleId true s = some (address, s')) :
    s'.Inv t ∧ s.Kept s' := by
  obtain ⟨dtv, found⟩ := getAddr_dtv run
  have serves := inv.serves found
  obtain ⟨inside, ⟨-, -, rfl⟩ | ⟨empty, m, mem, dynamic, isModule, answer, -, rfl⟩⟩ :=
    getAddr_inv found serves.generation run
  · exact ⟨inv, Kept.refl _⟩
  · obtain ⟨k, rfl⟩ : ∃ k, moduleId = k + 1 := ⟨moduleId - 1, by omega⟩
    have served := serves.allocated lawful inv.laid inside (by omega) isModule answer
    have found' : (s.allocated t thread (k + 1) mem m).dtv thread =
        some (dtv.assign (k + 1) (m.dataIn t mem)) := dtv_allocated found
    have others : ∀ a, a ≠ thread → (s.allocated t thread (k + 1) mem m).thread a = s.thread a := by
      intro a other
      exact if_neg other
    refine ⟨⟨inv.laid, inv.positive, inv.unfixed, inv.registered, ?_⟩, ?_⟩
    · intro a th isThread
      by_cases same : a = thread
      · subst same
        obtain ⟨th', isThread', isDtv⟩ := Option.bind_eq_some_iff.mp found'
        obtain rfl : th = th' := Option.some.inj (isThread.symm.trans isThread')
        exact ⟨_, isDtv, served⟩
      · rw [others a same] at isThread
        obtain ⟨dtv', isDtv, serves'⟩ := inv.threads a th isThread
        exact ⟨dtv', isDtv, serves'.extend inv.laid (extended_allocated thread (k + 1) mem m)⟩
    · intro a dtv' isDtv
      by_cases same : a = thread
      · subst same
        obtain rfl : dtv = dtv' := Option.some.inj (found.symm.trans isDtv)
        refine ⟨_, found', rfl, ?_⟩
        intro i allocated
        apply if_neg
        rintro rfl
        exact allocated empty
      · refine ⟨dtv', ?_, rfl, fun _ _ => rfl⟩
        unfold TlsState.dtv at isDtv ⊢
        rw [others a same]
        exact isDtv

theorem Inv.step (inv : s.Inv t) (lawful : t.Lawful) (step : Step t s s') :
    s'.Inv t ∧ s.Kept s' := by
  cases step with
  | register c new run => exact inv.register run
  | create run => exact inv.create lawful run
  | adopt lower upper free run => exact inv.adopt lawful lower upper free run
  | access positive known run => exact inv.access lawful positive run
  | update currentBase =>
    refine ⟨⟨inv.laid, inv.positive, inv.unfixed, inv.registered, ?_⟩, Kept.of_dtv fun _ _ => id⟩
    intro thread th isThread
    obtain ⟨dtv, isDtv, serves⟩ := inv.threads thread th isThread
    exact ⟨dtv, isDtv, serves.extend inv.laid
      ⟨rfl, rfl, rfl, ⟨[], (List.append_nil _).symm⟩, [], rfl⟩⟩

theorem Inv.run (inv : s.Inv t) (lawful : t.Lawful) (run : Run t s s') : s'.Inv t ∧ s.Kept s' := by
  induction run with
  | refl => exact ⟨inv, Kept.refl s⟩
  | tail _ step ih =>
    obtain ⟨before, kept⟩ := ih
    obtain ⟨after, kept'⟩ := before.step lawful step
    exact ⟨after, kept.trans kept'⟩

/-- The block of a module in a thread: it is apart from all other blocks of the thread. -/
def Separate (s : TlsState) (thread moduleId address : Nat) : Prop :=
  ∃ dtv m, s.dtv thread = some dtv ∧ s.tls.modules[moduleId - 1]? = some m ∧
    dtv.val moduleId = address ∧ address ≠ 0 ∧
    ∀ (j : Nat) (n : TlsModule), j + 1 ≠ moduleId → dtv.val (j + 1) ≠ 0 →
      s.tls.modules[j]? = some n → (m.block address).Apart (n.block (dtv.val (j + 1)))

theorem Inv.separate (inv : s.Inv t) (found : s.dtv thread = some dtv) (positive : 1 ≤ moduleId)
    (known : moduleId ≤ s.tls.modules.length) (allocated : dtv.val moduleId ≠ 0) :
    s.Separate thread moduleId (dtv.val moduleId) := by
  obtain ⟨k, rfl⟩ : ∃ k, moduleId = k + 1 := ⟨moduleId - 1, by omega⟩
  have isModule : s.tls.modules[k]? = some s.tls.modules[k] :=
    List.getElem?_eq_getElem (by omega)
  refine ⟨dtv, _, found, isModule, rfl, allocated, ?_⟩
  intro j n other first isModule'
  exact (inv.serves found).apart k j _ n (by omega) allocated first isModule isModule'

theorem getAddr_modules (found : s.dtv thread = some dtv) (generation : dtv.generation = s.tls.gen)
    (run : getAddr t thread moduleId true s = some (address, s')) :
    s'.tls.modules = s.tls.modules := by
  obtain ⟨-, ⟨-, -, rfl⟩ | ⟨-, m, mem, -, -, -, -, rfl⟩⟩ := getAddr_inv found generation run
  · rfl
  · rfl

/-- With an entry in the vector and memory left, the block is returned. -/
theorem Inv.getAddr_returns (inv : s.Inv t) (lawful : t.Lawful) (found : s.dtv thread = some dtv)
    (positive : 1 ≤ moduleId) (known : moduleId ≤ s.tls.modules.length)
    (inside : moduleId ≤ dtv.moduleSize)
    (memory : ∀ m ∈ s.tls.modules, (t.alloc s.heap m.allocationSize).isSome) :
    ∃ address s' dtv', getAddr t thread moduleId true s = some (address, s') ∧
      s'.dtv thread = some dtv' ∧ dtv'.val moduleId = address ∧ dtv'.val moduleId ≠ 0 := by
  have serves := inv.serves found
  by_cases empty : dtv.val moduleId = 0
  · have dynamic : s.tls.initialCount < moduleId := by
      by_contra initial
      have nonzero := serves.initial_ne_zero inv.laid (k := moduleId - 1) (by omega)
      rw [Nat.sub_add_cancel positive] at nonzero
      exact nonzero empty
    have below : moduleId - 1 < s.tls.modules.length := by omega
    obtain ⟨mem, answer⟩ := Option.isSome_iff_exists.mp
      (memory s.tls.modules[moduleId - 1] (List.getElem_mem below))
    have run := getAddr_lazy found serves.generation inside dynamic known
      (List.getElem?_eq_getElem below) answer empty (serves.toFree moduleId)
    have value : (dtv.assign moduleId (s.tls.modules[moduleId - 1].dataIn t mem)).val moduleId =
        s.tls.modules[moduleId - 1].dataIn t mem := if_pos rfl
    refine ⟨_, _, _, run, dtv_allocated found, value, ?_⟩
    rw [value]
    exact TlsModule.dataIn_ne_zero lawful
  · exact ⟨_, s, dtv, getAddr_allocated found serves.generation inside empty, found, rfl, empty⟩

theorem Inv.stays (inv : s.Inv t) (lawful : t.Lawful) (found : s.dtv thread = some dtv)
    (allocated : dtv.val moduleId ≠ 0) (run : Run t s s') :
    getAddr t thread moduleId true s' = some (dtv.val moduleId, s') := by
  obtain ⟨inv', kept⟩ := inv.run lawful run
  obtain ⟨dtv', found', size, same⟩ := kept thread dtv found
  have inside := (inv.serves found).within moduleId allocated
  have value := same moduleId allocated
  rw [← size] at inside
  rw [← value] at allocated ⊢
  exact getAddr_allocated found' (inv'.serves found').generation inside allocated

/-- The step creates the thread. -/
def Creates (t : TlsEnv) (thread : Nat) (s s' : TlsState) : Prop :=
  Step t s s' ∧ (createThread t none s = some (thread, s') ∨
    createThread t (some thread) (s.adopt t thread) = some (thread, s'))

/-- A vector never grows: it has the entries that it was created with. -/
theorem Inv.moduleSize_created (inv : s.Inv t) (lawful : t.Lawful) (created : Creates t thread s s')
    {later : TlsState} (further : Run t s' later) (found : later.dtv thread = some dtv) :
    dtv.moduleSize = max (s.tls.modules.length * 2) 16 := by
  obtain ⟨dtv', found', size⟩ : ∃ dtv', s'.dtv thread = some dtv' ∧
      dtv'.moduleSize = max (s.tls.modules.length * 2) 16 := by
    rcases created.2 with run | run
    · rw [createThread_none] at run
      obtain ⟨thread', s₁, new, run⟩ := bind_inv run
      obtain ⟨mem, answer, rfl, rfl⟩ := newThread_inv new
      obtain ⟨rfl, setup⟩ := createThread_some_inv run
      obtain ⟨dtv, started⟩ := started_of_run (setThread_same _ _ _) rfl setup
      exact ⟨dtv, started.found, started.moduleSize⟩
    · obtain ⟨-, run⟩ := createThread_some_inv run
      obtain ⟨dtv, started⟩ := started_of_run (setThread_same _ _ _) rfl run
      exact ⟨dtv, started.found, started.moduleSize⟩
  obtain ⟨inv', -⟩ := inv.step lawful created.1
  obtain ⟨dtv₁, found₁, same, -⟩ := (inv'.run lawful further).2 thread dtv' found'
  cases found.symm.trans found₁
  rw [same, size]

end TlsState

/-- In every state that is reached, a thread gets the block of a registered module, apart from its
other blocks and at the same address from then on, exactly if its vector has an entry for it. It
has entries for the larger of 16 and twice the number of modules at its creation. -/
theorem getAddr_serves_iff {t : TlsEnv} (lawful : t.Lawful) {s₀ s : TlsState} (fresh : s₀.Fresh)
    (reached : TlsState.Run t s₀ s) {thread moduleId : Nat} {dtv : Dtv}
    (found : s.dtv thread = some dtv) (positive : 1 ≤ moduleId)
    (known : moduleId ≤ s.tls.modules.length)
    (memory : ∀ m ∈ s.tls.modules, (t.alloc s.heap m.allocationSize).isSome) :
    ((∃ address s', getAddr t thread moduleId true s = some (address, s') ∧
      s'.Separate thread moduleId address ∧
      ∀ later, TlsState.Run t s' later →
        getAddr t thread moduleId true later = some (address, later)) ↔
    moduleId ≤ dtv.moduleSize) ∧
    ∀ s₁ s₂, TlsState.Run t s₀ s₁ → TlsState.Creates t thread s₁ s₂ → TlsState.Run t s₂ s →
      dtv.moduleSize = max (s₁.tls.modules.length * 2) 16 := by
  obtain ⟨inv, -⟩ := fresh.inv.run lawful reached
  have serves := inv.serves found
  refine ⟨⟨?_, ?_⟩, fun s₁ s₂ before created further =>
    (fresh.inv.run lawful before).1.moduleSize_created lawful created further found⟩
  · rintro ⟨address, s', run, -, -⟩
    exact (getAddr_inv found serves.generation run).1
  · intro inside
    obtain ⟨address, s', dtv', run, found', value, allocated⟩ :=
      inv.getAddr_returns lawful found positive known inside memory
    have inv' := (inv.access lawful positive run).1
    have known' : moduleId ≤ s'.tls.modules.length := by
      rw [TlsState.getAddr_modules found serves.generation run]
      exact known
    subst value
    refine ⟨_, s', run, inv'.separate found' positive known' allocated, ?_⟩
    intro later further
    exact inv'.stays lawful found' allocated further

/-! ## The reference allocator -/

theorem le_foldl_stop (heap : List Range) : ∀ address, address ≤
    heap.foldl (fun a r => max a r.stop) address := by
  induction heap with
  | nil => intro address; exact Nat.le_refl address
  | cons r heap ih => intro address; exact Nat.le_trans (Nat.le_max_left _ _) (ih _)

theorem stop_le_foldl {r : Range} (member : r ∈ heap) : ∀ address,
    r.stop ≤ heap.foldl (fun a r => max a r.stop) address := by
  induction heap with
  | nil => cases member
  | cons q heap ih =>
    intro address
    rcases List.mem_cons.mp member with rfl | later
    · exact Nat.le_trans (Nat.le_max_right _ _) (le_foldl_stop heap _)
    · exact ih later _

theorem TlsEnv.reference_alloc {size address : Nat}
    (answer : TlsEnv.reference.alloc heap size = some address) :
    address = heap.foldl (fun a r => max a r.stop) 0x1000 ∧ address + size ≤ userLimit := by
  unfold TlsEnv.reference at answer
  dsimp only at answer
  split at answer
  · cases answer
    exact ⟨rfl, ‹_›⟩
  · cases answer

theorem TlsEnv.reference_lawful : TlsEnv.reference.Lawful where
  threadSize := by decide
  positive answer := by
    rw [(TlsEnv.reference_alloc answer).1]
    exact Nat.lt_of_lt_of_le (by decide) (le_foldl_stop _ _)
  bounded answer := Nat.le_trans (TlsEnv.reference_alloc answer).2 (by decide)
  fresh answer := by
    intro r member
    apply Or.inr
    rw [(TlsEnv.reference_alloc answer).1]
    exact stop_le_foldl member _
  le_align value alignment := le_alignUp value alignment
  align_le value alignment := by
    show alignUp value alignment ≤ value + alignment
    by_cases zero : alignment = 0
    · unfold alignUp
      rw [if_pos zero]
      omega
    · exact Nat.le_of_lt (alignUp_lt (by omega) value)

theorem TlsState.initial_fresh : TlsState.initial.Fresh :=
  ⟨rfl, fun _ => rfl, fun _ => rfl⟩

/-- A thread, then a library with thread local storage. -/
def threadThenModule : TlsM Nat := do
  let thread ← createThread .reference none
  ModuleCall.register ⟨7, 40, 16, 0, 8⟩
  return thread

theorem threadThenModule_run : ∃ thread s dtv,
    TlsState.Run .reference TlsState.initial s ∧ s.dtv thread = some dtv ∧
    dtv.moduleSize = 16 ∧ s.tls.modules.length = 1 ∧
    ∀ m ∈ s.tls.modules, (TlsEnv.reference.alloc s.heap m.allocationSize).isSome := by
  obtain ⟨⟨thread, s⟩, run, facts⟩ := Option.map_eq_some_iff.mp
    (show (threadThenModule TlsState.initial).map (fun p =>
        ((p.2.dtv p.1).map Dtv.moduleSize, p.2.tls.modules.length, p.2.tls.modules.all fun m =>
          (TlsEnv.reference.alloc p.2.heap m.allocationSize).isSome)) = some (some 16, 1, true) by
      decide +kernel)
  simp only [Prod.mk.injEq, List.all_eq_true] at facts
  obtain ⟨capacity, length, memory⟩ := facts
  obtain ⟨dtv, found, size⟩ := Option.map_eq_some_iff.mp capacity
  unfold threadThenModule at run
  obtain ⟨thread', s₁, first, run⟩ := bind_inv run
  obtain ⟨⟨⟩, s2, second, run⟩ := bind_inv run
  obtain ⟨rfl, rfl⟩ := pure_inv run
  have unused : (s₁.identities 7).1 = 0 := by
    have evaluated : (createThread .reference none TlsState.initial).map
        (fun p => (p.2.identities 7).1) = some 0 := by
      decide +kernel
    rw [first, Option.map_some, Option.some.injEq] at evaluated
    exact evaluated
  refine ⟨thread, s, dtv, ?_, found, size, length, memory⟩
  exact (Relation.ReflTransGen.single (.create first)).tail (.register _ unused second)

/-- The thread gets the block of the module. -/
theorem getAddr_serves_iff_one : ∃ thread s address s',
    TlsState.Run .reference TlsState.initial s ∧
    getAddr .reference thread 1 true s = some (address, s') ∧ s'.Separate thread 1 address ∧
    ∀ later, TlsState.Run .reference s' later →
      getAddr .reference thread 1 true later = some (address, later) := by
  obtain ⟨thread, s, dtv, reached, found, size, length, memory⟩ := threadThenModule_run
  obtain ⟨address, s', served⟩ := (getAddr_serves_iff TlsEnv.reference_lawful
    TlsState.initial_fresh reached found (Nat.le_refl 1) (by omega) memory).1.mpr (by omega)
  exact ⟨thread, s, address, s', reached, served⟩

/-- The libraries with thread local storage that are loaded after the start. -/
def seventeenModules : List ModuleCall :=
  (List.range 17).map fun object => ⟨object, 8, 8, 0, 0⟩

/-- A thread exists before 17 modules are registered: the last one is out of its reach, the
assertion on the size of the vector fails. -/
theorem getAddr_beyond_sixteen :
    ((do
      let thread ← createThread .reference none
      forEach ModuleCall.register seventeenModules
      return thread : TlsM Nat) TlsState.initial).map (fun p =>
        (p.2.tls.modules.length, (getAddr .reference p.1 16 true p.2).isSome,
          (getAddr .reference p.1 17 true p.2).isSome)) = some (17, true, false) := by
  decide +kernel

/-! ## The paths to a variable -/

theorem tlsGetAddr_apply (block : getAddr t thread moduleId true s = some (address, s))
    (value : Nat) :
    tlsGetAddr t thread moduleId value s = some (wordOfInt (address + value), s) := by
  unfold tlsGetAddr
  rw [bind_of_eq block]
  rfl

theorem tlsAddress_apply (block : getAddr t thread (s.identities file).1 true s = some (address, s))
    (value : Nat) :
    tlsAddress t thread file value s =
      some (wordOfInt (address + (s.identities file).2 + value), s) := by
  unfold tlsAddress
  rw [bind_of_eq (get_apply s), bind_of_eq block]
  rfl

theorem dlinfoTlsData_apply (found : s.dtv thread = some dtv)
    (inside : (s.identities file).1 ≤ dtv.moduleSize) :
    dlinfoTlsData t thread file s = some
      (if (s.identities file).2 = 0 then 0 else dtv.val (s.identities file).1, s) := by
  unfold dlinfoTlsData
  rw [bind_of_eq (get_apply s)]
  by_cases dynamic : (s.identities file).2 = 0
  · rw [if_pos dynamic, if_pos dynamic]
    rfl
  · rw [if_neg dynamic, if_neg dynamic]
    unfold getAddr
    rw [Bool.not_false, if_pos rfl, bind_of_eq (getDtv_apply found), if_pos inside]
    rfl

/-- For no thread local variable the three ways to its address agree: `tls_address` adds the
offset of an initial module once more, `dlinfo` knows no block of a dynamic one. -/
theorem tlsPaths_disagree {t : TlsEnv} (lawful : t.Lawful) {s₀ s : TlsState} (fresh : s₀.Fresh)
    (reached : TlsState.Run t s₀ s) {thread file : Nat} {dtv : Dtv}
    (found : s.dtv thread = some dtv) (registered : (s.identities file).1 ≠ 0)
    (allocated : dtv.val (s.identities file).1 ≠ 0) (value : Nat) :
    ∃ a b c, tlsGetAddr t thread (s.identities file).1 value s = some (a, s) ∧
      tlsAddress t thread file value s = some (b, s) ∧
      dlinfoTlsData t thread file s = some (c, s) ∧
      (a = b ↔ s.tls.initialCount < (s.identities file).1) ∧
      (a = wordOfInt (c + value) ↔ (s.identities file).1 ≤ s.tls.initialCount) ∧
      ¬ (a = b ∧ a = wordOfInt (c + value)) := by
  obtain ⟨inv, -⟩ := fresh.inv.run lawful reached
  have serves := inv.serves found
  obtain ⟨m, isModule, offset⟩ := inv.registered file registered
  have positive := inv.positive m (List.mem_of_getElem? isModule)
  have inside := serves.within _ allocated
  have block := getAddr_allocated (t := t) found serves.generation inside allocated
  refine ⟨_, _, _, tlsGetAddr_apply block value, tlsAddress_apply block value,
    dlinfoTlsData_apply found inside, ?_⟩
  obtain ⟨k, isId⟩ : ∃ k, (s.identities file).1 = k + 1 :=
    ⟨(s.identities file).1 - 1, by omega⟩
  rw [isId] at isModule allocated ⊢
  rw [← offset]
  by_cases initial : k < s.tls.initialCount
  · -- an initial module: the offset is positive and less than a full turn
    obtain ⟨lower, upper⟩ := inv.laid.bound k m initial isModule
    have room := serves.lower
    have small := serves.upper
    have nonzero : m.offset ≠ 0 := by omega
    obtain ⟨delta, isDelta⟩ : ∃ delta : Nat, m.offset = delta := ⟨m.offset.toNat, by omega⟩
    have different : wordOfInt (dtv.val (k + 1) + value) ≠
        wordOfInt (dtv.val (k + 1) + m.offset + value) := by
      rw [isDelta, add_right_comm]
      exact (wordOfInt_add_ne (by omega) (by omega)).symm
    rw [if_neg nonzero]
    refine ⟨⟨fun same => absurd same different, fun behind => by omega⟩,
      ⟨fun _ => initial, fun _ => rfl⟩, fun both => different both.1⟩
  · -- a dynamic module: its block is not at the start of the address space
    have zero := inv.unfixed k m (by omega) isModule
    obtain ⟨m', isModule', -, bound⟩ := serves.dynamic k (by omega) allocated
    obtain rfl : m = m' := Option.some.inj (isModule.symm.trans isModule')
    have bound : dtv.val (k + 1) + m.size ≤ 2 ^ 64 := bound
    have different : wordOfInt (dtv.val (k + 1) + value) ≠ wordOfInt ((0 : Nat) + value) := by
      rw [add_comm, Nat.cast_zero, zero_add]
      exact wordOfInt_add_ne (by omega) (by omega)
    rw [zero]
    refine ⟨⟨fun _ => by omega, fun _ => rfl⟩,
      ⟨fun same => absurd same different, fun below => by omega⟩, fun both => different both.2⟩

/-- The program has a thread local variable, then its thread is created. -/
def moduleThenThread : TlsM Nat := do
  ModuleCall.register ⟨3, 8, 8, 0, 8⟩
  createThread .reference none

theorem moduleThenThread_run : ∃ thread s dtv,
    TlsState.Run .reference TlsState.initial s ∧ s.dtv thread = some dtv ∧
    (s.identities 3).1 = 1 ∧ dtv.val 1 ≠ 0 := by
  obtain ⟨⟨thread, s⟩, run, facts⟩ := Option.map_eq_some_iff.mp
    (show (moduleThenThread TlsState.initial).map (fun p =>
        ((p.2.dtv p.1).map fun dtv => decide (dtv.val 1 ≠ 0), (p.2.identities 3).1)) =
          some (some true, 1) by
      decide +kernel)
  simp only [Prod.mk.injEq] at facts
  obtain ⟨allocated, moduleId⟩ := facts
  obtain ⟨dtv, found, nonzero⟩ := Option.map_eq_some_iff.mp allocated
  unfold moduleThenThread at run
  obtain ⟨⟨⟩, s₁, first, run⟩ := bind_inv run
  refine ⟨thread, s, dtv, ?_, found, moduleId, of_decide_eq_true nonzero⟩
  exact (Relation.ReflTransGen.single (.register _ rfl first)).tail (.create run)

/-- The variable of the program. -/
theorem tlsPaths_disagree_initial : ∃ thread s a b c,
    TlsState.Run .reference TlsState.initial s ∧
    tlsGetAddr .reference thread (s.identities 3).1 0 s = some (a, s) ∧
    tlsAddress .reference thread 3 0 s = some (b, s) ∧
    dlinfoTlsData .reference thread 3 s = some (c, s) ∧ ¬ (a = b ∧ a = wordOfInt (c + (0 : Nat))) := by
  obtain ⟨thread, s, dtv, reached, found, moduleId, allocated⟩ := moduleThenThread_run
  obtain ⟨a, b, c, first, second, third, -, -, different⟩ := tlsPaths_disagree
    TlsEnv.reference_lawful TlsState.initial_fresh reached found (by rw [moduleId]; decide)
    (by rw [moduleId]; exact allocated) 0
  exact ⟨thread, s, a, b, c, reached, first, second, third, different⟩

/-- The address of an initial and of a dynamic variable by `__tls_get_addr`, `tls_address` and
`dlinfo`: 8 bytes off in the first case, no block in the second. -/
theorem tlsPaths_initial_dynamic :
    ((do
      ModuleCall.register ⟨3, 8, 8, 0, 8⟩
      let thread ← createThread .reference none
      ModuleCall.register ⟨7, 40, 16, 0, 8⟩
      let _ ← getAddr .reference thread 2 true
      return thread : TlsM Nat) TlsState.initial).map (fun p =>
        [3, 7].map fun file =>
          [tlsGetAddr .reference p.1 (p.2.identities file).1 0,
            tlsAddress .reference p.1 file 0, dlinfoTlsData .reference p.1 file].map fun path =>
              (path p.2).map Prod.fst) =
      some [[some 5816, some 5824, some 5816], [some 8432, some 8432, some 0]] := by
  decide +kernel

end Luci
