import Mathlib.Algebra.Ring.Divisibility.Basic
import Luci.Tls

/-!
# The layout of the initial thread local storage

Modules that are added before the first thread is set up share one block below the
thread pointer. The file shows that their parts are separate and inside the
allocation, and tells for which sequences of modules they are aligned.
-/

namespace Luci

open Exec

/-- A call of `add_module`. -/
structure ModuleCall where
  object : Nat
  size : Nat
  align : Nat
  image : Nat
  imageSize : Nat
  deriving DecidableEq, Repr

/-- The state after a call. -/
def Tls.add (tls : Tls) (c : ModuleCall) : Tls :=
  (tls.addModule c.object c.size c.align c.image c.imageSize).2.2

/-- The state after a sequence of calls. -/
def Tls.addAll (tls : Tls) (calls : List ModuleCall) : Tls := calls.foldl Tls.add tls

/-- The block of a module at an address. -/
def TlsModule.block (m : TlsModule) (address : Nat) : Range := ⟨address, m.size⟩

/-! ## Separation -/

/-- The initial modules lie behind each other below the thread pointer. -/
structure Tls.Laid (tls : Tls) : Prop where
  align : 0 < tls.initialAlign
  count : tls.initialCount ≤ tls.modules.length
  whole : tls.gen = 0 → tls.initialCount = tls.modules.length
  bound : ∀ k m, k < tls.initialCount → tls.modules[k]? = some m →
    (m.size : Int) ≤ m.offset ∧ m.offset ≤ tls.initialSize
  order : ∀ j k m n, j < k → k < tls.initialCount → tls.modules[j]? = some m →
    tls.modules[k]? = some n → m.offset + n.size ≤ n.offset

variable {tls : Tls} {th : Thread} {s : TlsState} {c : ModuleCall} {m n : TlsModule}
  {calls : List ModuleCall} {a b j k mem thread : Nat}

theorem Tls.laid_initial : Tls.initial.Laid where
  align := Nat.one_pos
  count := Nat.le_refl 0
  whole _ := rfl
  bound k _ below := absurd below (Nat.not_lt_zero k)
  order _ k _ _ _ below := absurd below (Nat.not_lt_zero k)

/-- The largest alignment so far. -/
def raised (align : Nat) (c : ModuleCall) : Nat := if align < c.align then c.align else align

/-- The module that a call adds in an initial state. -/
def ModuleCall.toModule (c : ModuleCall) (offset : Int) : TlsModule :=
  ⟨c.object, c.size, c.align, c.image, c.imageSize, offset⟩

theorem Tls.add_initial (c : ModuleCall) (start : tls.gen = 0) :
    tls.add c =
      { tls with
        initialCount := tls.initialCount + 1
        initialAlign := raised tls.initialAlign c
        initialSize := tls.initialSize + alignUp c.size (raised tls.initialAlign c)
        modules := tls.modules ++ [c.toModule
          (tls.initialSize + alignUp c.size (raised tls.initialAlign c) : Nat)] } := by
  unfold Tls.add Tls.addModule
  rw [if_pos start]
  rfl

theorem Tls.add_dynamic (c : ModuleCall) (started : tls.gen ≠ 0) :
    tls.add c = { tls with modules := tls.modules ++ [c.toModule 0] } := by
  unfold Tls.add Tls.addModule
  rw [if_neg started]
  rfl

@[simp] theorem Tls.add_gen (tls : Tls) (c : ModuleCall) : (tls.add c).gen = tls.gen := by
  by_cases start : tls.gen = 0
  · rw [tls.add_initial c start]
  · rw [tls.add_dynamic c start]

@[simp] theorem Tls.add_length (tls : Tls) (c : ModuleCall) :
    (tls.add c).modules.length = tls.modules.length + 1 := by
  by_cases start : tls.gen = 0
  · simp [tls.add_initial c start]
  · simp [tls.add_dynamic c start]

theorem Tls.addAll_gen (calls : List ModuleCall) : ∀ tls : Tls, (tls.addAll calls).gen = tls.gen := by
  induction calls with
  | nil => intro tls; rfl
  | cons c rest ih => intro tls; exact (ih (tls.add c)).trans (tls.add_gen c)

theorem Tls.addAll_length (calls : List ModuleCall) : ∀ tls : Tls,
    (tls.addAll calls).modules.length = tls.modules.length + calls.length := by
  induction calls with
  | nil => intro tls; rfl
  | cons c rest ih =>
    intro tls
    show ((tls.add c).addAll rest).modules.length = _
    rw [ih, tls.add_length, List.length_cons]
    omega

theorem le_raised (align : Nat) (c : ModuleCall) : align ≤ raised align c := by
  unfold raised
  split
  · omega
  · exact Nat.le_refl align

theorem align_le_raised (align : Nat) (c : ModuleCall) : c.align ≤ raised align c := by
  unfold raised
  split
  · exact Nat.le_refl c.align
  · omega

theorem getElem?_concat_inv {α : Type} {l : List α} {a b : α} (found : (l ++ [a])[k]? = some b) :
    l[k]? = some b ∨ (k = l.length ∧ b = a) := by
  by_cases inside : k < l.length
  · rw [List.getElem?_append_left inside] at found
    exact .inl found
  · rw [List.getElem?_append_right (by omega)] at found
    have last : k - l.length = 0 := by
      by_contra behind
      rw [List.getElem?_eq_none (by simp; omega)] at found
      cases found
    rw [last, List.getElem?_cons_zero, Option.some.injEq] at found
    exact .inr ⟨by omega, found.symm⟩

theorem Tls.Laid.add (laid : tls.Laid) (c : ModuleCall) : (tls.add c).Laid := by
  by_cases start : tls.gen = 0
  · have whole := laid.whole start
    have room := le_alignUp c.size (raised tls.initialAlign c)
    rw [tls.add_initial c start]
    refine ⟨?_, ?_, ?_, ?_, ?_⟩
    · have := laid.align
      have := le_raised tls.initialAlign c
      show 0 < raised tls.initialAlign c
      omega
    · simp [whole]
    · simp [whole]
    · intro k m below found
      rcases getElem?_concat_inv found with old | ⟨rfl, rfl⟩
      · have inside := (List.getElem?_eq_some_iff.mp old).1
        obtain ⟨lower, upper⟩ := laid.bound k m (by omega) old
        push_cast
        omega
      · simp only [ModuleCall.toModule]
        push_cast
        omega
    · intro j k m n lt below first second
      rcases getElem?_concat_inv second with old | ⟨rfl, rfl⟩
      · have inside := (List.getElem?_eq_some_iff.mp old).1
        rw [List.getElem?_append_left (by omega)] at first
        exact laid.order j k m n lt (by omega) first old
      · rw [List.getElem?_append_left lt] at first
        have upper := (laid.bound j m (by omega) first).2
        simp only [ModuleCall.toModule]
        push_cast
        omega
  · have count := laid.count
    rw [tls.add_dynamic c start]
    refine ⟨laid.align, ?_, fun zero => absurd zero start, ?_, ?_⟩
    · simp
      omega
    · intro k m (below : k < tls.initialCount) found
      rw [List.getElem?_append_left (by omega)] at found
      exact laid.bound k m below found
    · intro j k m n lt (below : k < tls.initialCount) first second
      rw [List.getElem?_append_left (by omega)] at first second
      exact laid.order j k m n lt below first second

theorem Tls.Laid.addAll (calls : List ModuleCall) : ∀ {tls : Tls}, tls.Laid →
    (tls.addAll calls).Laid := by
  induction calls with
  | nil => intro tls laid; exact laid
  | cons c rest ih => intro tls laid; exact ih (laid.add c)

theorem Tls.Laid.raiseAlign (laid : tls.Laid) : tls.raiseAlign.Laid := by
  refine ⟨?_, laid.count, laid.whole, laid.bound, laid.order⟩
  have positive := laid.align
  unfold Tls.raiseAlign
  dsimp only
  split
  · omega
  · exact positive

/-- The address of an initial module is the thread pointer less its offset. -/
theorem TlsModule.address_eq (m : TlsModule) (lower : 0 ≤ m.offset) (upper : m.offset ≤ thread)
    (small : thread < 2 ^ 64) :
    (m.address thread : Int) = thread - m.offset := by
  unfold TlsModule.address wordOfInt
  omega

/-- The initial blocks of a thread are separate and belong to the allocation. -/
structure Tls.SeparateAt (tls : Tls) (thread threadSize : Nat) (allocation : Range) : Prop where
  apart : ∀ (i j : Nat) (m n : TlsModule), i ≠ j → tls.modules[i]? = some m → tls.modules[j]? = some n →
    (m.block (m.address thread)).Apart (n.block (n.address thread))
  below : ∀ m ∈ tls.modules, (m.block (m.address thread)).stop ≤ thread
  inside : ∀ m ∈ tls.modules, allocation.start ≤ (m.block (m.address thread)).start
  struct : thread + threadSize ≤ allocation.stop

section Blocks

variable {tls : Tls} (laid : tls.Laid) {thread : Nat} (room : tls.initialSize ≤ thread)
  (small : thread < 2 ^ 64)
include laid room small

/-- An initial block starts above the initial storage and ends at the thread pointer at last. -/
theorem Tls.Laid.block_bounds (below : k < tls.initialCount) (found : tls.modules[k]? = some m) :
    (m.address thread : Int) = thread - m.offset ∧ thread ≤ m.address thread + tls.initialSize ∧
      m.address thread + m.size ≤ thread := by
  obtain ⟨lower, upper⟩ := laid.bound k m below found
  have address := m.address_eq (by omega) (by omega) small
  refine ⟨address, ?_, ?_⟩
  · omega
  · omega

/-- A later initial block ends where an earlier one starts, or before. -/
theorem Tls.Laid.block_order (lt : j < k) (below : k < tls.initialCount)
    (first : tls.modules[j]? = some m) (second : tls.modules[k]? = some n) :
    n.address thread + n.size ≤ m.address thread := by
  have order := laid.order j k m n lt below first second
  have here := (laid.block_bounds room small (by omega) first).1
  have there := (laid.block_bounds room small below second).1
  omega

theorem Tls.Laid.block_apart (different : j ≠ k) (before : j < tls.initialCount)
    (below : k < tls.initialCount) (first : tls.modules[j]? = some m)
    (second : tls.modules[k]? = some n) :
    (m.block (m.address thread)).Apart (n.block (n.address thread)) := by
  rcases Nat.lt_or_gt_of_ne different with lt | gt
  · exact .inr (laid.block_order room small lt below first second)
  · exact .inl (laid.block_order room small gt before second first)

end Blocks

/-- The thread pointer leaves room for the initial storage below and for the thread behind. -/
theorem Tls.Laid.threadPointer_bounds (laid : tls.Laid) (t : TlsEnv) (mem : Nat) :
    mem + tls.initialSize ≤ tls.threadPointer mem ∧
      tls.threadPointer mem + t.threadSize < mem + tls.allocationSize t := by
  have lower := le_alignUp (mem + tls.initialSize + tlsSurplus) tls.initialAlign
  have upper := alignUp_lt laid.align (mem + tls.initialSize + tlsSurplus)
  unfold Tls.threadPointer Tls.allocationSize
  refine ⟨?_, ?_⟩
  · omega
  · omega

theorem Tls.Laid.separateAt (laid : tls.Laid) (start : tls.gen = 0) (t : TlsEnv)
    (fits : mem + tls.allocationSize t ≤ 2 ^ 64) :
    tls.SeparateAt (tls.threadPointer mem) t.threadSize ⟨mem, tls.allocationSize t⟩ := by
  obtain ⟨lower, upper⟩ := laid.threadPointer_bounds t mem
  have whole := laid.whole start
  have room : tls.initialSize ≤ tls.threadPointer mem := by omega
  have small : tls.threadPointer mem < 2 ^ 64 := by omega
  have bounds : ∀ m ∈ tls.modules,
      mem ≤ m.address (tls.threadPointer mem) ∧
        m.address (tls.threadPointer mem) + m.size ≤ tls.threadPointer mem := by
    intro m member
    obtain ⟨k, below, found⟩ := List.mem_iff_getElem.mp member
    have inside := laid.block_bounds room small (k := k) (by omega)
      (by rw [List.getElem?_eq_getElem below, found])
    exact ⟨by omega, inside.2.2⟩
  refine ⟨?_, fun m member => (bounds m member).2, fun m member => (bounds m member).1, ?_⟩
  · intro i j m n different first second
    have below := (List.getElem?_eq_some_iff.mp first).1
    have below' := (List.getElem?_eq_some_iff.mp second).1
    exact laid.block_apart room small different (by omega) (by omega) first second
  · exact Nat.le_of_lt upper

/-! ## Registration and allocation -/

/-- The registration that a call stands for. -/
def ModuleCall.register (c : ModuleCall) : TlsM Unit :=
  registerModule c.object c.size c.align c.image c.imageSize

/-- The assertions of `add_module` hold. -/
def ModuleCall.Valid (c : ModuleCall) : Prop := 0 < c.size ∧ c.imageSize ≤ c.size

instance (c : ModuleCall) : Decidable c.Valid := inferInstanceAs (Decidable (_ ∧ _))

theorem ModuleCall.register_apply (valid : c.Valid) (s : TlsState) :
    c.register s = some ((), { s with
      tls := s.tls.add c
      identities := fun i => if i = c.object then
          (s.tls.modules.length + 1,
            (s.tls.addModule c.object c.size c.align c.image c.imageSize).2.1)
        else s.identities i }) := by
  have moduleId : (s.tls.addModule c.object c.size c.align c.image c.imageSize).1 =
      s.tls.modules.length + 1 := by
    unfold Tls.addModule
    split <;> rfl
  unfold ModuleCall.register registerModule
  rw [decide_eq_true valid.1, require_true, bind_of_eq (pure_apply () s),
    bind_of_eq (get_apply s)]
  dsimp only
  rw [decide_eq_true valid.2, moduleId]
  rfl

theorem registerAll_run (calls : List ModuleCall) : ∀ (s : TlsState), (∀ c ∈ calls, c.Valid) →
    ∃ s', forEach ModuleCall.register calls s = some ((), s') ∧
      s'.tls = s.tls.addAll calls ∧ s'.heap = s.heap := by
  induction calls with
  | nil => intro s _; exact ⟨s, rfl, rfl, rfl⟩
  | cons c rest ih =>
    intro s valid
    obtain ⟨s1, first, tls1, heap1⟩ : ∃ s1, c.register s = some ((), s1) ∧
        s1.tls = s.tls.add c ∧ s1.heap = s.heap :=
      ⟨_, ModuleCall.register_apply (valid c List.mem_cons_self) s, rfl, rfl⟩
    obtain ⟨s', run, tls, heap⟩ := ih s1 fun b member => valid b (List.mem_cons_of_mem c member)
    refine ⟨s', ?_, ?_, ?_⟩
    · rw [forEach, bind_of_eq first]
      exact run
    · rw [tls, tls1]
      rfl
    · rw [heap, heap1]

/-- A block is added to the live ones. -/
def TlsState.withBlock (s : TlsState) (address size : Nat) : TlsState :=
  { s with heap := ⟨address, size⟩ :: s.heap }

theorem allocBlock_apply (t : TlsEnv) (size : Nat) (s : TlsState) :
    allocBlock t size s = match t.alloc s.heap size with
      | none => some (none, s)
      | some address => some (some address, s.withBlock address size) := by
  unfold allocBlock
  rw [bind_of_eq (get_apply s)]
  cases t.alloc s.heap size <;> rfl

theorem getThread_apply (found : s.thread thread = some th) :
    getThread thread s = some (th, s) := by
  unfold getThread
  rw [bind_of_eq (get_apply s), found]
  rfl

@[simp] theorem TlsState.setThread_same (s : TlsState) (thread : Nat) (th : Thread) :
    (s.setThread thread th).thread thread = some th :=
  if_pos rfl

theorem dtvAllocate_apply (t : TlsEnv) (found : s.thread thread = some th) (empty : th.dtv = none) :
    dtvAllocate t thread s = match t.alloc s.heap (dtvBytes s.tls.dtvSize) with
      | none => some (0, s)
      | some address => some (s.tls.dtvSize,
          (s.withBlock address (dtvBytes s.tls.dtvSize)).setThread thread
            { th with dtv := some (Dtv.zero.grow address s.tls.dtvSize) }) := by
  unfold dtvAllocate
  rw [bind_of_eq (get_apply s), bind_of_eq (getThread_apply found)]
  simp only [empty]
  rw [bind_apply, allocBlock_apply]
  cases t.alloc s.heap (dtvBytes s.tls.dtvSize) <;> rfl

/-- `dtv_allocate` leaves the modules alone, also when there is no memory for the vector. -/
theorem dtvAllocate_returns (t : TlsEnv) (found : s.thread thread = some th)
    (empty : th.dtv = none) :
    ∃ n s', dtvAllocate t thread s = some (n, s') ∧ s'.tls = s.tls := by
  rw [dtvAllocate_apply t found empty]
  cases t.alloc s.heap (dtvBytes s.tls.dtvSize) with
  | none => exact ⟨0, s, rfl, rfl⟩
  | some address => exact ⟨s.tls.dtvSize, _, rfl, rfl⟩

/-- The state with a new thread in an allocation at `mem`. -/
def TlsState.withThread (t : TlsEnv) (s : TlsState) (mem : Nat) : TlsState :=
  let tls := s.tls.raiseAlign
  (({ s with tls := tls } : TlsState).withBlock mem (tls.allocationSize t)).setThread
    (tls.threadPointer mem) ⟨mem, tls.initialSize + t.threadSize + tlsSurplus, none⟩

theorem newThread_apply (t : TlsEnv)
    (answer : t.alloc s.heap (s.tls.raiseAlign.allocationSize t) = some mem) :
    newThread t s = some (s.tls.raiseAlign.threadPointer mem, s.withThread t mem) := by
  unfold newThread
  rw [bind_of_eq (modify_apply _ s), bind_of_eq (get_apply _),
    bind_apply, allocBlock_apply]
  rw [answer]
  rfl

/-- The bytes a sequence of calls takes when `align` is the largest alignment before: each size
is rounded up to the largest alignment up to it. -/
def spaceOf (align : Nat) : List ModuleCall → Nat
  | [] => 0
  | c :: rest => alignUp c.size (raised align c) + spaceOf (raised align c) rest

/-- The largest alignment after a sequence of calls. -/
def alignOf (align : Nat) (calls : List ModuleCall) : Nat := calls.foldl raised align

theorem spaceOf_append (calls rest : List ModuleCall) : ∀ align,
    spaceOf align (calls ++ rest) = spaceOf align calls + spaceOf (alignOf align calls) rest := by
  induction calls with
  | nil => intro align; simp [spaceOf, alignOf]
  | cons c calls ih =>
    intro align
    simp only [List.cons_append, spaceOf, ih]
    rw [Nat.add_assoc]
    rfl

theorem Tls.addAll_initialAlign (calls : List ModuleCall) : ∀ {tls : Tls}, tls.gen = 0 →
    (tls.addAll calls).initialAlign = alignOf tls.initialAlign calls := by
  induction calls with
  | nil => intro tls _; rfl
  | cons c rest ih =>
    intro tls start
    show ((tls.add c).addAll rest).initialAlign = _
    rw [ih ((tls.add_gen c).trans start), tls.add_initial c start]
    rfl

theorem Tls.mem_addAll (calls : List ModuleCall) (m : TlsModule) : ∀ {tls : Tls}, tls.gen = 0 →
    (m ∈ (tls.addAll calls).modules ↔ m ∈ tls.modules ∨
      ∃ before c after, calls = before ++ c :: after ∧ m = c.toModule
        (tls.initialSize + spaceOf tls.initialAlign (before ++ [c]) : Nat)) := by
  induction calls with
  | nil =>
    simp [Tls.addAll]
  | cons c rest ih =>
    intro tls start
    show m ∈ ((tls.add c).addAll rest).modules ↔ _
    rw [ih ((tls.add_gen c).trans start), tls.add_initial c start]
    simp only [List.mem_append, List.mem_singleton, or_assoc]
    refine or_congr_right ?_
    constructor
    · rintro (rfl | ⟨before, c', after, rfl, rfl⟩)
      · exact ⟨[], c, rest, rfl, by simp [spaceOf]⟩
      · refine ⟨c :: before, c', after, rfl, ?_⟩
        rw [List.cons_append, spaceOf, Nat.add_assoc]
    · rintro ⟨before, c', after, split, rfl⟩
      cases before with
      | nil =>
        obtain ⟨rfl, rfl⟩ := List.cons.inj split
        exact .inl (by simp [spaceOf])
      | cons b before =>
        obtain ⟨rfl, rfl⟩ := List.cons.inj split
        refine .inr ⟨before, c', after, rfl, ?_⟩
        rw [List.cons_append, spaceOf, Nat.add_assoc]

/-- All alignments are powers of two. -/
def PowersOfTwo (calls : List ModuleCall) : Prop := ∀ c ∈ calls, ∃ k, c.align = 2 ^ k

theorem raised_power {align : Nat} (power : ∃ k, align = 2 ^ k) (power' : ∃ k, c.align = 2 ^ k) :
    ∃ k, raised align c = 2 ^ k := by
  unfold raised
  split
  · exact power'
  · exact power

theorem alignOf_power (calls : List ModuleCall) : ∀ {align : Nat}, (∃ k, align = 2 ^ k) →
    PowersOfTwo calls → ∃ k, alignOf align calls = 2 ^ k := by
  induction calls with
  | nil => intro align power _; exact power
  | cons c rest ih =>
    intro align power powers
    exact ih (raised_power power (powers c List.mem_cons_self)) fun b member =>
      powers b (List.mem_cons_of_mem c member)

theorem le_alignOf (calls : List ModuleCall) : ∀ align, align ≤ alignOf align calls := by
  induction calls with
  | nil => intro align; exact Nat.le_refl align
  | cons c rest ih => intro align; exact Nat.le_trans (le_raised align c) (ih _)

theorem align_le_alignOf (member : c ∈ calls) : ∀ align, c.align ≤ alignOf align calls := by
  induction calls with
  | nil => cases member
  | cons b rest ih =>
    intro align
    rcases List.mem_cons.mp member with rfl | later
    · exact Nat.le_trans (align_le_raised align c) (le_alignOf rest _)
    · exact ih later _

theorem power_dvd_power (le : a ≤ b) (power : ∃ k, a = 2 ^ k) (power' : ∃ k, b = 2 ^ k) :
    a ∣ b := by
  obtain ⟨k, rfl⟩ := power
  obtain ⟨l, rfl⟩ := power'
  exact Nat.pow_dvd_pow 2 ((Nat.pow_le_pow_iff_right (by omega)).mp le)

theorem dvd_alignUp_of_le (power : ∃ k, a = 2 ^ k) (power' : ∃ k, b = 2 ^ k) (le : a ≤ b)
    (size : Nat) : a ∣ alignUp size b := by
  have nonzero : b ≠ 0 := by
    obtain ⟨k, rfl⟩ := power'
    exact Nat.ne_of_gt (Nat.two_pow_pos k)
  exact Nat.dvd_trans (power_dvd_power le power power') (dvd_alignUp size b nonzero)

/-- A module and what follows it take a multiple of its alignment. -/
theorem dvd_spaceOf (power : ∃ k, a = 2 ^ k) (rest : List ModuleCall) :
    ∀ {align : Nat} {c : ModuleCall}, (∃ k, align = 2 ^ k) → PowersOfTwo (c :: rest) →
      a ≤ raised align c → a ∣ spaceOf align (c :: rest) := by
  induction rest with
  | nil =>
    intro align c power' powers le
    exact dvd_alignUp_of_le power (raised_power power' (powers c List.mem_cons_self)) le c.size
  | cons d rest ih =>
    intro align c power' powers le
    have power'' := raised_power power' (powers c List.mem_cons_self)
    refine Nat.dvd_add (dvd_alignUp_of_le power power'' le c.size) ?_
    refine ih power'' ?_ (Nat.le_trans le (le_raised _ d))
    intro b member
    exact powers b (List.mem_cons_of_mem c member)

/-- Whenever a module asks for a larger alignment than all earlier ones, these take a multiple
of it: their sizes, each rounded up to the largest alignment up to it. -/
def Fitting (calls : List ModuleCall) : Prop :=
  ∀ before c after, calls = before ++ c :: after → (∀ b ∈ before, b.align < c.align) →
    c.align ∣ spaceOf 1 before

/-- With the larger alignments in place, all modules follow a multiple of their alignment. -/
theorem Fitting.dvd (fitting : Fitting calls) (powers : PowersOfTwo calls)
    {before after : List ModuleCall} (split : calls = before ++ c :: after) :
    c.align ∣ spaceOf 1 before := by
  by_cases largest : ∀ b ∈ before, b.align < c.align
  · exact fitting before c after split largest
  · -- the first module with at least this alignment is a largest one when it is added
    push Not at largest
    obtain ⟨b, member, le⟩ := largest
    obtain ⟨first, found⟩ : ∃ first, before.find? (fun b => c.align ≤ b.align) = some first :=
      Option.isSome_iff_exists.mp (List.find?_isSome.mpr ⟨b, member, decide_eq_true le⟩)
    obtain ⟨large, earlier, later, rfl, small⟩ := List.find?_eq_some_iff_append.mp found
    have large : c.align ≤ first.align := of_decide_eq_true large
    have small : ∀ b ∈ earlier, b.align < first.align := by
      intro b member
      have less := small b member
      simp only [Bool.not_eq_true', decide_eq_false_iff_not, Nat.not_le] at less
      omega
    have power : ∃ k, c.align = 2 ^ k := powers c (by simp [split])
    have power' : ∃ k, first.align = 2 ^ k := powers first (by simp [split])
    have start : c.align ∣ spaceOf 1 earlier :=
      Nat.dvd_trans (power_dvd_power large power power')
        (fitting earlier first (later ++ c :: after) (by simp [split]) small)
    have powers' : PowersOfTwo earlier := by
      intro b member
      exact powers b (by simp [split, member])
    have rest : c.align ∣ spaceOf (alignOf 1 earlier) (first :: later) := by
      refine dvd_spaceOf power later (alignOf_power earlier ⟨0, rfl⟩ powers') ?_
        (Nat.le_trans large (align_le_raised _ first))
      intro b member
      refine powers b ?_
      rw [split]
      simp only [List.mem_append, List.mem_cons] at member ⊢
      tauto
    rw [spaceOf_append]
    exact Nat.dvd_add start rest

/-- The initial blocks are aligned exactly if each module with a larger alignment than all
before it comes after a multiple of it. -/
theorem initialBlocks_aligned_iff (calls : List ModuleCall) (powers : PowersOfTwo calls) (tp : Nat)
    (multiple : (Tls.initial.addAll calls).initialAlign ∣ tp) :
    (∀ m ∈ (Tls.initial.addAll calls).modules, (m.align : Int) ∣ tp - m.offset) ↔
      Fitting calls := by
  have start : Tls.initial.gen = 0 := rfl
  rw [Tls.addAll_initialAlign calls start] at multiple
  -- a block is aligned if the modules before it take a multiple of its alignment
  have each : ∀ before c after, calls = before ++ c :: after →
      (((c.align : Int) ∣ tp - (0 + spaceOf 1 (before ++ [c]) : Nat)) ↔
        c.align ∣ spaceOf 1 before) := by
    intro before c after split
    have member : c ∈ calls := by simp [split]
    have pointer : c.align ∣ tp := by
      refine Nat.dvd_trans (power_dvd_power (align_le_alignOf member 1) (powers c member) ?_) multiple
      exact alignOf_power calls ⟨0, rfl⟩ powers
    have last : c.align ∣ spaceOf (alignOf 1 before) [c] := by
      refine dvd_spaceOf (powers c member) [] (alignOf_power before ⟨0, rfl⟩ ?_) ?_
        (align_le_raised _ c)
      · intro b earlier
        exact powers b (by simp [split, earlier])
      · intro b same
        rw [List.mem_singleton.mp same]
        exact powers c member
    rw [Nat.zero_add, spaceOf_append, dvd_sub_right (Int.natCast_dvd_natCast.mpr pointer),
      Int.natCast_dvd_natCast, Nat.dvd_add_left last]
  constructor
  · intro aligned before c after split _
    refine (each before c after split).mp (aligned (c.toModule _) ?_)
    exact (Tls.mem_addAll calls _ start).mpr (Or.inr ⟨before, c, after, split, rfl⟩)
  · intro fitting m member
    rcases (Tls.mem_addAll calls m start).mp member with old | ⟨before, c, after, split, rfl⟩
    · cases old
    · exact (each before c after split).mpr (fitting.dvd powers split)

/-- A module of alignment 8 behind one of the same alignment. -/
theorem initialBlocks_aligned_iff_two :
    PowersOfTwo [⟨0, 4, 8, 0, 4⟩, ⟨1, 16, 8, 0, 0⟩] ∧ Fitting [⟨0, 4, 8, 0, 4⟩, ⟨1, 16, 8, 0, 0⟩] ∧
      ∀ m ∈ (Tls.initial.addAll [⟨0, 4, 8, 0, 4⟩, ⟨1, 16, 8, 0, 0⟩]).modules,
        (m.align : Int) ∣ (0x2000 : Nat) - m.offset := by
  have powers : PowersOfTwo [⟨0, 4, 8, 0, 4⟩, ⟨1, 16, 8, 0, 0⟩] := by
    intro c member
    simp only [List.mem_cons, List.not_mem_nil, or_false] at member
    rcases member with rfl | rfl
    · exact ⟨3, rfl⟩
    · exact ⟨3, rfl⟩
  have fitting : Fitting [⟨0, 4, 8, 0, 4⟩, ⟨1, 16, 8, 0, 0⟩] := by
    intro before c after split small
    rcases before with _ | ⟨b, _ | ⟨d, before⟩⟩
    · exact Nat.dvd_zero c.align
    · simp only [List.cons_append, List.nil_append, List.cons.injEq] at split
      obtain ⟨rfl, rfl, rfl⟩ := split
      exact absurd (small _ List.mem_cons_self) (by decide)
    · simp at split
  exact ⟨powers, fitting, (initialBlocks_aligned_iff _ powers 0x2000 (by decide)).mpr fitting⟩

/-- A byte without alignment before a block of 16 bytes: the second block is not aligned. -/
theorem initialBlocks_misaligned :
    PowersOfTwo [⟨0, 1, 1, 0, 1⟩, ⟨1, 16, 16, 0, 16⟩] ∧
      (Tls.initial.addAll [⟨0, 1, 1, 0, 1⟩, ⟨1, 16, 16, 0, 16⟩]).initialAlign ∣ 0x2000 ∧
      ∃ m ∈ (Tls.initial.addAll [⟨0, 1, 1, 0, 1⟩, ⟨1, 16, 16, 0, 16⟩]).modules,
        ¬ (m.align : Int) ∣ (0x2000 : Nat) - m.offset := by
  refine ⟨?_, by decide, by decide⟩
  intro c member
  simp only [List.mem_cons, List.not_mem_nil, or_false] at member
  rcases member with rfl | rfl
  · exact ⟨0, rfl⟩
  · exact ⟨4, rfl⟩

end Luci
