import Luci.Proofs.SegmentContents
import Luci.Reference

/-!
# The life of a segment

Any sequence of operations on a segment that is not writable, from its mapping on. Its contents
are kept with two exceptions: `compose` does not find the pages of a segment that was disabled and
has no buffer anymore, and `disable` forgets a buffer with pending changes if the segment is
private already.
-/

namespace Luci

open Exec VirtualMemory Relation

variable {ok : Bool} {t : Backing} {st : SegmentState} {operation : SegmentOperation}

/-! ## Whole lives -/

namespace SegmentState

/-- System calls succeed, and there is an unused range for a buffer. -/
structure Kernel (e : Env) (st : SegmentState) : Prop where
  works : ∀ tick, e.world.succeeds tick = true
  finds : Finds e st.memory.loader.vm st.seg.pageSize

/-- Writes are to a mapped segment and stay in it. -/
def InBounds (st : SegmentState) : SegmentOperation → Prop
  | .compose offset n _ => st.seg.status ≠ .notMapped ∧ offset + n ≤ st.seg.size
  | _ => True

/-- The buffer and the pages have the same contents. -/
def Agrees (st : SegmentState) : Prop :=
  ∀ i < st.seg.size, st.memory.loader.snapshot st.seg.address i =
    st.memory.loader.snapshot (Alive.place st.seg) i

/-- `compose` has a buffer or a segment that was never disabled, and `disable` forgets no changes. -/
def Careful (st : SegmentState) : SegmentOperation → Prop
  | .compose _ _ _ => st.seg.buffer ≠ 0 ∨ st.seg.status = .mapped
  | .disable => st.seg.status ≠ .inactive → st.seg.privanon = true → st.seg.buffer ≠ 0 → st.Agrees
  | _ => True

/-- An operation under a condition. -/
def Step (o : Object) (allowed : SegmentState → SegmentOperation → Prop) (st st' : SegmentState) :
    Prop :=
  ∃ e operation ok, Kernel e st ∧ st.InBounds operation ∧ allowed st operation ∧
    st.perform e o operation = some (ok, st')

/-- The contents can be seen. -/
def Restored (st : SegmentState) : Prop :=
  ∀ i < st.seg.size, st.memory.visible (st.seg.address + i) = some (st.contents i)

variable {e : Env} {o : Object} {st st' : SegmentState}

theorem apply_eq {x : MemoryM (Bool × MemorySegment)} {contents : Bool → Memory → Nat → UInt8}
    {seg : MemorySegment} {m : Memory} (run : x st.memory = some ((ok, seg), m)) :
    st.apply x contents = some (ok, ⟨m, seg, contents ok m⟩) := by
  unfold apply
  rw [run]
  rfl

/-- A state in a life: mapped with its contents, or not mapped. -/
def Valid (st : SegmentState) : Prop := (∃ t, Alive st t) ∨ Gone st

theorem perform_compose (alive : Alive st t) (kernel : Kernel e st) {offset n : Nat}
    (bytes : Nat → UInt8) (fits : offset + n ≤ st.seg.size)
    (usable : st.seg.buffer ≠ 0 ∨ st.seg.status = .mapped) :
    ∃ st', st.perform e o (.compose offset n bytes) = some (true, st') ∧ Alive st' t := by
  obtain ⟨seg1, s1, composed, nonzero, place, -, writes, alive1⟩ :=
    alive.compose kernel.works kernel.finds usable (o := o)
  obtain ⟨s2, written, alive2⟩ := alive1.write bytes (place.size ▸ fits) writes
  have run : st.seg.composeWrite e o offset n bytes st.memory.loader = some ((true, seg1), s2) := by
    unfold MemorySegment.composeWrite
    rw [bind_of_eq composed]
    dsimp only
    rw [Exec.ite_apply, if_neg nonzero, bind_of_eq written]
    rfl
  refine ⟨⟨{ st.memory with loader := s2 }, seg1, overlay st.contents offset n bytes⟩, ?_, alive2⟩
  rw [perform, apply_eq (Alive.inMemory_eq run)]
  rfl

theorem perform_finalize (alive : Alive st t) (kernel : Kernel e st) :
    ∃ st' t', st.perform e o .finalize = some (true, st') ∧ Alive st' t' ∧
      (st.seg.status ≠ .inactive → st'.Restored) := by
  by_cases active : st.seg.status = .inactive
  · refine ⟨st, t, ?_, alive, fun isActive => absurd active isActive⟩
    have run : st.seg.finalize e false st.memory.loader =
        some ((true, st.seg), st.memory.loader) := by
      unfold MemorySegment.finalize
      rw [Exec.ite_apply, if_pos (by simp [active])]
      rfl
    rw [perform, apply_eq (Alive.inMemory_eq run)]
  · obtain ⟨seg', s', t', run, -, none, alive'⟩ :=
      alive.finalize kernel.works false (.inr active)
    refine ⟨_, t', ?_, alive', fun _ => alive'.visible none⟩
    rw [perform, apply_eq (Alive.inMemory_eq run)]

theorem perform_enable (alive : Alive st t) (kernel : Kernel e st) :
    ∃ ok st' t', st.perform e o .enable = some (ok, st') ∧ Alive st' t' ∧
      (st.seg.status = .inactive → st'.Restored) := by
  obtain ⟨ok, seg', s', t', run, alive', restored⟩ := alive.enable kernel.works
  refine ⟨ok, ⟨{ st.memory with loader := s' }, seg', st.contents⟩, t', ?_, alive',
    fun inactive => alive'.visible (restored inactive)⟩
  rw [perform, apply_eq (Alive.inMemory_eq run)]

theorem perform_access (alive : Alive st t) (kernel : Kernel e st) :
    ∃ st', st.perform e o .access = some (true, st') ∧ Alive st' t ∧
      (st.seg.status = .inactive → st'.Restored) := by
  obtain ⟨seg', m', run, alive', restored⟩ := alive.access kernel.works (o := o)
  refine ⟨⟨m', seg', st.contents⟩, ?_, alive', restored⟩
  rw [perform, apply_eq run]

theorem Agrees.stores (agrees : st.Agrees) (alive : Alive st t) (some : st.seg.buffer ≠ 0) :
    Stores st.memory.loader.vm t st.seg st.contents := by
  intro i lt
  have pages := address_in_pages st.seg alive.fixed.bounded.fits
  obtain ⟨b, buffered⟩ := alive.buffered some
  have own := alive.target.shown (st.seg.address - st.seg.pageStart + i) (by omega)
  have other := buffered.located.shown (st.seg.address - st.seg.pageStart + i) (by omega)
  rw [Nat.zero_add, show st.seg.pageStart + (st.seg.address - st.seg.pageStart + i) =
    st.seg.address + i by omega] at own
  rw [Nat.zero_add, ← Nat.add_assoc] at other
  have same := agrees i lt
  unfold Loader.snapshot Alive.place at same
  rw [if_neg some, own, other] at same
  dsimp only at same
  rw [same]
  exact buffered.stores i lt

theorem perform_start (alive : Alive st t) :
    ∃ st', st.perform e o .start = some (true, st') ∧ Alive st' t := by
  have kept : Retains st.memory.loader.vm { st.memory.loader with processStarted := true }.vm :=
    ⟨.of_page rfl, le_rfl, fun _ _ => rfl⟩
  exact ⟨_, rfl, alive.retains kept fun _ writable => writable⟩

/-- Operations on a mapped segment keep it and its contents, or unmap it. -/
theorem Step.alive (alive : Alive st t) (kernel : Kernel e st) (bounds : st.InBounds operation)
    (careful : st.Careful operation) (run : st.perform e o operation = some (ok, st')) :
    st'.Valid := by
  cases operation with
  | map =>
    obtain ⟨s', mapped, alive'⟩ := alive.map kernel.works (o := o)
    rw [perform, apply_eq (Alive.inMemory_eq mapped)] at run
    cases run
    exact .inl ⟨t, alive'⟩
  | compose offset n bytes =>
    obtain ⟨st1, performed, alive'⟩ := perform_compose alive kernel bytes bounds.2 careful (o := o)
    cases performed.symm.trans run
    exact .inl ⟨t, alive'⟩
  | finalize =>
    obtain ⟨st1, t', performed, alive', -⟩ := perform_finalize alive kernel (o := o)
    cases performed.symm.trans run
    exact .inl ⟨t', alive'⟩
  | disable =>
    obtain ⟨ok, seg', m', t', disabled, alive'⟩ := alive.disable kernel.works kernel.finds
      (o := o) fun active isPrivate some => (careful active isPrivate some).stores alive some
    rw [perform, apply_eq disabled] at run
    cases run
    exact .inl ⟨t', alive'⟩
  | access =>
    obtain ⟨st1, performed, alive', -⟩ := perform_access alive kernel (o := o)
    cases performed.symm.trans run
    exact .inl ⟨t, alive'⟩
  | enable =>
    obtain ⟨ok, st1, t', performed, alive', -⟩ := perform_enable alive kernel (o := o)
    cases performed.symm.trans run
    exact .inl ⟨t', alive'⟩
  | unmap =>
    obtain ⟨seg', s', unmapped, gone⟩ := alive.unmap kernel.works
    rw [perform, apply_eq (Alive.inMemory_eq unmapped)] at run
    cases run
    exact .inr gone
  | start =>
    obtain ⟨st1, performed, alive'⟩ := perform_start alive (e := e) (o := o)
    cases performed.symm.trans run
    exact .inl ⟨t, alive'⟩

/-- Operations on a segment that is not mapped do nothing, or map it. -/
theorem Step.gone (gone : Gone st) (kernel : Kernel e st) (bounds : st.InBounds operation)
    (run : st.perform e o operation = some (ok, st')) : st'.Valid := by
  have unmapped := gone.unmapped
  cases operation with
  | map =>
    obtain ⟨seg', s', t, mapped, alive⟩ := gone.map kernel.works (o := o)
    rw [perform, apply_eq (Alive.inMemory_eq mapped)] at run
    cases run
    exact .inl ⟨t, alive⟩
  | compose offset n bytes => exact absurd unmapped bounds.1
  | finalize =>
    have refused : st.seg.finalize e false st.memory.loader =
        some ((false, st.seg), st.memory.loader) := by
      unfold MemorySegment.finalize
      rw [Exec.ite_apply, if_neg (by simp [unmapped]), Exec.ite_apply,
        if_neg (not_not.mpr gone.buffer), Exec.ite_apply, if_pos unmapped]
      rfl
    rw [perform, apply_eq (Alive.inMemory_eq refused)] at run
    cases run
    exact .inr gone
  | disable =>
    have refused : st.seg.disable e o st.memory = some ((false, st.seg), st.memory) := by
      unfold MemorySegment.disable
      rw [Exec.ite_apply, if_pos unmapped]
      rfl
    rw [perform, apply_eq refused] at run
    cases run
    exact .inr gone
  | access =>
    -- the access is a fault
    have pages := address_in_pages st.seg gone.fixed.bounded.fits
    have size := gone.fixed.size
    have inside : Vm.inRange st.seg.pageStart st.seg.pageSize (st.seg.address / pageSize) :=
      (Vm.inRange_iff (pageStart_aligned st.seg) (pageSize_whole st.seg)).mpr ⟨pages.1, by omega⟩
    have fault : st.memory.loader.vm.locate st.seg.address = none := by
      unfold Vm.locate Vm.pageOf
      rw [Vm.free_of_isFree gone.free _ inside]
      rfl
    have faults : st.seg.access e o st.memory = none := by
      unfold MemorySegment.access
      rw [bind_of_eq (get_apply _), fault]
      rfl
    rw [perform, apply, faults] at run
    cases run
  | enable =>
    have refused : st.seg.enable e st.memory.loader = some ((false, st.seg), st.memory.loader) := by
      unfold MemorySegment.enable
      rw [Exec.ite_apply, if_pos (by simp [unmapped])]
      rfl
    rw [perform, apply_eq (Alive.inMemory_eq refused)] at run
    cases run
    exact .inr gone
  | unmap =>
    have refused : st.seg.unmap e st.memory.loader = some ((false, st.seg), st.memory.loader) := by
      unfold MemorySegment.unmap
      rw [Exec.ite_apply, if_pos unmapped]
      rfl
    rw [perform, apply_eq (Alive.inMemory_eq refused)] at run
    cases run
    exact .inr gone
  | start =>
    rw [perform] at run
    cases run
    exact .inr ⟨gone.fixed, unmapped, gone.buffer, gone.known, gone.free⟩

theorem valid_of_run {st0 : SegmentState} (gone : Gone st0)
    (run : ReflTransGen (Step o Careful) st0 st) : st.Valid := by
  induction run with
  | refl => exact .inr gone
  | tail _ step ih =>
    obtain ⟨e, operation, ok, kernel, bounds, careful, performed⟩ := step
    rcases ih with ⟨t, alive⟩ | gone
    · exact Step.alive alive kernel bounds careful performed
    · exact Step.gone gone kernel bounds performed

end SegmentState

/-! ## Two lives that go wrong -/

/-- The kernel offers this address for a buffer. -/
def kernelAt (start : Nat) : Env :=
  Env.noFiles.withWorld { Env.noFiles.world with mmapAddress := fun _ => start }

/-- A segment with 16 bytes of code, not mapped yet. -/
def MemorySegment.code : MemorySegment where
  sourceOffset := 0
  sourceSize := 16
  base := 65536
  offset := 0
  size := 16
  protection := ⟨true, false, true⟩
  effectiveProtection := .none
  fd := none
  privanon := false
  relro := false
  status := .notMapped
  buffer := 0

/-- The library that the segment belongs to; its file is closed. -/
def codeObject : Object := Object.construct 1 0 .dynamic (Elf.sharedObject []) Data.none

namespace SegmentState

/-- Before the segment is mapped. -/
def initial : SegmentState := ⟨⟨Loader.initial, []⟩, .code, fun _ => 0⟩

theorem gone_initial : Gone initial where
  fixed := ⟨rfl, rfl, by decide, by decide, by decide, by decide⟩
  unmapped := rfl
  buffer := rfl
  known := by simp [initial]
  free := by decide

instance (st : SegmentState) (operation : SegmentOperation) : Decidable (st.InBounds operation) := by
  cases operation <;> unfold InBounds <;> infer_instance

/-- One operation after the other as far as they are allowed, each with an unused address for a
buffer. -/
def performAll (o : Object) (allowed : SegmentState → SegmentOperation → Bool) :
    List (Nat × SegmentOperation) → SegmentState → Option SegmentState
  | [], st => some st
  | (start, operation) :: rest, st =>
    if start % pageSize = 0 ∧ 0 < start ∧ start + st.seg.pageSize ≤ userLimit ∧
        st.memory.loader.vm.isFree start st.seg.pageSize = true ∧ st.InBounds operation ∧
        allowed st operation = true then do
      let (_, st) ← st.perform (kernelAt start) o operation
      performAll o allowed rest st
    else none

theorem run_of_performAll {o : Object} {allowed : SegmentState → SegmentOperation → Bool}
    {P : SegmentState → SegmentOperation → Prop} (meets : ∀ st op, allowed st op = true → P st op)
    (operations : List (Nat × SegmentOperation)) {st st' : SegmentState}
    (performed : performAll o allowed operations st = some st') : ReflTransGen (Step o P) st st' := by
  induction operations generalizing st with
  | nil =>
    cases performed
    exact .refl
  | cons entry rest ih =>
    unfold performAll at performed
    obtain ⟨⟨aligned, positive, limit, free, bounds, isAllowed⟩, performed⟩ :=
      Option.ite_none_right_eq_some.mp performed
    obtain ⟨⟨ok, st1⟩, first, others⟩ := Option.bind_eq_some_iff.mp performed
    have kernel : Kernel (kernelAt entry.1) st :=
      ⟨fun _ => rfl, fun _ => aligned, fun _ => positive, fun _ => limit, fun _ => free⟩
    exact .head ⟨kernelAt entry.1, entry.2, ok, kernel, bounds, meets _ _ isAllowed, first⟩
      (ih others)

/-- Map, disable and enable a segment of a running program. -/
def enabled : List (Nat × SegmentOperation) :=
  [(2 ^ 20, .map), (2 ^ 20, .finalize), (2 ^ 20, .start), (2 ^ 20, .disable), (2 ^ 21, .enable)]

/-- Write 1 and then 2, and disable the segment before the second change is finalized. -/
def pending : List (Nat × SegmentOperation) :=
  [(2 ^ 20, .map), (2 ^ 20, .finalize), (2 ^ 20, .start), (2 ^ 20, .compose 0 1 fun _ => 1),
    (2 ^ 21, .finalize), (2 ^ 20, .compose 0 1 fun _ => 2), (2 ^ 21, .disable)]

theorem kernel_kernelAt {start : Nat} (aligned : start % pageSize = 0) (positive : 0 < start)
    (limit : start + st.seg.pageSize ≤ userLimit)
    (free : st.memory.loader.vm.isFree start st.seg.pageSize) : Kernel (kernelAt start) st :=
  ⟨fun _ => rfl, fun _ => aligned, fun _ => positive, fun _ => limit, fun _ => free⟩

/-- An operation is careful, as can be seen without looking at the contents. -/
def carefully (st : SegmentState) : SegmentOperation → Bool
  | .compose _ _ _ => st.seg.buffer ≠ 0 || st.seg.status = .mapped
  | .disable => st.seg.buffer = 0
  | _ => true

theorem careful_of_carefully (st : SegmentState) (operation : SegmentOperation)
    (allowed : carefully st operation = true) : Careful st operation := by
  cases operation <;> simp_all [carefully, Careful]

/-- Write twice to a segment of a running program and disable it. -/
def written : List (Nat × SegmentOperation) :=
  [(2 ^ 20, .map), (2 ^ 20, .finalize), (2 ^ 20, .start), (2 ^ 20, .compose 0 2 fun _ => 1),
    (2 ^ 21, .finalize), (2 ^ 21, .compose 1 3 fun _ => 2), (2 ^ 22, .finalize), (2 ^ 22, .disable)]

end SegmentState

end Luci
