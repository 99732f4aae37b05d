import Luci.Reference
import Luci.Proofs.SegmentContents

/-!
# What a mapped segment shows

`MemorySegment::map` has a mapping of the file, an anonymous and a shared one. The last two are
zeroed and the source is copied into them. The mapping of the file shows its bytes up to the end of
the segment, also where the segment is larger than its source.
-/

namespace Luci

open Exec VirtualMemory

variable {e : Env} {o : Object} {seg : MemorySegment} {s : Loader}

/-- The bytes of the target: the source, followed by zeros. -/
def MemorySegment.sourceByte (seg : MemorySegment) (o : Object) (k : Nat) : UInt8 :=
  if k < seg.sourceSize then o.elf.bytes (seg.sourceOffset + k) else 0

/-- The address space shows these bytes at the target. -/
def MemorySegment.ShowsBytes (seg : MemorySegment) (bytes : Nat → UInt8) (vm : Vm) : Prop :=
  ∀ k < seg.size, (vm.locate (seg.address + k)).map (fun p => vm.content p.1 p.2) = some (bytes k)

/-- The segment is mapped from the file: it is not copied, and there is something to map. -/
def MemorySegment.fileBacked (seg : MemorySegment) (o : Object) : Bool :=
  o.data.fd.isSome && 0 < seg.sourceSize &&
    seg.sourceOffset % VirtualMemory.pageSize = seg.address % VirtualMemory.pageSize &&
    !seg.writable && !seg.relro

/-- The segment does not alias a previous version, and its pages can be mapped. -/
structure MemorySegment.Mappable (e : Env) (o : Object) (seg : MemorySegment) (s : Loader) :
    Prop where
  works : ∀ tick, e.world.succeeds tick = true
  source : seg.sourceSize ≤ seg.size
  own : seg.fd = none
  first : seg.writable = true → s.useDataAlias o = true → s.filePrevious o.ref = none
  bounded : seg.Bounded
  free : s.vm.isFree seg.pageStart seg.pageSize = true

theorem showsBytes_of_page {vm vm' : Vm} {protection : Protection} {b : Backing}
    {bytes : Nat → UInt8} (bounded : seg.Bounded)
    (page : vm'.page = (vm.map seg.pageStart seg.pageSize protection b).page) :
    seg.ShowsBytes bytes vm' ↔
      ∀ k < seg.size, vm'.content b (seg.address - seg.pageStart + k) = bytes k := by
  have pages := address_in_pages seg bounded.fits
  refine forall₂_congr fun k lt => ?_
  have shown := (Vm.shows_map (pageStart_aligned seg) (pageSize_whole seg)).extends
    (.of_page page) (seg.address - seg.pageStart + k) (by omega)
  rw [Nat.zero_add, show seg.pageStart + (seg.address - seg.pageStart + k) = seg.address + k by omega]
    at shown
  rw [shown, Option.map_some, Option.some.injEq]

theorem MemorySegment.ShowsBytes.iff {vm : Vm} {bytes bytes' : Nat → UInt8}
    (shows_ : seg.ShowsBytes bytes vm) :
    seg.ShowsBytes bytes' vm ↔ ∀ k < seg.size, bytes k = bytes' k := by
  refine forall₂_congr fun k lt => ?_
  rw [shows_ k lt, Option.some.injEq]

namespace MemorySegment.Mappable

variable (mappable : seg.Mappable e o s)
include mappable

/-- A zeroed backing shows the source if it is copied there, or empty. -/
theorem place_zeroed {s1 : Loader} {b : Backing} {protection : Protection} {copy : Bool}
    (fd : Option Nat) (page : s1.vm.page = s.vm.page) (zero : ∀ i, s1.vm.content b i = 0)
    (write : copy → protection.write) (copied : copy ∨ seg.sourceSize = 0) :
    ∃ seg' s', ({ seg with fd := fd }).place e o protection b copy s1 = some ((true, seg'), s') ∧
      seg.ShowsBytes (seg.sourceByte o) s'.vm := by
  let own := { seg with fd := fd }
  have free : s1.vm.isFree own.pageStart own.pageSize := by
    unfold Vm.isFree
    rw [page]
    exact mappable.free
  have bounded : own.Bounded := mappable.bounded
  obtain ⟨s', placed, shown, -, content⟩ := place_works mappable.works free bounded
    mappable.source write
  refine ⟨_, s', placed, (showsBytes_of_page bounded shown).mpr fun k lt => ?_⟩
  rw [content]
  unfold overlay sourceByte
  by_cases inside : k < seg.sourceSize
  · have copies : copy := copied.resolve_right (by omega)
    rw [if_pos inside, if_pos copies, if_pos ⟨Nat.le_add_right _ _, Nat.add_lt_add_left inside _⟩,
      Nat.add_sub_cancel_left]
  · split
    · dsimp only
      rw [if_neg fun within => inside (Nat.lt_of_add_lt_add_left within.2), zero]
    · exact zero _

theorem map_shared (shared : (seg.writable && s.useDataAlias o)) :
    ∃ seg' s', seg.map e o s = some ((true, seg'), s') ∧
      seg.ShowsBytes (seg.sourceByte o) s'.vm := by
  obtain ⟨writable, alias_⟩ := Bool.and_eq_true_iff.mp shared
  obtain ⟨s1, called1, vm1⟩ := syscall_works mappable.works
  have opens : openDescriptor e s = some (some s1.fresh,
      { s1 with fresh := s1.fresh + 1, files := s1.files ++ [.opened s1.fresh] }) := by
    unfold openDescriptor
    rw [bind_of_eq called1]
    rfl
  obtain ⟨s2, called2, vm2⟩ := syscall_works mappable.works (s :=
    { s1 with fresh := s1.fresh + 1, files := s1.files ++ [.opened s1.fresh] })
  unfold MemorySegment.map
  rw [bind_of_eq (get_apply _)]
  rw [if_pos shared, mappable.own]
  dsimp only
  rw [mappable.first writable alias_, Option.isNone_none, require_true,
    bind_of_eq (pure_apply _ _), bind_of_eq opens]
  dsimp only
  rw [bind_of_eq called2, writable]
  refine mappable.place_zeroed _ (by rw [← vm1, ← vm2]; rfl) (fun i => ?_) (fun _ => ?_) (.inl rfl)
  · simp [Vm.newMemoryFile]
  · simp [Protection.union, Protection.writeOnly]

theorem map_anonymous (shared : ¬ (seg.writable && s.useDataAlias o))
    (anonymous : seg.fileBacked o = false) :
    ∃ seg' s', seg.map e o s = some ((true, seg'), s') ∧
      seg.ShowsBytes (seg.sourceByte o) s'.vm := by
  unfold MemorySegment.map
  rw [bind_of_eq (get_apply _)]
  generalize isCopy : (o.data.fd.isNone || decide (0 < seg.sourceSize) &&
    decide (seg.sourceOffset % VirtualMemory.pageSize ≠ seg.address % VirtualMemory.pageSize) ||
      seg.writable || seg.relro) = copy
  have copied : copy ∨ seg.sourceSize = 0 := by
    rcases Nat.eq_zero_or_pos seg.sourceSize with empty | some
    · exact .inr empty
    · rw [← isCopy]
      revert anonymous
      unfold fileBacked
      cases o.data.fd <;> cases seg.writable <;> cases seg.relro <;> simp +contextual [some]
  rw [if_neg shared, if_pos (by simpa using copied)]
  refine mappable.place_zeroed seg.fd rfl (fun i => ?_) (fun copies => ?_) copied
  · simp
  · rw [if_pos copies]
    simp [Protection.union, Protection.writeOnly]

theorem map_file (file : seg.fileBacked o) :
    ∃ seg' s', seg.map e o s = some ((true, seg'), s') ∧
      seg.ShowsBytes (fun k => o.elf.bytes (seg.sourceOffset + k)) s'.vm := by
  simp only [fileBacked, Bool.and_eq_true, decide_eq_true_eq, Bool.not_eq_true'] at file
  obtain ⟨⟨⟨⟨fd, some⟩, congruent⟩, unwritable⟩, relro⟩ := file
  have offset : seg.address % VirtualMemory.pageSize ≤ seg.sourceOffset :=
    congruent ▸ Nat.mod_le _ _
  have isCopy : (o.data.fd.isNone || decide (0 < seg.sourceSize) &&
      decide (seg.sourceOffset % VirtualMemory.pageSize ≠ seg.address % VirtualMemory.pageSize) ||
        seg.writable || seg.relro) = false := by
    simp [congruent, unwritable, relro, Option.isNone_eq_false_iff.mpr fd]
  unfold MemorySegment.map
  rw [bind_of_eq (get_apply _)]
  rw [isCopy, if_neg (by simp [unwritable]), if_neg (by simpa using Nat.pos_iff_ne_zero.mp some),
    decide_eq_true offset, require_true, bind_of_eq (pure_apply _ _), bind_of_eq (newBacking_eq _)]
  obtain ⟨s', placed, shown, -, content⟩ := place_works mappable.works
    (s := { s with vm := s.vm.withBacking _ }) mappable.free mappable.bounded mappable.source
    (fun wrong : false = true => by cases wrong)
  refine ⟨_, s', placed, (showsBytes_of_page mappable.bounded shown).mpr fun k lt => ?_⟩
  have start : seg.address - seg.pageStart = seg.address % VirtualMemory.pageSize :=
    Nat.sub_sub_self (Nat.mod_le _ _)
  rw [content, start]
  simp only [Bool.false_eq_true, if_false, Vm.withBacking, if_true]
  rw [← Nat.add_assoc, Nat.sub_add_cancel offset]

end MemorySegment.Mappable

/-- A segment of a file whose bytes are all 1. -/
def onesSegment (source size : Nat) : MemorySegment :=
  { MemorySegment.ofBss 0 size 0x1000 with sourceSize := source, protection := ⟨true, false, false⟩ }

/-- The file, with a descriptor. -/
def onesFile : Object :=
  .construct 1 0 .dynamic { Elf.empty .dyn with bytes := fun _ => 1 } { Data.none with fd := some 3 }

theorem onesSegment_mappable {source size : Nat} (smaller : source ≤ size)
    (bounded : (onesSegment source size).Bounded) :
    (onesSegment source size).Mappable Env.noFiles onesFile Loader.initial where
  works _ := rfl
  source := smaller
  own := rfl
  first := nofun
  bounded := bounded
  free := by simp [Vm.isFree, Loader.initial, Vm.empty]

end Luci
