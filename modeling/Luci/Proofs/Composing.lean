import Luci.Reference
import Luci.Proofs.SegmentContents

/-!
# What composing reports

`MemorySegment::compose` provides a writable view of a segment: the segment itself, or a back
buffer for its pages. The result is the address of the view, or the buffer plus the in-page part
of `target.offset`. The latter is not 0 without a buffer, unless the segment starts a page, and it
is the in-page part of the address only for an aligned base. A buffer is taken for a writable view
whenever there is one; `finalize` leaves one that cannot be written if it has set the protection of
the buffer and cannot move it.
-/

namespace Luci

open Exec VirtualMemory

variable {content : Nat → UInt8} {protection : Protection}

variable {e : Env} {o : Object} {seg seg' : MemorySegment} {s s' : Loader} {vm : Vm} {ok : Bool}
  {c : Nat}

/-- Where the bytes of the segment can be written, if they can. -/
def MemorySegment.view (seg : MemorySegment) : Option Nat :=
  if seg.buffer ≠ 0 then some (seg.buffer + (seg.address - seg.pageStart))
  else if seg.status = .mapped ∧ seg.effectiveProtection.write = true then some seg.address
  else none

/-- The pages of the segment are as it records them. -/
structure MemorySegment.Tracked (seg : MemorySegment) (vm : Vm) : Prop where
  mapped : seg.status = .mapped → ∃ b, vm.Shows seg.pageStart seg.pageSize b 0
  writable : seg.buffer = 0 → seg.status = .mapped → seg.effectiveProtection.write = true →
    vm.Writable seg.pageStart seg.pageSize

/-- The back buffer, if there is one, can be written. -/
def MemorySegment.WritableBuffer (seg : MemorySegment) (vm : Vm) : Prop :=
  seg.buffer ≠ 0 → vm.Writable seg.buffer seg.pageSize

/-- The result is 0 if the segment has no view afterwards, and otherwise the address of the view,
which can be written. -/
structure MemorySegment.Reports (seg seg' : MemorySegment) (vm : Vm) (c : Nat) : Prop where
  null : c = 0 ↔ seg'.view = none
  location : ∀ v, seg'.view = some v → c = v ∧ vm.Writable v seg.size

/-- The kernel maps at page boundaries, and never at 0. -/
def Env.MapsPages (e : Env) : Prop :=
  ∀ tick, e.world.mmapAddress tick % pageSize = 0 ∧ 0 < e.world.mmapAddress tick

theorem place_inv {b : Backing} {copy : Bool}
    (run : seg.place e o protection b copy s = some ((ok, seg'), s')) :
    ok = false ∧ seg' = seg ∨ ok ∧
      seg' = { seg with effectiveProtection := protection, status := .mapped } ∧
      s'.vm.page = (s.vm.map seg.pageStart seg.pageSize protection b).page := by
  unfold MemorySegment.place Exec.onlyIf copyBytes at run
  obtain ⟨mapped, s1, maps, run⟩ := bind_inv run
  rcases mmapFixed_inv maps with ⟨rfl, -⟩ | ⟨rfl, -, vm, -⟩
  · cases run
    exact .inl ⟨rfl, rfl⟩
  · obtain ⟨_, s2, copied, run⟩ := bind_inv run
    cases run
    refine .inr ⟨rfl, rfl, ?_⟩
    rw [← vm]
    split at copied
    · rw [bind_of_eq (get_apply s1)] at copied
      obtain ⟨vm2, written, copied⟩ := orAbort_bind_inv copied
      cases copied
      exact (Vm.writeBytes_stored _ _ written).page
    · cases copied
      rfl

/-- `map` fails and changes nothing but the descriptor, or the pages show a backing. -/
theorem map_inv (run : seg.map e o s = some ((ok, seg'), s')) : ∃ fd,
    ok = false ∧ seg' = { seg with fd := fd } ∨ ok ∧ ∃ protection b vm,
      seg' = { seg with fd := fd, effectiveProtection := protection, status := .mapped } ∧
      s'.vm.page = (Vm.map vm seg.pageStart seg.pageSize protection b).page := by
  have placed : ∀ fd {protection b copy s1},
      ({ seg with fd := fd }).place e o protection b copy s1 = some ((ok, seg'), s') → ∃ fd,
      ok = false ∧ seg' = { seg with fd := fd } ∨ ok ∧ ∃ protection b vm,
        seg' = { seg with fd := fd, effectiveProtection := protection, status := .mapped } ∧
        s'.vm.page = (Vm.map vm seg.pageStart seg.pageSize protection b).page := by
    intro fd protection b copy s1 run
    refine ⟨fd, (place_inv run).imp id fun ⟨done, isSegment, page⟩ => ?_⟩
    exact ⟨done, protection, b, s1.vm, isSegment, page⟩
  unfold MemorySegment.map at run
  rw [bind_of_eq (get_apply _)] at run
  split at run
  · cases isFd : seg.fd with
    | some fd =>
      rw [isFd] at run
      exact placed seg.fd run
    | none =>
      rw [isFd] at run
      obtain ⟨-, run⟩ := require_bind_inv run
      obtain ⟨fd, s1, -, run⟩ := bind_inv run
      cases fd with
      | none =>
        cases run
        exact ⟨_, .inl ⟨rfl, rfl⟩⟩
      | some fd =>
        obtain ⟨sized, s2, -, run⟩ := bind_inv run
        split at run
        · exact placed _ run
        · cases run
          exact ⟨_, .inl ⟨rfl, rfl⟩⟩
  · split at run
    · exact placed seg.fd run
    · obtain ⟨b, s1, -, run⟩ := bind_inv run
      exact placed seg.fd run

/-- The ways in which `compose` ends: nothing is mapped, the segment itself can be written, there is
a buffer, or no buffer could be mapped. -/
inductive MemorySegment.Composed (seg seg' : MemorySegment) (vm : Vm) (c : Nat) : Prop
  | unmapped (null : c = 0) (view : seg'.view = none)
  | inPlace (result : c = seg.address) (view : seg'.view = some seg.address)
    (writable : vm.Writable seg.address seg.size)
  | buffered (buffer : Nat) (positive : 0 < buffer)
    (result : c = buffer + seg.offset % VirtualMemory.pageSize)
    (view : seg'.view = some (buffer + (seg.address - seg.pageStart)))
    (writable : vm.Writable (buffer + (seg.address - seg.pageStart)) seg.size)
  | failed (result : c = seg.offset % VirtualMemory.pageSize) (view : seg'.view = none)

theorem writable_part {start : Nat} (fits : seg.Fits) (writable : vm.Writable start seg.pageSize) :
    vm.Writable (start + (seg.address - seg.pageStart)) seg.size := by
  intro k lt
  have pages := address_in_pages seg fits
  rw [Nat.add_assoc]
  exact writable _ (by omega)

theorem writable_target (fits : seg.Fits) (writable : vm.Writable seg.pageStart seg.pageSize) :
    vm.Writable seg.address seg.size := by
  have part := writable_part fits writable
  rwa [Nat.add_sub_cancel' (pageStart_le_address seg)] at part

theorem mmapAnywhere_inv {length : Nat} {found : Option Nat}
    (run : mmapAnywhere e length protection content s = some (found, s')) :
    ∀ start, found = some start → start = e.world.mmapAddress s.ticks ∧ ∃ vm b,
      s'.vm = Vm.map vm start length protection b := by
  unfold mmapAnywhere at run
  rw [bind_of_eq (get_apply s)] at run
  obtain ⟨b, s1, -, run⟩ := bind_inv run
  obtain ⟨mapped, s2, maps, run⟩ := bind_inv run
  rcases mmapFixed_inv maps with ⟨rfl, -⟩ | ⟨rfl, -, vm, -⟩
  · cases run
    exact nofun
  · cases run
    rintro start ⟨⟩
    exact ⟨rfl, _, b, vm⟩

/-- A segment that could not be made writable gets a buffer. -/
theorem composeBuffer_inv (pages : e.MapsPages) (fits : seg.Fits) (none : seg.buffer = 0)
    (unwritable : ¬ seg.effectiveProtection.write) (run : (do
      match ← mmapAnywhere e seg.pageSize ⟨true, true, false⟩ content with
      | some buffer =>
        return (buffer + seg.offset % VirtualMemory.pageSize, { seg with buffer := buffer })
      | .none => return (seg.offset % VirtualMemory.pageSize, seg) :
        LoaderM (Nat × MemorySegment)) s = some ((c, seg'), s')) :
    seg.Composed seg' s'.vm c := by
  obtain ⟨found, s1, maps, run⟩ := bind_inv run
  cases found with
  | none =>
    cases run
    refine .failed rfl ?_
    rw [MemorySegment.view, if_neg (not_not.mpr none), if_neg fun both => unwritable both.2]
  | some buffer =>
    obtain ⟨isStart, vm, b, isMap⟩ := mmapAnywhere_inv maps buffer rfl
    obtain ⟨aligned, positive⟩ := isStart ▸ pages s.ticks
    cases run
    refine .buffered buffer positive rfl ?_ (writable_part fits ?_)
    · rw [MemorySegment.view, if_pos (Nat.pos_iff_ne_zero.mp positive)]
      rfl
    · rw [isMap]
      exact Vm.writable_map aligned (pageSize_whole seg) rfl

theorem composeMapped_inv (pages : e.MapsPages) (fits : seg.Fits) (tracked : seg.Tracked s.vm)
    (isMapped : seg.status = .mapped) (none : seg.buffer = 0)
    (run : seg.composeMapped e s = some ((c, seg'), s')) : seg.Composed seg' s'.vm c := by
  unfold MemorySegment.composeMapped at run
  rw [bind_of_eq (get_apply _)] at run
  by_cases write : seg.effectiveProtection.write
  · rw [if_pos write] at run
    cases run
    refine .inPlace rfl ?_ (writable_target fits (tracked.writable none isMapped write))
    rw [MemorySegment.view, if_neg (not_not.mpr none), if_pos ⟨isMapped, write⟩]
  · rw [if_neg write] at run
    split at run
    · exact composeBuffer_inv pages fits none write run
    · obtain ⟨changed, s1, changes, run⟩ := bind_inv run
      rcases mprotect_inv changes with ⟨rfl, -⟩ | ⟨rfl, vm⟩
      · exact composeBuffer_inv pages fits none write run
      · cases run
        have writes : (seg.effectiveProtection.union .writeOnly).write := by
          simp [Protection.union, Protection.writeOnly]
        obtain ⟨b, shown⟩ := tracked.mapped isMapped
        refine .inPlace rfl ?_ (writable_target fits ?_)
        · rw [MemorySegment.view, if_neg (not_not.mpr none), if_pos ⟨isMapped, writes⟩]
          rfl
        · rw [vm]
          exact Vm.writable_protect shown (pageStart_aligned seg) (pageSize_whole seg) writes

theorem compose_inv (pages : e.MapsPages) (fits : seg.Fits) (tracked : seg.Tracked s.vm)
    (buffer : seg.WritableBuffer s.vm)
    (run : seg.compose e o s = some ((c, seg'), s')) : seg.Composed seg' s'.vm c := by
  unfold MemorySegment.compose at run
  by_cases some : seg.buffer ≠ 0
  · rw [if_pos some] at run
    cases run
    refine .buffered _ (Nat.pos_of_ne_zero some) rfl ?_ (writable_part fits (buffer some))
    rw [MemorySegment.view, if_pos some]
  · have none : seg.buffer = 0 := not_not.mp some
    rw [if_neg some] at run
    split at run
    · exact composeMapped_inv pages fits tracked ‹_› none run
    · rename_i unmapped
      obtain ⟨⟨ok, seg1⟩, s1, maps, run⟩ := bind_inv run
      obtain ⟨fd, ⟨rfl, rfl⟩ | ⟨rfl, protection, b, vm, rfl, page⟩⟩ := map_inv maps
      · cases run
        refine .unmapped rfl ?_
        rw [MemorySegment.view, if_neg (not_not.mpr none), if_neg fun both => unmapped both.1]
      · have tracked : MemorySegment.Tracked { seg with
            fd := fd
            effectiveProtection := protection
            status := .mapped } s1.vm := by
          refine ⟨fun _ => ⟨b, ?_⟩, fun _ _ write => ?_⟩
          · exact (Vm.shows_map (pageStart_aligned seg) (pageSize_whole seg)).extends (.of_page page)
          · exact writable_of_page page
              (Vm.writable_map (pageStart_aligned seg) (pageSize_whole seg) write)
        have fits : MemorySegment.Fits { seg with
            fd := fd
            effectiveProtection := protection
            status := .mapped } := fits
        cases composeMapped_inv pages fits tracked rfl none run with
        | unmapped null view => exact .unmapped null view
        | inPlace result view writable => exact .inPlace result view writable
        | buffered buffer positive result view writable =>
          exact .buffered buffer positive result view writable
        | failed result view => exact .failed result view

/-- `compose` and `compose_pointer` report for every segment at the place what they could provide,
whichever system calls fail. With `sound` only segments are meant whose buffer can be written. -/
structure ComposesAt (base offset size : Nat) (sound : Bool) : Prop where
  compose : ∀ (e : Env) (o : Object) (seg seg' : MemorySegment) (s s' : Loader) (c : Nat),
    e.MapsPages → seg.base = base → seg.offset = offset → seg.size = size → seg.Tracked s.vm →
    (sound = true → seg.WritableBuffer s.vm) →
    seg.compose e o s = some ((c, seg'), s') → seg.Reports seg' s'.vm c
  pointer : ∀ (e : Env) (o : Object) (seg : MemorySegment) (before after : List MemorySegment)
    (s s' : Loader) (ptr p : Nat), e.MapsPages → seg.base = base → seg.offset = offset →
    seg.size = size → seg.Tracked s.vm → (sound = true → seg.WritableBuffer s.vm) →
    s.memoryMap o.uid = before ++ seg :: after → seg.contains ptr = true →
    (∀ other ∈ before, other.contains ptr = false) → o.composePointer e ptr s = some (p, s') →
    ∃ seg', s'.memoryMap o.uid = before ++ seg' :: after ∧ (p = 0 ↔ seg'.view = none) ∧
      ∀ v, seg'.view = some v → p = v + (ptr - seg.address)

/-- `compose_pointer` composes the first segment that contains the address. -/
theorem composePointerIn_inv {ptr p : Nat} {after : List MemorySegment}
    (inside : seg.contains ptr) (before : List MemorySegment) :
    ∀ {done : List MemorySegment},
    (∀ other ∈ before, other.contains ptr = false) →
    composePointerIn e o ptr done (before ++ seg :: after) s = some (p, s') →
    ∃ c seg' s1, seg.compose e o s = some ((c, seg'), s1) ∧
      s' = s1.setMemoryMap o.uid (done ++ before ++ seg' :: after) ∧
      p = if c = 0 then 0 else c + ptr - seg.address := by
  induction before with
  | nil =>
    intro done _ run
    rw [List.nil_append, composePointerIn, if_pos inside] at run
    obtain ⟨⟨c, seg'⟩, s1, composed, run⟩ := bind_inv run
    cases run
    exact ⟨c, seg', s1, composed, by rw [List.append_nil], rfl⟩
  | cons other before ih =>
    intro done others run
    rw [List.cons_append, composePointerIn,
      if_neg (by simp [others other List.mem_cons_self])] at run
    obtain ⟨c, seg', s1, composed, isNext, isPointer⟩ :=
      ih (fun b member => others b (List.mem_cons_of_mem _ member)) run
    exact ⟨c, seg', s1, composed, by rw [isNext]; simp, isPointer⟩

theorem reports_of_composed (base : seg.base % pageSize = 0) (offset : seg.offset % pageSize = 0)
    (nonzero : seg.address ≠ 0) (composed : seg.Composed seg' vm c) : seg.Reports seg' vm c := by
  have start : seg.address - seg.pageStart = 0 := by
    unfold MemorySegment.pageStart MemorySegment.address pageSize at *
    omega
  cases composed with
  | unmapped null view => exact ⟨by simp [null, view], by simp [view]⟩
  | inPlace result view writable =>
    refine ⟨by simp [result, view, nonzero], fun v isView => ?_⟩
    obtain rfl : seg.address = v := by simpa [view] using isView
    exact ⟨result, writable⟩
  | buffered buffer positive result view writable =>
    rw [start] at view writable
    rw [offset] at result
    refine ⟨by simp [result, view]; omega, fun v isView => ?_⟩
    obtain rfl : buffer = v := by simpa [view] using isView
    exact ⟨result, writable⟩
  | failed result view => exact ⟨by simp [result, view, offset], by simp [view]⟩

/-- A mapped segment that cannot be written. -/
def mappedBytes (base offset size : Nat) : MemorySegment :=
  { MemorySegment.ofBss offset size base with status := .mapped }

/-- The same with a buffer on the second page of the address space. -/
def bufferedBytes (base offset size : Nat) : MemorySegment :=
  { mappedBytes base offset size with buffer := pageSize, status := .notMapped }

def byteFile : Object := .construct 1 0 .dynamic (Elf.empty .dyn) Data.none

/-- A started process with memory for the pages of the segment at `start`. -/
def started (seg : MemorySegment) (start : Nat) : Loader :=
  { Loader.initial with
    processStarted := true
    vm := Vm.empty.map start seg.pageSize ⟨true, true, false⟩ (.anonymous 0) }

/-- Every system call fails. -/
def Env.noCalls : Env :=
  { Env.noFiles with world := { Env.noFiles.world with succeeds := fun _ => false } }

theorem noCalls_mapsPages : Env.noCalls.MapsPages := by
  intro tick
  show 0x10000000 * (tick + 1) % 0x1000 = 0 ∧ 0 < 0x10000000 * (tick + 1)
  omega

theorem mappedBytes_tracked (base offset size : Nat) : (mappedBytes base offset size).Tracked
    (started (mappedBytes base offset size) (mappedBytes base offset size).pageStart).vm where
  mapped _ := ⟨_, Vm.shows_map (pageStart_aligned _) (pageSize_whole _)⟩
  writable _ _ := nofun

theorem bufferedBytes_tracked (base offset size : Nat) (vm : Vm) :
    (bufferedBytes base offset size).Tracked vm := ⟨nofun, nofun⟩

/-- A segment that is not at the start of a page is reported although there is no view. -/
theorem compose_without_view (base offset size : Nat) : ∃ seg' s',
    (mappedBytes base offset size).compose Env.noCalls byteFile
        (started (mappedBytes base offset size) (mappedBytes base offset size).pageStart) =
      some ((offset % pageSize, seg'), s') ∧ seg'.view = none :=
  ⟨_, _, rfl, rfl⟩

/-- The same segment with a buffer is reported at the start of a page. -/
theorem compose_buffer (base offset size : Nat) (s : Loader) :
    (bufferedBytes base offset size).compose Env.noCalls byteFile s =
      some ((pageSize + offset % pageSize, bufferedBytes base offset size), s) := rfl

/-- Only the pages of the segment are mapped, not what is behind them. -/
theorem not_writable_behind (seg : MemorySegment) :
    ¬ (started seg seg.pageStart).vm.writable (seg.pageStart + seg.pageSize) := by
  have outside : ¬ Vm.inRange seg.pageStart seg.pageSize
      ((seg.pageStart + seg.pageSize) / VirtualMemory.pageSize) = true := by
    rw [Vm.inRange_iff (pageStart_aligned seg) (pageSize_whole seg)]
    omega
  simp [started, Vm.writable, Vm.pageOf, Vm.map, outside, Vm.empty]

theorem not_writable_empty {start length : Nat} (some : length ≠ 0) :
    ¬ Vm.empty.Writable start length :=
  fun writable => Bool.false_ne_true (writable 0 (Nat.pos_of_ne_zero some))

section Necessary

variable {base offset size : Nat} {sound : Bool}

theorem ComposesAt.offset_aligned (composes : ComposesAt base offset size sound) :
    offset % pageSize = 0 := by
  obtain ⟨seg', s', run, none⟩ := compose_without_view base offset size
  exact (composes.compose _ _ _ _ _ _ _ noCalls_mapsPages rfl rfl rfl
    (mappedBytes_tracked base offset size) (fun _ wrong => absurd rfl wrong) run).null.mpr none

theorem ComposesAt.base_aligned (composes : ComposesAt base offset size sound) :
    base % pageSize = 0 := by
  have offsetAligned := composes.offset_aligned
  let seg := bufferedBytes base offset size
  have writable : seg.WritableBuffer (started seg pageSize).vm :=
    fun _ => Vm.writable_map (Nat.mod_self _) (pageSize_whole _) rfl
  have reports := composes.compose _ _ _ _ _ _ _ noCalls_mapsPages rfl rfl rfl
    (bufferedBytes_tracked base offset size _) (fun _ => writable)
    (compose_buffer base offset size (started seg pageSize))
  have location : pageSize + offset % pageSize = pageSize + ((base + offset) % 2 ^ 64 -
      ((base + offset) % 2 ^ 64 - (base + offset) % 2 ^ 64 % pageSize)) :=
    (reports.location _ rfl).1
  unfold pageSize at *
  omega

/-- A segment that is recorded as writable is its own view. -/
theorem ComposesAt.in_place (composes : ComposesAt base offset size sound) :
    (base + offset) % 2 ^ 64 ≠ 0 ∧ (started (mappedBytes base offset size)
      (mappedBytes base offset size).pageStart).vm.Writable ((base + offset) % 2 ^ 64) size := by
  let seg := { mappedBytes base offset size with effectiveProtection := ⟨true, true, false⟩ }
  have tracked : seg.Tracked (started seg seg.pageStart).vm :=
    ⟨fun _ => ⟨_, Vm.shows_map (pageStart_aligned _) (pageSize_whole _)⟩,
      fun _ _ _ => Vm.writable_map (pageStart_aligned _) (pageSize_whole _) rfl⟩
  have reports := composes.compose Env.noCalls byteFile seg seg _ _ _
    noCalls_mapsPages rfl rfl rfl tracked (fun _ wrong => absurd rfl wrong) rfl
  refine ⟨fun zero => ?_, (reports.location _ rfl).2⟩
  exact Option.some_ne_none _ (reports.null.mp zero)

theorem ComposesAt.nonzero (composes : ComposesAt base offset size sound) :
    (base + offset) % 2 ^ 64 ≠ 0 := (composes.in_place).1

/-- A size that wraps around leaves too few pages to the segment. -/
theorem ComposesAt.fits (composes : ComposesAt base offset size sound) :
    size + pageSize ≤ 2 ^ 64 := by
  by_contra wraps
  have baseAligned := composes.base_aligned
  have offsetAligned := composes.offset_aligned
  let seg := mappedBytes base offset size
  have start : seg.pageStart = (base + offset) % 2 ^ 64 := by
    show (base + offset) % 2 ^ 64 - (base + offset) % 2 ^ 64 % pageSize = (base + offset) % 2 ^ 64
    unfold pageSize at *
    omega
  have few : seg.pageSize < size := by
    have word := Nat.mod_lt (seg.address - seg.pageStart + seg.size + pageSize - 1)
      (show 0 < 2 ^ 64 by decide)
    unfold MemorySegment.pageSize
    unfold pageSize at *
    dsimp only
    omega
  have writable := composes.in_place.2 seg.pageSize few
  rw [← start] at writable
  exact not_writable_behind seg writable

theorem ComposesAt.sound_of (composes : ComposesAt base offset size sound) : size = 0 ∨ sound := by
  by_contra unsound
  rw [not_or] at unsound
  have reports := composes.compose _ _ _ _ _ _ _ noCalls_mapsPages rfl rfl rfl
    (bufferedBytes_tracked base offset size _) (fun isSound => absurd isSound unsound.2)
    (compose_buffer base offset size Loader.initial)
  exact not_writable_empty unsound.1 (reports.location _ rfl).2

end Necessary

end Luci
