import Luci.Lifecycle
import Luci.Proofs.Mapping

/-!
# The contents of a segment

Between mapping and unmapping, the contents of a segment that is not writable are in its back
buffer if it has one, and on its own pages otherwise (`Alive`). What each operation does to such
a segment if all system calls succeed.
-/

namespace Luci

open Exec VirtualMemory

variable {s : Loader} {m : Memory} {vm vm' : Vm} {b : Backing} {seg : MemorySegment}
  {hollow : List Backing} {contents : Nat → UInt8} {protection : Protection}
  {length n offset start : Nat}

/-! ## System calls that succeed -/

section Calls

variable {e : Env} (works : ∀ tick, e.world.succeeds tick = true) {s : Loader}

include works

theorem syscall_works : ∃ s', syscall e s = some (true, s') ∧ s'.vm = s.vm := by
  refine ⟨{ s with ticks := s.ticks + 1 }, ?_, rfl⟩
  show some (e.world.succeeds s.ticks, _) = _
  rw [works]

theorem call_works (f : Vm → Vm) : ∃ s', (do
      if ← syscall e then do
        modify fun s => { s with vm := f s.vm }
        return true
      else return false : LoaderM Bool) s = some (true, s') ∧ s'.vm = f s.vm := by
  obtain ⟨s1, called, vm⟩ := syscall_works works
  refine ⟨{ s1 with vm := f s1.vm }, ?_, congrArg f vm⟩
  rw [bind_of_eq called]
  rfl

theorem mprotect_works (start length : Nat) (protection : Protection) :
    ∃ s', mprotect e start length protection s = some (true, s') ∧
      s'.vm = s.vm.protect start length protection :=
  call_works works fun vm => vm.protect start length protection

theorem mremap_works (source length destination : Nat) :
    ∃ s', mremap e source length destination s = some (true, s') ∧
      s'.vm = s.vm.move source length destination :=
  call_works works fun vm => vm.move source length destination

theorem munmap_works (start length : Nat) : ∃ s', munmap e start length s = some (true, s') ∧
    s'.vm = s.vm.unmap start length :=
  call_works works fun vm => vm.unmap start length

theorem mmapFixed_works (protection : Protection) (backing : Backing)
    (limit : start + length ≤ userLimit) (free : s.vm.isFree start length) :
    ∃ s', mmapFixed e start length protection backing s = some (true, s') ∧
      s'.vm = s.vm.map start length protection backing := by
  obtain ⟨s1, called, vm⟩ := syscall_works works
  refine ⟨{ s1 with vm := s1.vm.map start length protection backing }, ?_, ?_⟩
  · unfold mmapFixed
    rw [bind_of_eq called, bind_of_eq (get_apply _), if_pos]
    · rfl
    · rw [vm, free, decide_eq_true limit]
      rfl
  · rw [vm]

theorem mmapFixed_occupied (protection : Protection) (backing : Backing)
    (occupied : s.vm.isFree start length = false) :
    ∃ s', mmapFixed e start length protection backing s = some (false, s') ∧ s'.vm = s.vm := by
  obtain ⟨s1, called, vm⟩ := syscall_works works
  refine ⟨s1, ?_, vm⟩
  unfold mmapFixed
  rw [bind_of_eq called, bind_of_eq (get_apply _), if_neg]
  · rfl
  · rw [vm, occupied]
    simp

omit works in
theorem newBacking_eq (content : Nat → UInt8) : newBacking content s =
    some (.anonymous s.vm.fresh, { s with vm := s.vm.withBacking content }) := by
  have same : { s.vm.newAnonymous.2 with content := fun b =>
      if b = s.vm.newAnonymous.1 then content else s.vm.newAnonymous.2.content b } =
      s.vm.withBacking content := by
    unfold Vm.newAnonymous Vm.withBacking
    simp only [Vm.mk.injEq, true_and, and_true]
    funext b
    split <;> rfl
  unfold newBacking
  rw [bind_of_eq (get_apply s), same]
  rfl

/-- The kernel finds an unused range of pages. -/
structure Finds (e : Env) (vm : Vm) (length : Nat) : Prop where
  aligned : ∀ tick, e.world.mmapAddress tick % pageSize = 0
  positive : ∀ tick, 0 < e.world.mmapAddress tick
  limit : ∀ tick, e.world.mmapAddress tick + length ≤ userLimit
  free : ∀ tick, vm.isFree (e.world.mmapAddress tick) length = true

theorem mmapAnywhere_works (protection : Protection) (content : Nat → UInt8)
    (finds : Finds e s.vm length) : ∃ s' start, start % pageSize = 0 ∧ 0 < start ∧
      s.vm.isFree start length ∧
      mmapAnywhere e length protection content s = some (some start, s') ∧
      s'.vm = (s.vm.withBacking content).map start length protection (.anonymous s.vm.fresh) := by
  obtain ⟨s', mapped, vm⟩ := mmapFixed_works works protection (.anonymous s.vm.fresh)
    (s := { s with vm := s.vm.withBacking content }) (finds.limit s.ticks) (finds.free s.ticks)
  refine ⟨s', e.world.mmapAddress s.ticks, finds.aligned _, finds.positive _, finds.free _, ?_, vm⟩
  unfold mmapAnywhere
  rw [bind_of_eq (get_apply s), bind_of_eq (newBacking_eq content), bind_of_eq mapped]
  rfl

end Calls

/-! ## Where the contents are -/

/-- A range of pages shows an anonymous backing. -/
structure Located (vm : Vm) (start length : Nat) (b : Backing) : Prop where
  aligned : start % pageSize = 0
  shown : vm.Shows start length b 0
  known : ∃ k < vm.fresh, b = .anonymous k

/-- The bytes of the segment in a backing for its pages. -/
def Stores (vm : Vm) (b : Backing) (seg : MemorySegment) (contents : Nat → UInt8) : Prop :=
  ∀ i < seg.size, vm.content b (seg.address - seg.pageStart + i) = contents i

/-- A segment that is not writable, with at least one page of the address space; bases are page
aligned. -/
structure Fixed (seg : MemorySegment) : Prop where
  unwritable : seg.writable = false
  base : seg.base % pageSize = 0
  size : 0 < seg.size
  source : seg.sourceSize ≤ seg.size
  positive : 0 < seg.pageStart
  bounded : seg.Bounded

/-- The contents are in the buffer. -/
structure Buffered (st : SegmentState) (t b : Backing) : Prop where
  located : Located st.memory.loader.vm st.seg.buffer st.seg.pageSize b
  different : b ≠ t
  solid : b ∉ st.memory.hollow
  stores : Stores st.memory.loader.vm b st.seg st.contents
  writable : st.memory.loader.vm.Writable st.seg.buffer st.seg.pageSize
  apart : Vm.Apart st.seg.buffer st.seg.pageStart st.seg.pageSize

/-- The contents are on the pages of the segment. -/
structure Direct (st : SegmentState) (t : Backing) : Prop where
  stores : Stores st.memory.loader.vm t st.seg st.contents
  writable : st.seg.effectiveProtection.write = true →
    st.memory.loader.vm.Writable st.seg.pageStart st.seg.pageSize

/-- The segment is mapped, and its contents are in the buffer or on its pages. -/
structure Alive (st : SegmentState) (t : Backing) : Prop where
  fixed : Fixed st.seg
  mapped : st.seg.status ≠ .notMapped
  target : Located st.memory.loader.vm st.seg.pageStart st.seg.pageSize t
  hollow : t ∈ st.memory.hollow ↔ st.seg.status = .inactive ∧ st.seg.buffer ≠ 0
  known : ∀ b ∈ st.memory.hollow, ∃ k < st.memory.loader.vm.fresh, b = .anonymous k
  direct : st.seg.buffer = 0 → Direct st t
  buffered : st.seg.buffer ≠ 0 → ∃ b, Buffered st t b

/-- The segment is not mapped, and its pages are unused. -/
structure Gone (st : SegmentState) : Prop where
  fixed : Fixed st.seg
  unmapped : st.seg.status = .notMapped
  buffer : st.seg.buffer = 0
  known : ∀ b ∈ st.memory.hollow, ∃ k < st.memory.loader.vm.fresh, b = .anonymous k
  free : st.memory.loader.vm.isFree st.seg.pageStart st.seg.pageSize = true

/-! ## Changes that leave memory alone -/

/-- What is mapped stays, and the contents of all anonymous backings. -/
structure Retains (vm vm' : Vm) : Prop where
  extending : Vm.Extends vm vm'
  fresh : vm.fresh ≤ vm'.fresh
  content : ∀ k < vm.fresh, vm'.content (.anonymous k) = vm.content (.anonymous k)

section Retains

variable {vm vm' vm'' : Vm} {start start' length : Nat} {b : Backing} {seg : MemorySegment}
  {contents : Nat → UInt8}

theorem Retains.trans (first : Retains vm vm') (second : Retains vm' vm'') : Retains vm vm'' where
  extending := first.extending.trans second.extending
  fresh := first.fresh.trans second.fresh
  content k lt := (second.content k (lt.trans_le first.fresh)).trans (first.content k lt)

theorem retains_withBacking (content : Nat → UInt8) : Retains vm (vm.withBacking content) where
  extending := .of_page rfl
  fresh := Nat.le_succ _
  content k lt := by
    have older : Backing.anonymous k ≠ .anonymous vm.fresh := by
      intro same
      cases same
      exact Nat.lt_irrefl _ lt
    exact if_neg older

theorem retains_protect (protection : Protection) : Retains vm (vm.protect start length protection) :=
  ⟨Vm.extends_protect, le_rfl, fun _ _ => rfl⟩

theorem retains_map (free : vm.isFree start length) :
    Retains vm (vm.map start length protection b) :=
  ⟨Vm.extends_map free, le_rfl, fun _ _ => rfl⟩

theorem Located.retains (located : Located vm start length b) (retains : Retains vm vm') :
    Located vm' start length b := by
  obtain ⟨k, lt, isAnonymous⟩ := located.known
  exact ⟨located.aligned, located.shown.extends retains.extending, k, lt.trans_le retains.fresh,
    isAnonymous⟩

theorem Located.content (located : Located vm start length b) (retains : Retains vm vm') :
    vm'.content b = vm.content b := by
  obtain ⟨k, lt, rfl⟩ := located.known
  exact retains.content k lt

theorem Stores.retains (stores : Stores vm b seg contents) (located : Located vm start length b)
    (retains : Retains vm vm') : Stores vm' b seg contents := by
  intro i lt
  rw [located.content retains]
  exact stores i lt

/-- A new backing is not one of the known ones. -/
theorem Located.ne_fresh (located : Located vm start length b) : .anonymous vm.fresh ≠ b := by
  obtain ⟨k, lt, rfl⟩ := located.known
  intro same
  cases same
  exact Nat.lt_irrefl _ lt

theorem not_mem_hollow (known : ∀ b ∈ hollow, ∃ k < vm.fresh, b = .anonymous k) :
    .anonymous vm.fresh ∉ hollow := by
  intro member
  obtain ⟨k, lt, same⟩ := known _ member
  cases same
  exact Nat.lt_irrefl _ lt

theorem known_of_le (known : ∀ b ∈ hollow, ∃ k < vm.fresh, b = .anonymous k)
    (later : vm.fresh ≤ vm'.fresh) : ∀ b ∈ hollow, ∃ k < vm'.fresh, b = .anonymous k := by
  intro b member
  obtain ⟨k, lt, same⟩ := known b member
  exact ⟨k, lt.trans_le later, same⟩

theorem writable_of_page (page : vm'.page = vm.page) (writable : vm.Writable start length) :
    vm'.Writable start length := by
  intro i lt
  rw [Vm.writable_congr page]
  exact writable i lt

end Retains

theorem copyBytes_shown {start length d n : Nat} (bytes : Nat → UInt8)
    (shown : s.vm.Shows start length b 0) (writable : s.vm.Writable start length)
    (fits : d + n ≤ length) :
    ∃ vm : Vm, copyBytes (start + d) n bytes s = some ((), { s with vm := vm }) ∧
      vm.page = s.vm.page ∧ vm.fresh = s.vm.fresh ∧
      vm.content b = overlay (s.vm.content b) d n bytes := by
  have shown : s.vm.Shows (start + d) n b d := by
    have part := shown.part fits
    rwa [Nat.zero_add] at part
  have writes : s.vm.Writable (start + d) n := by
    intro i lt
    rw [Nat.add_assoc]
    exact writable (d + i) (by omega)
  obtain ⟨vm, written⟩ := Vm.writeBytes_some bytes shown writes
  have stored := Vm.writeBytes_stored bytes n written
  refine ⟨vm, ?_, stored.page, stored.fresh, Vm.writeBytes_shown bytes n shown written⟩
  unfold copyBytes
  rw [bind_of_eq (get_apply _), written]
  rfl

/-- `map` on unused pages: they show the backing, with the source in it if it is copied. -/
theorem place_works {e : Env} {o : Object} {copy : Bool}
    (works : ∀ tick, e.world.succeeds tick)
    (free : s.vm.isFree seg.pageStart seg.pageSize)
    (bounded : seg.Bounded) (source : seg.sourceSize ≤ seg.size)
    (write : copy → protection.write) :
    ∃ s', seg.place e o protection b copy s =
        some ((true, { seg with effectiveProtection := protection, status := .mapped }), s') ∧
      s'.vm.page = (s.vm.map seg.pageStart seg.pageSize protection b).page ∧
      s'.vm.fresh = s.vm.fresh ∧ s'.vm.content b = if copy then
        overlay (s.vm.content b) (seg.address - seg.pageStart) seg.sourceSize fun i =>
          o.elf.bytes (seg.sourceOffset + i)
        else s.vm.content b := by
  have pages := address_in_pages seg bounded.fits
  have aligned := pageStart_aligned seg
  have whole := pageSize_whole seg
  obtain ⟨s1, called, vm⟩ := mmapFixed_works works protection b bounded.limit free
  unfold MemorySegment.place onlyIf
  rw [bind_of_eq called, if_pos rfl]
  by_cases wanted : copy ∧ 0 < seg.sourceSize
  · have shown : s1.vm.Shows seg.pageStart seg.pageSize b 0 := by
      rw [vm]
      exact Vm.shows_map aligned whole
    have writable : s1.vm.Writable seg.pageStart seg.pageSize := by
      rw [vm]
      exact Vm.writable_map aligned whole (write wanted.1)
    obtain ⟨vm2, written, page, fresh, content⟩ := copyBytes_shown
      (fun i => o.elf.bytes (seg.sourceOffset + i)) shown writable
      (d := seg.address - seg.pageStart) (n := seg.sourceSize) (by omega)
    rw [Nat.add_sub_cancel' pages.1] at written
    refine ⟨_, by rw [if_pos (by simpa using wanted), bind_of_eq written]; rfl, ?_, ?_, ?_⟩
    · rw [page, vm]
    · rw [fresh, vm]
      rfl
    · rw [if_pos wanted.1, content, vm]
      rfl
  · refine ⟨s1, by rw [if_neg (by simpa using wanted)]; rfl, by rw [vm], by rw [vm]; rfl, ?_⟩
    rw [vm]
    split
    · rename_i copies
      have empty : seg.sourceSize = 0 := by simpa [copies] using wanted
      funext i
      rw [empty]
      simp [overlay, Vm.map]
    · rfl

theorem Located.of_page (located : Located vm start length b) (page : vm'.page = vm.page)
    (fresh : vm'.fresh = vm.fresh) :
    Located vm' start length b := by
  obtain ⟨k, lt, isAnonymous⟩ := located.known
  exact ⟨located.aligned, located.shown.extends (.of_page page), k, fresh ▸ lt, isAnonymous⟩

theorem Stores.overlay {bytes : Nat → UInt8} (stores : Stores vm b seg contents)
    (content : vm'.content b =
      overlay (vm.content b) (seg.address - seg.pageStart + offset) n bytes) :
    Stores vm' b seg (overlay contents offset n bytes) := by
  intro i lt
  rw [content]
  unfold VirtualMemory.overlay
  by_cases inside : offset ≤ i ∧ i < offset + n
  · rw [if_pos inside, if_pos (by omega)]
    congr 1
    omega
  · rw [if_neg inside, if_neg (by omega)]
    exact stores i lt

theorem Located.visible {t : Backing} (bounded : seg.Bounded)
    (target : Located m.loader.vm seg.pageStart seg.pageSize t)
    (solid : t ∉ m.hollow) (stores : Stores m.loader.vm t seg contents) :
    ∀ i < seg.size, m.visible (seg.address + i) = some (contents i) := by
  intro i lt
  have pages := address_in_pages seg bounded.fits
  have located := target.shown (seg.address - seg.pageStart + i) (by omega)
  rw [Nat.zero_add, show seg.pageStart + (seg.address - seg.pageStart + i) = seg.address + i by omega]
    at located
  unfold Memory.visible
  rw [located]
  dsimp only
  rw [if_neg solid, stores i lt]

/-- Operations on a segment change neither its place nor its source. -/
theorem Fixed.altered (fixed : Fixed seg) {buffer : Nat} {status : SegmentStatus}
    {effective : Protection} {privanon : Bool} :
    Fixed { seg with
      effectiveProtection := effective
      privanon := privanon
      status := status
      buffer := buffer } :=
  ⟨fixed.unwritable, fixed.base, fixed.size, fixed.source, fixed.positive, fixed.bounded⟩

/-! ## Composing -/

namespace Alive

variable {e : Env} {o : Object} {s s' : Loader} {hollow : List Backing} {seg : MemorySegment}
  {contents : Nat → UInt8} {t : Backing}

theorem offset_mod (fixed : Fixed seg) : seg.offset % pageSize = seg.address - seg.pageStart := by
  have base := fixed.base
  unfold MemorySegment.pageStart MemorySegment.address at *
  unfold pageSize at *
  omega

theorem pageSize_pos (fixed : Fixed seg) : 0 < seg.pageSize := by
  have pages := address_in_pages seg fixed.bounded.fits
  have size := fixed.size
  omega

/-- Where a write through the pointer of `compose` goes to. -/
def place (seg : MemorySegment) : Nat :=
  (if seg.buffer = 0 then seg.pageStart else seg.buffer) + (seg.address - seg.pageStart)

theorem place_direct (none : seg.buffer = 0) : place seg = seg.address := by
  have pages := pageStart_le_address seg
  unfold place
  rw [if_pos none]
  omega

theorem place_buffered (fixed : Fixed seg) (some : seg.buffer ≠ 0) :
    place seg = seg.buffer + seg.offset % pageSize := by
  unfold place
  rw [if_neg some, offset_mod fixed]

section Alive

variable (alive : Alive ⟨⟨s, hollow⟩, seg, contents⟩ t)

include alive

theorem solid (none : seg.buffer = 0) : t ∉ hollow := by
  intro member
  exact (alive.hollow.mp member).2 none

/-- The memory changes, but nothing of what the segment uses. -/
theorem retains (kept : Retains s.vm s'.vm)
    (writable : ∀ start, s.vm.Writable start seg.pageSize → s'.vm.Writable start seg.pageSize) :
    Alive ⟨⟨s', hollow⟩, seg, contents⟩ t where
  fixed := alive.fixed
  mapped := alive.mapped
  target := alive.target.retains kept
  hollow := alive.hollow
  known := known_of_le alive.known kept.fresh
  direct none := by
    have direct := alive.direct none
    exact ⟨direct.stores.retains alive.target kept, fun write => writable _ (direct.writable write)⟩
  buffered some := by
    obtain ⟨b, buffered⟩ := alive.buffered some
    exact ⟨b, buffered.located.retains kept, buffered.different, buffered.solid,
      buffered.stores.retains buffered.located kept, writable _ buffered.writable, buffered.apart⟩

theorem write (bytes : Nat → UInt8) (fits : offset + n ≤ seg.size)
    (writes : seg.buffer = 0 → seg.effectiveProtection.write) :
    ∃ s', copyBytes (place seg + offset) n bytes s = some ((), s') ∧
      Alive ⟨⟨s', hollow⟩, seg, overlay contents offset n bytes⟩ t := by
  have pages := address_in_pages seg alive.fixed.bounded.fits
  have inside : seg.address - seg.pageStart + offset + n ≤ seg.pageSize := by omega
  by_cases none : seg.buffer = 0
  · have direct := alive.direct none
    have writable := direct.writable (writes none)
    obtain ⟨vm, copied, page, fresh, own⟩ := copyBytes_shown bytes alive.target.shown writable inside
    rw [← Nat.add_assoc] at copied
    refine ⟨{ s with vm := vm }, ?_, ?_⟩
    · rw [place, if_pos none]
      exact copied
    · exact
        { fixed := alive.fixed
          mapped := alive.mapped
          target := alive.target.of_page page fresh
          hollow := alive.hollow
          known := fresh ▸ alive.known
          direct := fun _ => ⟨direct.stores.overlay own, fun _ => writable_of_page page writable⟩
          buffered := fun some => absurd none some }
  · obtain ⟨b, buffered⟩ := alive.buffered none
    obtain ⟨vm, copied, page, fresh, own⟩ :=
      copyBytes_shown bytes buffered.located.shown buffered.writable inside
    rw [← Nat.add_assoc] at copied
    refine ⟨{ s with vm := vm }, ?_, ?_⟩
    · rw [place, if_neg none]
      exact copied
    · exact
        { fixed := alive.fixed
          mapped := alive.mapped
          target := alive.target.of_page page fresh
          hollow := alive.hollow
          known := fresh ▸ alive.known
          direct := fun zero => absurd zero none
          buffered := fun _ => ⟨b, buffered.located.of_page page fresh, buffered.different,
            buffered.solid, buffered.stores.overlay own, writable_of_page page buffered.writable,
            buffered.apart⟩ }

theorem reprotected (none : seg.buffer = 0)
    (vm : s'.vm = s.vm.protect seg.pageStart seg.pageSize protection) :
    Alive ⟨⟨s', hollow⟩, { seg with effectiveProtection := protection }, contents⟩ t := by
  have kept : Retains s.vm s'.vm := by
    rw [vm]
    exact retains_protect _
  exact
    { fixed := alive.fixed.altered
      mapped := alive.mapped
      target := alive.target.retains kept
      hollow := alive.hollow
      known := known_of_le alive.known kept.fresh
      direct := fun _ => by
        refine ⟨(alive.direct none).stores.retains alive.target kept, fun write => ?_⟩
        rw [vm]
        exact Vm.writable_protect alive.target.shown alive.target.aligned (pageSize_whole seg) write
      buffered := fun some => absurd none some }

theorem copied (none : seg.buffer = 0) (active : seg.status ≠ .inactive)
    (aligned : start % pageSize = 0) (positive : 0 < start)
    (free : s.vm.isFree start seg.pageSize)
    (vm : s'.vm = (s.vm.withBacking (s.snapshot seg.pageStart)).map start seg.pageSize
      ⟨true, true, false⟩ (.anonymous s.vm.fresh)) :
    Alive ⟨⟨s', hollow⟩, { seg with buffer := start }, contents⟩ t := by
  have pages := address_in_pages seg alive.fixed.bounded.fits
  have whole := pageSize_whole seg
  have kept : Retains s.vm s'.vm := by
    rw [vm]
    exact (retains_withBacking _).trans (retains_map free)
  have isBuffer : Buffered ⟨⟨s', hollow⟩, { seg with buffer := start }, contents⟩ t
      (.anonymous s.vm.fresh) :=
    { located := by
        refine ⟨aligned, ?_, s.vm.fresh, ?_, rfl⟩
        · rw [vm]
          exact Vm.shows_map aligned whole
        · rw [vm]
          exact Nat.lt_succ_self _
      different := alive.target.ne_fresh
      solid := not_mem_hollow alive.known
      stores := by
        intro i lt
        have inside : seg.address - seg.pageStart + i < seg.pageSize := by
          have : i < seg.size := lt
          omega
        show s'.vm.content _ (seg.address - seg.pageStart + i) = _
        rw [vm]
        show (if _ then s.snapshot seg.pageStart else _) _ = _
        rw [if_pos rfl]
        unfold Loader.snapshot
        rw [alive.target.shown _ inside, Nat.zero_add]
        exact (alive.direct none).stores i lt
      writable := by
        rw [vm]
        exact Vm.writable_map aligned whole rfl
      apart := (Vm.free_of_isFree free).apart alive.target.shown aligned whole
        (pageSize_pos alive.fixed) }
  exact
    { fixed := alive.fixed.altered
      mapped := alive.mapped
      target := alive.target.retains kept
      hollow := ⟨fun member => absurd member (alive.solid none),
        fun inactive => absurd inactive.1 active⟩
      known := known_of_le alive.known kept.fresh
      direct := fun zero => absurd zero (Nat.pos_iff_ne_zero.mp positive)
      buffered := fun _ => ⟨_, isBuffer⟩ }

end Alive

section Calls

variable (works : ∀ tick, e.world.succeeds tick = true)

include works

/-- `compose` succeeds if there is a buffer or the segment has not been disabled. -/
theorem compose (alive : Alive ⟨⟨s, hollow⟩, seg, contents⟩ t) (finds : Finds e s.vm seg.pageSize)
    (usable : seg.buffer ≠ 0 ∨ seg.status = .mapped) :
    ∃ seg' s', seg.compose e o s = some ((place seg', seg'), s') ∧ place seg' ≠ 0 ∧
      SamePlace seg seg' ∧ seg'.status = seg.status ∧
      (seg'.buffer = 0 → seg'.effectiveProtection.write) ∧
      Alive ⟨⟨s', hollow⟩, seg', contents⟩ t := by
  unfold MemorySegment.compose
  by_cases some : seg.buffer ≠ 0
  · rw [if_pos some]
    have isPlace : place seg = seg.buffer + seg.offset % pageSize := place_buffered alive.fixed some
    refine ⟨seg, s, ?_, ?_, ⟨rfl, rfl, rfl, rfl⟩, rfl, fun none => absurd none some, alive⟩
    · rw [isPlace]
      rfl
    · omega
  · rw [if_neg some]
    have none : seg.buffer = 0 := not_not.mp some
    have isMapped : seg.status = .mapped := usable.resolve_left some
    have nonzero : seg.address ≠ 0 := by
      have positive : 0 < seg.pageStart := alive.fixed.positive
      have pages := address_in_pages seg alive.fixed.bounded.fits
      omega
    rw [if_pos isMapped]
    unfold MemorySegment.composeMapped
    rw [bind_of_eq (get_apply _)]
    by_cases write : seg.effectiveProtection.write
    · rw [if_pos write]
      refine ⟨seg, s, ?_, ?_, ⟨rfl, rfl, rfl, rfl⟩, rfl, fun _ => write, alive⟩
      · rw [place_direct none]
        rfl
      · rwa [place_direct none]
    · rw [if_neg write]
      cases s.processStarted with
      | false =>
        obtain ⟨s', called, vm⟩ := mprotect_works works seg.pageStart seg.pageSize
          (seg.effectiveProtection.union .writeOnly)
        have isPlace : place { seg with
            effectiveProtection := seg.effectiveProtection.union .writeOnly } = seg.address :=
          place_direct none
        refine ⟨_, s', ?_, isPlace.trans_ne nonzero, ⟨rfl, rfl, rfl, rfl⟩, rfl, ?_,
          alive.reprotected none vm⟩
        · rw [Exec.ite_apply, bind_of_eq called, isPlace]
          rfl
        · simp [Protection.union, Protection.writeOnly]
      | true =>
        obtain ⟨s', start, aligned, positive, free, called, vm⟩ := mmapAnywhere_works works
          ⟨true, true, false⟩ (s.snapshot seg.pageStart) finds
        have isSome := Nat.pos_iff_ne_zero.mp positive
        have isPlace : place { seg with buffer := start } = start + seg.offset % pageSize :=
          place_buffered alive.fixed.altered isSome
        refine ⟨{ seg with buffer := start }, s', ?_, ?_, ⟨rfl, rfl, rfl, rfl⟩, rfl,
          fun zero => absurd zero isSome,
          alive.copied none (by simp [isMapped]) aligned positive free vm⟩
        · rw [if_pos rfl, isPlace]
          rw [bind_of_eq (pure_apply false _)]
          dsimp only
          rw [Exec.ite_apply, bind_of_eq called]
          rfl
        · omega

omit works in
/-- `map` of a segment that is not writable shows a new backing. -/
theorem map_unwritable (unwritable : seg.writable = false) :
    ∃ content protection copy, (copy = true → protection.write = true) ∧ seg.map e o s = (do
      let backing ← newBacking content
      seg.place e o protection backing copy) s := by
  unfold MemorySegment.map
  rw [bind_of_eq (get_apply _)]
  rw [if_neg (by simp [unwritable]), Exec.ite_apply]
  split
  · refine ⟨_, _, _, fun copy => ?_, rfl⟩
    rw [copy]
    simp [Protection.union, Protection.writeOnly]
  · rename_i aligned
    have offset : seg.address % pageSize ≤ seg.sourceOffset := by
      simp only [Bool.or_eq_true, Bool.and_eq_true, decide_eq_true_eq, not_or, not_and] at aligned
      have same := not_not.mp (aligned.1.1.1.2 (by omega))
      exact same ▸ Nat.mod_le _ _
    rw [decide_eq_true offset]
    exact ⟨_, _, false, by simp, rfl⟩

/-- `map` fails for a segment that is mapped: there is a new backing, which is not mapped. -/
theorem map (alive : Alive ⟨⟨s, hollow⟩, seg, contents⟩ t) :
    ∃ s', seg.map e o s = some ((false, seg), s') ∧ Alive ⟨⟨s', hollow⟩, seg, contents⟩ t := by
  obtain ⟨content, protection, copy, -, same⟩ := map_unwritable alive.fixed.unwritable
    (s := s)
  have occupied : s.vm.isFree seg.pageStart seg.pageSize = false :=
    Vm.not_isFree alive.target.shown alive.target.aligned (pageSize_whole seg)
      (pageSize_pos alive.fixed)
  obtain ⟨s', called, vm⟩ := mmapFixed_occupied works protection (.anonymous s.vm.fresh)
    (s := { s with vm := s.vm.withBacking content }) occupied
  refine ⟨s', ?_, alive.retains ?_ fun start writable => ?_⟩
  · rw [same, bind_of_eq (newBacking_eq content)]
    unfold MemorySegment.place
    rw [bind_of_eq called]
    rfl
  · rw [vm]
    exact retains_withBacking content
  · rw [vm]
    exact writable_of_page rfl writable

/-- `compose` fails if the segment was disabled and has no buffer. -/
theorem compose_fails (alive : Alive ⟨⟨s, hollow⟩, seg, contents⟩ t) (none : seg.buffer = 0)
    (disabled : seg.status ≠ .mapped) :
    ∃ s', seg.compose e o s = some ((0, seg), s') ∧ Alive ⟨⟨s', hollow⟩, seg, contents⟩ t := by
  obtain ⟨s', called, alive'⟩ := alive.map works
  refine ⟨s', ?_, alive'⟩
  unfold MemorySegment.compose
  rw [if_neg (not_not.mpr none), if_neg disabled, bind_of_eq called]
  rfl

/-! ### Finalizing -/

omit works

theorem visible (alive : Alive ⟨⟨s, hollow⟩, seg, contents⟩ t) (none : seg.buffer = 0) :
    ∀ i < seg.size, Memory.visible ⟨s, hollow⟩ (seg.address + i) = some (contents i) :=
  alive.target.visible alive.fixed.bounded (alive.solid none) (alive.direct none).stores

theorem moved (alive : Alive ⟨⟨s, hollow⟩, seg, contents⟩ t)
    (buffered : Buffered ⟨⟨s, hollow⟩, seg, contents⟩ t b)
    (vm : s'.vm = (s.vm.protect seg.buffer seg.pageSize seg.protection).move seg.buffer seg.pageSize
      seg.pageStart) :
    Alive ⟨⟨s', hollow⟩, { seg with
      effectiveProtection := seg.protection
      privanon := true
      buffer := 0 }, contents⟩ b := by
  have fresh : s'.vm.fresh = s.vm.fresh := by
    rw [vm]
    rfl
  have shown : s'.vm.Shows seg.pageStart seg.pageSize b 0 := by
    rw [vm]
    exact (buffered.located.shown.extends Vm.extends_protect).move buffered.located.aligned
      alive.target.aligned (pageSize_whole seg)
  obtain ⟨k, lt, isAnonymous⟩ := buffered.located.known
  exact
    { fixed := alive.fixed.altered
      mapped := alive.mapped
      target := ⟨alive.target.aligned, shown, k, fresh ▸ lt, isAnonymous⟩
      hollow := ⟨fun member => absurd member buffered.solid, fun inactive => absurd rfl inactive.2⟩
      known := fresh ▸ alive.known
      direct := fun _ => by
        refine ⟨fun i lt => ?_, fun write => ?_⟩
        · rw [vm]
          exact buffered.stores i lt
        · exact absurd write (Bool.eq_false_iff.mp alive.fixed.unwritable)
      buffered := fun some => absurd rfl some }

include works

/-- `finalize` shows the contents, except for a disabled segment. -/
theorem finalize (alive : Alive ⟨⟨s, hollow⟩, seg, contents⟩ t) (force : Bool)
    (allowed : force ∨ seg.status ≠ .inactive) :
    ∃ seg' s' t', seg.finalize e force s = some ((true, seg'), s') ∧ SamePlace seg seg' ∧
      seg'.buffer = 0 ∧ Alive ⟨⟨s', hollow⟩, seg', contents⟩ t' := by
  unfold MemorySegment.finalize
  have goesOn : ¬ (!force && decide (seg.status = .inactive)) := by
    rcases allowed with rfl | active
    · simp
    · simp [active]
  rw [if_neg goesOn]
  by_cases some : seg.buffer ≠ 0
  · rw [if_pos some]
    obtain ⟨b, buffered⟩ := alive.buffered some
    obtain ⟨s1, called1, vm1⟩ := mprotect_works works seg.buffer seg.pageSize seg.protection
    obtain ⟨s2, called2, vm2⟩ := mremap_works works seg.buffer seg.pageSize seg.pageStart
    rw [vm1] at vm2
    refine ⟨{ seg with effectiveProtection := seg.protection, privanon := true, buffer := 0 }, s2, b,
      ?_, ⟨rfl, rfl, rfl, rfl⟩, rfl, alive.moved buffered vm2⟩
    rw [bind_of_eq called1]
    rw [bind_of_eq called2]
    rfl
  · have none : seg.buffer = 0 := not_not.mp some
    rw [if_neg some, if_neg alive.mapped]
    split
    · exact ⟨seg, s, t, rfl, ⟨rfl, rfl, rfl, rfl⟩, none, alive⟩
    · obtain ⟨s1, called, vm⟩ := mprotect_works works seg.pageStart seg.pageSize seg.protection
        (s := s)
      refine ⟨{ seg with effectiveProtection := seg.protection }, s1, t, ?_, ⟨rfl, rfl, rfl, rfl⟩,
        none, alive.reprotected none vm⟩
      rw [bind_of_eq called]
      rfl

/-! ### Disabling -/

omit works in
theorem inMemory_eq {α : Type} {x : LoaderM α} {a : α} {s : Loader}
    (run : x m.loader = some (a, s)) :
    inMemory x m = some (a, { m with loader := s }) := by
  unfold inMemory
  rw [run]
  rfl

theorem mremapDontunmap_works {destination : Nat} (hollow : List Backing) (source length : Nat)
    (positive : destination ≠ 0) :
    ∃ s', mremapDontunmap e source length destination ⟨s, hollow⟩ =
        some (true, ⟨s', .anonymous s.vm.fresh :: hollow⟩) ∧
      s'.vm = (s.vm.withBacking fun _ => 0).moveLeaving source length destination
        (.anonymous s.vm.fresh) := by
  obtain ⟨s1, called, vm⟩ := syscall_works works
  have left : newBacking (fun _ => 0) s1 = some (.anonymous s.vm.fresh,
      { s1 with vm := s.vm.withBacking fun _ => 0 }) := by
    rw [newBacking_eq, vm]
  refine ⟨{ s1 with
    vm := (s.vm.withBacking fun _ => 0).moveLeaving source length destination
      (.anonymous s.vm.fresh) }, ?_, rfl⟩
  unfold mremapDontunmap
  rw [bind_of_eq (inMemory_eq called), if_pos (by simp [positive]), bind_of_eq (inMemory_eq left)]
  rfl

theorem withdraw_works (fixed : Fixed seg) (target : Located s.vm seg.pageStart seg.pageSize t)
    (solid : t ∉ hollow) (known : ∀ b ∈ hollow, ∃ k < s.vm.fresh, b = .anonymous k)
    (stores : Stores s.vm t seg contents) (aligned : start % pageSize = 0) (positive : start ≠ 0)
    (isApart : Vm.Apart seg.pageStart start seg.pageSize) :
    ∃ seg' m' t', seg.withdraw e start ⟨s, hollow⟩ = some ((true, seg'), m') ∧
      Alive ⟨m', seg', contents⟩ t' := by
  have whole := pageSize_whole seg
  obtain ⟨s1, called1, vm1⟩ := syscall_works works
  obtain ⟨s2, called2, vm2⟩ := mremapDontunmap_works works hollow
    seg.pageStart seg.pageSize positive
  obtain ⟨s3, called3, vm3⟩ := mprotect_works works start seg.pageSize ⟨true, true, false⟩
  rw [vm1] at vm2 called2
  have grown : Retains s.vm (s.vm.withBacking fun _ => 0) := retains_withBacking _
  have target' := target.retains grown
  have moved : s2.vm.Shows start seg.pageSize t 0 := by
    rw [vm2]
    exact target'.shown.moveLeaving target.aligned aligned whole
  have left : s2.vm.Shows seg.pageStart seg.pageSize (.anonymous s.vm.fresh) 0 := by
    rw [vm2]
    exact Vm.shows_left target'.shown target.aligned aligned whole isApart
  have fresh : s3.vm.fresh = s.vm.fresh + 1 := by
    rw [vm3, vm2]
    rfl
  have content : s3.vm.content t = s.vm.content t := by
    rw [vm3, vm2, ← target.content grown]
    rfl
  let seg' := { seg with buffer := start, status := .inactive, effectiveProtection := seg.protection }
  obtain ⟨k, lt, isAnonymous⟩ := target.known
  have isBuffer : Buffered ⟨⟨s3, .anonymous s.vm.fresh :: hollow⟩, seg', contents⟩
      (.anonymous s.vm.fresh) t :=
    { located := by
        refine ⟨aligned, ?_, k, by rw [fresh]; omega, isAnonymous⟩
        rw [vm3]
        exact moved.extends Vm.extends_protect
      different := target.ne_fresh.symm
      solid := by
        rw [List.mem_cons]
        rintro (same | member)
        · exact target.ne_fresh same.symm
        · exact solid member
      stores := by
        intro i lt
        rw [content]
        exact stores i lt
      writable := by
        rw [vm3]
        exact Vm.writable_protect moved aligned whole rfl
      apart := isApart.symm }
  have alive : Alive ⟨⟨s3, .anonymous s.vm.fresh :: hollow⟩, seg', contents⟩
      (.anonymous s.vm.fresh) :=
    { fixed := fixed.altered
      mapped := nofun
      target := by
        refine ⟨target.aligned, ?_, s.vm.fresh, by rw [fresh]; omega, rfl⟩
        rw [vm3]
        exact left.extends Vm.extends_protect
      hollow := ⟨fun _ => ⟨rfl, positive⟩, fun _ => List.mem_cons_self⟩
      known := fun b member => by
        rcases List.mem_cons.mp member with rfl | member
        · exact ⟨s.vm.fresh, by rw [fresh]; omega, rfl⟩
        · exact known_of_le known (by rw [fresh]; omega) b member
      direct := fun zero => absurd zero positive
      buffered := fun _ => ⟨t, isBuffer⟩ }
  refine ⟨seg', _, _, ?_, alive⟩
  unfold MemorySegment.withdraw
  rw [bind_of_eq (inMemory_eq called1), if_pos rfl, bind_of_eq called2, if_pos rfl,
    bind_of_eq (inMemory_eq called3)]
  rfl

/-- There is no way to move memory to address 0. -/
theorem withdraw_zero (hollow : List Backing) (seg : MemorySegment) :
    ∃ s', seg.withdraw e 0 ⟨s, hollow⟩ = some ((false, seg), ⟨s', hollow⟩) ∧ s'.vm = s.vm := by
  obtain ⟨s1, called1, vm1⟩ := syscall_works works
  obtain ⟨s2, called2, vm2⟩ := syscall_works works
  refine ⟨s2, ?_, vm2.trans vm1⟩
  have refused : mremapDontunmap e seg.pageStart seg.pageSize 0 ⟨s1, hollow⟩ =
      some (false, ⟨s2, hollow⟩) := by
    unfold mremapDontunmap
    rw [bind_of_eq (inMemory_eq called2)]
    rfl
  unfold MemorySegment.withdraw
  rw [bind_of_eq (inMemory_eq called1), if_pos rfl, bind_of_eq refused]
  rfl

section Disable

variable (alive : Alive ⟨⟨s, hollow⟩, seg, contents⟩ t)

include alive

theorem disable_shared (finds : Finds e s.vm seg.pageSize) (active : seg.status ≠ .inactive)
    (isShared : seg.privanon = false) :
    ∃ ok seg' m' t', seg.disable e o ⟨s, hollow⟩ = some ((ok, seg'), m') ∧
      Alive ⟨m', seg', contents⟩ t' := by
  unfold MemorySegment.disable
  rw [if_neg alive.mapped, if_neg active]
  by_cases usable : seg.buffer ≠ 0 ∨ seg.status = .mapped
  · obtain ⟨seg1, s1, composed, nonzero, -, status, -, alive1⟩ :=
      alive.compose works finds usable
    obtain ⟨seg2, s2, t2, finalized, place, none, alive2⟩ :=
      alive1.finalize works false (.inr (status ▸ active))
    have isPrivate : seg.privatize e o s = some ((some seg1.buffer, seg2), s2) := by
      unfold MemorySegment.privatize
      rw [if_pos (by simp [isShared]), bind_of_eq composed]
      dsimp only
      rw [if_neg nonzero, bind_of_eq finalized]
      rfl
    rw [bind_of_eq (inMemory_eq isPrivate)]
    by_cases buffer : seg1.buffer = 0
    · obtain ⟨s3, refused, vm⟩ := withdraw_zero works hollow seg2
      refine ⟨false, seg2, ⟨s3, hollow⟩, t2, ?_, alive2.retains ?_ fun start writable => ?_⟩
      · rw [buffer]
        exact refused
      · rw [vm]
        exact ⟨.of_page rfl, le_rfl, fun _ _ => rfl⟩
      · rwa [vm]
    · obtain ⟨b, buffered⟩ := alive1.buffered buffer
      have isApart : Vm.Apart seg2.pageStart seg1.buffer seg2.pageSize := by
        rw [place.pageStart, place.pageSize]
        exact buffered.apart.symm
      obtain ⟨seg3, m3, t3, withdrawn, alive3⟩ := withdraw_works works alive2.fixed alive2.target
        (alive2.solid none) alive2.known (alive2.direct none).stores buffered.located.aligned buffer
        isApart
      exact ⟨true, seg3, m3, t3, withdrawn, alive3⟩
  · rw [not_or, not_not] at usable
    obtain ⟨s1, failed, alive1⟩ := alive.compose_fails works usable.1 usable.2
    have isPrivate : seg.privatize e o s = some ((none, seg), s1) := by
      unfold MemorySegment.privatize
      rw [if_pos (by simp [isShared]), bind_of_eq failed]
      rfl
    refine ⟨false, seg, ⟨s1, hollow⟩, t, ?_, alive1⟩
    rw [bind_of_eq (inMemory_eq isPrivate)]
    rfl

/-- The way to disable a segment that is private. The buffer it has is forgotten. -/
theorem disable_private (finds : Finds e s.vm seg.pageSize) (active : seg.status ≠ .inactive)
    (isPrivate : seg.privanon) (same : seg.buffer ≠ 0 → Stores s.vm t seg contents) :
    ∃ ok seg' m' t', seg.disable e o ⟨s, hollow⟩ = some ((ok, seg'), m') ∧
      Alive ⟨m', seg', contents⟩ t' := by
  obtain ⟨s1, start, aligned, positive, free, called, vm⟩ :=
    mmapAnywhere_works works .none (fun _ => 0) finds
  have kept : Retains s.vm s1.vm := by
    rw [vm]
    exact (retains_withBacking _).trans (retains_map free)
  have stores : Stores s.vm t seg contents := by
    by_cases none : seg.buffer = 0
    · exact (alive.direct none).stores
    · exact same none
  have solid : t ∉ hollow := fun member => active (alive.hollow.mp member).1
  have isApart : Vm.Apart seg.pageStart start seg.pageSize :=
    ((Vm.free_of_isFree free).apart alive.target.shown aligned (pageSize_whole seg)
      (pageSize_pos alive.fixed)).symm
  obtain ⟨seg', m', t', withdrawn, alive'⟩ := withdraw_works works alive.fixed
    (alive.target.retains kept) solid (known_of_le alive.known kept.fresh)
    (stores.retains alive.target kept) aligned (Nat.pos_iff_ne_zero.mp positive) isApart
  refine ⟨true, seg', m', t', ?_, alive'⟩
  have prepared : seg.privatize e o s = some ((some start, seg), s1) := by
    unfold MemorySegment.privatize
    rw [if_neg (by simp [isPrivate]), bind_of_eq called]
    rfl
  unfold MemorySegment.disable
  rw [if_neg alive.mapped, if_neg active, bind_of_eq (inMemory_eq prepared)]
  exact withdrawn

/-- `disable` keeps the contents if it does not forget a buffer with other contents. -/
theorem disable (finds : Finds e s.vm seg.pageSize)
    (same : seg.status ≠ .inactive → seg.privanon → seg.buffer ≠ 0 →
      Stores s.vm t seg contents) :
    ∃ ok seg' m' t', seg.disable e o ⟨s, hollow⟩ = some ((ok, seg'), m') ∧
      Alive ⟨m', seg', contents⟩ t' := by
  by_cases active : seg.status = .inactive
  · refine ⟨true, seg, ⟨s, hollow⟩, t, ?_, alive⟩
    unfold MemorySegment.disable
    rw [if_neg alive.mapped, if_pos active]
    rfl
  · cases isPrivate : seg.privanon with
    | false => exact alive.disable_shared works finds active isPrivate
    | true => exact alive.disable_private works finds active isPrivate (same active isPrivate)

/-! ### Access, enabling, unmapping -/

/-- The contents of the buffer are copied back at the first access. -/
theorem reactivate (isHollow : t ∈ hollow) :
    ∃ m', seg.reactivate e o ⟨s, hollow⟩ = some ((true, { seg with status := .reactivated }), m') ∧
      Alive ⟨m', { seg with status := .reactivated }, contents⟩ t ∧
      Stores m'.loader.vm t seg contents := by
  have pages := address_in_pages seg alive.fixed.bounded.fits
  obtain ⟨-, some⟩ := alive.hollow.mp isHollow
  obtain ⟨b, buffered⟩ := alive.buffered some
  obtain ⟨s1, called, vm1⟩ := syscall_works works
  have located : s1.vm.locate seg.pageStart = Option.some (t, 0) := by
    have first := alive.target.shown 0 (pageSize_pos alive.fixed)
    rwa [← vm1] at first
  let vm : Vm := { s1.vm with
    content := fun b' => if b' = t then s.snapshot seg.buffer else s1.vm.content b' }
  have content : vm.content b = s.vm.content b := by
    rw [← vm1]
    exact if_neg buffered.different
  have stores : Stores vm t seg contents := by
    intro i lt
    rw [show vm.content t = s.snapshot seg.buffer from if_pos rfl]
    unfold Loader.snapshot
    rw [buffered.located.shown _ (show _ < seg.pageSize by omega), Nat.zero_add]
    exact buffered.stores i lt
  have page : vm.page = s.vm.page := by
    rw [← vm1]
  have fresh : vm.fresh = s.vm.fresh := by
    rw [← vm1]
  refine ⟨⟨{ s1 with vm := vm }, hollow.filter (· ≠ t)⟩, ?_, ?_, stores⟩
  · have copies : uffdioCopy e seg.pageStart (s.snapshot seg.buffer) ⟨s, hollow⟩ =
        Option.some (true, ⟨{ s1 with vm := vm }, hollow.filter (· ≠ t)⟩) := by
      unfold uffdioCopy
      rw [bind_of_eq (inMemory_eq called), bind_of_eq (get_apply _)]
      rw [located]
      dsimp only
      rw [if_pos (by simp [isHollow])]
      rfl
    unfold MemorySegment.reactivate
    rw [bind_of_eq (get_apply _)]
    rw [if_neg some, bind_of_eq copies]
    rfl
  · exact
      { fixed := alive.fixed.altered
        mapped := nofun
        target := alive.target.of_page page fresh
        hollow := by simp
        known := fun b' member => by
          rw [fresh]
          exact alive.known b' (List.mem_filter.mp member).1
        direct := fun zero => absurd zero some
        buffered := fun _ => by
          refine ⟨b, buffered.located.of_page page fresh, buffered.different, ?_, ?_,
            writable_of_page page buffered.writable, buffered.apart⟩
          · exact fun member => buffered.solid (List.mem_filter.mp member).1
          · intro i lt
            rw [content]
            exact buffered.stores i lt }

theorem access :
    ∃ seg' m', seg.access e o ⟨s, hollow⟩ = some ((true, seg'), m') ∧
      Alive ⟨m', seg', contents⟩ t ∧ (seg.status = .inactive →
        ∀ i < seg'.size, m'.visible (seg'.address + i) = some (contents i)) := by
  have pages := address_in_pages seg alive.fixed.bounded.fits
  have size : 0 < seg.size := alive.fixed.size
  have located : s.vm.locate seg.address = some (t, seg.address - seg.pageStart) := by
    have shown := alive.target.shown (seg.address - seg.pageStart) (show _ < seg.pageSize by omega)
    rwa [Nat.zero_add, Nat.add_sub_cancel' pages.1] at shown
  have accesses : seg.access e o ⟨s, hollow⟩ =
      (if t ∈ hollow then seg.reactivate e o else pure (true, seg)) ⟨s, hollow⟩ := by
    unfold MemorySegment.access
    rw [bind_of_eq (get_apply _), located]
    rfl
  rw [accesses]
  by_cases isHollow : t ∈ hollow
  · obtain ⟨m', reactivated, alive', stores⟩ := alive.reactivate works isHollow
    have solid : t ∉ m'.hollow := fun member => by
      cases (alive'.hollow.mp member).1
    rw [if_pos isHollow]
    exact ⟨_, m', reactivated, alive', fun _ => alive'.target.visible alive'.fixed.bounded solid stores⟩
  · rw [if_neg isHollow]
    refine ⟨seg, ⟨s, hollow⟩, rfl, alive, fun inactive => ?_⟩
    apply alive.visible
    by_contra some
    exact isHollow (alive.hollow.mpr ⟨inactive, some⟩)

/-- `enable` shows the contents of a disabled segment. -/
theorem enable :
    ∃ ok seg' s' t', seg.enable e s = some ((ok, seg'), s') ∧
      Alive ⟨⟨s', hollow⟩, seg', contents⟩ t' ∧ (seg.status = .inactive → seg'.buffer = 0) := by
  unfold MemorySegment.enable
  by_cases active : seg.status ≠ .inactive
  · rw [if_pos active]
    exact ⟨false, seg, s, t, rfl, alive, fun inactive => absurd inactive active⟩
  · rw [if_neg active]
    by_cases none : seg.buffer = 0
    · rw [if_pos none]
      exact ⟨false, seg, s, t, rfl, alive, fun _ => none⟩
    · rw [if_neg none]
      obtain ⟨seg', s', t', finalized, -, none', alive'⟩ := alive.finalize works true (.inl rfl)
      exact ⟨true, seg', s', t', finalized, alive', fun _ => none'⟩

end Disable

omit works in
theorem isFree_unmap_of_isFree {start start' length : Nat} (free : vm.isFree start length) :
    (vm.unmap start' length).isFree start length := by
  unfold Vm.isFree at free ⊢
  rw [List.all_eq_true] at free ⊢
  intro i member
  have unused := free i member
  unfold Vm.unmap
  dsimp only
  split
  · rfl
  · exact unused

/-- `unmap` leaves the pages unused. -/
theorem unmap (alive : Alive ⟨⟨s, hollow⟩, seg, contents⟩ t) :
    ∃ seg' s', seg.unmap e s = some ((true, seg'), s') ∧ Gone ⟨⟨s', hollow⟩, seg', contents⟩ := by
  obtain ⟨s1, called1, vm1⟩ := munmap_works works seg.pageStart seg.pageSize
  have gone : ∀ {s' : Loader}, s'.vm.fresh = s.vm.fresh →
      s'.vm.isFree seg.pageStart seg.pageSize → Gone ⟨⟨s', hollow⟩, { seg with
        buffer := 0
        status := .notMapped
        effectiveProtection := .none }, contents⟩ := by
    intro s' fresh free
    exact ⟨alive.fixed.altered, rfl, rfl, fresh ▸ alive.known, free⟩
  have fresh1 : s1.vm.fresh = s.vm.fresh := by
    rw [vm1]
    rfl
  have free1 : s1.vm.isFree seg.pageStart seg.pageSize := by
    rw [vm1]
    exact Vm.isFree_unmap
  unfold MemorySegment.unmap
  rw [if_neg alive.mapped, bind_of_eq called1, if_pos rfl]
  by_cases some : seg.buffer ≠ 0
  · obtain ⟨s2, called2, vm2⟩ := munmap_works works seg.buffer seg.pageSize
    refine ⟨_, s2, ?_, gone ?_ ?_⟩
    · unfold onlyIf
      rw [if_pos (by simpa using some), bind_assoc, bind_of_eq called2]
      rfl
    · rw [vm2]
      exact fresh1
    · rw [vm2]
      exact isFree_unmap_of_isFree free1
  · refine ⟨_, s1, ?_, gone fresh1 free1⟩
    unfold onlyIf
    rw [if_neg (by simpa using some)]
    rfl

end Calls

end Alive

/-- `map` of a segment that is not mapped: the contents are copied to new pages. -/
theorem Gone.map {e : Env} {o : Object} (works : ∀ tick, e.world.succeeds tick)
    (gone : Gone ⟨⟨s, hollow⟩, seg, contents⟩) :
    ∃ seg' s' t, seg.map e o s = some ((true, seg'), s') ∧
      Alive ⟨⟨s', hollow⟩, seg', s'.snapshot seg.address⟩ t := by
  have pages := address_in_pages seg gone.fixed.bounded.fits
  have aligned := pageStart_aligned seg
  have whole := pageSize_whole seg
  obtain ⟨content, protection, copy, write, same⟩ := Alive.map_unwritable gone.fixed.unwritable
    (s := s)
  obtain ⟨s', placed, page, fresh, -⟩ := place_works works
    (s := { s with vm := s.vm.withBacking content }) gone.free gone.fixed.bounded
    gone.fixed.source write
  have located : Located s'.vm seg.pageStart seg.pageSize (.anonymous s.vm.fresh) :=
    ⟨aligned, (Vm.shows_map aligned whole).extends (.of_page page), s.vm.fresh,
      fresh ▸ Nat.lt_succ_self _, rfl⟩
  refine ⟨{ seg with effectiveProtection := protection, status := .mapped }, s',
    .anonymous s.vm.fresh, by rw [same, bind_of_eq (newBacking_eq content), placed], ?_⟩
  exact
    { fixed := gone.fixed.altered
      mapped := nofun
      target := located
      hollow := ⟨fun member => absurd member (not_mem_hollow gone.known), nofun⟩
      known := known_of_le gone.known (fresh ▸ Nat.le_succ _)
      direct := fun _ => by
        refine ⟨fun i lt => ?_, fun write => ?_⟩
        · have lt : i < seg.size := lt
          have shown := located.shown (seg.address - seg.pageStart + i) (by omega)
          rw [Nat.zero_add, show seg.pageStart + (seg.address - seg.pageStart + i) =
            seg.address + i by omega] at shown
          show _ = s'.snapshot seg.address i
          unfold Loader.snapshot
          rw [shown]
          rfl
        · exact writable_of_page page (Vm.writable_map aligned whole write)
      buffered := fun some => absurd gone.buffer some }

end Luci
