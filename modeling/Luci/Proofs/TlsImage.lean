import Luci.Loader
import Luci.Proofs.Access
import Luci.Proofs.TlsThreads
import Luci.Reference

/-!
# The image of a thread local block

`TLS::add_module` is called once for an identity and notes address and size of the `PT_TLS`
segment of the version that is loaded then. `TLS::dtv_copy` adds the address to the base of
the version that is current when the block is filled (`src/tls.cpp:122-123`).
-/

namespace Luci

open Exec VirtualMemory

/-- The segment that `preload_segments` registers (`src/object/executable.cpp:50-53`). -/
def Elf.tlsSegment (elf : Elf) : Option Segment :=
  elf.segments.find? fun segment => segment.type = .tls && 0 < segment.virtSize

/-- These `n` bytes are the initialization image of a version. -/
def Object.InitImage (v : Object) (n : Nat) (bytes : Nat → UInt8) : Prop :=
  ∃ segment, v.elf.tlsSegment = some segment ∧ segment.size = n ∧
    ∀ k < n, bytes k = v.elf.bytes (segment.offset + k)

/-- The memory of a version holds its initialization image, as the file has it. -/
def Object.ShowsImage (c : Object) (memory : Nat → UInt8) : Prop :=
  ∀ segment, c.elf.tlsSegment = some segment → ∀ k < segment.size,
    memory (c.base + segment.virtAddr + k) = c.elf.bytes (segment.offset + k)

/-- A block of a module that starts with the image of a version and is zero behind it. -/
structure TlsState.BlockOf (t : TlsState) (v : Object) (m : TlsModule) (address : Nat) : Prop where
  image : v.InitImage m.imageSize fun k => t.memory (address + k)
  zero : ∀ k, m.imageSize ≤ k → k < m.size → t.memory (address + k) = 0

/-- The thread local storage works on the modules and the current versions of the loader. -/
structure TlsState.Views (t : TlsState) (s : Loader) : Prop where
  tls : t.tls = s.tls
  current : ∀ file c, s.current file = some c → t.currentBase file = c.base

/-- The image of a version `v` is found in the file of the current version `c`: the bytes at the
address that was registered are in the `PT_TLS` segment of `c` and are those of `v`. -/
def Object.ImageIn (v c : Object) (m : TlsModule) : Prop :=
  ∃ segment, v.elf.tlsSegment = some segment ∧ segment.size = m.imageSize ∧
    ∀ k < m.imageSize, ∃ own j, c.elf.tlsSegment = some own ∧ j < own.size ∧
      m.image + k = own.virtAddr + j ∧
        c.elf.bytes (own.offset + j) = v.elf.bytes (segment.offset + k)

/-- The usual case: the current version has its `PT_TLS` segment where the registered one was,
with the same size. -/
theorem Object.imageIn_self {c : Object} {m : TlsModule} {segment : Segment}
    (isSegment : c.elf.tlsSegment = some segment) (address : segment.virtAddr = m.image)
    (size : segment.size = m.imageSize) : c.ImageIn c m :=
  ⟨segment, isSegment, size, fun k lt =>
    ⟨segment, k, isSegment, size ▸ lt, by rw [address], rfl⟩⟩

section Copy

variable {t t' : TlsState} {thread moduleId address : Nat} {m : TlsModule} {v c : Object}

theorem initBlock_image {k : Nat} (lt : k < m.imageSize) :
    t.initBlock m address (address + k) = t.memory (t.currentBase m.object + m.image + k) := by
  unfold TlsState.initBlock overlay
  rw [if_neg (by omega), if_pos (by omega), Nat.add_sub_cancel_left]

theorem initBlock_zero {k : Nat} (le : m.imageSize ≤ k) (lt : k < m.size) :
    t.initBlock m address (address + k) = 0 := by
  unfold TlsState.initBlock overlay
  rw [if_pos (by omega)]

theorem assign_blockOf (t : TlsState) (thread moduleId address : Nat)
    (isBase : t.currentBase m.object = c.base) :
    (t.assign thread moduleId address m).BlockOf v m address ↔
      v.InitImage m.imageSize fun k => t.memory (c.base + m.image + k) := by
  have memory : (t.assign thread moduleId address m).memory = t.initBlock m address := rfl
  have images : ∀ k < m.imageSize, (t.assign thread moduleId address m).memory (address + k) =
      t.memory (c.base + m.image + k) := by
    intro k lt
    rw [memory, initBlock_image lt, isBase]
  constructor
  · rintro ⟨⟨segment, isSegment, size, bytes⟩, -⟩
    exact ⟨segment, isSegment, size, fun k lt => (images k lt).symm.trans (bytes k lt)⟩
  · rintro ⟨segment, isSegment, size, bytes⟩
    refine ⟨⟨segment, isSegment, size, fun k lt => (images k lt).trans (bytes k lt)⟩, ?_⟩
    exact fun k le lt => initBlock_zero le lt

/-- Memory that holds the image of a version, and another byte everywhere else. -/
def Object.imageMemory (c : Object) (other : UInt8) (address : Nat) : UInt8 :=
  match c.elf.tlsSegment with
  | none => other
  | some segment =>
    if c.base + segment.virtAddr ≤ address ∧ address < c.base + segment.virtAddr + segment.size then
      c.elf.bytes (segment.offset + (address - (c.base + segment.virtAddr)))
    else other

theorem Object.showsImage_imageMemory (c : Object) (other : UInt8) :
    c.ShowsImage (c.imageMemory other) := by
  intro segment isSegment k lt
  unfold Object.imageMemory
  rw [isSegment]
  dsimp only
  rw [if_pos (by omega), Nat.add_sub_cancel_left]

/-- The bytes that are copied are the image of `v` whatever is in the rest of the memory, exactly
if the file of `c` has this image there. -/
theorem initImage_iff_imageIn :
    (∀ memory, c.ShowsImage memory →
      v.InitImage m.imageSize fun k => memory (c.base + m.image + k)) ↔ v.ImageIn c m := by
  constructor
  · intro always
    obtain ⟨segment, isSegment, size, -⟩ := always _ (c.showsImage_imageMemory 0)
    refine ⟨segment, isSegment, size, fun k lt => ?_⟩
    -- outside of the image of `c`, the memory may differ from the image of `v`
    obtain ⟨segment', isSegment', -, bytes⟩ :=
      always _ (c.showsImage_imageMemory (v.elf.bytes (segment.offset + k) + 1))
    cases isSegment.symm.trans isSegment'
    have here := bytes k lt
    unfold Object.imageMemory at here
    have differs : v.elf.bytes (segment.offset + k) + 1 ≠ v.elf.bytes (segment.offset + k) := by
      intro equal
      have numbers := congrArg UInt8.toNat equal
      rw [UInt8.toNat_add, UInt8.toNat_one] at numbers
      omega
    cases isOwn : c.elf.tlsSegment with
    | none =>
      rw [isOwn] at here
      exact absurd here differs
    | some own =>
      rw [isOwn] at here
      dsimp only at here
      by_cases inside : c.base + own.virtAddr ≤ c.base + m.image + k ∧
          c.base + m.image + k < c.base + own.virtAddr + own.size
      · rw [if_pos inside] at here
        exact ⟨own, c.base + m.image + k - (c.base + own.virtAddr), rfl, by omega, by omega, here⟩
      · rw [if_neg inside] at here
        exact absurd here differs
  · rintro ⟨segment, isSegment, size, bytes⟩ memory shows
    refine ⟨segment, isSegment, size, fun k lt => ?_⟩
    obtain ⟨own, j, isOwn, below, place, same⟩ := bytes k lt
    have address : c.base + m.image + k = c.base + own.virtAddr + j := by omega
    dsimp only
    rw [address, shows own isOwn j below, same]

end Copy

/-- For every state of the loader, every chain of versions and every call of `dtv_copy`: the block
is filled with the initialization image of a version and zeros, for every memory that holds the
image of the current version, exactly if the file of the current version has an image of the
registered size at the registered address. -/
theorem dtvCopy_image_iff {s : Loader} {t : TlsState} {thread moduleId address : Nat} {dtv : Dtv}
    {m : TlsModule} {i : ObjectIdentity} {c : Object} (views : t.Views s)
    (isModule : s.tls.modules[moduleId - 1]? = some m) (isFile : s.identity m.object = some i)
    (isCurrent : i.current = some c) (found : t.dtv thread = some dtv)
    (unallocated : dtv.val moduleId = 0) (owned : dtv.toFree moduleId = 0) :
    (∃ v ∈ i.versions, ∀ memory, c.ShowsImage memory →
      ∃ t', dtvCopy thread moduleId address { t with memory := memory } = some ((), t') ∧
        t'.BlockOf v m address) ↔
    ∃ v ∈ i.versions, v.ImageIn c m := by
  have isBase : t.currentBase m.object = c.base := by
    refine views.current m.object c ?_
    unfold Loader.current
    rw [isFile, Option.bind_some, isCurrent]
  have copies : ∀ memory : Nat → UInt8, dtvCopy thread moduleId address { t with memory := memory } =
      some ((), ({ t with memory := memory } : TlsState).assign thread moduleId address m) :=
    fun memory => dtvCopy_apply address found (views.tls ▸ isModule) unallocated owned
  refine exists_congr fun v => and_congr_right fun _ => ?_
  rw [← initImage_iff_imageIn]
  refine forall_congr' fun memory => imp_congr_right fun _ => ?_
  rw [← assign_blockOf { t with memory := memory } thread moduleId address isBase]
  constructor
  · rintro ⟨t', run, block⟩
    cases (copies memory).symm.trans run
    exact block
  · exact fun block => ⟨_, copies memory, block⟩

/-! ## A version whose image has moved -/

/-- The thread local storage as the loader sees it, without any thread. -/
def Loader.tlsView (s : Loader) : TlsState :=
  { TlsState.initial with
    tls := s.tls
    memory := s.snapshot 0
    currentBase := fun file => ((s.current file).map Object.base).getD 0 }

theorem Loader.views_tlsView (s : Loader) : s.tlsView.Views s :=
  ⟨rfl, fun file c isCurrent => by simp [Loader.tlsView, isCurrent]⟩

/-- A version with its `PT_TLS` segment at an address: the first eight bytes of the file are
`before`, the others `behind`. -/
def Elf.imageAt (address : Nat) (before behind : UInt8) : Elf :=
  { Elf.sharedObject [] with
    segments := [⟨.load, 0, 0, 16, 16, 4096, true, false, false⟩,
      ⟨.tls, address, address, 8, 8, 8, true, false, false⟩]
    bytes := fun a => if a < 8 then before else behind }

/-- `liby.so` is loaded, then replaced by a second version. -/
def loadMoved (address : Nat) : LoaderM (Option Nat × Bool) := do
  let first ← dlopen (fileY (File.ofElf 0 (.imageAt 0 1 2))) 1 (some "liby.so")
    { Flags.zero with updatable := true } (some 0) true
  let second ← loadFrom (fileY (File.ofElf 1 (.imageAt address 3 4))) 1 0 none
  return (first, second.isSome)

/-- The first byte of the block of module 1 in a new thread. -/
def firstByte (s : Loader) : Option UInt8 :=
  (createThread .reference none s.tlsView).bind fun p =>
    (p.2.dtv p.1).map fun dtv => p.2.memory (dtv.val 1)

/-- The module that the first version registers. -/
def moduleY : TlsModule := ⟨0, 8, 8, 0, 8, 8⟩

/-- A thread whose vector has no entries. -/
def TlsState.withEmptyThread (t : TlsState) : TlsState :=
  { t with thread := fun _ => some ⟨0, 0, some Dtv.zero⟩ }

/-- The second version has its image where the first one has it: a thread without a block gets the
image of a version. -/
theorem dtvCopy_image_iff_unmoved : ∃ s i c, loadMoved 0 Loader.initial = some ((some 0, true), s) ∧
    s.identity 0 = some i ∧ i.current = some c ∧
    ∃ v ∈ i.versions, ∀ memory, c.ShowsImage memory →
      ∃ t', dtvCopy 0x2000 1 0x1000 { s.tlsView.withEmptyThread with memory := memory } =
        some ((), t') ∧ t'.BlockOf v moduleY 0x1000 := by
  have evaluated : (loadMoved 0 Loader.initial).map (fun p => (p.1, p.2.tls.modules[1 - 1]?,
      (p.2.current 0).map fun c => c.elf.tlsSegment)) = some ((some 0, true), some moduleY,
        some (some ⟨.tls, 0, 0, 8, 8, 8, true, false, false⟩)) := by
    decide +kernel
  obtain ⟨⟨loaded, s⟩, run, facts⟩ := Option.map_eq_some_iff.mp evaluated
  simp only [Prod.mk.injEq] at facts
  obtain ⟨rfl, isModule, segments⟩ := facts
  obtain ⟨c, isCurrent, isSegment⟩ := Option.map_eq_some_iff.mp segments
  obtain ⟨i, isFile, isHead⟩ := Loader.identity_of_current isCurrent
  have views : s.tlsView.withEmptyThread.Views s := ⟨rfl, s.views_tlsView.current⟩
  refine ⟨s, i, c, run, isFile, isHead, ?_⟩
  refine (dtvCopy_image_iff views isModule isFile isHead rfl rfl rfl).mpr ?_
  exact ⟨c, List.mem_of_head? isHead, Object.imageIn_self isSegment rfl rfl⟩

/-- The second version has its image eight bytes further: the block of a new thread is the image
of neither version. -/
theorem movedTo_copies_neither : ∃ s i thread t dtv, loadMoved 8 Loader.initial =
    some ((some 0, true), s) ∧ s.identity 0 = some i ∧ i.versions.length = 2 ∧
    s.tls.modules[0]? = some moduleY ∧
    createThread .reference none s.tlsView = some (thread, t) ∧ t.dtv thread = some dtv ∧
    ∀ v ∈ i.versions, ¬ t.BlockOf v moduleY (dtv.val 1) := by
  have evaluated : (loadMoved 8 Loader.initial).map (fun p => (p.1, p.2.tls.modules[0]?, firstByte p.2,
      (p.2.identity 0).map fun i => (i.versions.length, i.versions.all fun v =>
        v.elf.tlsSegment.all fun segment => v.elf.bytes segment.offset ≠ 3))) =
      some ((some 0, true), some moduleY, some 3, some (2, true)) := by
    decide +kernel
  obtain ⟨⟨loaded, s⟩, run, facts⟩ := Option.map_eq_some_iff.mp evaluated
  simp only [Prod.mk.injEq] at facts
  obtain ⟨rfl, isModule, copied, images⟩ := facts
  obtain ⟨i, isFile, images⟩ := Option.map_eq_some_iff.mp images
  obtain ⟨length, differ⟩ := Prod.mk.inj images
  obtain ⟨⟨thread, t⟩, created, copied⟩ := Option.bind_eq_some_iff.mp copied
  obtain ⟨dtv, found, isByte⟩ := Option.map_eq_some_iff.mp copied
  refine ⟨s, i, thread, t, dtv, run, isFile, length, isModule, created, found, ?_⟩
  rintro v member ⟨⟨segment, isSegment, -, bytes⟩, -⟩
  have differs := List.all_eq_true.mp differ v member
  rw [isSegment] at differs
  have same : t.memory (dtv.val 1) = v.elf.bytes segment.offset := bytes 0 (by decide)
  exact of_decide_eq_true differs (same.symm.trans isByte)

end Luci
