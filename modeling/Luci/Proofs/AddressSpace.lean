import Luci.Trampoline
import Luci.Reference
import Luci.Proofs.Construction
import Mathlib.Logic.Relation

/-!
# Addresses handed out by the loader

`Loader::next_address` returns the end of everything it knows of: a pointer behind the
last reservation, and the ends of the objects in `lookup`. The destructor of an object
moves the pointer back to the base of the object, behind which there may be ranges the
scan of `lookup` does not see: blocks of trampolines, and everything if the base is 0. A
size that wraps around moves it back, too.

A run consists of reservations, of releases, and of steps that change neither the
pointer nor the addresses of mapped segments. The constructors of objects, the allocation
of trampolines and the destruction of objects and identities are such runs.
-/

namespace Luci

open Exec

/-! ## The state of the address space -/

/-- Every version of every object in `lookup`. -/
def Loader.objects (s : Loader) : List Object := s.lookup.flatMap ObjectIdentity.versions

/-- The page range of a segment. -/
def MemorySegment.pages (seg : MemorySegment) : Range := ⟨seg.pageStart, seg.pageSize⟩

/-- A range returned by `next_address`, and the object it was returned for. -/
structure Reservation where
  range : Range
  owner : Option Nat

/-- A loader with the ranges of nonzero size whose object has not been destroyed. -/
structure AddressSpace where
  state : Loader
  live : List Reservation

/-- Note a range returned by `next_address`. -/
def AddressSpace.reserve (a : AddressSpace) (s : Loader) (start size : Nat) (owner : Option Nat) :
    AddressSpace :=
  ⟨s, if size = 0 then a.live else ⟨⟨start, size⟩, owner⟩ :: a.live⟩

/-- Forget the ranges of an object. -/
def AddressSpace.free (a : AddressSpace) (s : Loader) (uid : Nat) : AddressSpace :=
  ⟨s, a.live.filter fun r => r.owner ≠ some uid⟩

/-- The pointer is unchanged, and mapped segments stay where they are: the memory maps of
the objects in `lookup` get more segments, and only objects without any may go. -/
structure MapsMore (s s' : Loader) : Prop where
  next : s'.nextLibraryAddress = s.nextLibraryAddress
  objects : ∀ o ∈ s.objects, s.memoryMap o.uid ≠ [] → ∃ o' ∈ s'.objects, o'.uid = o.uid
  segments : ∀ o ∈ s.objects, (s.memoryMap o.uid).map MemorySegment.pages <+:
    (s'.memoryMap o.uid).map MemorySegment.pages

/-- What happens to the address space. -/
inductive AddressEvent where
  | reserve (e : Env) (size : Nat)
  | change
  | release (o : Object)

/-- A call of `next_address`, a change of the mappings, or the end of an object. -/
inductive AddressStep : AddressEvent → AddressSpace → AddressSpace → Prop
  | reserve {a : AddressSpace} {s' : Loader} {start : Nat} (e : Env) (size : Nat)
      (owner : Option Nat) (run : nextAddress e size a.state = some (start, s')) :
      AddressStep (.reserve e size) a (a.reserve s' start size owner)
  | change {a : AddressSpace} {s' : Loader} (more : MapsMore a.state s') :
      AddressStep .change a ⟨s', a.live⟩
  | release {a : AddressSpace} {s' : Loader} (e : Env) (o : Object)
      (run : o.release e a.state = some ((), s')) :
      AddressStep (.release o) a (a.free s' o.uid)
  | destroy {a : AddressSpace} {s' : Loader} (e : Env) (o : Object)
      (run : o.destroy e a.state = some ((), s')) :
      AddressStep (.release o) a (a.free s' o.uid)

/-- Any sequence of steps. -/
def AddressRun : AddressSpace → AddressSpace → Prop :=
  Relation.ReflTransGen fun a a' => ∃ event, AddressStep event a a'

/-- The segments below the loader end at or below the end of the last one, which is below the
loader, too. -/
def Bounded (segments : List MemorySegment) : Prop :=
  ∀ seg ∈ segments, seg.pageEnd ≤ baseAddress →
    ∃ last, segments.getLast? = some last ∧ seg.pageEnd ≤ last.pageEnd ∧ last.pageEnd < baseAddress

/-- An object in `lookup`, not this one, ends at or above the address. -/
def Loader.SeenBelow (s : Loader) (stop : Nat) (uid : Option Nat) : Prop :=
  ∃ o ∈ s.objects, some o.uid ≠ uid ∧
    ∃ range, memoryRange (s.memoryMap o.uid) = some range ∧ stop ≤ range.2 ∧ range.2 < baseAddress

/-- There is room for a range of this size and the page behind it at the end of everything known. -/
def Loader.HasRoom (e : Env) (s : Loader) (size : Nat) : Prop :=
  alignUp (s.knownEnd e) VirtualMemory.pageSize + size + VirtualMemory.pageSize ≤ 2 ^ 64

instance (e : Env) (s : Loader) (size : Nat) : Decidable (s.HasRoom e size) := Nat.decLe _ _

/-- The condition on a step: memory maps are bounded by their last segments, sizes do not wrap
around, and when an object is released the remaining ranges end below its base (and the pointer)
or below the end of another object in `lookup`. -/
def AddressEvent.Careful : AddressEvent → AddressSpace → AddressSpace → Prop
  | .release o, a, _ => ∀ r ∈ a.live, r.owner ≠ some o.uid →
      (r.range.stop ≤ a.state.nextLibraryAddress ∧
        r.range.stop ≤ alignPage o.base) ∨
      a.state.SeenBelow r.range.stop (some o.uid)
  | .change, _, a' => ∀ o ∈ a'.state.objects, Bounded (a'.state.memoryMap o.uid)
  | .reserve e size, a, _ => a.state.HasRoom e size

/-- A sequence of steps that all meet the condition. -/
def CarefulRun : AddressSpace → AddressSpace → Prop :=
  Relation.ReflTransGen fun a a' => ∃ event, AddressStep event a a' ∧ event.Careful a a'

/-! ## The scan -/

variable {o : Object} {a : AddressSpace} {size start stop : Nat}
  {f : ObjectIdentity → ObjectIdentity}

section Scan

variable {e : Env} {s s' : Loader}

/-- One object of the scan in `next_address`. -/
def Loader.scan (s : Loader) (next : Nat) (o : Object) : Nat :=
  match memoryRange (s.memoryMap o.uid) with
  | some (_, stop) =>
    if next < stop ∧ (baseAddress < libAddress ∨ stop < baseAddress) then stop else next
  | none => next

theorem highestEnd_eq (s : Loader) (next : Nat) :
    s.highestEnd next = s.objects.foldl s.scan next := rfl

theorem le_scan (s : Loader) (next : Nat) (o : Object) : next ≤ s.scan next o := by
  unfold Loader.scan
  split
  · split <;> omega
  · exact Nat.le_refl _

theorem scan_sees {range : Nat × Nat} (found : memoryRange (s.memoryMap o.uid) = some range)
    (below : range.2 < baseAddress) (next : Nat) : range.2 ≤ s.scan next o := by
  unfold Loader.scan
  rw [found]
  simp only
  split
  · exact Nat.le_refl _
  · next kept => exact Nat.le_of_not_lt fun lt => kept ⟨lt, .inr below⟩

theorem le_foldl_scan (s : Loader) (objects : List Object) :
    ∀ next, next ≤ objects.foldl s.scan next := by
  induction objects with
  | nil => intro next; exact Nat.le_refl _
  | cons o objects ih =>
    intro next
    exact Nat.le_trans (le_scan s next o) (ih (s.scan next o))

theorem le_highestEnd (s : Loader) (next : Nat) : next ≤ s.highestEnd next :=
  le_foldl_scan s s.objects next

/-- The scan goes beyond the end of every object below the loader. -/
theorem Loader.SeenBelow.le_highestEnd {uid : Option Nat} (seen : s.SeenBelow stop uid)
    (next : Nat) :
    stop ≤ s.highestEnd next := by
  obtain ⟨o, member, -, range, found, reaches, below⟩ := seen
  rw [highestEnd_eq]
  generalize s.objects = objects at member
  induction objects generalizing next with
  | nil => cases member
  | cons first objects ih =>
    rcases List.mem_cons.mp member with rfl | later
    · have here := scan_sees found below next
      have there := le_foldl_scan s objects (s.scan next o)
      rw [List.foldl_cons]
      omega
    · exact ih (s.scan next first) later

theorem highestEnd_le_knownEnd (e : Env) (s : Loader) :
    s.highestEnd s.nextLibraryAddress ≤ s.knownEnd e := by
  unfold Loader.knownEnd
  dsimp only
  split <;> omega

theorem nextAddress_frame (run : nextAddress e size s = some (start, s')) :
    VirtualMemory.pageSize ∣ start ∧ s'.lookup = s.lookup ∧ s'.memoryMap = s.memoryMap := by
  cases run
  exact ⟨pageSize_dvd_alignPage _, rfl, rfl⟩

theorem nextAddress_start (word : alignUp (s.knownEnd e) VirtualMemory.pageSize < 2 ^ 64)
    (run : nextAddress e size s = some (start, s')) :
    start = alignUp (s.knownEnd e) VirtualMemory.pageSize ∧
      s.highestEnd s.nextLibraryAddress ≤ start := by
  have address : start = alignUp (s.knownEnd e) VirtualMemory.pageSize := by
    cases run
    exact Nat.mod_eq_of_lt word
  have known := highestEnd_le_knownEnd e s
  have rounded := le_alignUp (s.knownEnd e) VirtualMemory.pageSize
  exact ⟨address, by omega⟩

/-- The address is behind everything known, and the pointer behind the range. -/
theorem nextAddress_inv (fits : s.HasRoom e size) (run : nextAddress e size s = some (start, s')) :
    s.highestEnd s.nextLibraryAddress ≤ start ∧ start + size ≤ s'.nextLibraryAddress ∧
      start + size ≤ 2 ^ 64 := by
  unfold Loader.HasRoom at fits
  have page : VirtualMemory.pageSize = 4096 := rfl
  obtain ⟨address, above⟩ := nextAddress_start (by omega) run
  rw [← address] at fits
  have behind := le_alignUp (start + size) VirtualMemory.pageSize
  have near := alignUp_lt (show 0 < VirtualMemory.pageSize by decide) (start + size)
  have next : s'.nextLibraryAddress = alignUp (start + size) VirtualMemory.pageSize := by
    have pointer : s'.nextLibraryAddress = alignPage ((start + size) % 2 ^ 64) := by
      cases run
      rfl
    rw [pointer, Nat.mod_eq_of_lt (by omega)]
    exact Nat.mod_eq_of_lt (by omega)
  exact ⟨above, by omega, by omega⟩

end Scan

/-! ## The invariant -/

/-- The range is known to the next call of `next_address`. -/
def Loader.Known (s : Loader) (r : Range) : Prop :=
  r.stop ≤ s.nextLibraryAddress ∨ s.SeenBelow r.stop none

/-- Everything in use is known. -/
structure AddressSpace.Sound (a : AddressSpace) : Prop where
  bounded : ∀ o ∈ a.state.objects, Bounded (a.state.memoryMap o.uid)
  known : ∀ r ∈ a.live, a.state.Known r.range

section Invariant

variable {e : Env} {s s' : Loader} {a a' : AddressSpace}

theorem Loader.Known.le_highestEnd {r : Range} (known : s.Known r) :
    r.stop ≤ s.highestEnd s.nextLibraryAddress := by
  rcases known with pointer | seen
  · exact Nat.le_trans pointer (Luci.le_highestEnd s _)
  · exact seen.le_highestEnd _

theorem pageEnd_eq (seg : MemorySegment) : seg.pageEnd = seg.pages.stop % 2 ^ 64 := rfl

theorem memoryRange_last {segments : List MemorySegment} {last : MemorySegment}
    (isLast : segments.getLast? = some last) :
    ∃ start, memoryRange segments = some (start, last.pageEnd) := by
  unfold memoryRange
  cases segments with
  | nil => cases isLast
  | cons first rest => exact ⟨first.pageStart, by rw [isLast]; rfl⟩

theorem Bounded.seen {seg : MemorySegment} (member : o ∈ s.objects)
    (bounded : Bounded (s.memoryMap o.uid)) (isSegment : seg ∈ s.memoryMap o.uid)
    (below : seg.pageEnd ≤ baseAddress) : s.SeenBelow seg.pageEnd none := by
  obtain ⟨last, isLast, reaches, lastBelow⟩ := bounded seg isSegment below
  obtain ⟨start, range⟩ := memoryRange_last isLast
  exact ⟨o, member, nofun, _, range, reaches, lastBelow⟩

/-- An object that is seen is still seen when more is mapped. -/
theorem Loader.SeenBelow.mapsMore (seen : s.SeenBelow stop none) (more : MapsMore s s')
    (bounded : ∀ o ∈ s'.objects, Bounded (s'.memoryMap o.uid)) : s'.SeenBelow stop none := by
  obtain ⟨o, member, -, range, found, reaches, below⟩ := seen
  have nonempty : s.memoryMap o.uid ≠ [] := by
    intro empty
    rw [empty] at found
    cases found
  obtain ⟨last, isLast⟩ := Option.isSome_iff_exists.mp (List.getLast?_isSome.mpr nonempty)
  obtain ⟨start, ends⟩ := memoryRange_last isLast
  rw [found] at ends
  cases ends
  obtain ⟨o', member', same⟩ := more.objects o member nonempty
  have pages : last.pages ∈ (s'.memoryMap o.uid).map MemorySegment.pages := by
    apply (more.segments o member).subset
    exact List.mem_map_of_mem (List.mem_of_getLast? isLast)
  obtain ⟨seg, isSegment, samePages⟩ := List.mem_map.mp pages
  have ends : seg.pageEnd = last.pageEnd := by rw [pageEnd_eq, samePages, ← pageEnd_eq]
  rw [← same] at isSegment
  have seen := (bounded o' member').seen member' isSegment (by rw [ends]; exact Nat.le_of_lt below)
  obtain ⟨v, isObject, other, range', found', reaches', below'⟩ := seen
  exact ⟨v, isObject, other, range', found', by rw [ends] at reaches'; exact reaches.trans reaches',
    below'⟩

theorem AddressSpace.Sound.reserve (sound : a.Sound) (owner : Option Nat)
    (fits : a.state.HasRoom e size) (run : nextAddress e size a.state = some (start, s')) :
    (a.reserve s' start size owner).Sound := by
  obtain ⟨-, lookup, memoryMap⟩ := nextAddress_frame run
  obtain ⟨known, next, -⟩ := nextAddress_inv fits run
  have objects : s'.objects = a.state.objects := by
    unfold Loader.objects
    rw [lookup]
  refine ⟨fun o member => ?_, fun r isLive => ?_⟩
  · have member : o ∈ s'.objects := member
    rw [objects] at member
    show Bounded (s'.memoryMap o.uid)
    rw [memoryMap]
    exact sound.bounded o member
  · have old : ∀ r ∈ a.live, s'.Known r.range := by
      intro r isLive
      have below := (sound.known r isLive).le_highestEnd
      exact .inl (by omega)
    unfold AddressSpace.reserve at isLive
    by_cases empty : size = 0
    · rw [if_pos empty] at isLive
      exact old r isLive
    · rw [if_neg empty] at isLive
      rcases List.mem_cons.mp isLive with rfl | isLive
      · exact .inl next
      · exact old r isLive

theorem AddressSpace.Sound.change (sound : a.Sound) (more : MapsMore a.state s')
    (bounded : ∀ o ∈ s'.objects, Bounded (s'.memoryMap o.uid)) :
    AddressSpace.Sound ⟨s', a.live⟩ := by
  refine ⟨bounded, fun r isLive => ?_⟩
  rcases sound.known r isLive with pointer | seen
  · exact .inl (by rw [more.next]; exact pointer)
  · exact .inr (seen.mapsMore more bounded)

/-- What the end of an object does to the address space. -/
structure Released (o : Object) (s s' : Loader) : Prop where
  next : s'.nextLibraryAddress = min s.nextLibraryAddress (alignPage o.base)
  objects : ∀ v ∈ s'.objects, v ∈ s.objects
  others : ∀ v ∈ s.objects, v.uid ≠ o.uid → v ∈ s'.objects
  memoryMap : ∀ u, u ≠ o.uid → s'.memoryMap u = s.memoryMap u
  cleared : s'.memoryMap o.uid = []

theorem AddressSpace.Sound.release (sound : a.Sound) (released : Released o a.state s')
    (careful : ∀ r ∈ a.live, r.owner ≠ some o.uid →
      (r.range.stop ≤ a.state.nextLibraryAddress ∧
        r.range.stop ≤ alignPage o.base) ∨
      a.state.SeenBelow r.range.stop (some o.uid)) :
    (a.free s' o.uid).Sound := by
  refine ⟨fun v member => ?_, fun r isLive => ?_⟩
  · show Bounded (s'.memoryMap v.uid)
    by_cases same : v.uid = o.uid
    · rw [same, released.cleared]
      intro seg isSegment
      cases isSegment
    · rw [released.memoryMap v.uid same]
      exact sound.bounded v (released.objects v member)
  · obtain ⟨isLive, other⟩ := List.mem_filter.mp isLive
    rcases careful r isLive (of_decide_eq_true other) with ⟨pointer, base⟩ | seen
    · left
      show r.range.stop ≤ s'.nextLibraryAddress
      rw [released.next]
      exact Nat.le_min.mpr ⟨pointer, base⟩
    · obtain ⟨v, member, different, range, found, reaches, below⟩ := seen
      have different : v.uid ≠ o.uid := fun same => different (congrArg some same)
      refine .inr ⟨v, released.others v member different, nofun, range, ?_, reaches, below⟩
      show memoryRange (s'.memoryMap v.uid) = some range
      rw [released.memoryMap v.uid different]
      exact found

end Invariant

/-! ## The end of an object -/

/-- Neither the objects nor the memory maps nor the pointer have changed. -/
structure Still (s s' : Loader) : Prop where
  lookup : s'.lookup = s.lookup
  next : s'.nextLibraryAddress = s.nextLibraryAddress
  memoryMap : s'.memoryMap = s.memoryMap

instance : IsPreorder Loader Still where
  refl _ := ⟨rfl, rfl, rfl⟩
  trans _ _ _ first second := ⟨second.lookup.trans first.lookup, second.next.trans first.next,
    second.memoryMap.trans first.memoryMap⟩

/-- At most the memory map of one object has changed. -/
structure StillBut (uid : Nat) (s s' : Loader) : Prop where
  lookup : s'.lookup = s.lookup
  next : s'.nextLibraryAddress = s.nextLibraryAddress
  memoryMap : ∀ u, u ≠ uid → s'.memoryMap u = s.memoryMap u

instance (uid : Nat) : IsPreorder Loader (StillBut uid) where
  refl _ := ⟨rfl, rfl, fun _ _ => rfl⟩
  trans _ _ _ first second := ⟨second.lookup.trans first.lookup, second.next.trans first.next,
    fun u other => (second.memoryMap u other).trans (first.memoryMap u other)⟩

section Release

variable {e : Env} {s s' : Loader}

theorem still_syscall : Keeps Still (syscall e) := by
  rintro s ok s' ⟨⟩
  exact ⟨rfl, rfl, rfl⟩

theorem still_munmap (start length : Nat) : Keeps Still (munmap e start length) := by
  refine keeps_bind still_syscall fun ok => keeps_ite (fun _ => ?_) fun _ => keeps_pure _
  exact keeps_bind (keeps_modify fun s => ⟨rfl, rfl, rfl⟩) fun _ => keeps_pure _

theorem still_unmapSegment (seg : MemorySegment) : Keeps Still (seg.unmap e) := by
  refine keeps_ite (fun _ => keeps_pure _) fun _ => ?_
  refine keeps_bind (still_munmap _ _) fun ok => keeps_ite (fun _ => ?_) fun _ => keeps_pure _
  refine keeps_bind (keeps_onlyIf fun _ => ?_) fun _ => keeps_pure _
  exact keeps_bind (still_munmap _ _) fun _ => keeps_pure _

theorem stillBut_forSegments (uid : Nat) {f : MemorySegment → LoaderM (Bool × MemorySegment)}
    (each : ∀ seg, Keeps Still (f seg)) (rest : List MemorySegment) :
    ∀ done, Keeps (StillBut uid) (forSegments uid f done rest) := by
  induction rest with
  | nil => intro done; exact keeps_pure true
  | cons seg rest ih =>
    intro done
    have first : Keeps (StillBut uid) (f seg) := (each seg).mono fun _ _ still =>
      ⟨still.lookup, still.next, fun u _ => by rw [still.memoryMap]⟩
    refine keeps_bind first fun (ok, seg) => ?_
    refine keeps_bind (keeps_modify fun s => ⟨rfl, rfl, fun u other => if_neg other⟩) fun _ => ?_
    exact keeps_map (ih (done ++ [seg]))

theorem release_inv (run : o.release e s = some ((), s')) :
    s'.lookup = s.lookup ∧ Released o s s' := by
  unfold Object.release at run
  rw [bind_of_eq (get_apply s)] at run
  obtain ⟨_, s1, unmapped, run⟩ := bind_inv run
  have still := stillBut_forSegments o.uid still_unmapSegment _ [] _ _ _ unmapped
  have closed : Still { s1.setMemoryMap o.uid [] with
      nextLibraryAddress := min s1.nextLibraryAddress (alignPage o.base) } s' := by
    cases isFd : o.data.fd with
    | some fd =>
      rw [isFd] at run
      cases run
      exact ⟨rfl, rfl, rfl⟩
    | none =>
      rw [isFd] at run
      cases run
      exact ⟨rfl, rfl, rfl⟩
  have lookup : s'.lookup = s.lookup := closed.lookup.trans still.lookup
  have objects : s'.objects = s.objects := by
    unfold Loader.objects
    rw [lookup]
  refine ⟨lookup, ?_, fun v member => objects ▸ member, fun v member _ => objects ▸ member,
    fun u other => ?_, ?_⟩
  · rw [closed.next, still.next]
  · rw [closed.memoryMap]
    simp only [Loader.setMemoryMap, if_neg other, still.memoryMap u other]
  · rw [closed.memoryMap]
    simp only [Loader.setMemoryMap, if_pos]

theorem mem_objects_modifyIdentity {file : Nat} {v : Object} :
    v ∈ (s.modifyIdentity file f).objects ↔
      ∃ i ∈ s.lookup, v ∈ (if i.id = file then f i else i).versions := by
  simp only [Loader.objects, Loader.modifyIdentity, KeyedList.update, List.mem_flatMap,
    List.mem_map, exists_exists_and_eq_and]

theorem destroy_inv (run : o.destroy e s = some ((), s')) : Released o s s' := by
  obtain ⟨-, released⟩ := release_inv run
  refine ⟨released.next, fun v member => ?_, fun v member other => ?_, released.memoryMap,
    released.cleared⟩
  · obtain ⟨i, isIdentity, isVersion⟩ := mem_objects_modifyIdentity.mp (released.objects v member)
    apply List.mem_flatMap.mpr
    refine ⟨i, isIdentity, ?_⟩
    split at isVersion
    · exact List.mem_of_mem_filter isVersion
    · exact isVersion
  · obtain ⟨i, isIdentity, isVersion⟩ := List.mem_flatMap.mp member
    apply released.others v _ other
    apply mem_objects_modifyIdentity.mpr
    refine ⟨i, isIdentity, ?_⟩
    split
    · exact List.mem_filter.mpr ⟨isVersion, decide_eq_true other⟩
    · exact isVersion

end Release

/-! ## Reservations are disjoint -/

section Main

variable {e : Env} {s' : Loader} {a a' : AddressSpace}

theorem AddressSpace.Sound.step (sound : a.Sound) {event : AddressEvent}
    (step : AddressStep event a a') (careful : event.Careful a a') : a'.Sound := by
  cases step with
  | reserve e size owner run => exact sound.reserve owner careful run
  | change more => exact sound.change more careful
  | release e o run => exact sound.release (release_inv run).2 careful
  | destroy e o run => exact sound.release (destroy_inv run) careful

theorem AddressSpace.Sound.run (sound : a.Sound) (run : CarefulRun a a') : a'.Sound := by
  induction run with
  | refl => exact sound
  | tail _ step ih =>
    obtain ⟨event, step, careful⟩ := step
    exact ih.step step careful

/-- In every run whose steps meet the condition, the address `next_address` returns is aligned,
and its range is disjoint from every segment below the loader and from every range in use, if it
does not wrap around either. -/
theorem nextAddress_disjoint (run : CarefulRun ⟨Loader.initial, []⟩ a) {size start : Nat}
    (fits : a.state.HasRoom e size) (reserved : nextAddress e size a.state = some (start, s')) :
    VirtualMemory.pageSize ∣ start ∧ start + size ≤ 2 ^ 64 ∧
    (∀ o ∈ a.state.objects, ∀ seg ∈ a.state.memoryMap o.uid, seg.pages.stop ≤ baseAddress →
      Range.Apart ⟨start, size⟩ seg.pages) ∧
    ∀ r ∈ a.live, Range.Apart ⟨start, size⟩ r.range := by
  have initial : AddressSpace.Sound ⟨Loader.initial, []⟩ :=
    ⟨fun o member => (nomatch member), fun r isLive => (nomatch isLive)⟩
  have sound := initial.run run
  obtain ⟨above, -, room⟩ := nextAddress_inv fits reserved
  refine ⟨(nextAddress_frame reserved).1, room, fun o member seg isSegment below => ?_,
    fun r isLive => ?_⟩
  · have word : seg.pageEnd = seg.pages.stop := by
      rw [pageEnd_eq]
      exact Nat.mod_eq_of_lt (below.trans_lt (by decide))
    rw [← word] at below
    have seen := (sound.bounded o member).seen member isSegment below
    rw [word] at seen
    have beyond := seen.le_highestEnd a.state.nextLibraryAddress
    exact Or.inr (Nat.le_trans beyond above)
  · have known := (sound.known r isLive).le_highestEnd
    exact Or.inr (Nat.le_trans known above)

end Main

/-! ## The functions of the loader as runs -/

section Functions

variable {e : Env} {s s' : Loader} {a : AddressSpace} {file : Nat} {o : Object}

theorem mapsMore_of_objects (objects : s'.objects = s.objects)
    (next : s'.nextLibraryAddress = s.nextLibraryAddress) (memoryMap : s'.memoryMap = s.memoryMap) :
    MapsMore s s' :=
  ⟨next, fun o member _ => ⟨o, objects ▸ member, rfl⟩, fun _ _ => memoryMap ▸ List.prefix_rfl⟩

theorem Still.mapsMore (still : Still s s') : MapsMore s s' := by
  refine mapsMore_of_objects ?_ still.next still.memoryMap
  unfold Loader.objects
  rw [still.lookup]

theorem AddressRun.change (more : MapsMore s s') (live : List Reservation) :
    AddressRun ⟨s, live⟩ ⟨s', live⟩ :=
  .single ⟨.change, .change more⟩

theorem AddressRun.reserve (run : nextAddress e size s = some (start, s')) (owner : Option Nat)
    (live : List Reservation) :
    AddressRun ⟨s, live⟩ (AddressSpace.reserve ⟨s, live⟩ s' start size owner) :=
  .single ⟨.reserve e size, .reserve e size owner run⟩

theorem objects_modifyIdentity (same : ∀ i, (f i).versions = i.versions) :
    (s.modifyIdentity file f).objects = s.objects := by
  unfold Loader.objects Loader.modifyIdentity
  simp only [List.flatMap_def, KeyedList.map_update same]

/-- The constructor of a dynamic object reserves the space of its load segments, unless its
address is fixed; the one of a relocatable object asks for an address without reserving
anything. -/
theorem constructObject_run {op : Opened} (run : constructObject e file op s = some (some o, s'))
    (live : List Reservation) :
    ∃ live', AddressRun ⟨s, live⟩ ⟨s', live'⟩ ∧
      (live' = live ∨ live' = ⟨⟨o.base, op.elf.maxSize⟩, some o.uid⟩ :: live) := by
  have new := constructObject_new run
  have objects : (s.constructed file o.kind op.elf).objects = s.objects :=
    objects_modifyIdentity fun _ => by cases o.kind <;> rfl
  have first : AddressRun ⟨s, live⟩ ⟨s.constructed file o.kind op.elf, live⟩ :=
    .change (mapsMore_of_objects objects rfl rfl) live
  rcases new.state with rfl | ⟨size, start, reserved, placed⟩
  · exact ⟨live, first, .inl rfl⟩
  · have second := AddressRun.reserve reserved (some o.uid) live
    unfold AddressSpace.reserve at second
    by_cases empty : size = 0
    · rw [if_pos empty] at second
      exact ⟨live, first.trans second, .inl rfl⟩
    · rw [if_neg empty] at second
      obtain ⟨rfl, rfl⟩ := placed.resolve_left empty
      exact ⟨_, first.trans second, .inr rfl⟩

theorem install_run (run : install o s = some ((), s')) (live : List Reservation) :
    AddressRun ⟨s, live⟩ ⟨s', live⟩ := by
  rw [modify_inv run]
  have more : MapsMore s (s.modifyIdentity o.file (.addVersion o)) := by
    refine ⟨rfl, fun v member _ => ⟨v, ?_, rfl⟩, fun v _ => List.prefix_rfl⟩
    obtain ⟨i, isIdentity, isVersion⟩ := List.mem_flatMap.mp member
    apply mem_objects_modifyIdentity.mpr
    refine ⟨i, isIdentity, ?_⟩
    split
    · exact List.mem_cons_of_mem o isVersion
    · exact isVersion
  exact .change more live

theorem still_mmapFixed (start length : Nat) (protection : VirtualMemory.Protection)
    (backing : VirtualMemory.Backing) :
    Keeps Still (mmapFixed e start length protection backing) := by
  refine keeps_bind still_syscall fun ok => ?_
  intro s mapped s' run
  rw [bind_of_eq (get_apply s)] at run
  split at run <;> cases run <;> exact ⟨rfl, rfl, rfl⟩

theorem still_newBlock (undefinedTrampoline mmapAddress : Nat) :
    Keeps Still (Trampoline.newBlock e undefinedTrampoline mmapAddress) := by
  have protects : ∀ start length protection, Keeps Still (mprotect e start length protection) := by
    intro start length protection
    refine keeps_bind still_syscall fun ok => keeps_ite (fun _ => ?_) fun _ => keeps_pure _
    exact keeps_bind (keeps_modify fun s => ⟨rfl, rfl, rfl⟩) fun _ => keeps_pure _
  have backs : ∀ content, Keeps Still (newBacking content) := by
    rintro content s backing s' ⟨⟩
    exact ⟨rfl, rfl, rfl⟩
  refine keeps_bind (keeps_bind keeps_get fun s => keeps_bind (backs _) fun backing =>
    keeps_bind (still_mmapFixed _ _ _ _) fun ok => ?_) fun block => ?_
  · exact keeps_ite (fun _ => keeps_pure _) fun _ => keeps_pure _
  · cases block with
    | none => exact keeps_pure _
    | some block =>
      refine keeps_bind (protects _ _ _) fun ok => keeps_ite (fun _ => keeps_pure _) fun _ => ?_
      exact keeps_bind (still_munmap _ _) fun _ => keeps_pure _

theorem allocate_run {undefinedTrampoline : Nat} {t t' : Trampoline} {sym : VersionedSymbol}
    {index : Option Nat}
    (run : t.allocate e undefinedTrampoline sym s = some ((index, t'), s'))
    (live : List Reservation) :
    ∃ live', AddressRun ⟨s, live⟩ ⟨s', live'⟩ ∧
      (live' = live ∨ ∃ start, live' = ⟨⟨start, Trampoline.mmapSize⟩, none⟩ :: live) := by
  unfold Trampoline.allocate at run
  split at run
  · obtain ⟨start, s1, reserved, run⟩ := bind_inv run
    obtain ⟨block, s2, mapped, run⟩ := bind_inv run
    have first := AddressRun.reserve reserved none live
    have second := AddressRun.change (still_newBlock _ _ _ _ _ mapped).mapsMore
      (⟨⟨start, Trampoline.mmapSize⟩, none⟩ :: live)
    have state : s' = s2 := by
      cases block <;> exact (pure_inv run).2
    rw [state]
    exact ⟨_, first.trans second, .inr ⟨start, rfl⟩⟩
  · obtain ⟨-, rfl⟩ := pure_inv run
    exact ⟨live, .refl, .inl rfl⟩

/-- The versions of an identity are released one after the other. -/
theorem releaseAll_run (versions : List Object) : ∀ {s : Loader} (live : List Reservation),
    forEach (Object.release e) versions s = some ((), s') →
    ∃ live', AddressRun ⟨s, live⟩ ⟨s', live'⟩ ∧ (∀ r ∈ live', r ∈ live) ∧ s'.lookup = s.lookup ∧
      (∀ v ∈ versions, s'.memoryMap v.uid = []) ∧
      ∀ u, s.memoryMap u = [] → s'.memoryMap u = [] := by
  induction versions with
  | nil =>
    intro s live run
    obtain ⟨-, rfl⟩ := pure_inv run
    refine ⟨live, .refl, fun _ isLive => isLive, rfl, fun v member => ?_, fun _ empty => empty⟩
    cases member
  | cons v versions ih =>
    intro s live run
    obtain ⟨_, s1, first, run⟩ := bind_inv run
    obtain ⟨lookup, released⟩ := release_inv first
    have step : AddressRun ⟨s, live⟩ (AddressSpace.free ⟨s, live⟩ s1 v.uid) :=
      .single ⟨.release v, .release e v first⟩
    obtain ⟨live', rest, remain, same, cleared, stays⟩ := ih _ run
    refine ⟨live', step.trans rest, fun r isLive => List.mem_of_mem_filter (remain r isLive),
      same.trans lookup, fun w member => ?_, fun u empty => stays u ?_⟩
    · rcases List.mem_cons.mp member with rfl | later
      · exact stays _ released.cleared
      · exact cleared w later
    · by_cases here : u = v.uid
      · rw [here]
        exact released.cleared
      · rw [released.memoryMap u here]
        exact empty

theorem popBack_run (run : popBack e s = some ((), s')) (live : List Reservation) :
    ∃ live', AddressRun ⟨s, live⟩ ⟨s', live'⟩ ∧ ∀ r ∈ live', r ∈ live := by
  unfold popBack at run
  rw [bind_of_eq (get_apply s)] at run
  obtain ⟨last, isLast, run⟩ := orAbort_bind_inv run
  obtain ⟨_, s1, unwatched, run⟩ := bind_inv run
  have still : Still s s1 :=
    keeps_onlyIf (fun _ => keeps_bind still_syscall fun _ => keeps_pure _) _ _ _ unwatched
  obtain ⟨_, s2, released, run⟩ := bind_inv run
  obtain ⟨live', rest, remain, same, cleared, -⟩ := releaseAll_run last.versions live released
  have lookup : s2.lookup = s.lookup := same.trans still.lookup
  have more : MapsMore s2 { s2 with lookup := s2.lookup.dropLast } := by
    refine ⟨rfl, fun v member mapped => ⟨v, ?_, rfl⟩, fun _ _ => List.prefix_rfl⟩
    obtain ⟨i, isIdentity, isVersion⟩ := List.mem_flatMap.mp member
    apply List.mem_flatMap.mpr
    refine ⟨i, ?_, isVersion⟩
    have ends : s2.lookup = s2.lookup.dropLast ++ [last] := by
      rw [lookup]
      exact (List.dropLast_append_getLast? last isLast).symm
    rw [ends] at isIdentity
    rcases List.mem_append.mp isIdentity with kept | isLast
    · exact kept
    · rw [List.mem_singleton.mp isLast] at isVersion
      exact absurd (cleared v isVersion) mapped
  rw [modify_inv run]
  exact ⟨live', (AddressRun.change still.mapsMore live).trans
    (rest.trans (AddressRun.change more live')), remain⟩

end Functions

/-! ## A library, trampolines, and an executable that cannot be loaded -/

/-- A page at the first address. -/
def firstPage : MemorySegment := { MemorySegment.ofBss 0 4096 pdcAddress with status := .mapped }

/-- The address of a library of one page has been handed out. -/
def reservedLibrary : Loader := { Loader.initial with nextLibraryAddress := pdcAddress + 4096 }

/-- The library is mapped. -/
def mappedLibrary : Loader :=
  { reservedLibrary with
    lookup := [.global 1 "liba.so" [.construct 0 1 .dynamic (Elf.library [] [] []) .none]]
    memoryMap := fun uid => if uid = 0 then [firstPage] else [] }

/-- A block of trampolines follows the library. -/
def withTrampolines : Loader :=
  { mappedLibrary with nextLibraryAddress := pdcAddress + 4096 + Trampoline.mmapSize }

/-- The ranges of the library and of the trampolines. -/
def twoReservations : List Reservation :=
  [⟨⟨pdcAddress + 4096, Trampoline.mmapSize⟩, none⟩, ⟨⟨pdcAddress, 4096⟩, some 0⟩]

theorem firstPage_bounded : Bounded [firstPage] := by
  intro seg member _
  refine ⟨firstPage, rfl, ?_, by decide⟩
  rw [List.mem_singleton.mp member]

theorem CarefulRun.reserve {e : Env} {s s' : Loader} {live : List Reservation}
    (before : CarefulRun a ⟨s, live⟩) (fits : s.HasRoom e size)
    (run : nextAddress e size s = some (start, s')) (positive : size ≠ 0)
    (owner : Option Nat) :
    CarefulRun a ⟨s', ⟨⟨start, size⟩, owner⟩ :: live⟩ := by
  have step := AddressStep.reserve (a := ⟨s, live⟩) e size owner run
  unfold AddressSpace.reserve at step
  rw [if_neg positive] at step
  exact before.tail ⟨.reserve e size, step, fits⟩

theorem CarefulRun.addressRun {a a' : AddressSpace} (run : CarefulRun a a') : AddressRun a a' := by
  induction run with
  | refl => exact .refl
  | tail _ step ih =>
    obtain ⟨event, step, -⟩ := step
    exact ih.tail ⟨event, step⟩

theorem withTrampolines_run : CarefulRun ⟨Loader.initial, []⟩ ⟨withTrampolines, twoReservations⟩ := by
  have library : nextAddress Env.noFiles 4096 Loader.initial = some (pdcAddress, reservedLibrary) := rfl
  have block : nextAddress Env.noFiles Trampoline.mmapSize mappedLibrary =
      some (pdcAddress + 4096, withTrampolines) := rfl
  have more : MapsMore reservedLibrary mappedLibrary :=
    ⟨rfl, fun o member => (nomatch member), fun o member => (nomatch member)⟩
  have bounded : ∀ o ∈ mappedLibrary.objects, Bounded (mappedLibrary.memoryMap o.uid) := by
    intro o member
    rw [List.mem_singleton.mp member]
    exact firstPage_bounded
  have first : CarefulRun ⟨Loader.initial, []⟩ ⟨reservedLibrary, [⟨⟨pdcAddress, 4096⟩, some 0⟩]⟩ :=
    CarefulRun.reserve .refl (by decide) library (by decide) (some 0)
  have second : CarefulRun ⟨Loader.initial, []⟩ ⟨mappedLibrary, [⟨⟨pdcAddress, 4096⟩, some 0⟩]⟩ :=
    first.tail ⟨.change, .change more, bounded⟩
  exact second.reserve (by decide) block (by decide) none

/-- The next address is behind the trampolines. -/
theorem nextAddress_disjoint_trampolines :
    Range.Apart ⟨pdcAddress + 4096 + Trampoline.mmapSize, 4096⟩
      ⟨pdcAddress + 4096, Trampoline.mmapSize⟩ := by
  have reserved : nextAddress Env.noFiles 4096 withTrampolines =
      some (pdcAddress + 4096 + Trampoline.mmapSize, { withTrampolines with
        nextLibraryAddress := pdcAddress + 4096 + Trampoline.mmapSize + 4096 }) := rfl
  exact (nextAddress_disjoint withTrampolines_run (by decide) reserved).2.2.2 _ List.mem_cons_self

/-- An executable of base 0, whose load fails before anything is mapped. -/
def failedExecutable : Object := .construct 7 2 .executable (Elf.empty .exec) .none

/-- After the destruction of the executable the pointer is 0. -/
def afterFailure : Loader :=
  { withTrampolines with
    nextLibraryAddress := 0
    files := [.unmapped 0 0]
    memoryMap := fun uid => if uid = 7 then [] else withTrampolines.memoryMap uid }

/-- When the executable is destroyed the pointer goes back to 0, and the next address is the end
of the library, where the trampolines are. -/
theorem nextAddress_overlaps :
    AddressRun ⟨Loader.initial, []⟩ ⟨afterFailure, twoReservations⟩ ∧
    ∃ s', nextAddress Env.noFiles 4096 afterFailure = some (pdcAddress + 4096, s') ∧
      ¬ Range.Apart ⟨pdcAddress + 4096, 4096⟩ ⟨pdcAddress + 4096, Trampoline.mmapSize⟩ := by
  have before : AddressRun ⟨Loader.initial, []⟩ ⟨withTrampolines, twoReservations⟩ :=
    withTrampolines_run.addressRun
  have destroyed : failedExecutable.destroy Env.noFiles withTrampolines = some ((), afterFailure) := rfl
  refine ⟨before.tail ⟨.release failedExecutable, ?_⟩, _, rfl, by decide⟩
  exact .destroy Env.noFiles failedExecutable destroyed

end Luci
