import Mathlib.Data.Nat.ModEq
import Mathlib.Tactic.Ring

/-!
# Virtual memory with shared pages

An address space is a page table over a store of backings. A page of an
anonymous backing is private to the mapping that created it; pages of a memory
file may be mapped several times, and a write through one mapping is then seen
through the others. The operations follow the system calls: a mapping that must
not replace another one, unmapping, changing the protection, and moving a
range. Bytes are read and written through the page table; an access to an
unmapped or protected page has no result.

The lemmas reduce an access to the store: where the bytes of a number are
located contiguously in one backing, reading and writing them is `wordOf` and
`overlay` on the content of that backing.
-/

namespace Luci.VirtualMemory

/-- The size of a page in bytes. -/
def pageSize : Nat := 4096

/-- What holds the bytes of a page. -/
inductive Backing where
  | anonymous (number : Nat)
  | memoryFile (descriptor : Nat)
  deriving DecidableEq, Repr

/-- Access rights. -/
structure Protection where
  read : Bool
  write : Bool
  exec : Bool
  deriving DecidableEq, Repr

/-- No access. -/
def Protection.none : Protection := ⟨false, false, false⟩

/-- The rights of both. -/
def Protection.union (p q : Protection) : Protection :=
  ⟨p.read || q.read, p.write || q.write, p.exec || q.exec⟩

/-- Only the right to write. -/
def Protection.writeOnly : Protection := ⟨false, true, false⟩

/-- A page table entry: page `index` of a backing. -/
structure Page where
  backing : Backing
  index : Nat
  protection : Protection
  deriving DecidableEq, Repr

/-- An address space with the content of all backings. -/
structure Vm where
  page : Nat → Option Page
  content : Backing → Nat → UInt8
  /-- Number of the next anonymous backing. -/
  fresh : Nat

/-- Nothing is mapped. -/
def Vm.empty : Vm := ⟨fun _ => Option.none, fun _ _ => 0, 0⟩

namespace Vm

/-! ## Mappings -/

/-- No page of the range is mapped. -/
def isFree (vm : Vm) (start length : Nat) : Bool :=
  (List.range (length / pageSize)).all fun i => (vm.page (start / pageSize + i)).isNone

/-- Page `number` belongs to the page aligned range. -/
def inRange (start length number : Nat) : Bool :=
  start / pageSize ≤ number && number < start / pageSize + length / pageSize

/-- Let the pages of a range show a backing from its first page on. -/
def map (vm : Vm) (start length : Nat) (protection : Protection) (backing : Backing) : Vm :=
  { vm with page := fun number =>
      if inRange start length number then
        some ⟨backing, number - start / pageSize, protection⟩
      else vm.page number }

/-- A zeroed anonymous backing. -/
def newAnonymous (vm : Vm) : Backing × Vm :=
  (.anonymous vm.fresh,
    { vm with
      content := fun b => if b = .anonymous vm.fresh then fun _ => 0 else vm.content b
      fresh := vm.fresh + 1 })

/-- A new anonymous backing with this content. -/
def withBacking (vm : Vm) (content : Nat → UInt8) : Vm :=
  { vm with
    content := fun b => if b = .anonymous vm.fresh then content else vm.content b
    fresh := vm.fresh + 1 }

/-- A zeroed memory file with the given descriptor. -/
def newMemoryFile (vm : Vm) (descriptor : Nat) : Vm :=
  { vm with
    content := fun b => if b = .memoryFile descriptor then fun _ => 0 else vm.content b }

/-- Remove the pages of a range. -/
def unmap (vm : Vm) (start length : Nat) : Vm :=
  { vm with page := fun number =>
      if inRange start length number then Option.none else vm.page number }

/-- Change the rights of the mapped pages of a range. -/
def protect (vm : Vm) (start length : Nat) (protection : Protection) : Vm :=
  { vm with page := fun number =>
      if inRange start length number then
        (vm.page number).map fun p => { p with protection := protection }
      else vm.page number }

/-- Move the pages of a range, replacing what is mapped at the destination. -/
def move (vm : Vm) (source length destination : Nat) : Vm :=
  { vm with page := fun number =>
      if inRange destination length number then
        vm.page (number - destination / pageSize + source / pageSize)
      else if inRange source length number then Option.none
      else vm.page number }

/-- Move the pages of a range and leave a backing in their place. -/
def moveLeaving (vm : Vm) (source length destination : Nat) (left : Backing) : Vm :=
  { vm with page := fun number =>
      if inRange destination length number then
        vm.page (number - destination / pageSize + source / pageSize)
      else if inRange source length number then
        (vm.page number).map fun p =>
          { p with backing := left, index := number - source / pageSize }
      else vm.page number }

/-! ## Accesses -/

/-- The page table entry of an address. -/
def pageOf (vm : Vm) (address : Nat) : Option Page := vm.page (address / pageSize)

/-- The place in the store that an address shows. -/
def locate (vm : Vm) (address : Nat) : Option (Backing × Nat) :=
  (vm.pageOf address).map fun p => (p.backing, p.index * pageSize + address % pageSize)

/-- The address may be read; a page that can be written or executed can be read. -/
def readable (vm : Vm) (address : Nat) : Bool :=
  (vm.pageOf address).any fun p => p.protection.read || p.protection.write || p.protection.exec

/-- The address may be written. -/
def writable (vm : Vm) (address : Nat) : Bool :=
  (vm.pageOf address).any fun p => p.protection.write

/-- The address may be executed. -/
def executable (vm : Vm) (address : Nat) : Bool :=
  (vm.pageOf address).any fun p => p.protection.exec

/-- Read one byte. -/
def readByte (vm : Vm) (address : Nat) : Option UInt8 :=
  if vm.readable address then
    (vm.locate address).map fun place => vm.content place.1 place.2
  else Option.none

/-- Write one byte. -/
def writeByte (vm : Vm) (address : Nat) (byte : UInt8) : Option Vm :=
  if vm.writable address then
    (vm.locate address).map fun place =>
      { vm with content := fun b o => if (b, o) = place then byte else vm.content b o }
  else Option.none

/-- Read a little-endian number of `n` bytes. -/
def readNat (vm : Vm) : Nat → Nat → Option Nat
  | 0, _ => some 0
  | n + 1, address => do
    let byte ← vm.readByte address
    let rest ← vm.readNat n (address + 1)
    return byte.toNat + 256 * rest

/-- Write `n` bytes given by their position. -/
def writeBytes (bytes : Nat → UInt8) : Nat → Vm → Nat → Option Vm
  | 0, vm, _ => some vm
  | n + 1, vm, address => do
    let vm' ← writeBytes bytes n vm address
    vm'.writeByte (address + n) (bytes n)

end Vm

/-- Byte `i` of the little-endian form of a number. -/
def byteOf (value i : Nat) : UInt8 := UInt8.ofNat (value / 256 ^ i)

/-- Write a little-endian number of `n` bytes; what does not fit is dropped. -/
def Vm.writeNat (vm : Vm) (n address value : Nat) : Option Vm :=
  Vm.writeBytes (byteOf value) n vm address

/-- The little-endian number of `n` bytes at an offset of a content. -/
def wordOf (content : Nat → UInt8) : Nat → Nat → Nat
  | 0, _ => 0
  | n + 1, offset => (content offset).toNat + 256 * wordOf content n (offset + 1)

/-- A content with `n` bytes replaced from an offset on. -/
def overlay (content : Nat → UInt8) (offset n : Nat) (bytes : Nat → UInt8) : Nat → UInt8 :=
  fun o => if offset ≤ o ∧ o < offset + n then bytes (o - offset) else content o

/-! ## Numbers and bytes -/

variable {protection : Protection} {b backing left : Backing}
  {address destination length n o source start value : Nat}

theorem wordOf_congr {f g : Nat → UInt8} (n : Nat) : ∀ {offset : Nat},
    (∀ i < n, f (offset + i) = g (offset + i)) → wordOf f n offset = wordOf g n offset := by
  induction n with
  | zero => intro offset _; rfl
  | succ n ih =>
    intro offset same
    have first : f offset = g offset := same 0 (by omega)
    have rest : wordOf f n (offset + 1) = wordOf g n (offset + 1) := by
      refine ih fun i lt => ?_
      have next := same (i + 1) (by omega)
      rwa [Nat.add_comm i 1, ← Nat.add_assoc] at next
    rw [wordOf, wordOf, first, rest]

theorem wordOf_bytes (n : Nat) : ∀ (value : Nat) (content : Nat → UInt8) (offset : Nat),
    (∀ i < n, content (offset + i) = byteOf value i) →
      wordOf content n offset = value % 256 ^ n := by
  induction n with
  | zero => intro value content offset _; simp [wordOf, Nat.mod_one]
  | succ n ih =>
    intro value content offset bytes
    have first : (content offset).toNat = value % 256 := by
      rw [show content offset = byteOf value 0 from bytes 0 (by omega)]
      simp [byteOf]
    have rest : wordOf content n (offset + 1) = value / 256 % 256 ^ n := by
      refine ih (value / 256) content (offset + 1) fun i lt => ?_
      have byte := bytes (i + 1) (by omega)
      rw [Nat.add_assoc, Nat.add_comm 1 i, byte]
      unfold byteOf
      rw [Nat.div_div_eq_div_mul, Nat.pow_succ, Nat.mul_comm]
    rw [wordOf, first, rest, Nat.pow_succ, Nat.mul_comm (256 ^ n), Nat.mod_mul]

theorem overlay_outside {content bytes : Nat → UInt8} (outside : o < start ∨ start + n ≤ o) :
    overlay content start n bytes o = content o := by
  exact if_neg (by omega)

theorem wordOf_overlay_same (content : Nat → UInt8) (n offset value : Nat) :
    wordOf (overlay content offset n (byteOf value)) n offset = value % 256 ^ n := by
  refine wordOf_bytes n value _ offset fun i lt => ?_
  simp [overlay, lt]

/-! ## Accesses against the store -/

namespace Vm

variable {vm vm' : Vm}

/-- A write changes neither the page table nor any place it does not show. -/
structure Stored (vm vm' : Vm) (address n : Nat) : Prop where
  page : vm'.page = vm.page
  fresh : vm'.fresh = vm.fresh
  other : ∀ b o, (∀ i < n, vm.locate (address + i) ≠ some (b, o)) →
    vm'.content b o = vm.content b o

theorem locate_congr (page : vm'.page = vm.page) (address : Nat) :
    vm'.locate address = vm.locate address := by
  unfold locate pageOf
  rw [page]

theorem writable_congr (page : vm'.page = vm.page) (address : Nat) :
    vm'.writable address = vm.writable address := by
  unfold writable pageOf
  rw [page]

theorem writeByte_eq_some {byte : UInt8} (run : vm.writeByte address byte = some vm') :
    ∃ place, vm.locate address = some place ∧
      vm' = { vm with content := fun b o => if (b, o) = place then byte else vm.content b o } := by
  unfold writeByte at run
  split at run
  · obtain ⟨place, located, rfl⟩ := Option.map_eq_some_iff.mp run
    exact ⟨place, located, rfl⟩
  · cases run

theorem writeBytes_stored (bytes : Nat → UInt8) (n : Nat) :
    ∀ {vm' : Vm}, writeBytes bytes n vm address = some vm' → Stored vm vm' address n := by
  induction n with
  | zero =>
    intro vm' run
    obtain rfl : vm = vm' := by simpa [writeBytes] using run
    exact ⟨rfl, rfl, fun _ _ _ => rfl⟩
  | succ n ih =>
    intro vm' run
    obtain ⟨vm1, front, last⟩ := Option.bind_eq_some_iff.mp run
    have before := ih front
    obtain ⟨place, located, rfl⟩ := writeByte_eq_some last
    rw [locate_congr before.page] at located
    refine ⟨before.page, before.fresh, fun b o elsewhere => ?_⟩
    have different : (b, o) ≠ place := by
      rintro rfl
      exact elsewhere n (by omega) located
    simp only [if_neg different]
    exact before.other b o fun i lt => elsewhere i (by omega)

theorem writeNat_stored (run : vm.writeNat n address value = some vm') : Stored vm vm' address n :=
  writeBytes_stored (byteOf value) n run

/-- The `n` bytes at `address` are shown contiguously from offset `o` of `b`. -/
def Shows (vm : Vm) (address n : Nat) (b : Backing) (o : Nat) : Prop :=
  ∀ i < n, vm.locate (address + i) = some (b, o + i)

theorem readable_of_writable (writable : vm.writable address) :
    vm.readable address := by
  obtain ⟨page, isPage, write⟩ := (Option.any_eq_true _ _).mp writable
  rw [readable, isPage, Option.any_some, write, Bool.or_true, Bool.true_or]

theorem readable_of_executable (executable : vm.executable address) :
    vm.readable address := by
  obtain ⟨page, isPage, exec⟩ := (Option.any_eq_true _ _).mp executable
  rw [readable, isPage, Option.any_some, exec, Bool.or_true]

/-- A read of bytes that may be read does not fault. -/
theorem readNat_shown (n : Nat) : ∀ {address o : Nat} {b : Backing}, vm.Shows address n b o →
    (∀ i < n, vm.readable (address + i)) →
      vm.readNat n address = some (wordOf (vm.content b) n o) := by
  induction n with
  | zero => intro address o b _ _; rfl
  | succ n ih =>
    intro address o b shown readable
    have first : vm.readByte address = some (vm.content b o) := by
      have located : vm.locate address = some (b, o) := shown 0 (by omega)
      have allowed : vm.readable address := readable 0 (by omega)
      rw [readByte, if_pos allowed, located, Option.map_some]
    have rest : vm.readNat n (address + 1) = some (wordOf (vm.content b) n (o + 1)) := by
      refine ih (fun i lt => ?_) fun i lt => ?_
      · rw [Nat.add_assoc, Nat.add_comm 1 i, shown (i + 1) (by omega), Nat.add_assoc,
          Nat.add_comm 1 i]
      · rw [Nat.add_assoc, Nat.add_comm 1 i]
        exact readable (i + 1) (by omega)
    rw [readNat, first, rest]
    rfl

theorem writeBytes_shown (bytes : Nat → UInt8) (n : Nat) :
    ∀ {vm' : Vm}, vm.Shows address n b o → writeBytes bytes n vm address = some vm' →
      vm'.content b = overlay (vm.content b) o n bytes := by
  induction n with
  | zero =>
    intro vm' _ run
    obtain rfl : vm = vm' := by simpa [writeBytes] using run
    funext p
    simp [overlay]
  | succ n ih =>
    intro vm' shows_ run
    obtain ⟨vm1, front, last⟩ := Option.bind_eq_some_iff.mp run
    have before := ih (fun i lt => shows_ i (by omega)) front
    obtain ⟨place, located, rfl⟩ := writeByte_eq_some last
    rw [locate_congr (writeBytes_stored bytes n front).page, shows_ n (by omega)] at located
    obtain rfl := Option.some.inj located
    funext p
    simp only [before, Prod.mk.injEq, true_and]
    unfold overlay
    by_cases same : p = o + n
    · simp [same]
    · by_cases inside : o ≤ p ∧ p < o + n
      · simp [same, inside]
        omega
      · rw [if_neg same, if_neg inside, if_neg (by omega)]

theorem writeNat_shown (shown : vm.Shows address n b o)
    (run : vm.writeNat n address value = some vm') :
    wordOf (vm'.content b) n o = value % 256 ^ n := by
  rw [writeBytes_shown (byteOf value) n shown run, wordOf_overlay_same]

/-! ## Address spaces that grow -/

/-- What an address shows is not replaced by anything else. -/
def Extends (vm vm' : Vm) : Prop :=
  ∀ address place, vm.locate address = some place → vm'.locate address = some place

theorem Extends.of_page (page : vm'.page = vm.page) : Extends vm vm' := by
  intro address place located
  rw [locate_congr page, located]

theorem Extends.trans {vm1 vm2 vm3 : Vm} (first : Extends vm1 vm2) (second : Extends vm2 vm3) :
    Extends vm1 vm3 :=
  fun address place located => second address place (first address place located)

theorem Shows.extends (shown : vm.Shows address n b o) (grows : Extends vm vm') :
    vm'.Shows address n b o :=
  fun i lt => grows _ _ (shown i lt)

/-- No page of the range is in use. -/
def Free (vm : Vm) (start length : Nat) : Prop :=
  ∀ number, inRange start length number = true → vm.page number = Option.none

theorem free_of_isFree (free : vm.isFree start length) : vm.Free start length := by
  intro number inside
  rw [inRange, Bool.and_eq_true, decide_eq_true_eq, decide_eq_true_eq] at inside
  have unmapped := List.all_eq_true.mp free (number - start / pageSize)
    (List.mem_range.mpr (by omega))
  rwa [Nat.add_sub_cancel' inside.1, Option.isNone_iff_eq_none] at unmapped

theorem Free.outside (free : vm.Free start length) {place : Backing × Nat}
    (located : vm.locate address = some place) :
    inRange start length (address / pageSize) = false := by
  by_contra inside
  rw [locate, pageOf, free _ (Bool.not_eq_false _ ▸ inside)] at located
  cases located

theorem extends_map (free : vm.isFree start length) :
    Extends vm (vm.map start length protection backing) := by
  intro address place located
  have outside := (free_of_isFree free).outside located
  rw [← located]
  unfold locate pageOf map
  simp only [outside, Bool.false_eq_true, if_false]

theorem extends_protect : Extends vm (vm.protect start length protection) := by
  intro address place located
  obtain ⟨page, isPage, isPlace⟩ := Option.map_eq_some_iff.mp located
  have isPage : vm.page (address / pageSize) = some page := isPage
  unfold locate pageOf protect
  simp only [isPage]
  split
  · rw [Option.map_some, Option.map_some, ← isPlace]
  · rw [Option.map_some, isPlace]

/-- A new mapping of whole pages shows its backing from the start. -/
theorem locate_map (aligned : start % pageSize = 0) (whole : length % pageSize = 0)
    (lower : start ≤ address) (upper : address < start + length) :
    (vm.map start length protection backing).locate address = some (backing, address - start) := by
  have positive : 0 < pageSize := by decide
  have isStart : start = pageSize * (start / pageSize) := by
    have := Nat.div_add_mod start pageSize
    omega
  have isLength : length = pageSize * (length / pageSize) := by
    have := Nat.div_add_mod length pageSize
    omega
  have isAddress := Nat.div_add_mod address pageSize
  have first : start / pageSize ≤ address / pageSize := Nat.div_le_div_right lower
  have last : address / pageSize < start / pageSize + length / pageSize := by
    rw [Nat.div_lt_iff_lt_mul positive, Nat.add_mul, Nat.mul_comm _ pageSize,
      Nat.mul_comm _ pageSize, ← isStart, ← isLength]
    exact upper
  have inside : inRange start length (address / pageSize) := by
    rw [inRange, Bool.and_eq_true, decide_eq_true_eq, decide_eq_true_eq]
    exact ⟨first, last⟩
  unfold locate pageOf map
  simp only [inside, if_true, Option.map_some, Option.some.injEq, Prod.mk.injEq, true_and]
  have offset : (address / pageSize - start / pageSize) * pageSize =
      pageSize * (address / pageSize) - start := by
    rw [Nat.mul_comm, Nat.mul_sub, ← isStart]
  have below : start ≤ pageSize * (address / pageSize) := by
    rw [isStart]
    exact Nat.mul_le_mul_left _ first
  omega

theorem shows_map (aligned : start % pageSize = 0) (whole : length % pageSize = 0) :
    (vm.map start length protection backing).Shows start length backing 0 := by
  intro i lt
  rw [locate_map aligned whole (Nat.le_add_right _ _) (Nat.add_lt_add_left lt _),
    Nat.add_sub_cancel_left, Nat.zero_add]

/-- Page numbers of the addresses of a range of whole pages. -/
theorem inRange_iff (aligned : start % pageSize = 0) (whole : length % pageSize = 0) :
    inRange start length (address / pageSize) ↔ start ≤ address ∧ address < start + length := by
  unfold inRange pageSize at *
  rw [Bool.and_eq_true, decide_eq_true_eq, decide_eq_true_eq]
  omega

/-- Ranges without a common address. -/
def Apart (start start' length : Nat) : Prop :=
  start + length ≤ start' ∨ start' + length ≤ start

/-- A free range has no address in common with one that is in use. -/
theorem Free.apart {start start' length o : Nat} (free : vm.Free start length)
    (shown : vm.Shows start' length b o) (aligned : start % pageSize = 0)
    (whole : length % pageSize = 0) (some : 0 < length) : Apart start start' length := by
  by_contra common
  have overlap : ∃ i < length, start ≤ start' + i ∧ start' + i < start + length := by
    unfold Apart at common
    by_cases before : start ≤ start'
    · exact ⟨0, some, by omega, by omega⟩
    · exact ⟨start - start', by omega, by omega, by omega⟩
  obtain ⟨i, lt, lower, upper⟩ := overlap
  have outside := free.outside (shown i lt)
  rw [(inRange_iff aligned whole).mpr ⟨lower, upper⟩] at outside
  cases outside

theorem not_isFree (shown : vm.Shows start length b o) (aligned : start % pageSize = 0)
    (whole : length % pageSize = 0) (some : 0 < length) :
    vm.isFree start length = false := by
  by_contra free
  have isApart := (free_of_isFree (Bool.not_eq_false _ ▸ free)).apart shown aligned whole some
  unfold Apart at isApart
  omega

theorem locate_move {source length destination i : Nat} (alignedSource : source % pageSize = 0)
    (aligned : destination % pageSize = 0) (whole : length % pageSize = 0) (lt : i < length) :
    (vm.move source length destination).locate (destination + i) = vm.locate (source + i) := by
  have inside : inRange destination length ((destination + i) / pageSize) :=
    (inRange_iff aligned whole).mpr ⟨by omega, by omega⟩
  have number : (destination + i) / pageSize - destination / pageSize + source / pageSize =
      (source + i) / pageSize := by
    unfold pageSize at *
    omega
  have rest : (destination + i) % pageSize = (source + i) % pageSize := by
    unfold pageSize at *
    omega
  unfold locate pageOf move
  simp only [inside, if_true, number, rest]

theorem Shows.move (shown : vm.Shows source length b 0) (alignedSource : source % pageSize = 0)
    (aligned : destination % pageSize = 0) (whole : length % pageSize = 0) :
    (vm.move source length destination).Shows destination length b 0 := by
  intro i lt
  rw [locate_move alignedSource aligned whole lt, shown i lt]

theorem Shows.moveLeaving (shown : vm.Shows source length b 0)
    (alignedSource : source % pageSize = 0) (aligned : destination % pageSize = 0)
    (whole : length % pageSize = 0) :
    (vm.moveLeaving source length destination left).Shows destination length b 0 := by
  intro i lt
  have moved := shown.move alignedSource aligned whole i lt
  rw [← moved]
  have inside : inRange destination length ((destination + i) / pageSize) :=
    (inRange_iff aligned whole).mpr ⟨by omega, by omega⟩
  unfold locate pageOf Vm.moveLeaving Vm.move
  simp only [inside, if_true]

theorem shows_left (shown : vm.Shows source length b 0) (alignedSource : source % pageSize = 0)
    (aligned : destination % pageSize = 0) (whole : length % pageSize = 0)
    (isApart : Apart source destination length) :
    (vm.moveLeaving source length destination left).Shows source length left 0 := by
  intro i lt
  have outside : inRange destination length ((source + i) / pageSize) = false := by
    rw [Bool.eq_false_iff, Ne, inRange_iff aligned whole]
    unfold Apart at isApart
    omega
  have inside : inRange source length ((source + i) / pageSize) :=
    (inRange_iff alignedSource whole).mpr ⟨by omega, by omega⟩
  obtain ⟨page, isPage, -⟩ := Option.map_eq_some_iff.mp (shown i lt)
  have isPage : vm.page ((source + i) / pageSize) = some page := isPage
  unfold locate pageOf Vm.moveLeaving
  simp only [outside, Bool.false_eq_true, if_false, inside, if_true, isPage, Option.map_some]
  have index : ((source + i) / pageSize - source / pageSize) * pageSize + (source + i) % pageSize = i := by
    unfold pageSize at *
    omega
  rw [index, Nat.zero_add]

/-- The bytes of a range may be written. -/
def Writable (vm : Vm) (start length : Nat) : Prop := ∀ i < length, vm.writable (start + i) = true

theorem writable_map (aligned : start % pageSize = 0) (whole : length % pageSize = 0)
    (write : protection.write) :
    (vm.map start length protection backing).Writable start length := by
  intro i lt
  have inside : inRange start length ((start + i) / pageSize) :=
    (inRange_iff aligned whole).mpr ⟨by omega, by omega⟩
  unfold writable pageOf map
  simp only [inside, if_true, Option.any_some, write]

theorem writable_protect (shown : vm.Shows start length b o) (aligned : start % pageSize = 0)
    (whole : length % pageSize = 0) (write : protection.write) :
    (vm.protect start length protection).Writable start length := by
  intro i lt
  have inside : inRange start length ((start + i) / pageSize) :=
    (inRange_iff aligned whole).mpr ⟨by omega, by omega⟩
  obtain ⟨page, isPage, -⟩ := Option.map_eq_some_iff.mp (shown i lt)
  have isPage : vm.page ((start + i) / pageSize) = some page := isPage
  unfold writable pageOf protect
  simp only [inside, if_true, isPage, Option.map_some, Option.any_some, write]

theorem writeBytes_some (bytes : Nat → UInt8) (shown : vm.Shows address n b o)
    (writable : vm.Writable address n) :
    ∃ vm', writeBytes bytes n vm address = some vm' := by
  induction n with
  | zero => exact ⟨vm, rfl⟩
  | succ n ih =>
    obtain ⟨vm1, front⟩ := ih (fun i lt => shown i (by omega)) fun i lt => writable i (by omega)
    have page := (writeBytes_stored bytes n front).page
    have last : vm1.writable (address + n) := by
      rw [writable_congr page]
      exact writable n (by omega)
    have located : vm1.locate (address + n) = some (b, o + n) := by
      rw [locate_congr page]
      exact shown n (by omega)
    have written : (vm1.writeByte (address + n) (bytes n)).isSome := by
      unfold writeByte
      rw [if_pos last, located]
      rfl
    obtain ⟨vm', isLast⟩ := Option.isSome_iff_exists.mp written
    refine ⟨vm', ?_⟩
    unfold writeBytes
    rw [front]
    exact isLast

theorem isFree_unmap : (vm.unmap start length).isFree start length := by
  unfold isFree
  rw [List.all_eq_true]
  intro i member
  have lt := List.mem_range.mp member
  have inside : inRange start length (start / pageSize + i) := by
    unfold inRange
    rw [Bool.and_eq_true, decide_eq_true_eq, decide_eq_true_eq]
    omega
  unfold unmap
  simp only [inside, if_true, Option.isNone_none]

theorem Shows.part {address n m o d : Nat} (shown : vm.Shows address n b o) (fits : d + m ≤ n) :
    vm.Shows (address + d) m b (o + d) := by
  intro i lt
  rw [Nat.add_assoc, Nat.add_assoc]
  exact shown (d + i) (by omega)

/-! ## Single pages -/

theorem locate_isSome : (vm.locate address).isSome = (vm.page (address / pageSize)).isSome :=
  Option.isSome_map

end Vm
end Luci.VirtualMemory
