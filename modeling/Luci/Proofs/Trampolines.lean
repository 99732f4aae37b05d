import Luci.Trampoline
import Luci.Reference
import Luci.Proofs.SegmentContents

/-!
# Trampolines stay valid and current

The invariant of `Trampoline` is about memory: every block shows a backing of its own, whose
first two pages hold the code and can be executed, and whose third page can be written. It is
kept by `set`, by `update`, and by whatever leaves the blocks alone, such as the update of an
object. From it follows where the slots of an index are, that they do not overlap, and that the
code of an index jumps through its pointer.

`update` lets every pointer follow its symbol. `set` writes the pointer of its own symbol only:
a pointer whose file has a new version stays behind until the next `update`.
-/

namespace Luci

open Exec VirtualMemory

variable {vm vm' : Vm} {place : Nat × Nat} {sym : VersionedSymbol} {content : Nat → UInt8}
  {block index : Option Nat} {x y : Trampoline × Loader} {d i k length n offset start : Nat}

/-- What the processor does at `endbr64; jmp *disp32(%rip)`: it continues at the address that is
stored `disp32` behind the end of the jump. -/
def jumpFrom (vm : Vm) (address : Nat) : Option Nat := do
  if (List.range 10).all fun i => vm.executable (address + i) then
    let endbr64 ← vm.readNat 4 address
    let jmp ← vm.readNat 2 (address + 4)
    let disp32 ← vm.readNat 4 (address + 6)
    if endbr64 = 0xfa1e0ff3 ∧ jmp = 0x25ff then
      vm.readNat 8 (displaced (address + 10) disp32)
    else none
  else none

namespace Trampoline

theorem entriesPerBlock_eq : entriesPerBlock = 512 := rfl
theorem trampolinesBlock_eq : trampolinesBlock = 8192 := rfl
theorem mmapSize_eq : mmapSize = 12288 := rfl

/-! ## One block -/

/-- The pages of a block show an anonymous backing. -/
structure Pages (vm : Vm) (start number : Nat) : Prop where
  aligned : start % pageSize = 0
  limit : start + mmapSize ≤ userLimit
  known : number < vm.fresh
  shown : vm.Shows start mmapSize (.anonymous number) 0
  executable : ∀ i < trampolinesBlock, vm.executable (start + i) = true
  writable : vm.Writable (start + trampolinesBlock) pageSize

/-- A block at an address: its pages, and its code in the backing. -/
structure Block (vm : Vm) (undefinedTrampoline start number : Nat) : Prop
    extends Pages vm start number where
  code : ∀ i < trampolinesBlock,
    vm.content (.anonymous number) i = blockContent undefinedTrampoline i

/-- The pages of a range are the same. -/
structure SamePages (vm vm' : Vm) (start length : Nat) : Prop where
  page : ∀ i < length, vm'.pageOf (start + i) = vm.pageOf (start + i)
  fresh : vm.fresh ≤ vm'.fresh

section Block

variable {vm vm' : Vm} {undefinedTrampoline start number : Nat}

theorem Pages.same (pages : Pages vm start number) (same : SamePages vm vm' start mmapSize) :
    Pages vm' start number where
  aligned := pages.aligned
  limit := pages.limit
  known := Nat.lt_of_lt_of_le pages.known same.fresh
  shown i lt := by
    rw [Vm.locate, same.page i lt]
    exact pages.shown i lt
  executable i lt := by
    rw [Vm.executable, same.page i (by rw [mmapSize_eq]; rw [trampolinesBlock_eq] at lt; omega)]
    exact pages.executable i lt
  writable i lt := by
    have inside : trampolinesBlock + i < mmapSize := Nat.add_lt_add_left lt _
    rw [Vm.writable, Nat.add_assoc, same.page _ inside, ← Nat.add_assoc]
    exact pages.writable i lt

theorem Pages.readByte (pages : Pages vm start number) (lt : i < mmapSize) :
    vm.readByte (start + i) = some (vm.content (.anonymous number) i) := by
  have readable : vm.readable (start + i) := by
    by_cases code : i < trampolinesBlock
    · exact Vm.readable_of_executable (pages.executable i code)
    · have writable := pages.writable (i - trampolinesBlock) (by
        rw [mmapSize_eq] at lt
        rw [trampolinesBlock_eq] at code ⊢
        unfold pageSize
        omega)
      rw [Nat.add_assoc, Nat.add_sub_cancel' (by omega)] at writable
      exact Vm.readable_of_writable writable
  rw [Vm.readByte, if_pos readable, pages.shown i lt, Option.map_some, Nat.zero_add]

theorem Block.samePages (block : Block vm undefinedTrampoline start number)
    (same : SamePages vm vm' start mmapSize)
    (code : ∀ i < trampolinesBlock,
      vm'.content (.anonymous number) i = vm.content (.anonymous number) i) :
    Block vm' undefinedTrampoline start number where
  toPages := block.toPages.same same
  code i lt := by rw [code i lt, block.code i lt]

/-- The word in the pointer slot at an offset. -/
def slotWord (vm : Vm) (number offset : Nat) : Nat :=
  wordOf (vm.content (.anonymous number)) 8 (trampolinesBlock + offset * 8)

theorem Block.readSlot (block : Block vm undefinedTrampoline start number)
    (lt : offset < entriesPerBlock) :
    vm.readNat 8 (start + trampolinesBlock + offset * 8) = some (slotWord vm number offset) := by
  rw [entriesPerBlock_eq] at lt
  have shown : vm.Shows (start + (trampolinesBlock + offset * 8)) 8 (.anonymous number)
      (0 + (trampolinesBlock + offset * 8)) := by
    refine block.shown.part ?_
    rw [trampolinesBlock_eq, mmapSize_eq]
    omega
  rw [Nat.zero_add, ← Nat.add_assoc] at shown
  refine Vm.readNat_shown 8 shown fun i small => ?_
  have writable := block.writable (offset * 8 + i) (by unfold pageSize; omega)
  rw [← Nat.add_assoc] at writable
  exact Vm.readable_of_writable writable

theorem Block.readCode (block : Block vm undefinedTrampoline start number)
    (fits : d + n ≤ trampolinesBlock) :
    vm.readNat n (start + d) = some (wordOf (blockContent undefinedTrampoline) n d) := by
  have shown : vm.Shows (start + d) n (.anonymous number) (0 + d) := by
    refine block.shown.part ?_
    rw [trampolinesBlock_eq] at fits
    rw [mmapSize_eq]
    omega
  rw [Nat.zero_add] at shown
  rw [Vm.readNat_shown n shown]
  · exact congrArg some (wordOf_congr n fun i lt => block.code (d + i) (by omega))
  · intro i lt
    rw [Nat.add_assoc]
    exact Vm.readable_of_executable (block.executable (d + i) (by omega))

/-! ## The code -/

theorem blockContent_code (lt : i < entriesPerBlock) (small : k < trampolineBytes) :
    blockContent undefinedTrampoline (i * trampolineBytes + k) = code i k := by
  unfold entriesPerBlock pageSize at lt
  unfold trampolineBytes at small
  unfold blockContent
  rw [if_pos (by rw [trampolinesBlock_eq]; unfold trampolineBytes; omega)]
  have first : (i * trampolineBytes + k) / trampolineBytes = i := by
    unfold trampolineBytes
    omega
  have second : (i * trampolineBytes + k) % trampolineBytes = k := by
    unfold trampolineBytes
    omega
  rw [first, second]

theorem target_eq (lt : i < entriesPerBlock) : target i = 8182 - 8 * i := by
  rw [entriesPerBlock_eq] at lt
  unfold target subWord trampolineBytes
  rw [trampolinesBlock_eq]
  omega

theorem code_word (value : Nat) (lt : i < entriesPerBlock) (fits : d + n ≤ trampolineBytes)
    (bytes : ∀ k < n, code i (d + k) = byteOf value k) :
    wordOf (blockContent undefinedTrampoline) n (i * trampolineBytes + d) = value % 256 ^ n := by
  refine wordOf_bytes n _ _ _ fun k small => ?_
  rw [Nat.add_assoc, blockContent_code lt (by omega)]
  exact bytes k small

theorem code_endbr64 (lt : i < entriesPerBlock) :
    wordOf (blockContent undefinedTrampoline) 4 (i * trampolineBytes + 0) = 0xfa1e0ff3 := by
  refine code_word 0xfa1e0ff3 lt (by decide) fun k small => ?_
  rcases k with _ | _ | _ | _ | k <;> first | rfl | omega

theorem code_jmp (lt : i < entriesPerBlock) :
    wordOf (blockContent undefinedTrampoline) 2 (i * trampolineBytes + 4) = 0x25ff := by
  refine code_word 0x25ff lt (by decide) fun k small => ?_
  rcases k with _ | _ | k <;> first | rfl | omega

theorem code_target (lt : i < entriesPerBlock) :
    wordOf (blockContent undefinedTrampoline) 4 (i * trampolineBytes + 6) = 8182 - 8 * i := by
  rw [code_word (target i) lt (by decide) fun k small => ?_, target_eq lt]
  · omega
  · rcases k with _ | _ | _ | _ | k <;> first | rfl | omega

/-- The code of an entry jumps through the pointer of the entry. -/
theorem Block.jumpFrom (block : Block vm undefinedTrampoline start number)
    (lt : offset < entriesPerBlock) :
    jumpFrom vm (start + offset * trampolineBytes) = some (slotWord vm number offset) := by
  have small := lt
  rw [entriesPerBlock_eq] at small
  have limit := block.limit
  unfold userLimit at limit
  rw [mmapSize_eq] at limit
  have executable : ((List.range 10).all fun i =>
      vm.executable (start + offset * trampolineBytes + i)) := by
    rw [List.all_eq_true]
    intro i inside
    rw [List.mem_range] at inside
    rw [Nat.add_assoc]
    apply block.executable
    rw [trampolinesBlock_eq]
    unfold trampolineBytes
    omega
  have fits : ∀ d ≤ 12, offset * trampolineBytes + d + 4 ≤ trampolinesBlock := by
    intro d le
    rw [trampolinesBlock_eq]
    unfold trampolineBytes
    omega
  have endbr64 := block.readCode (fits 0 (by omega))
  have jmp := block.readCode (n := 2) (Nat.le_of_succ_le (Nat.le_of_succ_le (fits 4 (by omega))))
  have disp32 := block.readCode (fits 6 (by omega))
  rw [code_endbr64 lt, Nat.add_zero] at endbr64
  rw [code_jmp lt, ← Nat.add_assoc] at jmp
  rw [code_target lt, ← Nat.add_assoc] at disp32
  have reaches : displaced (start + offset * trampolineBytes + 10) (8182 - 8 * offset) =
      start + trampolinesBlock + offset * 8 := by
    rw [trampolinesBlock_eq]
    unfold displaced trampolineBytes
    rw [if_pos (by omega)]
    omega
  unfold Luci.jumpFrom
  rw [if_pos executable, endbr64, jmp, disp32]
  show vm.readNat 8 (displaced (start + offset * trampolineBytes + 10) (8182 - 8 * offset)) = _
  rw [reaches, block.readSlot lt]

end Block
/-! ## All blocks -/

/-- The invariant: there is a block for every symbol, and every block has its own backing. -/
structure Valid (undefinedTrampoline : Nat) (t : Trampoline) (vm : Vm) (number : Nat → Nat) :
    Prop where
  enough : t.symbols.length = 0 ∨ t.symbols.length / entriesPerBlock < t.blocks.length
  block : ∀ k start, t.blocks[k]? = some start → Block vm undefinedTrampoline start (number k)
  distinct : ∀ k < t.blocks.length, ∀ k' < t.blocks.length, number k = number k' → k = k'

/-- The address stored in the pointer slot of an index. -/
def slot (t : Trampoline) (vm : Vm) (i : Nat) : Option Nat :=
  (t.pointer i).bind fun place => vm.readNat 8 place.2

/-- Ranges without a common byte. -/
def Disjoint (start length start' length' : Nat) : Prop :=
  start + length ≤ start' ∨ start' + length' ≤ start

section Valid

variable {vm vm' : Vm} {undefinedTrampoline : Nat} {t : Trampoline} {number : Nat → Nat} {i j : Nat}

theorem offset_lt (i : Nat) : i % entriesPerBlock < entriesPerBlock := Nat.mod_lt i (by decide)

section Valid

variable (valid : Valid undefinedTrampoline t vm number)

include valid

theorem Valid.pointer (lt : i < t.symbols.length) :
    ∃ start, t.blocks[i / entriesPerBlock]? = some start ∧
      t.pointer i = some (start + i % entriesPerBlock * trampolineBytes,
        start + trampolinesBlock + i % entriesPerBlock * 8) := by
  have inside : i / entriesPerBlock < t.blocks.length := by
    rcases valid.enough with empty | enough
    · omega
    · exact Nat.lt_of_le_of_lt (Nat.div_le_div_right (by omega)) enough
  refine ⟨t.blocks[i / entriesPerBlock], List.getElem?_eq_getElem inside, ?_⟩
  unfold Trampoline.pointer
  rw [if_pos lt, List.getElem?_eq_getElem inside, Option.map_some]

theorem Valid.slot (lt : i < t.symbols.length) :
    t.slot vm i = some (slotWord vm (number (i / entriesPerBlock)) (i % entriesPerBlock)) := by
  obtain ⟨start, isStart, isPointer⟩ := valid.pointer lt
  rw [Trampoline.slot, isPointer]
  exact (valid.block _ _ isStart).readSlot (offset_lt i)

theorem Valid.jumpFrom {code address : Nat} (isPointer : t.pointer i = some (code, address)) :
    Luci.jumpFrom vm code = t.slot vm i := by
  have lt : i < t.symbols.length := by
    by_contra behind
    rw [Trampoline.pointer, if_neg behind] at isPointer
    cases isPointer
  obtain ⟨start, isStart, isPlace⟩ := valid.pointer lt
  rw [isPlace] at isPointer
  cases isPointer
  rw [valid.slot lt]
  exact (valid.block _ _ isStart).jumpFrom (offset_lt i)

/-- Different blocks have no address in common, since they show different backings. -/
theorem Valid.apart {k k' start start' : Nat} (isStart : t.blocks[k]? = some start)
    (isStart' : t.blocks[k']? = some start') (different : k ≠ k') :
    Disjoint start mmapSize start' mmapSize := by
  by_contra common
  have first := valid.block k start isStart
  have second := valid.block k' start' isStart'
  unfold Disjoint at common
  have same : number k = number k' := by
    by_cases before : start ≤ start'
    · have located := first.shown (start' - start) (by omega)
      have located' := second.shown 0 (by rw [mmapSize_eq]; omega)
      rw [Nat.add_sub_cancel' before] at located
      rw [Nat.add_zero, located, Option.some.injEq, Prod.mk.injEq, Backing.anonymous.injEq]
        at located'
      exact located'.1
    · have located := first.shown 0 (by rw [mmapSize_eq]; omega)
      have located' := second.shown (start - start') (by omega)
      rw [Nat.add_sub_cancel' (by omega)] at located'
      rw [Nat.add_zero, located', Option.some.injEq, Prod.mk.injEq, Backing.anonymous.injEq]
        at located
      exact located.1.symm
  refine different (valid.distinct k ?_ k' ?_ same)
  · exact (List.getElem?_eq_some_iff.mp isStart).1
  · exact (List.getElem?_eq_some_iff.mp isStart').1

end Valid

/-- The slots of two indices do not overlap. -/
structure Separate (place place' : Nat × Nat) : Prop where
  code : Disjoint place.1 trampolineBytes place'.1 trampolineBytes
  pointer : Disjoint place.2 8 place'.2 8

section Separate

variable (valid : Valid undefinedTrampoline t vm number)

include valid

theorem Valid.separate {place place' : Nat × Nat} (isPlace : t.pointer i = some place)
    (isPlace' : t.pointer j = some place') (lt : i < t.symbols.length)
    (lt' : j < t.symbols.length) :
    Disjoint place.1 trampolineBytes place'.2 8 ∧ (i ≠ j → Separate place place') := by
  obtain ⟨start, isStart, isPointer⟩ := valid.pointer lt
  obtain ⟨start', isStart', isPointer'⟩ := valid.pointer lt'
  rw [isPointer] at isPlace
  rw [isPointer'] at isPlace'
  cases isPlace
  cases isPlace'
  have isApart := valid.apart isStart isStart'
  by_cases same : i / entriesPerBlock = j / entriesPerBlock
  · rw [same, isStart'] at isStart
    cases isStart
    simp only [Disjoint, entriesPerBlock_eq, trampolinesBlock_eq, trampolineBytes] at *
    refine ⟨by omega, fun different => ⟨?_, ?_⟩⟩
    · simp only [Disjoint, trampolineBytes]
      omega
    · simp only [Disjoint]
      omega
  · simp only [Disjoint, entriesPerBlock_eq, trampolinesBlock_eq, trampolineBytes, mmapSize_eq] at *
    refine ⟨by omega, fun different => ⟨?_, ?_⟩⟩
    · simp only [Disjoint, trampolineBytes]
      omega
    · simp only [Disjoint]
      omega

/-- The invariant and all slots are kept where the blocks are. -/
theorem Valid.same
    (pages : ∀ k start : Nat, t.blocks[k]? = some start → SamePages vm vm' start mmapSize)
    (content : ∀ k start : Nat, t.blocks[k]? = some start → ∀ i < mmapSize,
      vm'.content (.anonymous (number k)) i = vm.content (.anonymous (number k)) i) :
    Valid undefinedTrampoline t vm' number ∧
      ∀ j < t.symbols.length, t.slot vm' j = t.slot vm j := by
  have valid' : Valid undefinedTrampoline t vm' number := by
    refine ⟨valid.enough, fun k start isStart => ?_, valid.distinct⟩
    refine (valid.block k start isStart).samePages (pages k start isStart) fun i lt => ?_
    exact content k start isStart i (lt.trans (by decide))
  refine ⟨valid', fun j lt => ?_⟩
  obtain ⟨start, isStart, -⟩ := valid.pointer lt
  rw [valid'.slot lt, valid.slot lt]
  refine congrArg some (wordOf_congr 8 fun d small => content _ start isStart _ ?_)
  rw [trampolinesBlock_eq, mmapSize_eq, entriesPerBlock_eq]
  omega

/-! ## Writing a pointer -/

/-- A write to the pointer slot of an index keeps the invariant and the other slots. -/
theorem Valid.write (lt : i < t.symbols.length) {code address value : Nat}
    (isPointer : t.pointer i = some (code, address))
    (run : vm.writeNat 8 address value = some vm') :
    Valid undefinedTrampoline t vm' number ∧ t.slot vm' i = some (value % 2 ^ 64) ∧
      ∀ j < t.symbols.length, j ≠ i → t.slot vm' j = t.slot vm j := by
  obtain ⟨start, isStart, isPlace⟩ := valid.pointer lt
  rw [isPlace] at isPointer
  cases isPointer
  have stored := Vm.writeNat_stored run
  have block := valid.block _ _ isStart
  have shown : vm.Shows (start + trampolinesBlock + i % entriesPerBlock * 8) 8
      (.anonymous (number (i / entriesPerBlock))) (trampolinesBlock + i % entriesPerBlock * 8) := by
    have part := block.shown.part (m := 8) (d := trampolinesBlock + i % entriesPerBlock * 8) (by
      rw [trampolinesBlock_eq, entriesPerBlock_eq, mmapSize_eq]
      omega)
    rwa [Nat.zero_add, ← Nat.add_assoc] at part
  -- only bytes of the pointer slot change
  have elsewhere : ∀ n o, n = number (i / entriesPerBlock) →
      (o < trampolinesBlock + i % entriesPerBlock * 8 ∨
        trampolinesBlock + i % entriesPerBlock * 8 + 8 ≤ o) →
      vm'.content (.anonymous n) o = vm.content (.anonymous n) o := by
    intro n o same outside
    rw [same, Vm.writeBytes_shown (byteOf value) 8 shown run]
    unfold overlay
    rw [if_neg (by omega)]
  have others : ∀ n, n ≠ number (i / entriesPerBlock) →
      vm'.content (.anonymous n) = vm.content (.anonymous n) := by
    intro n different
    funext o
    refine stored.other _ _ fun d small => ?_
    rw [shown d small]
    intro same
    rw [Option.some.injEq, Prod.mk.injEq, Backing.anonymous.injEq] at same
    exact different same.1.symm
  have pages : ∀ s, SamePages vm vm' s mmapSize := by
    intro s
    refine ⟨fun d _ => ?_, Nat.le_of_eq stored.fresh.symm⟩
    rw [Vm.pageOf, stored.page, Vm.pageOf]
  have valid' : Valid undefinedTrampoline t vm' number := by
    refine ⟨valid.enough, fun k s isBlock => ?_, valid.distinct⟩
    refine (valid.block k s isBlock).samePages (pages s) fun o inside => ?_
    by_cases same : number k = number (i / entriesPerBlock)
    · exact elsewhere _ _ same (.inl (by omega))
    · rw [others _ same]
  refine ⟨valid', ?_, fun j lt' different => ?_⟩
  · rw [valid'.slot lt]
    exact congrArg some (Vm.writeNat_shown shown run)
  · rw [valid'.slot lt', valid.slot lt']
    refine congrArg some (wordOf_congr 8 fun d small => ?_)
    by_cases same : number (j / entriesPerBlock) = number (i / entriesPerBlock)
    · refine elsewhere _ _ same ?_
      have sameBlock : j / entriesPerBlock = i / entriesPerBlock := by
        obtain ⟨start', isStart', -⟩ := valid.pointer lt'
        exact valid.distinct _ (List.getElem?_eq_some_iff.mp isStart').1 _
          (List.getElem?_eq_some_iff.mp isStart).1 same
      rw [entriesPerBlock_eq] at *
      omega
    · rw [others _ same]

end Separate

end Valid

/-! ## New blocks -/

/-- What is mapped stays mapped as it is, and backings in use keep their content. -/
structure Adds (vm vm' : Vm) : Prop where
  page : ∀ n, (vm.page n).isSome = true → vm'.page n = vm.page n
  content : ∀ m < vm.fresh, vm'.content (.anonymous m) = vm.content (.anonymous m)
  fresh : vm.fresh ≤ vm'.fresh

/-- The kernel places mappings at pages. -/
def Aligned (e : Env) : Prop := ∀ tick, e.world.mmapAddress tick % pageSize = 0

section NewBlock

variable {e : Env} {s s' : Loader} {undefinedTrampoline : Nat} {t t' : Trampoline}
  {number : Nat → Nat}

/-- New mappings elsewhere keep the invariant and all slots. -/
theorem Valid.adds (valid : Valid undefinedTrampoline t vm number) (adds : Adds vm vm') :
    Valid undefinedTrampoline t vm' number ∧
      ∀ j < t.symbols.length, t.slot vm' j = t.slot vm j := by
  refine valid.same (fun k start isStart => ⟨fun i lt => ?_, adds.fresh⟩) fun k start isStart i _ => ?_
  · apply adds.page
    rw [← Vm.locate_isSome, (valid.block k start isStart).shown i lt]
    rfl
  · rw [adds.content _ (valid.block k start isStart).known]

theorem mmapHint_inv {hint length : Nat} {protection : Protection}
    (run : mmapHint e hint length protection content s = some (block, s')) :
    block = none ∧ s'.vm = s.vm.withBacking content ∨
      ∃ start, block = some start ∧ (start = hint ∨ start = e.world.mmapAddress s.ticks) ∧
        s.vm.isFree start length ∧ start + length ≤ userLimit ∧
        s'.vm = (s.vm.withBacking content).map start length protection (.anonymous s.vm.fresh) := by
  unfold mmapHint at run
  rw [bind_of_eq (get_apply s), bind_of_eq (newBacking_eq content)] at run
  obtain ⟨mapped, s1, maps, run⟩ := bind_inv run
  rcases mmapFixed_inv maps with ⟨rfl, vm⟩ | ⟨rfl, free, vm, limit⟩
  · cases run
    exact .inl ⟨rfl, vm⟩
  · cases run
    refine .inr ⟨_, rfl, ?_, free, limit, vm⟩
    split
    · exact .inl rfl
    · exact .inr rfl

theorem adds_withBacking (vm : Vm) (content : Nat → UInt8) : Adds vm (vm.withBacking content) where
  page _ _ := rfl
  content := (retains_withBacking content).content
  fresh := Nat.le_succ _

theorem outside_of_free (free : vm.isFree start length)
    (mapped : (vm.page n).isSome) :
    Vm.inRange start length n = false := by
  by_contra inside
  rw [Vm.free_of_isFree free n (by simpa using inside)] at mapped
  cases mapped

theorem Adds.of_range (free : vm.isFree start length)
    (page : ∀ n, Vm.inRange start length n = false → vm'.page n = vm.page n)
    (same : vm'.content = (vm.withBacking content).content)
    (fresh : vm'.fresh = (vm.withBacking content).fresh) : Adds vm vm' where
  page n mapped := page n (outside_of_free free mapped)
  content m lt := by rw [same, (adds_withBacking vm content).content m lt]
  fresh := by rw [fresh]; exact (adds_withBacking vm content).fresh

theorem block_of_map (aligned : start % pageSize = 0) (limit : start + mmapSize ≤ userLimit) :
    Block (((vm.withBacking (blockContent undefinedTrampoline)).map start mmapSize
      ⟨true, true, false⟩ (.anonymous vm.fresh)).protect start trampolinesBlock
        ⟨false, false, true⟩) undefinedTrampoline start vm.fresh where
  aligned := aligned
  limit := limit
  known := Nat.lt_succ_self _
  shown := (Vm.shows_map aligned (by decide)).extends Vm.extends_protect
  executable i lt := by
    have code : Vm.inRange start trampolinesBlock ((start + i) / pageSize) :=
      (Vm.inRange_iff aligned (by decide)).mpr ⟨by omega, by omega⟩
    have inside : Vm.inRange start mmapSize ((start + i) / pageSize) := by
      refine (Vm.inRange_iff aligned (by decide)).mpr ⟨by omega, ?_⟩
      rw [trampolinesBlock_eq] at lt
      rw [mmapSize_eq]
      omega
    simp only [Vm.executable, Vm.pageOf, Vm.protect, Vm.map, code, inside, if_true,
      Option.map_some, Option.any_some]
  writable i lt := by
    have pointers : Vm.inRange start trampolinesBlock ((start + trampolinesBlock + i) / pageSize) =
        false := by
      rw [Bool.eq_false_iff, Ne, Vm.inRange_iff aligned (by decide)]
      omega
    have inside : Vm.inRange start mmapSize ((start + trampolinesBlock + i) / pageSize) := by
      refine (Vm.inRange_iff aligned (by decide)).mpr ⟨by omega, ?_⟩
      unfold pageSize at lt
      rw [trampolinesBlock_eq, mmapSize_eq]
      omega
    simp only [Vm.writable, Vm.pageOf, Vm.protect, Vm.map, pointers, inside, if_true,
      Bool.false_eq_true, if_false, Option.any_some]
  code i _ := by simp only [Vm.protect, Vm.map, Vm.withBacking, if_true]

/-- A new block is mapped in free pages, or nothing that was mapped has changed. -/
theorem newBlock_inv {mmapAddress : Nat} (kernel : Aligned e) (aligned : mmapAddress % pageSize = 0)
    (run : newBlock e undefinedTrampoline mmapAddress s = some (block, s')) :
    Adds s.vm s'.vm ∧ ∀ start, block = some start →
      Block s'.vm undefinedTrampoline start s.vm.fresh := by
  obtain ⟨mapped, s1, maps, run⟩ := bind_inv run
  rcases mmapHint_inv maps with ⟨rfl, vm⟩ | ⟨start, rfl, isStart, free, limit, vm⟩
  · cases run
    rw [vm]
    exact ⟨adds_withBacking _ _, fun start wrong => by cases wrong⟩
  · have startAligned : start % pageSize = 0 := by
      rcases isStart with rfl | rfl
      · exact aligned
      · exact kernel _
    have inBlock : ∀ n, Vm.inRange start mmapSize n = false →
        Vm.inRange start trampolinesBlock n = false := by
      intro n outside
      rw [Bool.eq_false_iff, Ne, Vm.inRange, Bool.and_eq_true, decide_eq_true_eq,
        decide_eq_true_eq] at outside ⊢
      rw [mmapSize_eq] at outside
      rw [trampolinesBlock_eq]
      unfold pageSize at outside ⊢
      omega
    obtain ⟨ok, s2, protects, run⟩ := bind_inv run
    rcases mprotect_inv protects with ⟨rfl, vm2⟩ | ⟨rfl, vm2⟩
    · obtain ⟨unmapped, s3, unmaps, run⟩ := bind_inv run
      cases run
      refine ⟨?_, fun start wrong => by cases wrong⟩
      rcases munmap_inv unmaps with ⟨-, vm3⟩ | ⟨-, vm3⟩
      · rw [vm3, vm2, vm]
        refine Adds.of_range free (fun n outside => ?_) rfl rfl
        simp only [Vm.map, outside, Bool.false_eq_true, if_false, Vm.withBacking]
      · rw [vm3, vm2, vm]
        refine Adds.of_range free (fun n outside => ?_) rfl rfl
        simp only [Vm.unmap, Vm.map, outside, Bool.false_eq_true, if_false, Vm.withBacking]
    · cases run
      rw [vm2, vm]
      constructor
      · refine Adds.of_range free (fun n outside => ?_) rfl rfl
        simp only [Vm.protect, Vm.map, outside, inBlock n outside, Bool.false_eq_true, if_false,
          Vm.withBacking]
      · intro start' same
        cases same
        exact block_of_map startAligned limit

/-! ## Allocating an entry -/

/-- Entries are only added at the end. -/
structure Later (t t' : Trampoline) : Prop where
  blocks : t.blocks <+: t'.blocks
  symbols : t.symbols <+: t'.symbols

theorem Later.refl (t : Trampoline) : Later t t := ⟨List.prefix_rfl, List.prefix_rfl⟩

theorem Later.trans {t1 t2 t3 : Trampoline} (first : Later t1 t2) (second : Later t2 t3) :
    Later t1 t3 :=
  ⟨first.blocks.trans second.blocks, first.symbols.trans second.symbols⟩

theorem Later.pointer (later : Later t t') (isPlace : t.pointer i = some place) :
    t'.pointer i = some place := by
  unfold Trampoline.pointer at isPlace ⊢
  by_cases lt : i < t.symbols.length
  · rw [if_pos lt, Option.map_eq_some_iff] at isPlace
    obtain ⟨base, isBase, isPlace⟩ := isPlace
    obtain ⟨more, isMore⟩ := later.blocks
    rw [if_pos (Nat.lt_of_lt_of_le lt later.symbols.length_le), ← isMore,
      List.getElem?_append_left (List.getElem?_eq_some_iff.mp isBase).1, isBase, Option.map_some,
      isPlace]
  · rw [if_neg lt] at isPlace
    cases isPlace

theorem nextAddress_aligned {size start : Nat} (run : nextAddress e size s = some (start, s')) :
    start % pageSize = 0 ∧ s'.vm = s.vm := by
  cases run
  exact ⟨Nat.mod_eq_zero_of_dvd (pageSize_dvd_alignPage _), rfl⟩

section Extended

variable (valid : Valid undefinedTrampoline t vm number)

include valid

theorem Valid.extended (unused : ∀ k < t.blocks.length, number k ≠ number t.blocks.length)
    (block : Block vm undefinedTrampoline start (number t.blocks.length)) :
    Valid undefinedTrampoline ⟨t.blocks ++ [start], t.symbols ++ [sym]⟩ vm number where
  enough := by
    have enough := valid.enough
    rw [entriesPerBlock_eq] at enough ⊢
    simp only [List.length_append, List.length_singleton]
    omega
  block k start' isStart := by
    rcases Nat.lt_trichotomy k t.blocks.length with lt | same | gt
    · rw [List.getElem?_append_left lt] at isStart
      exact valid.block k start' isStart
    · rw [same, List.getElem?_concat_length, Option.some.injEq] at isStart
      rw [same, ← isStart]
      exact block
    · rw [List.getElem?_eq_none (by rw [List.length_append, List.length_singleton]; omega)] at isStart
      cases isStart
  distinct k lt k' lt' same := by
    simp only [List.length_append] at lt lt'
    rcases Nat.lt_succ_iff_lt_or_eq.mp lt with inside | last <;>
      rcases Nat.lt_succ_iff_lt_or_eq.mp lt' with inside' | last'
    · exact valid.distinct k inside k' inside' same
    · exact absurd (last' ▸ same) (unused k inside)
    · exact absurd (last ▸ same.symm) (unused k' inside')
    · rw [last, last']

theorem Valid.congr {number' : Nat → Nat} (same : ∀ k < t.blocks.length, number' k = number k) :
    Valid undefinedTrampoline t vm number' where
  enough := valid.enough
  block k start isStart := by
    rw [same k (List.getElem?_eq_some_iff.mp isStart).1]
    exact valid.block k start isStart
  distinct k lt k' lt' equal := by
    rw [same k lt, same k' lt'] at equal
    exact valid.distinct k lt k' lt' equal

theorem Valid.slot_later (later : Later t t') {j : Nat} (lt : j < t.symbols.length) :
    t'.slot vm j = t.slot vm j := by
  obtain ⟨start, -, isPointer⟩ := valid.pointer lt
  rw [Trampoline.slot, Trampoline.slot, isPointer, later.pointer isPointer]

end Extended

/-- A call that may have added entries: the invariant holds, and the old entries are where they
were. -/
structure Extended (undefinedTrampoline : Nat) (t t' : Trampoline) (s' : Loader) : Prop where
  valid : ∃ number, Valid undefinedTrampoline t' s'.vm number
  later : Later t t'

theorem allocate_inv (kernel : Aligned e) (valid : Valid undefinedTrampoline t s.vm number)
    (run : t.allocate e undefinedTrampoline sym s = some ((index, t'), s')) :
    Extended undefinedTrampoline t t' s' ∧
      (∀ j < t.symbols.length, t'.slot s'.vm j = t.slot s.vm j) ∧
      (index = none ∧ t' = t ∨
        index = some t.symbols.length ∧ t'.symbols = t.symbols ++ [sym]) := by
  unfold allocate at run
  split at run
  · obtain ⟨address, s1, reserved, run⟩ := bind_inv run
    obtain ⟨aligned, vm⟩ := nextAddress_aligned reserved
    obtain ⟨block, s2, mapped, run⟩ := bind_inv run
    obtain ⟨adds, isBlock⟩ := newBlock_inv kernel aligned mapped
    rw [vm] at adds isBlock
    obtain ⟨valid2, slots⟩ := valid.adds adds
    cases block with
    | none =>
      cases run
      exact ⟨⟨⟨number, valid2⟩, .refl t⟩, slots, .inl ⟨rfl, rfl⟩⟩
    | some start =>
      cases run
      -- the backing of the new block gets the next position
      have known : ∀ k < t.blocks.length, number k < s.vm.fresh := fun k lt =>
        (valid.block k _ (List.getElem?_eq_getElem lt)).known
      have old : ∀ k < t.blocks.length,
          Function.update number t.blocks.length s.vm.fresh k = number k := by
        intro k lt
        exact Function.update_of_ne (Nat.ne_of_lt lt) _ _
      have later : Later t ⟨t.blocks ++ [start], t.symbols ++ [sym]⟩ :=
        ⟨List.prefix_append _ _, List.prefix_append _ _⟩
      refine ⟨⟨⟨_, (valid2.congr old).extended ?_ ?_⟩, later⟩, fun j lt => ?_,
        .inr ⟨rfl, rfl⟩⟩
      · intro k lt
        rw [old k lt, Function.update_self]
        exact Nat.ne_of_lt (known k lt)
      · rw [Function.update_self]
        exact isBlock start rfl
      · rw [valid2.slot_later later lt, slots j lt]
  · rename_i enough
    cases run
    have later : Later t { t with symbols := t.symbols ++ [sym] } :=
      ⟨List.prefix_rfl, List.prefix_append _ _⟩
    refine ⟨⟨⟨number, ⟨.inr ?_, valid.block, valid.distinct⟩⟩, later⟩,
      fun j lt => valid.slot_later later lt, .inr ⟨rfl, rfl⟩⟩
    rw [List.length_append]
    exact Nat.lt_of_not_le enough

end NewBlock

/-! ## Assigning pointers -/

/-- The pointer of a symbol in the current version of its file, if it is found there. -/
def currentPointer (e : Env) (tlsAddress : ObjectRef → Nat → Nat) (s : Loader)
    (sym : VersionedSymbol) : Option Nat :=
  ((s.current sym.object.file).bind fun current =>
    current.resolveSymbol e.libs sym.symbol.name sym.version).bind fun resolved =>
      (resolved.pointer e tlsAddress s).map fun value => value % 2 ^ 64

section Assign

variable {e : Env} {s s' : Loader} {undefinedTrampoline : Nat} {tlsAddress : ObjectRef → Nat → Nat}
  {t t' : Trampoline} {number : Nat → Nat} {sym : VersionedSymbol}

theorem quiet_newBlock (mmapAddress : Nat) :
    Keeps Quiet (newBlock e undefinedTrampoline mmapAddress) := by
  unfold newBlock mmapHint
  grind

theorem quiet_indexOrAllocate (t : Trampoline) (sym : VersionedSymbol) :
    Keeps Quiet (t.indexOrAllocate e undefinedTrampoline sym) := by
  unfold indexOrAllocate
  cases t.index sym with
  | some i => exact keeps_pure _
  | none =>
    refine keeps_ite (fun _ => ?_) fun _ => keeps_pure _
    refine keeps_bind (frame_nextAddress _) fun address => ?_
    refine keeps_bind (quiet_newBlock address) fun block => ?_
    cases block with
    | none => exact keeps_pure _
    | some block => exact keeps_pure _

theorem currentPointer_congr (lookup : s'.lookup = s.lookup) :
    currentPointer e tlsAddress s' sym = currentPointer e tlsAddress s sym := by
  unfold currentPointer VersionedSymbol.pointer Loader.object Loader.current Loader.identity
  rw [lookup]

theorem resolveCurrent_inv {resolved : Option VersionedSymbol}
    (run : resolveCurrent e sym s = some (resolved, s')) :
    s' = s ∧ ((s.current sym.object.file).bind fun current =>
      current.resolveSymbol e.libs sym.symbol.name sym.version) = resolved := by
  unfold resolveCurrent at run
  rw [bind_of_eq (get_apply s)] at run
  obtain ⟨current, isCurrent, run⟩ := orAbort_bind_inv run
  cases run
  rw [isCurrent]
  exact ⟨rfl, rfl⟩

theorem assign_inv {i code : Nat} {resolved : VersionedSymbol}
    (valid : Valid undefinedTrampoline t s.vm number)
    (run : t.assign e tlsAddress i resolved s = some (code, s')) :
    ∃ address value, t.pointer i = some (code, address) ∧
      resolved.pointer e tlsAddress s = some value ∧ s'.lookup = s.lookup ∧
      Valid undefinedTrampoline t s'.vm number ∧ t.slot s'.vm i = some (value % 2 ^ 64) ∧
      ∀ j < t.symbols.length, j ≠ i → t.slot s'.vm j = t.slot s.vm j := by
  obtain ⟨⟨trampoline, address⟩, isPointer, run⟩ := orAbort_bind_inv run
  dsimp only at run
  rw [bind_of_eq (get_apply s)] at run
  obtain ⟨value, isValue, run⟩ := orAbort_bind_inv run
  obtain ⟨_, s1, writes, run⟩ := bind_inv run
  cases run
  unfold writeMemory at writes
  rw [bind_of_eq (get_apply s)] at writes
  obtain ⟨vm, written, writes⟩ := orAbort_bind_inv writes
  cases writes
  have lt : i < t.symbols.length := by
    by_contra behind
    rw [Trampoline.pointer, if_neg behind] at isPointer
    cases isPointer
  exact ⟨address, value, isPointer, isValue, rfl, valid.write lt isPointer written⟩

theorem index_inv (isIndex : t.index sym = some i) :
    ∃ known, t.symbols[i]? = some known ∧ known.same sym := by
  unfold index at isIndex
  split at isIndex
  · cases isIndex
  · obtain ⟨lt, isSame, -⟩ := List.findIdx?_eq_some_iff_getElem.mp isIndex
    exact ⟨t.symbols[i], List.getElem?_eq_getElem lt, isSame⟩

theorem indexOrAllocate_inv (kernel : Aligned e) (valid : Valid undefinedTrampoline t s.vm number)
    (run : t.indexOrAllocate e undefinedTrampoline sym s = some ((index, t'), s')) :
    Extended undefinedTrampoline t t' s' ∧
      (∀ j < t.symbols.length, t'.slot s'.vm j = t.slot s.vm j) ∧
      (index = none ∧ t' = t ∨ ∃ i known, index = some i ∧ t'.symbols[i]? = some known ∧
        known.same sym) := by
  unfold indexOrAllocate at run
  cases found : t.index sym with
  | some i =>
    rw [found] at run
    cases run
    obtain ⟨known, isKnown, isSame⟩ := index_inv found
    exact ⟨⟨⟨number, valid⟩, .refl t⟩, fun _ _ => rfl, .inr ⟨i, known, rfl, isKnown, isSame⟩⟩
  | none =>
    rw [found] at run
    obtain ⟨extended, slots, failed | ⟨isIndex, symbols⟩⟩ := allocate_inv kernel valid run
    · exact ⟨extended, slots, .inl failed⟩
    · refine ⟨extended, slots, .inr ⟨_, sym, isIndex, ?_, ?_⟩⟩
      · rw [symbols, List.getElem?_concat_length]
      · simp [VersionedSymbol.same]

/-- What `set` does: it fails and leaves everything as it is, or it lets the entry of the symbol
jump to the current version and leaves the other entries as they are. -/
theorem set_inv {code : Option Nat} (kernel : Aligned e)
    (valid : Valid undefinedTrampoline t s.vm number)
    (run : t.set e undefinedTrampoline tlsAddress sym s = some ((code, t'), s')) :
    Extended undefinedTrampoline t t' s' ∧ s'.lookup = s.lookup ∧
      (code = none ∧ t' = t ∧ (∀ j < t.symbols.length, t.slot s'.vm j = t.slot s.vm j) ∨
        ∃ i address known trampoline, code = some trampoline ∧
          t'.pointer i = some (trampoline, address) ∧ t'.symbols[i]? = some known ∧
          known.same sym ∧ t'.slot s'.vm i = currentPointer e tlsAddress s' sym ∧
          (currentPointer e tlsAddress s' sym).isSome ∧
          ∀ j < t.symbols.length, j ≠ i → t'.slot s'.vm j = t.slot s.vm j) := by
  obtain ⟨resolved, s1, resolves, run⟩ := bind_inv run
  obtain ⟨rfl, isResolved⟩ := resolveCurrent_inv resolves
  cases resolved with
  | none =>
    cases run
    exact ⟨⟨⟨number, valid⟩, .refl t⟩, rfl, .inl ⟨rfl, rfl, fun _ _ => rfl⟩⟩
  | some resolved =>
    obtain ⟨⟨index, t1⟩, s2, indexed, rest⟩ := bind_inv run
    have lookup := (quiet_indexOrAllocate t sym _ _ _ indexed).lookup
    obtain ⟨⟨⟨number1, valid1⟩, later⟩, slots, ⟨rfl, rfl⟩ | ⟨i, known, rfl, isKnown, isSame⟩⟩ :=
      indexOrAllocate_inv kernel valid indexed
    · cases rest
      exact ⟨⟨⟨number1, valid1⟩, later⟩, lookup, .inl ⟨rfl, rfl, slots⟩⟩
    · obtain ⟨trampoline, s3, assigned, rest⟩ := bind_inv rest
      cases rest
      obtain ⟨address, value, isPointer, isValue, lookup1, valid2, isSlot, others⟩ :=
        assign_inv valid1 assigned
      have isCurrent : currentPointer e tlsAddress s' sym = some (value % 2 ^ 64) := by
        rw [currentPointer_congr (lookup1.trans lookup), currentPointer, isResolved,
          Option.bind_some]
        have samePointer : resolved.pointer e tlsAddress s1 = some value := by
          rw [← isValue]
          unfold VersionedSymbol.pointer Loader.object Loader.identity
          rw [lookup]
        rw [samePointer, Option.map_some]
      refine ⟨⟨⟨number1, valid2⟩, later⟩, lookup1.trans lookup, .inr ⟨i, address, known,
        trampoline, rfl, isPointer, isKnown, isSame, ?_, ?_, fun j lt different => ?_⟩⟩
      · rw [isSlot, isCurrent]
      · rw [isCurrent, Option.isSome_some]
      · rw [others j (Nat.lt_of_lt_of_le lt later.symbols.length_le) different, slots j lt]

/-- The loop of `update`: the slots from the index on follow their symbols, as far as these are
found. -/
theorem updateFrom_inv (rest : List VersionedSymbol) : ∀ {i : Nat} {s : Loader},
    Valid undefinedTrampoline t s.vm number → (∀ k, t.symbols[i + k]? = rest[k]?) →
    t.updateFrom e tlsAddress i rest s = some ((), s') →
    Valid undefinedTrampoline t s'.vm number ∧ s'.lookup = s.lookup ∧
      (∀ j < i, j < t.symbols.length → t.slot s'.vm j = t.slot s.vm j) ∧
      ∀ j sym, i ≤ j → t.symbols[j]? = some sym →
        t.slot s'.vm j = (currentPointer e tlsAddress s sym).or (t.slot s.vm j) := by
  induction rest with
  | nil =>
    intro i s valid suffix run
    cases run
    refine ⟨valid, rfl, fun _ _ _ => rfl, fun j sym le isSym => ?_⟩
    have none := suffix (j - i)
    rw [Nat.add_sub_cancel' le, isSym] at none
    cases none
  | cons sym rest ih =>
    intro i s valid suffix run
    have isSym : t.symbols[i]? = some sym := suffix 0
    have lt : i < t.symbols.length := (List.getElem?_eq_some_iff.mp isSym).1
    have suffix' : ∀ k, t.symbols[i + 1 + k]? = rest[k]? := by
      intro k
      rw [Nat.add_assoc, Nat.add_comm 1 k]
      exact suffix (k + 1)
    -- the step at the index itself
    have step : ∃ s1, t.updateFrom e tlsAddress (i + 1) rest s1 = some ((), s') ∧
        Valid undefinedTrampoline t s1.vm number ∧ s1.lookup = s.lookup ∧
        t.slot s1.vm i = (currentPointer e tlsAddress s sym).or (t.slot s.vm i) ∧
        ∀ j < t.symbols.length, j ≠ i → t.slot s1.vm j = t.slot s.vm j := by
      obtain ⟨resolved, s1, resolves, run⟩ := bind_inv run
      obtain ⟨rfl, isResolved⟩ := resolveCurrent_inv resolves
      cases resolved with
      | none =>
        refine ⟨s1, run, valid, rfl, ?_, fun _ _ _ => rfl⟩
        rw [currentPointer, isResolved, Option.bind_none, Option.none_or]
      | some resolved =>
        obtain ⟨code, s2, assigned, run⟩ := bind_inv run
        obtain ⟨address, value, -, isValue, lookup, valid2, isSlot, others⟩ :=
          assign_inv valid assigned
        refine ⟨s2, run, valid2, lookup, ?_, others⟩
        rw [currentPointer, isResolved, Option.bind_some, isValue, Option.map_some, Option.some_or,
          isSlot]
    obtain ⟨s1, run, valid1, lookup1, isSlot, others⟩ := step
    obtain ⟨valid', lookup', before, behind⟩ := ih valid1 suffix' run
    refine ⟨valid', lookup'.trans lookup1, fun j lt' inside => ?_, fun j sym' le isSym' => ?_⟩
    · rw [before j (by omega) inside, others j inside (by omega)]
    · by_cases same : j = i
      · rw [same, isSym] at isSym'
        cases isSym'
        rw [same, before i (by omega) lt, isSlot]
      · have inside := (List.getElem?_eq_some_iff.mp isSym').1
        rw [behind j sym' (by omega) isSym', currentPointer_congr lookup1, others j inside same]

end Assign

/-! ## Runs -/

/-- Something else happens: the pages and bytes of the blocks stay as they are. -/
structure Untouched (t : Trampoline) (vm vm' : Vm) : Prop where
  page : ∀ start ∈ t.blocks, ∀ i < mmapSize, vm'.pageOf (start + i) = vm.pageOf (start + i)
  byte : ∀ start ∈ t.blocks, ∀ i < mmapSize, vm'.readByte (start + i) = vm.readByte (start + i)
  fresh : vm.fresh ≤ vm'.fresh

/-- The calls of `set` and `update`, with changes of the loader in between. -/
inductive Step (e : Env) (undefinedTrampoline : Nat) (tlsAddress : ObjectRef → Nat → Nat) :
    Trampoline × Loader → Trampoline × Loader → Prop
  | set {t t' : Trampoline} {s s' : Loader} {sym : VersionedSymbol} {code : Option Nat} :
      t.set e undefinedTrampoline tlsAddress sym s = some ((code, t'), s') →
      Step e undefinedTrampoline tlsAddress (t, s) (t', s')
  | update {t : Trampoline} {s s' : Loader} :
      t.update e tlsAddress s = some ((), s') →
      Step e undefinedTrampoline tlsAddress (t, s) (t, s')
  | other {t : Trampoline} {s s' : Loader} : Untouched t s.vm s'.vm →
      Step e undefinedTrampoline tlsAddress (t, s) (t, s')

/-- Any sequence of these. -/
def Run (e : Env) (undefinedTrampoline : Nat) (tlsAddress : ObjectRef → Nat → Nat) :
    Trampoline × Loader → Trampoline × Loader → Prop :=
  Relation.ReflTransGen (Step e undefinedTrampoline tlsAddress)

/-- `Trampoline::Trampoline`. -/
def initial : Trampoline := ⟨[], []⟩

section Run

variable {e : Env} {s s' : Loader} {undefinedTrampoline : Nat} {tlsAddress : ObjectRef → Nat → Nat}
  {t t' : Trampoline} {number : Nat → Nat}

/-- What leaves the blocks alone keeps the invariant and all slots. -/
theorem Valid.untouched (valid : Valid undefinedTrampoline t vm number)
    (same : Untouched t vm vm') :
    Valid undefinedTrampoline t vm' number ∧
      ∀ j < t.symbols.length, t.slot vm' j = t.slot vm j := by
  have pages : ∀ k start : Nat, t.blocks[k]? = some start → SamePages vm vm' start mmapSize :=
    fun k start isStart => ⟨same.page start (List.mem_of_getElem? isStart), same.fresh⟩
  refine valid.same pages fun k start isStart i lt => ?_
  have block := (valid.block k start isStart).toPages
  have bytes := same.byte start (List.mem_of_getElem? isStart) i lt
  rwa [(block.same (pages k start isStart)).readByte lt, block.readByte lt, Option.some.injEq] at bytes

theorem update_inv (valid : Valid undefinedTrampoline t s.vm number)
    (run : t.update e tlsAddress s = some ((), s')) :
    Valid undefinedTrampoline t s'.vm number ∧ ∀ i sym, t.symbols[i]? = some sym →
      t.slot s'.vm i = (currentPointer e tlsAddress s' sym).or (t.slot s.vm i) := by
  have suffix : ∀ k, t.symbols[0 + k]? = t.symbols[k]? := by
    intro k
    rw [Nat.zero_add]
  obtain ⟨valid', lookup, -, slots⟩ := updateFrom_inv t.symbols valid suffix run
  refine ⟨valid', fun i sym isSym => ?_⟩
  rw [currentPointer_congr lookup, slots i sym (Nat.zero_le i) isSym]

theorem Step.extended (kernel : Aligned e) (step : Step e undefinedTrampoline tlsAddress x y)
    (valid : ∃ number, Valid undefinedTrampoline x.1 x.2.vm number) :
    Extended undefinedTrampoline x.1 y.1 y.2 := by
  obtain ⟨number, valid⟩ := valid
  cases step with
  | set run => exact (set_inv kernel valid run).1
  | update run => exact ⟨⟨number, (update_inv valid run).1⟩, .refl _⟩
  | other same => exact ⟨⟨number, (valid.untouched same).1⟩, .refl _⟩

theorem Run.extended (kernel : Aligned e) (run : Run e undefinedTrampoline tlsAddress x y)
    (valid : ∃ number, Valid undefinedTrampoline x.1 x.2.vm number) :
    Extended undefinedTrampoline x.1 y.1 y.2 := by
  induction run with
  | refl => exact ⟨valid, .refl _⟩
  | tail _ step ih =>
    have next := step.extended kernel ih.valid
    exact ⟨next.valid, ih.later.trans next.later⟩

theorem valid_initial (vm : Vm) : Valid undefinedTrampoline initial vm number where
  enough := .inl rfl
  block k start isStart := by cases isStart
  distinct k lt := by cases lt

end Run
end Trampoline

open Trampoline in
/-- In every run every index has a block, the slots of the indices are apart, the code of an
index jumps through its pointer and stays where it is. A call of `set` that fails leaves all
slots as they are; one that succeeds lets the slot of its symbol hold the pointer in the current
version and leaves the others as they are. After `update` every slot whose symbol is found in
the current version holds its pointer. -/
theorem trampolines_current {e : Env} {undefinedTrampoline : Nat}
    {tlsAddress : ObjectRef → Nat → Nat} {s₀ s : Loader} {t : Trampoline} (kernel : Aligned e)
    (run : Run e undefinedTrampoline tlsAddress (Trampoline.initial, s₀) (t, s)) :
    (∀ i < t.symbols.length, ∃ place target, t.pointer i = some place ∧
      t.slot s.vm i = some target ∧ jumpFrom s.vm place.1 = some target) ∧
    (∀ i < t.symbols.length, ∀ j < t.symbols.length, ∀ place place', t.pointer i = some place →
      t.pointer j = some place' → Disjoint place.1 trampolineBytes place'.2 8 ∧
        (i ≠ j → Separate place place')) ∧
    (∀ t' s', Run e undefinedTrampoline tlsAddress (t, s) (t', s') →
      ∀ i place, t.pointer i = some place → t'.pointer i = some place) ∧
    (∀ sym t' s', t.set e undefinedTrampoline tlsAddress sym s = some ((none, t'), s') →
      ∀ i < t.symbols.length, t'.slot s'.vm i = t.slot s.vm i) ∧
    (∀ sym code t' s', t.set e undefinedTrampoline tlsAddress sym s = some ((some code, t'), s') →
      s'.lookup = s.lookup ∧ ∃ i address known target, t'.pointer i = some (code, address) ∧
        t'.symbols[i]? = some known ∧ known.same sym = true ∧
        currentPointer e tlsAddress s' sym = some target ∧ t'.slot s'.vm i = some target ∧
        ∀ j < t.symbols.length, j ≠ i → t'.slot s'.vm j = t.slot s.vm j) ∧
    ∀ s', t.update e tlsAddress s = some ((), s') → ∀ i sym, t.symbols[i]? = some sym →
      t.slot s'.vm i = (currentPointer e tlsAddress s' sym).or (t.slot s.vm i) := by
  obtain ⟨number, valid⟩ := (run.extended kernel ⟨id, valid_initial _⟩).valid
  refine ⟨fun i lt => ?_, fun i lt j lt' place place' isPlace isPlace' => ?_,
    fun t' s' further i place isPlace => ?_, fun sym t' s' sets i lt => ?_,
    fun sym code t' s' sets => ?_, fun s' updates => (update_inv valid updates).2⟩
  · obtain ⟨start, -, isPointer⟩ := valid.pointer lt
    exact ⟨_, _, isPointer, valid.slot lt, (valid.jumpFrom isPointer).trans (valid.slot lt)⟩
  · exact valid.separate isPlace isPlace' lt lt'
  · exact (further.extended kernel ⟨number, valid⟩).later.pointer isPlace
  · obtain ⟨-, -, ⟨-, rfl, slots⟩ | ⟨_, _, _, _, wrong, -⟩⟩ := set_inv kernel valid sets
    · exact slots i lt
    · cases wrong
  · obtain ⟨-, lookup, ⟨wrong, -⟩ | ⟨i, address, known, _, isCode, isPointer, isKnown, isSame,
      isSlot, found, others⟩⟩ := set_inv kernel valid sets
    · cases wrong
    · cases isCode
      obtain ⟨target, isTarget⟩ := Option.isSome_iff_exists.mp found
      exact ⟨lookup, i, address, known, target, isPointer, isKnown, isSame, isTarget,
        isSlot.trans isTarget, others⟩

/-! ## A pointer that stays behind -/

/-- A library with two functions, at an address. -/
def twoFunctions (uid base : Nat) : Object :=
  { Object.construct uid 0 .dynamic (Elf.sharedObject [.function "f", .function "g"]) Data.none with
    base := base }

/-- The versions of the library are these. -/
def Loader.withVersions (s : Loader) (versions : List Object) : Loader :=
  { s with lookup := [.global 0 "libf.so" versions] }

/-- A function of a version of the library. -/
def functionOf (uid : Nat) (name : String) : VersionedSymbol :=
  ⟨.function name, ⟨0, uid⟩, .ofValid true⟩

/-- `set` for `f` in the first version. -/
def setsF : Option ((Option Nat × Trampoline) × Loader) :=
  Trampoline.initial.set Env.noFiles 0 (fun _ _ => 0) (functionOf 1 "f")
    (Loader.initial.withVersions [twoFunctions 1 0x100000])

/-- The second version becomes current, and `set` is called for `g`. -/
def setsG : Option ((Option Nat × Trampoline) × Loader) :=
  setsF.bind fun r => r.1.2.set Env.noFiles 0 (fun _ _ => 0) (functionOf 2 "g")
    (r.2.withVersions [twoFunctions 2 0x200000, twoFunctions 1 0x100000])

theorem aligned_noFiles : Trampoline.Aligned Env.noFiles := by
  intro tick
  show 0x10000000 * (tick + 1) % 4096 = 0
  omega

theorem run_setsF {r : (Option Nat × Trampoline) × Loader} (run : setsF = some r) :
    Trampoline.Run Env.noFiles 0 (fun _ _ => 0)
      (.initial, Loader.initial.withVersions [twoFunctions 1 0x100000]) (r.1.2, r.2) :=
  .single (.set run)

/-- Both functions of the first version have a trampoline. -/
theorem trampolines_current_two : ∃ r q target target', setsF = some r ∧
    r.1.2.set Env.noFiles 0 (fun _ _ => 0) (functionOf 1 "g") r.2 = some q ∧
    q.1.2.slot q.2.vm 0 = some target ∧ q.1.2.slot q.2.vm 1 = some target' := by
  have runs : ((setsF.bind fun r => r.1.2.set Env.noFiles 0 (fun _ _ => 0) (functionOf 1 "g") r.2).map
      fun q => q.1.2.symbols.length) = some 2 := by decide +kernel
  obtain ⟨q, isSet, two⟩ := Option.map_eq_some_iff.mp runs
  obtain ⟨r, first, second⟩ := Option.bind_eq_some_iff.mp isSet
  have slots := (trampolines_current aligned_noFiles ((run_setsF first).tail (.set second))).1
  obtain ⟨_, target, -, isSlot, -⟩ := slots 0 (by rw [two]; decide)
  obtain ⟨_, target', -, isSlot', -⟩ := slots 1 (by rw [two]; decide)
  exact ⟨r, q, target, target', first, second, isSlot, isSlot'⟩

/-- After the second call the pointer of `f` is still that of the first version. -/
theorem set_leaves_outdated : ∃ t s t' s' code known target,
    Trampoline.Run Env.noFiles 0 (fun _ _ => 0)
      (.initial, Loader.initial.withVersions [twoFunctions 1 0x100000]) (t, s) ∧
    t.set Env.noFiles 0 (fun _ _ => 0) (functionOf 2 "g") s = some ((some code, t'), s') ∧
    t'.symbols[0]? = some known ∧
    Trampoline.currentPointer Env.noFiles (fun _ _ => 0) s' known = some target ∧
    t'.slot s'.vm 0 ≠ some target := by
  have results : (setsG.map fun r => (r.1.1.isSome, r.1.2.symbols[0]?, r.1.2.slot r.2.vm 0,
      Trampoline.currentPointer Env.noFiles (fun _ _ => 0) r.2 (functionOf 1 "f"))) =
      some (true, some (functionOf 1 "f"), some 0x100010, some 0x200010) := by decide +kernel
  obtain ⟨⟨⟨code, t'⟩, s'⟩, sets, isResult⟩ := Option.map_eq_some_iff.mp results
  obtain ⟨r, isSet, sets⟩ := Option.bind_eq_some_iff.mp sets
  simp only [Prod.mk.injEq] at isResult
  obtain ⟨some, isKnown, isSlot, isTarget⟩ := isResult
  obtain ⟨code, rfl⟩ := Option.isSome_iff_exists.mp some
  refine ⟨r.1.2, r.2.withVersions _, t', s', code, _, _, (run_setsF isSet).tail ?_, sets, isKnown,
    isTarget, ?_⟩
  · exact .other ⟨fun _ _ _ _ => rfl, fun _ _ _ _ => rfl, Nat.le_refl _⟩
  · rw [isSlot]
    decide

end Luci
