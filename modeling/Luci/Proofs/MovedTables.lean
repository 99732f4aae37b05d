import Luci.Proofs.SectionPlacement

/-!
# Relocation tables and thread local symbols

What `preload` leaves of the offsets in the relocation tables and of the values of thread local
symbols. `adjust_offsets` moves a table together with its section, but it is not called for thread
local data with contents, it compares the section index as a number of 16 bits, and the symbols of
`.tbss` are moved only when the storage is registered.
-/

namespace Luci

open Exec VirtualMemory

variable {sec : Section} {elf final : Elf} {added n start : Nat}

/-! ## Relocation tables -/

/-- The relocation at position `j` of a table is applied by `prepare`, at the original offset from
the address. -/
structure Object.AppliedAt (libs : Libs) (v : Object) (table j : Nat) (reloc : Relocation)
    (address : Nat) : Prop where
  collected : table ∈ v.relocationTables
  moved : ∃ linked moved, v.elf.sections[table]? = some linked ∧ linked.relocations[j]? = some moved ∧
    (v.base + moved.offset) % 2 ^ 64 = (address + reloc.offset) % 2 ^ 64 ∧
    libs.address moved 0 v.base % 2 ^ 64 = (address + reloc.offset) % 2 ^ 64

/-- The section of thread local data with contents. -/
def Elf.tdata (elf : Elf) : Option Nat :=
  (elf.indices (fun sec => sec.threadLocal && sec.type ≠ .nobits) elf.sections.length).getLast?

/-- The section of thread local data that is zero. -/
def Elf.tbss (elf : Elf) : Option Nat :=
  (elf.indices (fun sec => sec.threadLocal && sec.type = .nobits) elf.sections.length).getLast?

/-- The size of the thread local data with contents. -/
def Elf.tdataSize (elf : Elf) : Nat :=
  ((elf.tdata.bind fun n => elf.sections[n]?).map Section.size).getD 0

/-- What is added to the offsets of a table that belongs to `.tbss`, if its narrowed index does,
when the storage is registered. -/
def Elf.tbssShift (elf : Elf) (i : ObjectIdentity) (linked : Section) : Nat :=
  if i.tlsModuleId = 0 ∧ elf.tbss.any linked.relocates = true then elf.tdataSize else 0

/-- The section that is adjusted with the table: the one with the narrowed index. -/
def Elf.adjusts (elf : Elf) (linked : Section) : Bool :=
  linked.relocates (linked.info % 2 ^ 16) && (elf.sections[linked.info % 2 ^ 16]?).any Section.placed

/-- A table goes with its target: the target is not thread local and has an index below 2^15; or no
other section takes its place and it lies where the table is left; or the section that takes its
place has the same offset, after sections that fill the address space. -/
def Object.Follows (o : Object) (previous : Option Object) (i : ObjectIdentity) (linked target : Section) :
    Prop :=
  linked.threadLocal = false ∧ linked.info ≠ 0 ∧
    ((linked.info < 2 ^ 15 ∧ target.placed = true) ∨
      (o.elf.adjusts linked = false ∧
        o.sectionOffset previous linked.info % 2 ^ 64 = o.elf.tbssShift i linked % 2 ^ 64) ∨
      (o.elf.adjusts linked = true ∧ o.sectionOffset previous linked.info % 2 ^ 64 =
        o.sectionOffset previous (linked.info % 2 ^ 16) % 2 ^ 64))

section Tables

variable {premapped : Bool} {previous : Option Object} {o : Object} {i : ObjectIdentity} {l : Layout}
  {linked target : Section}

theorem Layout.At.tlsSize_eq (built : l.At premapped previous o o.elf.sections.length) :
    l.tlsSize = o.elf.tdataSize := by
  unfold Layout.tlsSize Elf.tdataSize
  rw [show o.elf.tdata = l.tdata from built.tdata.symm]
  cases isData : l.tdata with
  | none => rfl
  | some n =>
    obtain ⟨sec, isSection, -, -, moved⟩ := built.tdata_section isData
    rw [Option.bind_some, Option.bind_some, moved, isSection]
    rfl

theorem Layout.At.tbssShift_eq (built : l.At premapped previous o o.elf.sections.length) :
    l.tbssShift i linked = o.elf.tbssShift i linked := by
  have isTbss : o.elf.tbss = l.tbss := built.tbss.symm
  unfold Layout.tbssShift Elf.tbssShift
  rw [isTbss]
  cases moves : l.movesTbss i with
  | some moved =>
    obtain ⟨registers, -, isBss, -⟩ := movesTbss_inv moves
    unfold Layout.registers at registers
    rw [Bool.and_eq_true, decide_eq_true_eq] at registers
    simp only [registers.2, isBss, Option.any_some, true_and, built.tlsSize_eq]
  | none =>
    dsimp only
    split
    · next both =>
      obtain ⟨n, isBss, -⟩ := (Option.any_eq_true _ _).mp both.2
      obtain ⟨sec, -, -, -, isSection⟩ := built.tbss_section isBss
      have registers : l.registers i := by simp [Layout.registers, isBss, both.1]
      by_contra nonzero
      unfold Layout.movesTbss at moves
      rw [registers, isBss, built.tlsSize_eq, decide_eq_true (Ne.symm nonzero)] at moves
      simp [isSection] at moves
    · rfl

theorem relocates_self (nonempty : linked.size ≠ 0)
    (isTable : linked.type = .rel ∨ linked.type = .rela) :
    linked.relocates n ↔ linked.info % 2 ^ 16 < 2 ^ 15 ∧ linked.info % 2 ^ 16 = n := by
  unfold Section.relocates Section.linksTo
  simp [nonempty, isTable]

theorem maps_allocate (maps : o.elf.maps previous n sec) :
    sec.allocate ∧ sec.size ≠ 0 := by
  unfold Elf.maps Section.threadLocal Section.placed at maps
  simp only [Bool.or_eq_true, Bool.and_eq_true, decide_eq_true_eq] at maps
  rcases maps with ⟨⟨size, -, allocate⟩, -⟩ | ⟨⟨⟨⟨size, -⟩, -⟩, allocate⟩, -⟩
  · exact ⟨allocate, size⟩
  · exact ⟨allocate, size⟩

/-- The whole amount that is added to the offsets of a table is the offset of its target exactly
if the table goes with it. -/
theorem shift_eq_iff (nonempty : linked.size ≠ 0)
    (isTable : linked.type = .rel ∨ linked.type = .rela)
    (isTarget : o.elf.sections[linked.info]? = some target) :
    (o.shift previous o.elf.sections.length linked + o.elf.tbssShift i linked) % 2 ^ 64 =
        o.sectionOffset previous linked.info % 2 ^ 64 ↔
      ((linked.info < 2 ^ 15 ∧ target.placed) ∨
        (o.elf.adjusts linked = false ∧
          o.sectionOffset previous linked.info % 2 ^ 64 = o.elf.tbssShift i linked % 2 ^ 64) ∨
        (o.elf.adjusts linked = true ∧ o.sectionOffset previous linked.info % 2 ^ 64 =
          o.sectionOffset previous (linked.info % 2 ^ 16) % 2 ^ 64)) := by
  have adjustsIf : linked.info < 2 ^ 15 → target.placed → o.elf.adjusts linked := by
    intro small isPlaced
    have same : linked.info % 2 ^ 16 = linked.info := Nat.mod_eq_of_lt (by omega)
    unfold Elf.adjusts
    rw [(relocates_self nonempty isTable).mpr ⟨by omega, rfl⟩, same, isTarget, Option.any_some,
      isPlaced]
    rfl
  unfold Object.shift
  cases adjusts : o.elf.adjusts linked with
  | false =>
    have notMoved : (linked.relocates (linked.info % 2 ^ 16) &&
        decide (linked.info % 2 ^ 16 < o.elf.sections.length) &&
        (o.elf.sections[linked.info % 2 ^ 16]?).any Section.placed) = false := by
      unfold Elf.adjusts at adjusts
      rw [Bool.and_right_comm, adjusts, Bool.false_and]
    simp only [notMoved, Bool.false_eq_true, if_false, Nat.zero_add, true_and, false_and, or_false]
    constructor
    · intro same
      exact .inr same.symm
    · rintro (⟨small, isPlaced⟩ | same)
      · rw [adjustsIf small isPlaced] at adjusts
        cases adjusts
      · exact same.symm
  | true =>
    unfold Elf.adjusts at adjusts
    obtain ⟨relocates, isPlaced⟩ := Bool.and_eq_true_iff.mp adjusts
    obtain ⟨sec, isSection, isPlaced⟩ := (Option.any_eq_true _ _).mp isPlaced
    have inside := (List.getElem?_eq_some_iff.mp isSection).1
    have noTbss : o.elf.tbssShift i linked = 0 := by
      refine if_neg fun both => ?_
      obtain ⟨n, isBss, here⟩ := (Option.any_eq_true _ _).mp both.2
      obtain ⟨sec', isSection', isLocal⟩ := section_of_getLast isBss
      rw [← (relocates_iff.mp here).2] at isSection'
      cases isSection.symm.trans isSection'
      rw [threadLocal_of_placed isPlaced] at isLocal
      cases isLocal
    have moved : (linked.relocates (linked.info % 2 ^ 16) &&
        decide (linked.info % 2 ^ 16 < o.elf.sections.length) &&
        (o.elf.sections[linked.info % 2 ^ 16]?).any Section.placed) := by
      rw [Bool.and_right_comm, adjusts, decide_eq_true inside]
      rfl
    simp only [moved, if_pos, noTbss, Nat.add_zero, Bool.true_eq_false, false_and, false_or, true_and]
    constructor
    · intro same
      exact .inr same.symm
    · rintro (⟨small, -⟩ | same)
      · rw [Nat.mod_eq_of_lt (show linked.info < 2 ^ 16 by omega)]
      · exact same.symm

end Tables

/-- After `preload` a relocation is applied in its target section, at its original offset, exactly
if its table goes with the section. -/
theorem appliedAt_iff {e : Env} {r : ObjectRef} {o : Object} {i : ObjectIdentity} {s s' : Loader}
    {table j : Nat} {linked target : Section} {reloc : Relocation}
    (relocator : ∀ reloc base, e.libs.address reloc 0 base = base + reloc.offset)
    (blank : o.Blank) (isObject : s.object r = some o) (identity : s.identity r.file = some i)
    (run : preloadRelocatable e r s = some (true, s'))
    (isLinked : o.elf.sections[table]? = some linked) (nonempty : linked.size ≠ 0)
    (isTable : linked.type = .rel ∨ linked.type = .rela)
    (isReloc : linked.relocations[j]? = some reloc)
    (isTarget : o.elf.sections[linked.info]? = some target)
    (maps : o.elf.maps (s.filePrevious r) linked.info target = true) :
    ∃ v seg, s'.object r = some v ∧ seg ∈ s'.memoryMap r.uid ∧
      o.segmentOf i.flags.premapped (s.filePrevious r) linked.info = some seg ∧
      (v.AppliedAt e.libs table j reloc seg.address ↔
        o.Follows (s.filePrevious r) i linked target) := by
  rcases preloadRelocatable_inv blank isObject identity run with ⟨impossible, -⟩ |
    ⟨l, built, isFinal, segments, -⟩
  · cases impossible
  obtain ⟨seg, member, isSegment⟩ := built.segment isTarget maps
  obtain ⟨-, -, -, base, offset, -⟩ := segmentOf_inv isSegment
  have inside := (List.getElem?_eq_some_iff.mp isLinked).1
  have shifts := @shift_eq_iff (s.filePrevious r) o i _ _ nonempty isTable isTarget
  refine ⟨_, seg, isFinal, segments ▸ member, isSegment, ?_⟩
  obtain ⟨symbols, object⟩ := built.final_object
  rw [object]
  have collected : table ∈ o.elf.indices o.elf.isTable o.elf.sections.length ↔
      linked.threadLocal = false ∧ linked.info ≠ 0 := by
    rw [mem_indices, isLinked, Option.any_some]
    unfold Elf.isTable
    rw [isTarget, Option.any_some, (maps_allocate maps).1]
    simp [inside, nonempty, isTable]
  have isMoved : (o.elf.sections.map fun linked => linked.move (o.shift (s.filePrevious r)
      o.elf.sections.length linked + l.tbssShift i linked))[table]? =
        some (linked.move (o.shift (s.filePrevious r) o.elf.sections.length linked +
          o.elf.tbssShift i linked)) := by
    rw [List.getElem?_map, isLinked, Option.map_some, built.tbssShift_eq]
  generalize o.shift (s.filePrevious r) o.elf.sections.length linked + o.elf.tbssShift i linked = delta
    at isMoved shifts
  have moved : (linked.move delta).relocations[j]? =
      some { reloc with offset := reloc.offset + delta } := by
    unfold Section.move
    rw [List.getElem?_map, isReloc]
    rfl
  have address : seg.address =
      (o.base + o.sectionOffset (s.filePrevious r) linked.info) % 2 ^ 64 := by
    rw [MemorySegment.address, base, offset]
  unfold Object.Follows
  rw [← shifts, ← and_assoc, ← collected]
  constructor
  · rintro ⟨isCollected, linked', moved', isLinked', isMoved', same, -⟩
    refine ⟨isCollected, ?_⟩
    cases isMoved.symm.trans isLinked'
    cases moved.symm.trans isMoved'
    rw [address] at same
    have same : (o.base + (reloc.offset + delta)) % 2 ^ 64 =
      ((o.base + o.sectionOffset (s.filePrevious r) linked.info) % 2 ^ 64 + reloc.offset) % 2 ^ 64 :=
      same
    omega
  · rintro ⟨isCollected, same⟩
    have place : (o.base + (reloc.offset + delta)) % 2 ^ 64 =
        (seg.address + reloc.offset) % 2 ^ 64 := by omega
    exact ⟨isCollected, _, _, isMoved, moved, place, (congrArg (· % 2 ^ 64) (relocator _ _)).trans place⟩

/-- A file with a variable that is initialised with an address: `.rela.tdata` has a relocation at
offset 8 of `.tdata`, behind the code. -/
def Elf.withTdata (isTls : Bool) : Elf :=
  { Elf.empty .rel with
    sections := [⟨"", .other 0, 0, 0, 0, 0, false, false, false, false, []⟩,
      ⟨".text", .progbits, 0x40, 64, 16, 0, true, false, true, false, []⟩,
      ⟨".tdata", .progbits, 0x80, 16, 8, 0, true, true, false, isTls, []⟩,
      ⟨".rela.tdata", .rela, 0x90, 24, 8, 2, false, false, false, false, [⟨8, rX866464, 0, 0⟩]⟩] }

/-- The state after `preload` of a first version. -/
def preloadedTdata (isTls : Bool) : Option (Bool × Loader) :=
  preloadRelocatable .forced ⟨0, 0⟩ (.newVersion (Elf.withTdata isTls) none 0x400000)

theorem appliedAt_iff_data : ∃ s' v, preloadedTdata false = some (true, s') ∧
    s'.object ⟨0, 0⟩ = some v ∧ v.AppliedAt .reference 3 0 ⟨8, rX866464, 0, 0⟩ 0x401000 := by
  have result : (preloadedTdata false).map Prod.fst = some true := by decide +kernel
  obtain ⟨⟨ok, s'⟩, run, rfl⟩ := Option.map_eq_some_iff.mp result
  obtain ⟨v, seg, isObject, -, isSegment, applied⟩ := @appliedAt_iff .forced ⟨0, 0⟩ _ _ _ _ 3 0 _ _ _
    (fun _ _ => rfl) ⟨rfl, rfl, rfl, rfl, rfl, rfl⟩ rfl rfl run rfl (by decide) (Or.inr rfl) rfl rfl
    rfl
  have address : seg.address = 0x401000 := by
    have mapped := congrArg (Option.map MemorySegment.address) isSegment
    exact Option.some.inj (mapped.symm.trans (by decide +kernel))
  refine ⟨s', v, run, isObject, ?_⟩
  rw [← address]
  exact applied.mpr ⟨rfl, by decide, Or.inl ⟨by decide, rfl⟩⟩

/-- The relocation in thread local data is applied at offset 8 of the code. -/
theorem tdata_relocation_stray : ∃ s' v, preloadedTdata true = some (true, s') ∧
    s'.object ⟨0, 0⟩ = some v ∧ (s'.memoryMap 0).map MemorySegment.address = [0x400000, 0x401000] ∧
    v.tableRelocations.map (fun reloc => v.base + reloc.offset) = [0x400008] := by
  have result : (preloadedTdata true).map (fun run => (run.1,
      (run.2.memoryMap 0).map MemorySegment.address, (run.2.object ⟨0, 0⟩).map fun v =>
        v.tableRelocations.map fun reloc => v.base + reloc.offset)) =
      some (true, [0x400000, 0x401000], some [0x400008]) := by decide +kernel
  obtain ⟨⟨ok, s'⟩, run, parts⟩ := Option.map_eq_some_iff.mp result
  cases isObject : s'.object ⟨0, 0⟩ with
  | none => simp [isObject] at parts
  | some v =>
    simp only [isObject, Option.map_some, Prod.mk.injEq, Option.some.injEq] at parts
    obtain ⟨rfl, addresses, offsets⟩ := parts
    exact ⟨s', v, run, isObject, addresses, offsets⟩

/-! ## Thread local variables -/

/-- A thread local variable with its offset; `zero` are those of `.tbss`. -/
structure TlsVariable where
  name : String
  value : Nat
  size : Nat
  zero : Bool
  deriving DecidableEq, Repr

/-- The variable that a symbol stands for. -/
def Elf.variableOf (elf : Elf) (sym : Symbol) : Option TlsVariable :=
  match sym.sectionIndex with
  | .index n => (elf.sections[n]?).bind fun sec =>
    if sec.threadLocal && sym.type = .sttTls then
      some ⟨sym.name, sym.value, sym.size, sec.type = .nobits⟩
    else none
  | _ => none

/-- The thread local variables of a file, with their offsets in the section before `preload` and in
the storage after it. -/
def Elf.variables (elf : Elf) : List TlsVariable := elf.symbolTable.filterMap elf.variableOf

/-- The variable with its offset in the storage, if `.tbss` begins at `start`. -/
def TlsVariable.stored (start : Nat) (var : TlsVariable) : TlsVariable :=
  { var with value := var.value + if var.zero then start else 0 }

/-- The size of the thread local data that is zero. -/
def Elf.tbssSize (elf : Elf) : Nat :=
  ((elf.tbss.bind fun n => elf.sections[n]?).map Section.size).getD 0

/-- The alignment of the thread local data that is zero. -/
def Elf.tbssAlignment (elf : Elf) : Nat :=
  ((elf.tbss.bind fun n => elf.sections[n]?).map Section.alignment).getD 0

/-- A file with a symbol table, a `.tdata` and a `.tbss` section at most, and variables that are
inside of them. -/
structure Elf.HasStorage (elf : Elf) : Prop where
  symbols : elf.hasSymbolTable = true
  single : ∀ (m n : Nat) (sec sec' : Section), elf.sections[m]? = some sec → elf.sections[n]? = some sec' →
    sec.threadLocal = true → sec'.threadLocal = true → (sec.type = .nobits ↔ sec'.type = .nobits) →
    m = n
  inside : ∀ var ∈ elf.variables,
    var.value + var.size ≤ if var.zero then elf.tbssSize else elf.tdataSize

/-- `.tbss` begins at `start` in the storage, behind `.tdata` and aligned. -/
structure Elf.Starts (elf : Elf) (start : Nat) : Prop where
  behind : elf.tdataSize ≤ start
  aligned : elf.tbssAlignment = 0 ∨ elf.tbssAlignment ∣ start

/-- The variables of the file have their offsets in a storage of the size. -/
structure Elf.Stores (elf final : Elf) (start size : Nat) : Prop where
  offsets : final.variables = elf.variables.map (TlsVariable.stored start)
  inside : ∀ var ∈ final.variables, var.value + var.size ≤ size

section Storage

variable {premapped : Bool} {previous : Option Object} {o : Object} {i : ObjectIdentity} {l : Layout}

theorem variableOf_move (elf : Elf) (delta : Section → Nat) (table : List Symbol) (sym : Symbol) :
    Elf.variableOf { elf with
      sections := elf.sections.map fun linked => linked.move (delta linked)
      symbolTable := table } sym = elf.variableOf sym := by
  unfold Elf.variableOf
  cases sym.sectionIndex with
  | index n =>
    simp only [List.getElem?_map]
    cases elf.sections[n]? <;> rfl
  | _ => rfl

/-- What is added to the variables of `.tbss`. -/
def Elf.tbssStart (elf : Elf) (i : ObjectIdentity) : Nat :=
  if i.tlsModuleId = 0 then elf.tdataSize else 0

theorem Elf.HasStorage.tbss_eq (storage : o.elf.HasStorage)
    (isSection : o.elf.sections[n]? = some sec) (isLocal : sec.threadLocal)
    (nobits : sec.type = .nobits) : o.elf.tbss = some n := by
  have member : n ∈ o.elf.indices (fun sec => sec.threadLocal && sec.type = .nobits)
      o.elf.sections.length := by
    refine mem_indices.mpr ⟨(List.getElem?_eq_some_iff.mp isSection).1, ?_⟩
    simp [isSection, isLocal, nobits]
  obtain ⟨m, isLast⟩ := Option.isSome_iff_exists.mp
    (List.getLast?_isSome.mpr (List.ne_nil_of_mem member))
  obtain ⟨sec', isSection', both⟩ := section_of_getLast isLast
  rw [Bool.and_eq_true, decide_eq_true_eq] at both
  rw [storage.single n m sec sec' isSection isSection' isLocal both.1 (by simp [nobits, both.2])]
  exact isLast

/-- The symbols of `.tbss` are moved when the storage is registered. -/
theorem tbssSymbol_value (storage : o.elf.HasStorage)
    (built : l.At premapped previous o o.elf.sections.length)
    (first : i.tlsModuleId = 0 → previous = none) {sym : Symbol}
    (inSection : sym.sectionIndex = .index n) (isSection : o.elf.sections[n]? = some sec)
    (isLocal : sec.threadLocal) (isVariable : sym.type = .sttTls) :
    l.tbssSymbol previous i o sym = { sym with
      value := sym.value + if sec.type = .nobits then o.elf.tbssStart i else 0 } := by
  by_cases nobits : sec.type = .nobits
  · have isBss : l.tbss = some n := built.tbss.trans (storage.tbss_eq isSection isLocal nobits)
    obtain ⟨sec', -, -, -, isMoved⟩ := built.tbss_section isBss
    unfold Layout.tbssSymbol Layout.movesTbss Layout.registers Elf.tbssStart
    rw [built.tlsSize_eq, isBss, if_pos nobits]
    by_cases registers : i.tlsModuleId = 0
    · by_cases empty : o.elf.tdataSize = 0
      · simp [empty]
      · simp [registers, empty, isMoved, storage.symbols, Object.entryIn, inSection, Symbol.entry,
          first registers, Symbol.taken, isVariable, SymbolType.moves, Symbol.adjusted]
    · simp [registers]
  · have other : l.tbss ≠ some n := by
      intro isBss
      obtain ⟨sec', isSection', -, nobits', -⟩ := built.tbss_section isBss
      cases isSection.symm.trans isSection'
      exact nobits nobits'
    rw [tbssSymbol_ne inSection other, if_neg nobits]
    rfl

theorem variableOf_final (storage : o.elf.HasStorage)
    (built : l.At premapped previous o o.elf.sections.length)
    (first : i.tlsModuleId = 0 → previous = none) (sym : Symbol) :
    o.elf.variableOf (l.tbssSymbol previous i o
        (o.movedSymbol previous o.elf.sections.length sym)) =
      (o.elf.variableOf sym).map (TlsVariable.stored (o.elf.tbssStart i)) := by
  have index : (l.tbssSymbol previous i o
      (o.movedSymbol previous o.elf.sections.length sym)).sectionIndex = sym.sectionIndex := by
    rw [← @movedSymbol_sectionIndex previous o o.elf.sections.length sym]
    unfold Layout.tbssSymbol Symbol.adjusted
    repeat' split
    all_goals rfl
  unfold Elf.variableOf
  rw [index]
  cases inSection : sym.sectionIndex with
  | index n =>
    dsimp only
    cases isSection : o.elf.sections[n]? with
    | none => rfl
    | some sec =>
      cases isLocal : sec.threadLocal with
      | false => simp [isLocal]
      | true =>
        have unmoved : o.movedSymbol previous o.elf.sections.length sym = sym := by
          have unplaced : sec.placed = false := by
            by_contra isPlaced
            rw [threadLocal_of_placed (by simpa using isPlaced)] at isLocal
            cases isLocal
          unfold Object.movedSymbol
          simp [inSection, isSection, unplaced]
        rw [unmoved]
        by_cases isVariable : sym.type = .sttTls
        · rw [tbssSymbol_value storage built first inSection isSection isLocal isVariable]
          simp [TlsVariable.stored]
        · have other : (l.tbssSymbol previous i o sym).type ≠ .sttTls := by
            unfold Layout.tbssSymbol Symbol.adjusted
            repeat' split
            all_goals exact isVariable
          simp [isVariable, other]
  | _ => rfl

theorem variables_final (storage : o.elf.HasStorage)
    (built : l.At premapped previous o o.elf.sections.length)
    (first : i.tlsModuleId = 0 → previous = none) :
    ((l.final previous i).object.layoutOf o).elf.variables =
      o.elf.variables.map (TlsVariable.stored (o.elf.tbssStart i)) := by
  obtain ⟨symbols, object⟩ := built.final_object
  unfold Elf.variables
  rw [object, List.map_filterMap]
  unfold Object.layoutOf
  rw [List.filterMap_map]
  refine List.filterMap_congr fun sym _ => ?_
  rw [Function.comp_apply, variableOf_move]
  exact variableOf_final storage built first sym

theorem tls_size (built : l.At premapped previous o o.elf.sections.length) :
    (l.tls previous).1.1 = o.elf.tdataSize + o.elf.tbssSize := by
  have isTbss : o.elf.tbss = l.tbss := built.tbss.symm
  rw [← built.tlsSize_eq]
  unfold Layout.tls Elf.tbssSize
  rw [isTbss]
  cases isBss : l.tbss with
  | none => rfl
  | some n =>
    obtain ⟨sec, isSection, -, -, moved⟩ := built.tbss_section isBss
    simp only [Option.bind_some, moved, isSection]
    rfl

/-- Other offsets than those that were added are as good if there are no variables in `.tbss`. -/
theorem stores_of {elf file final : Elf}
    (offsets : final.variables = elf.variables.map (TlsVariable.stored added))
    (same : ∀ var ∈ elf.variables, var.zero → start = added) (inside : ∀ var ∈ elf.variables,
      var.value + var.size ≤ if var.zero then file.tbssSize else file.tdataSize)
    (within : added ≤ file.tdataSize) :
    elf.Stores final start (file.tdataSize + file.tbssSize) where
  offsets := by
    rw [offsets]
    refine List.map_congr_left fun var member => ?_
    cases zero : var.zero with
    | false => simp [TlsVariable.stored, zero]
    | true => rw [same var member zero]
  inside := by
    intro stored member
    rw [offsets] at member
    obtain ⟨var, isVariable, rfl⟩ := List.mem_map.mp member
    have room := inside var isVariable
    unfold TlsVariable.stored
    cases zero : var.zero with
    | false =>
      simp only [zero, Bool.false_eq_true, if_false] at room ⊢
      omega
    | true =>
      simp only [zero, if_true] at room ⊢
      omega

/-- Wherever the variables of `.tbss` have been put, they are there at an offset only. -/
theorem Elf.Stores.start_eq {start size added : Nat} (stores : elf.Stores final start size)
    (offsets : final.variables = elf.variables.map (TlsVariable.stored added)) {var : TlsVariable}
    (member : var ∈ elf.variables) (zero : var.zero) : start = added := by
  have same := List.map_inj_left.mp (stores.offsets.symm.trans offsets) var member
  have values := congrArg TlsVariable.value same
  simp only [TlsVariable.stored, zero, if_true] at values
  omega

theorem Elf.starts_exists (elf : Elf) : ∃ start, elf.Starts start := by
  by_cases none : elf.tbssAlignment = 0
  · exact ⟨elf.tdataSize, le_rfl, .inl none⟩
  · refine ⟨elf.tbssAlignment * elf.tdataSize, ?_, .inr (Nat.dvd_mul_right _ _)⟩
    exact Nat.le_mul_of_pos_left _ (Nat.pos_of_ne_zero none)

end Storage

/-- The same thread local storage. -/
structure Elf.SameStorage (elf elf' : Elf) : Prop where
  tdataSize : elf'.tdataSize = elf.tdataSize
  tbssSize : elf'.tbssSize = elf.tbssSize
  tbssAlignment : elf'.tbssAlignment = elf.tbssAlignment
  members : ∀ var, var ∈ elf'.variables ↔ var ∈ elf.variables

/-- The offsets of the variables in a first and in a later version with the same storage are those
in one block of the registered size exactly if there is no `.tdata` when there are variables in
`.tbss`: the later version does not move them. -/
theorem stored_together_iff {e e' : Env} {r : ObjectRef} {uid : Nat} {o o' : Object}
    {i i' : ObjectIdentity} {s s' t t' : Loader}
    (blank : o.Blank) (isObject : s.object r = some o) (identity : s.identity r.file = some i)
    (isFirst : s.filePrevious r = none) (unregistered : i.tlsModuleId = 0)
    (storage : o.elf.HasStorage) (isLocal : (o.elf.tdata.isSome || o.elf.tbss.isSome) = true)
    (run : preloadRelocatable e r s = some (true, s'))
    (blank' : o'.Blank) (isObject' : t.object ⟨r.file, uid⟩ = some o')
    (identity' : t.identity r.file = some i') (registered : i'.tlsModuleId ≠ 0)
    (storage' : o'.elf.HasStorage) (unchanged : o.elf.SameStorage o'.elf)
    (run' : preloadRelocatable e' ⟨r.file, uid⟩ t = some (true, t')) :
    ∃ v v' m, s'.object r = some v ∧ t'.object ⟨r.file, uid⟩ = some v' ∧
      s'.tls.modules = s.tls.modules ++ [m] ∧ m.object = r.file ∧
      ((∃ start, o.elf.Starts start ∧ o.elf.Stores v.elf start m.size ∧
          o'.elf.Stores v'.elf start m.size) ↔
        ((∃ var ∈ o.elf.variables, var.zero = true) → o.elf.tdataSize = 0)) := by
  rcases preloadRelocatable_inv blank isObject identity run with ⟨impossible, -⟩ |
    ⟨l, built, isFinal, -, registers⟩
  · cases impossible
  rcases preloadRelocatable_inv blank' isObject' identity' run' with ⟨impossible, -⟩ |
    ⟨l', built', isFinal', -, -⟩
  · cases impossible
  obtain ⟨m, modules, isModule, size⟩ := registers (by
    unfold Layout.registers
    rw [show l.tdata = o.elf.tdata from built.tdata, show l.tbss = o.elf.tbss from built.tbss,
      isLocal, unregistered]
    rfl)
  refine ⟨_, _, m, isFinal, isFinal', modules, isModule, ?_⟩
  have offsets := variables_final (i := i) storage built fun _ => isFirst
  have offsets' := variables_final storage' built' fun zero => absurd zero registered
  have start : o.elf.tbssStart i = o.elf.tdataSize := if_pos unregistered
  have start' : o'.elf.tbssStart i' = 0 := if_neg registered
  rw [start] at offsets
  rw [start'] at offsets'
  rw [size, tls_size built]
  constructor
  · rintro ⟨start, starts, -, stores'⟩ ⟨var, member, zero⟩
    have atZero := stores'.start_eq offsets' ((unchanged.members var).mpr member) zero
    exact Nat.eq_zero_of_le_zero (atZero ▸ starts.behind)
  · intro empty
    have inside' : ∀ var ∈ o'.elf.variables,
        var.value + var.size ≤ if var.zero then o.elf.tbssSize else o.elf.tdataSize :=
      fun var member => storage.inside var ((unchanged.members var).mp member)
    by_cases some : ∃ var ∈ o.elf.variables, var.zero = true
    · have none := empty some
      refine ⟨0, ⟨Nat.le_of_eq none, Or.inr (Nat.dvd_zero _)⟩, ?_, ?_⟩
      · exact stores_of offsets (fun _ _ _ => none.symm) storage.inside (Nat.le_refl _)
      · exact stores_of offsets' (fun _ _ _ => rfl) inside' (Nat.zero_le _)
    · obtain ⟨start, starts⟩ := o.elf.starts_exists
      refine ⟨start, starts, ?_, ?_⟩
      · exact stores_of offsets (fun var member zero => absurd ⟨var, member, zero⟩ some)
          storage.inside (Nat.le_refl _)
      · refine stores_of offsets' (fun var member zero => ?_) inside' (Nat.zero_le _)
        exact absurd ⟨var, (unchanged.members var).mp member, zero⟩ some

/-- A file with a variable `x` in `.tdata`, if this has contents, and a variable `y` in `.tbss`. -/
def Elf.withVariables (size : Nat) : Elf :=
  { Elf.empty .rel with
    sections := [⟨"", .other 0, 0, 0, 0, 0, false, false, false, false, []⟩,
      ⟨".text", .progbits, 0x40, 64, 16, 0, true, false, true, false, []⟩,
      ⟨".tdata", .progbits, 0x80, size, 8, 0, true, true, false, true, []⟩,
      ⟨".tbss", .nobits, 0x90, 8, 8, 0, true, true, false, true, []⟩,
      ⟨".symtab", .symtab, 0x90, 48, 8, 0, false, false, false, false, []⟩]
    symbolTable := [⟨"x", 0, size, .stbGlobal, .sttTls, .stvDefault, .index 2⟩,
      ⟨"y", 0, 8, .stbGlobal, .sttTls, .stvDefault, .index 3⟩] }

def Object.withVariables (size uid : Nat) : Object :=
  { Object.newVersion (.withVariables size) 0x400000 with uid := uid, offset := 0x10000 * uid }

/-- The first version is loaded. -/
def storedFirst (size : Nat) : Option (Bool × Loader) :=
  preloadRelocatable .forced ⟨0, 1⟩ { Loader.initial with
    lookup := [.global 0 "x.o" [.withVariables size 1]] }

/-- The same file is loaded again. -/
def storedLater (size : Nat) : Option (Bool × Loader) :=
  (storedFirst size).bind fun (_, s) => preloadRelocatable .forced ⟨0, 2⟩
    (s.modifyIdentity 0 fun i => i.addVersion (.withVariables size 2))

theorem withVariables_storage : (Elf.withVariables 0).HasStorage where
  symbols := rfl
  single := by
    have unique : ∀ (n : Nat) (sec : Section), (Elf.withVariables 0).sections[n]? = some sec →
        sec.threadLocal → n = 3 := by
      intro n sec isSection isLocal
      have bound : n < 5 := (List.getElem?_eq_some_iff.mp isSection).1
      rcases (by omega : n = 0 ∨ n = 1 ∨ n = 2 ∨ n = 3 ∨ n = 4) with rfl | rfl | rfl | rfl | rfl <;>
        cases isSection <;> first | rfl | cases isLocal
    intro m n sec sec' isSection isSection' isLocal isLocal' _
    rw [unique m sec isSection isLocal, unique n sec' isSection' isLocal']
  inside := by decide +kernel

theorem stored_together_iff_zero : ∃ s' t' v v' m, storedFirst 0 = some (true, s') ∧
    preloadRelocatable .forced ⟨0, 2⟩ { Loader.initial with lookup :=
      [{ ObjectIdentity.global 0 "x.o" [.withVariables 0 2, .withVariables 0 1] with
        tlsModuleId := 1 }] } = some (true, t') ∧
    s'.object ⟨0, 1⟩ = some v ∧ t'.object ⟨0, 2⟩ = some v' ∧ s'.tls.modules = [m] ∧
    ∃ start, (Elf.withVariables 0).Starts start ∧ (Elf.withVariables 0).Stores v.elf start m.size ∧
      (Elf.withVariables 0).Stores v'.elf start m.size := by
  have result : (storedFirst 0).map Prod.fst = some true := by decide +kernel
  obtain ⟨⟨ok, s'⟩, run, rfl⟩ := Option.map_eq_some_iff.mp result
  have result' : (preloadRelocatable .forced ⟨0, 2⟩ { Loader.initial with lookup :=
      [{ ObjectIdentity.global 0 "x.o" [.withVariables 0 2, .withVariables 0 1] with
        tlsModuleId := 1 }] }).map Prod.fst = some true := by decide +kernel
  obtain ⟨⟨ok', t'⟩, run', rfl⟩ := Option.map_eq_some_iff.mp result'
  obtain ⟨v, v', m, isObject, isObject', modules, -, together⟩ := @stored_together_iff .forced .forced
    ⟨0, 1⟩ 2 (.withVariables 0 1) (.withVariables 0 2) _ _ _ _ _ _
    ⟨rfl, rfl, rfl, rfl, rfl, rfl⟩ rfl rfl rfl rfl withVariables_storage (by decide +kernel) run
    ⟨rfl, rfl, rfl, rfl, rfl, rfl⟩ rfl rfl (by decide) withVariables_storage
    ⟨rfl, rfl, rfl, fun _ => Iff.rfl⟩ run'
  exact ⟨s', t', v, v', m, run, run', isObject, isObject', modules, together.mpr fun _ => by decide +kernel⟩

/-- The later version has both variables at offset 0 of the storage. -/
theorem later_variables_overlap :
    ((storedFirst 8).bind fun (_, s) => (s.object ⟨0, 1⟩).map fun v =>
      v.elf.variables.map fun var => (var.name, var.value)) = some [("x", 0), ("y", 8)] ∧
    ((storedLater 8).bind fun (_, s) => (s.object ⟨0, 2⟩).map fun v =>
      v.elf.variables.map fun var => (var.name, var.value)) = some [("x", 0), ("y", 0)] ∧
    ((storedLater 8).map fun (_, s) => s.tls.modules.map TlsModule.size) = some [16] := by
  decide +kernel

end Luci
