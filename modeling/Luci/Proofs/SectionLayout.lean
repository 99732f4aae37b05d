import Luci.Proofs.Mapping
import Luci.Proofs.RelocatableTables

/-!
# The layout of the sections

`ObjectRelocatable::preload` goes through the sections once. What it decides about a section
depends on the file and the previous version only, not on what it has done before: `maps` tells
whether a segment is made, `sectionOffset` is the running offset, `shift` what is added to the
offsets of a relocation table. `Layout.At` says that the loop has built exactly this.
-/

namespace Luci

open Exec VirtualMemory

variable {elf : Elf} {l : Layout} {seg : MemorySegment} {base extra n offset : Nat}

/-! ## What is decided about a section -/

/-- A symbol that moves with the section. -/
def Symbol.movesWith (previous : Option Object) (index : Nat) (sec : Section) (sym : Symbol) :
    Bool :=
  sym.sectionIndex = .index index && (sym.taken previous sec.writeable).isNone && sym.type.moves

/-- What `adjust_offsets` returns for the section. -/
def Elf.changes (elf : Elf) (previous : Option Object) (index : Nat) (sec : Section) : Bool :=
  (elf.hasSymbolTable && elf.symbolTable.any (·.movesWith previous index sec)) ||
    elf.sections.any fun linked => linked.relocates index && !linked.relocations.isEmpty

/-- A section with thread local data. -/
def Section.threadLocal (sec : Section) : Bool := sec.size ≠ 0 && (sec.tls && sec.allocate)

/-- An initialisation section that gets a return instruction. -/
def Section.returns (sec : Section) (previous : Option Object) : Bool :=
  sec.placed && (previous.isNone && sec.isInitFini)

/-- A section that gets an error handling frame header. -/
def Section.unwinds (sec : Section) : Bool :=
  sec.placed && (sec.type = .progbits && sec.name = ".eh_frame")

/-- The additional bytes of the section. -/
def Section.additionalSize (sec : Section) (previous : Option Object) : Nat :=
  (if sec.returns previous then 1 else 0) + if sec.unwinds then ehFrameSpace else 0

/-- A table with relocations for an allocated section. -/
def Elf.isTable (elf : Elf) (sec : Section) : Bool :=
  sec.size ≠ 0 && !sec.threadLocal && (sec.type = .rel || sec.type = .rela) &&
    (sec.info ≠ 0 && (elf.sections[sec.info]?).any (·.allocate))

/-- Is a segment made for the section? -/
def Elf.maps (elf : Elf) (previous : Option Object) (index : Nat) (sec : Section) : Bool :=
  (sec.threadLocal && sec.type ≠ .nobits) ||
    (sec.placed && (previous.isNone || elf.changes previous index sec || !sec.writeable))

/-- The offset behind a section: whole pages are added if it has a segment. -/
def Elf.advance (elf : Elf) (previous : Option Object) (index offset : Nat) : Nat :=
  match elf.sections[index]? with
  | some sec =>
    if elf.maps previous index sec then
      (offset + alignUp (sec.size + sec.additionalSize previous) pageSize) % 2 ^ 64
    else offset
  | none => offset

/-- The offset when the loop comes to a section. -/
def Object.sectionOffset (o : Object) (previous : Option Object) : Nat → Nat
  | 0 => o.offset
  | index + 1 => o.elf.advance previous index (o.sectionOffset previous index)

/-- The address of the segment of a section. -/
def Object.sectionAddress (o : Object) (previous : Option Object) (index : Nat) : Nat :=
  (o.base + o.sectionOffset previous index) % 2 ^ 64

/-- What has been added to the offsets in a relocation table after the first `k` sections. -/
def Object.shift (o : Object) (previous : Option Object) (k : Nat) (linked : Section) : Nat :=
  let target := linked.info % 2 ^ 16
  if linked.relocates target && decide (target < k) &&
      (o.elf.sections[target]?).any Section.placed then
    o.sectionOffset previous target
  else 0

/-- A relocation table with the same amount added to all offsets. -/
def Section.move (linked : Section) (delta : Nat) : Section :=
  { linked with relocations := linked.relocations.map fun r => { r with offset := r.offset + delta } }

/-- A symbol after the first `k` sections. -/
def Object.movedSymbol (o : Object) (previous : Option Object) (k : Nat) (sym : Symbol) : Symbol :=
  match sym.sectionIndex with
  | .index n =>
    match o.elf.sections[n]? with
    | some sec =>
      if n < k ∧ sec.placed ∧ o.elf.hasSymbolTable then
        sym.adjusted (sym.entry previous sec.writeable o.ref (o.sectionOffset previous n))
      else sym
    | none => sym
  | _ => sym

/-- The indices below `k` of the sections with a property. -/
def Elf.indices (elf : Elf) (p : Section → Bool) (k : Nat) : List Nat :=
  (List.range k).filter fun n => (elf.sections[n]?).any p

/-- The object after the first `k` sections, but for its list of symbols. -/
def Object.laidOut (o : Object) (previous : Option Object) (k : Nat) : Object :=
  { o with
    elf := { o.elf with
      sections := o.elf.sections.map fun linked => linked.move (o.shift previous k linked)
      symbolTable := o.elf.symbolTable.map (o.movedSymbol previous k) }
    offset := o.sectionOffset previous k
    offsetSections := (List.range k).map (o.sectionOffset previous)
    initSections := o.elf.indices (·.returns previous) k
    ehSection := (o.elf.indices Section.unwinds k).getLast?
    relocationTables := o.elf.indices o.elf.isTable k }

/-- The segment of a section; `none` if there is none or its assertion fails. -/
def Object.segmentOf (o : Object) (premapped : Bool) (previous : Option Object) (n : Nat) :
    Option MemorySegment :=
  (o.elf.sections[n]?).bind fun sec =>
    if o.elf.maps previous n sec then
      MemorySegment.ofSection premapped sec (o.sectionOffset previous n)
        (sec.additionalSize previous) o.base
    else none

/-- The section can be placed at the offset. -/
def Object.Fits (o : Object) (previous : Option Object) (n : Nat) : Prop :=
  ∀ sec, o.elf.sections[n]? = some sec → o.elf.maps previous n sec = true →
    sec.alignment ≠ 0 ∧ o.sectionAddress previous n % sec.alignment = 0

/-- The layout after the first `k` sections. -/
structure Layout.At (premapped : Bool) (previous : Option Object) (o : Object) (k : Nat)
    (l : Layout) : Prop where
  object : l.object = { o.laidOut previous k with symbols := l.object.symbols }
  segments : l.segments = (List.range k).filterMap (o.segmentOf premapped previous)
  tdata : l.tdata = (o.elf.indices (fun sec => sec.threadLocal && sec.type ≠ .nobits) k).getLast?
  tbss : l.tbss = (o.elf.indices (fun sec => sec.threadLocal && sec.type = .nobits) k).getLast?
  fits : ∀ n < k, o.Fits previous n

/-! ## One section -/

section AdjustOffsets

variable {previous : Option Object} {o : Object} {index offset : Nat} {sec : Section}

theorem addSymbol_changed (a : Adjusted) (owner : ObjectRef) (sym : Symbol)
    (inSection : sym.sectionIndex = .index index) :
    (a.addSymbol previous sec.writeable owner offset sym).changed =
      (a.changed || sym.movesWith previous index sec) := by
  have reused : (if sec.writeable then previous else none).bind (fun p =>
      (p.resolveInternalSymbol sym.name).filter fun entry =>
        entry.1.type = sym.type && entry.1.size = sym.size) = sym.taken previous sec.writeable := rfl
  unfold Adjusted.addSymbol Symbol.movesWith
  simp only [reused, inSection]
  cases sym.taken previous sec.writeable <;> cases sym.type.moves <;> simp

theorem adjustSymbols_changed :
    (o.adjustSymbols previous index sec offset).2 =
      o.elf.symbolTable.any (·.movesWith previous index sec) := by
  have loop : ∀ (syms : List Symbol) (a : Adjusted), (syms.foldl (fun (a : Adjusted) sym =>
      if sym.sectionIndex = .index index then a.addSymbol previous sec.writeable o.ref offset sym
      else { a with symbolTable := a.symbolTable ++ [sym] }) a).changed =
        (a.changed || syms.any (·.movesWith previous index sec)) := by
    intro syms
    induction syms with
    | nil => simp
    | cons sym syms ih =>
      intro a
      rw [List.foldl_cons, ih, List.any_cons]
      by_cases inSection : sym.sectionIndex = .index index
      · rw [if_pos inSection, addSymbol_changed a o.ref sym inSection, Bool.or_assoc]
      · simp [Symbol.movesWith, inSection]
  exact (loop o.elf.symbolTable ⟨[], o.symbols, false⟩).trans (Bool.false_or _)

theorem adjustOffsets_changed :
    (o.adjustOffsets previous offset index sec).2 = o.elf.changes previous index sec := by
  unfold Object.adjustOffsets Elf.changes
  rw [show (o.elf.sections.any fun linked => linked.size ≠ 0 && linked.type = .symtab) =
    o.elf.hasSymbolTable from rfl]
  cases o.elf.hasSymbolTable with
  | true =>
    have changed := @adjustSymbols_changed previous o index offset sec
    simp only [← changed]
    rfl
  | false => rfl

/-- What `adjust_offsets` leaves, but for the list of symbols. -/
theorem adjustOffsets_object :
    (o.adjustOffsets previous offset index sec).1 =
      { o with
        elf := { o.elf with
          sections := o.elf.sections.map fun linked =>
            if linked.relocates index then linked.move offset else linked
          symbolTable := o.elf.symbolTable.map fun sym =>
            if o.elf.hasSymbolTable then sym.adjusted (o.entryIn previous index sec offset sym)
            else sym }
        symbols := (o.adjustOffsets previous offset index sec).1.symbols } := by
  unfold Object.adjustOffsets
  rw [show (o.elf.sections.any fun linked => linked.size ≠ 0 && linked.type = .symtab) =
    o.elf.hasSymbolTable from rfl]
  cases o.elf.hasSymbolTable with
  | true =>
    simp only [if_pos, ← adjustSymbols_table]
    rfl
  | false =>
    simp only [Bool.false_eq_true, if_false, List.map_id']
    rfl

end AdjustOffsets

section Step

variable {premapped : Bool} {previous : Option Object} {o : Object} {k : Nat} {sec : Section}
  {l l' : Layout}

theorem indices_succ (elf : Elf) (p : Section → Bool) (k : Nat) :
    elf.indices p (k + 1) =
      elf.indices p k ++ if (elf.sections[k]?).any p then [k] else [] := by
  unfold Elf.indices
  rw [List.range_succ]
  cases found : (elf.sections[k]?).any p <;> simp [found]

theorem indices_getLast (isSection : elf.sections[k]? = some sec) (p : Section → Bool) :
    (elf.indices p (k + 1)).getLast? = if p sec then some k else (elf.indices p k).getLast? := by
  rw [indices_succ, isSection, Option.any_some]
  cases p sec <;> simp

theorem move_zero (linked : Section) : linked.move 0 = linked := by
  unfold Section.move
  simp

theorem relocates_iff {linked : Section} :
    linked.relocates n ↔ linked.relocates (linked.info % 2 ^ 16) ∧
      linked.info % 2 ^ 16 = n := by
  unfold Section.relocates Section.linksTo
  simp only [Bool.and_eq_true, decide_eq_true_eq]
  tauto

/-- A table is moved when the loop comes to the section it belongs to. -/
theorem shift_succ (isSection : o.elf.sections[k]? = some sec) (linked : Section) :
    o.shift previous (k + 1) linked = o.shift previous k linked +
      if sec.placed && linked.relocates k then o.sectionOffset previous k else 0 := by
  unfold Object.shift
  dsimp only
  by_cases here : linked.relocates k
  · obtain ⟨relocates, target⟩ := relocates_iff.mp here
    simp only [target, isSection, Option.any_some]
    cases sec.placed <;> simp
  · have elsewhere : ¬ (linked.relocates (linked.info % 2 ^ 16) ∧ linked.info % 2 ^ 16 = k) :=
      fun both => here (relocates_iff.mpr both)
    have below : (linked.relocates (linked.info % 2 ^ 16) && decide (linked.info % 2 ^ 16 < k + 1)) =
        (linked.relocates (linked.info % 2 ^ 16) && decide (linked.info % 2 ^ 16 < k)) := by
      cases relocates : linked.relocates (linked.info % 2 ^ 16) with
      | false => rfl
      | true =>
        have other : linked.info % 2 ^ 16 ≠ k := fun same => elsewhere ⟨relocates, same⟩
        simp only [Bool.true_and, decide_eq_decide]
        omega
    rw [below] at *
    simp [here]

theorem movedSymbol_sectionIndex (sym : Symbol) :
    (o.movedSymbol previous k sym).sectionIndex = sym.sectionIndex := by
  unfold Object.movedSymbol Symbol.adjusted
  repeat' split
  all_goals rfl

/-- A symbol is adjusted when the loop comes to its section. -/
theorem movedSymbol_succ (isSection : o.elf.sections[k]? = some sec) (sym : Symbol) :
    o.movedSymbol previous (k + 1) sym =
      if sec.placed && o.elf.hasSymbolTable then
        (o.movedSymbol previous k sym).adjusted
          (o.entryIn previous k sec (o.sectionOffset previous k) (o.movedSymbol previous k sym))
      else o.movedSymbol previous k sym := by
  unfold Object.entryIn
  rw [movedSymbol_sectionIndex]
  by_cases here : sym.sectionIndex = .index k
  · unfold Object.movedSymbol
    simp only [here, isSection]
    cases sec.placed <;> cases o.elf.hasSymbolTable <;> simp
  · have same : o.movedSymbol previous (k + 1) sym = o.movedSymbol previous k sym := by
      unfold Object.movedSymbol
      split
      · next n isIndex =>
        have other : n ≠ k := fun same => here (same ▸ isIndex)
        simp only [Nat.lt_succ_iff_lt_or_eq, other, or_false]
      · rfl
    rw [same, if_neg here]
    simp [Symbol.adjusted]

/-- The offset of the section is noted. -/
def Layout.note (l : Layout) : Layout :=
  { l with object := { l.object with
    offsetSections := l.object.offsetSections ++ [l.object.offset] } }

theorem addSection_eq (isSection : l.object.elf.sections[k]? = some sec) :
    Layout.addSection premapped previous l k =
      if sec.placed then l.note.addAllocated premapped previous k sec
      else if sec.threadLocal && sec.type ≠ .nobits then
        Layout.emplace { l.note with tdata := some k } premapped sec 0
      else some { l.note with
        tbss := if sec.threadLocal then some k else l.tbss
        object := { l.note.object with
          relocationTables := if l.object.elf.isTable sec then l.object.relocationTables ++ [k]
            else l.object.relocationTables } } := by
  unfold Layout.addSection
  rw [isSection, Option.bind_eq_bind, Option.bind_some]
  by_cases empty : sec.size = 0
  · simp [empty, Layout.note, Section.placed, Section.threadLocal, Elf.isTable]
  rw [if_neg empty]
  by_cases tls : (sec.tls && sec.allocate)
  · have unplaced : sec.placed = false := by simp [Section.placed, tls]
    have isLocal : sec.threadLocal := by simp [Section.threadLocal, empty, tls]
    rw [if_pos tls]
    by_cases nobits : sec.type = .nobits
    · simp [unplaced, isLocal, Elf.isTable, Layout.note]
    · simp [unplaced, isLocal, nobits, Layout.note]
  rw [if_neg tls]
  have notLocal : sec.threadLocal = false := by simp [Section.threadLocal, tls]
  by_cases loads : sec.type.loads
  · have isPlaced : sec.placed = sec.allocate := by simp [Section.placed, empty, tls, loads]
    have noTable : l.object.elf.isTable sec = false := by
      unfold Elf.isTable
      cases type : sec.type <;> simp_all [SectionType.loads]
    rw [if_pos loads, isPlaced, notLocal, noTable]
    cases sec.allocate <;> simp [Layout.note]
  · have unplaced : sec.placed = false := by simp [Section.placed, loads]
    have table : l.object.elf.isTable sec = ((sec.type = .rel || sec.type = .rela) &&
        (sec.info ≠ 0 && (l.object.elf.sections[sec.info]?).any (·.allocate))) := by
      simp [Elf.isTable, notLocal, empty]
    rw [if_neg loads, unplaced, notLocal, table]
    cases (decide (sec.type = .rel) || decide (sec.type = .rela)) with
    | false => simp [Layout.note]
    | true =>
      cases (decide (sec.info ≠ 0) && (l.object.elf.sections[sec.info]?).any (·.allocate)) <;>
        simp [Layout.note]

theorem hasSymbolTable_laidOut : (o.laidOut previous k).elf.hasSymbolTable = o.elf.hasSymbolTable := by
  unfold Elf.hasSymbolTable Object.laidOut
  simp only [List.any_map]
  rfl

theorem changes_laidOut (index : Nat) (sec : Section) :
    (o.laidOut previous k).elf.changes previous index sec = o.elf.changes previous index sec := by
  have moves : ∀ sym, (o.movedSymbol previous k sym).movesWith previous index sec =
      sym.movesWith previous index sec := by
    intro sym
    unfold Symbol.movesWith
    rw [movedSymbol_sectionIndex]
    unfold Object.movedSymbol Symbol.adjusted
    repeat' split
    all_goals rfl
  unfold Elf.changes
  rw [hasSymbolTable_laidOut]
  unfold Object.laidOut
  simp only [List.any_map, Function.comp_def, moves]
  congr 2
  funext linked
  show (linked.relocates index && !(List.map _ linked.relocations).isEmpty) = _
  rw [List.isEmpty_map]

theorem laidOut_elf_unplaced (isSection : o.elf.sections[k]? = some sec) (unplaced : sec.placed = false) :
    (o.laidOut previous (k + 1)).elf = (o.laidOut previous k).elf := by
  have symbols : o.movedSymbol previous (k + 1) = o.movedSymbol previous k := by
    funext sym
    rw [movedSymbol_succ isSection, unplaced]
    rfl
  unfold Object.laidOut
  simp only [symbols, shift_succ isSection, unplaced, Bool.false_and, Bool.false_eq_true, if_false,
    Nat.add_zero]

theorem laidOut_elf_placed (isSection : o.elf.sections[k]? = some sec) (isPlaced : sec.placed)
    {v : Object} {sec' : Section} (sameElf : v.elf = (o.laidOut previous k).elf)
    (sameRef : v.ref = o.ref) (writeable : sec'.writeable = sec.writeable) :
    (o.laidOut previous (k + 1)).elf =
      (v.adjustOffsets previous (o.sectionOffset previous k) k sec').1.elf := by
  have entries : ∀ sym, v.entryIn previous k sec' (o.sectionOffset previous k) sym =
      o.entryIn previous k sec (o.sectionOffset previous k) sym := by
    intro sym
    unfold Object.entryIn
    rw [writeable, sameRef]
  have symbols : o.movedSymbol previous (k + 1) = fun sym =>
      if o.elf.hasSymbolTable then (o.movedSymbol previous k sym).adjusted
        (v.entryIn previous k sec' (o.sectionOffset previous k) (o.movedSymbol previous k sym))
      else o.movedSymbol previous k sym := by
    funext sym
    rw [movedSymbol_succ isSection, isPlaced, entries, Bool.true_and]
  have sections : ∀ linked : Section, linked.move (o.shift previous (k + 1) linked) =
      if (linked.move (o.shift previous k linked)).relocates k then
        (linked.move (o.shift previous k linked)).move (o.sectionOffset previous k)
      else linked.move (o.shift previous k linked) := by
    intro linked
    rw [shift_succ isSection, isPlaced, Bool.true_and,
      show (linked.move (o.shift previous k linked)).relocates k = linked.relocates k from rfl]
    cases linked.relocates k with
    | false => rfl
    | true =>
      unfold Section.move
      simp only [if_pos, List.map_map, Function.comp_def, Nat.add_assoc]
  rw [adjustOffsets_object]
  simp only [sameElf, hasSymbolTable_laidOut]
  unfold Object.laidOut
  simp only [List.map_map, Function.comp_def, symbols, sections]

/-! ## The loop -/

theorem pageSize_of_aligned (aligned : seg.address % pageSize = 0) :
    seg.pageStart = seg.address ∧ seg.pageSize = alignUp seg.size pageSize % 2 ^ 64 := by
  have start : seg.pageStart = seg.address := by
    unfold MemorySegment.pageStart
    rw [aligned, Nat.sub_zero]
  unfold MemorySegment.pageSize alignUp
  rw [if_neg (by decide), start, Nat.sub_self, Nat.zero_add]
  unfold pageSize
  dsimp only
  omega

/-- A word is rounded to pages as the number it stands for. -/
theorem alignUp_word (size : Nat) :
    alignUp (size % 2 ^ 64) pageSize % 2 ^ 64 = alignUp size pageSize % 2 ^ 64 := by
  unfold alignUp pageSize
  rw [if_neg (by decide), if_neg (by decide)]
  omega

/-- The segment of a section, and the assertion of its constructor. -/
theorem ofSection_inv (made : MemorySegment.ofSection premapped sec offset extra base = some seg) :
    (sec.alignment ≠ 0 ∧ (base + offset) % 2 ^ 64 % sec.alignment = 0) ∧ seg.base = base ∧
      seg.offset = offset ∧ seg.size = (sec.size + extra) % 2 ^ 64 := by
  unfold MemorySegment.ofSection MemorySegment.address at made
  by_cases fits : sec.alignment ≠ 0 ∧ (base + offset) % 2 ^ 64 % sec.alignment = 0
  · rw [if_pos fits] at made
    cases made
    exact ⟨fits, rfl, rfl, rfl⟩
  · rw [if_neg fits] at made
    cases made

theorem ofSection_isSome (premapped : Bool) (extra : Nat) (nonzero : sec.alignment ≠ 0)
    (fits : (base + offset) % 2 ^ 64 % sec.alignment = 0) :
    (MemorySegment.ofSection premapped sec offset extra base).isSome := by
  unfold MemorySegment.ofSection
  rw [if_pos ⟨nonzero, fits⟩]
  rfl

theorem emplace_eq (aligned : (l.object.base + l.object.offset) % pageSize = 0) :
    l.emplace premapped sec extra =
      (MemorySegment.ofSection premapped sec l.object.offset extra l.object.base).map fun seg =>
        { l with
          object := { l.object with
            offset := (l.object.offset + alignUp (sec.size + extra) pageSize) % 2 ^ 64 }
          segments := l.segments ++ [seg] } := by
  unfold Layout.emplace
  cases made : MemorySegment.ofSection premapped sec l.object.offset extra l.object.base with
  | none => rfl
  | some seg =>
    obtain ⟨-, base, offset, size⟩ := ofSection_inv made
    have address : seg.address % pageSize = 0 := by
      rw [MemorySegment.address, base, offset, Nat.mod_mod_of_dvd _ (by decide), aligned]
    rw [Option.bind_eq_bind, Option.bind_some, Option.map_some, (pageSize_of_aligned address).2,
      size, alignUp_word, Nat.add_mod_mod]

theorem sectionOffset_aligned (base : o.base % pageSize = 0) (offset : o.offset % pageSize = 0)
    (n : Nat) : (o.base + o.sectionOffset previous n) % pageSize = 0 := by
  have each : o.sectionOffset previous n % pageSize = 0 := by
    induction n with
    | zero => exact offset
    | succ n ih =>
      unfold Object.sectionOffset Elf.advance
      split
      · split
        · rw [Nat.mod_mod_of_dvd _ (by decide), Nat.add_mod, ih,
            Nat.mod_eq_zero_of_dvd (dvd_alignUp _ _ (by decide))]
          rfl
        · exact ih
      · exact ih
  rw [Nat.add_mod, base, each]
  rfl

theorem laidOut_succ (isSection : o.elf.sections[k]? = some sec) :
    o.laidOut previous (k + 1) =
      { o.laidOut previous k with
        elf := (o.laidOut previous (k + 1)).elf
        offset :=
          if o.elf.maps previous k sec then
            (o.sectionOffset previous k + alignUp (sec.size + sec.additionalSize previous) pageSize) %
              2 ^ 64
          else o.sectionOffset previous k
        offsetSections := (o.laidOut previous k).offsetSections ++ [o.sectionOffset previous k]
        initSections := (o.laidOut previous k).initSections ++
          if sec.returns previous then [k] else []
        ehSection := if sec.unwinds then some k else (o.laidOut previous k).ehSection
        relocationTables := (o.laidOut previous k).relocationTables ++
          if o.elf.isTable sec then [k] else [] } := by
  unfold Object.laidOut
  simp only [indices_getLast isSection]
  simp only [indices_succ, isSection, Option.any_some, List.range_succ, List.map_append,
    List.map_cons, List.map_nil, Object.sectionOffset, Elf.advance]

theorem isTable_laidOut (sec : Section) :
    (o.laidOut previous k).elf.isTable sec = o.elf.isTable sec := by
  unfold Elf.isTable Object.laidOut
  simp only [List.getElem?_map, Option.any_map]
  rfl

theorem additionalSize_unplaced (unplaced : sec.placed = false) : sec.additionalSize previous = 0 := by
  unfold Section.additionalSize Section.returns Section.unwinds
  simp [unplaced]

theorem threadLocal_of_placed (isPlaced : sec.placed) : sec.threadLocal = false := by
  simp only [Section.placed, Bool.and_eq_true, Bool.not_eq_true'] at isPlaced
  unfold Section.threadLocal
  rw [isPlaced.1.1.2, Bool.and_false]

theorem isTable_of_placed (isPlaced : sec.placed) : elf.isTable sec = false := by
  unfold Section.placed SectionType.loads at isPlaced
  unfold Elf.isTable
  cases type : sec.type <;> simp_all

/-- The layout after the next section, but for the list of symbols. -/
def Layout.next (l : Layout) (previous : Option Object) (o : Object) (k : Nat) (sec : Section)
    (symbols : List (Symbol × ObjectRef)) (segments : List MemorySegment) : Layout where
  object := { o.laidOut previous (k + 1) with symbols := symbols }
  segments := l.segments ++ segments
  tdata := if sec.threadLocal && sec.type ≠ .nobits then some k else l.tdata
  tbss := if sec.threadLocal && sec.type = .nobits then some k else l.tbss

section Built

variable (built : l.At premapped previous o k)

include built

theorem Layout.At.note_object :
    l.note.object = { o.laidOut previous k with
      symbols := l.object.symbols
      offsetSections := (o.laidOut previous k).offsetSections ++ [o.sectionOffset previous k] } := by
  unfold Layout.note
  rw [built.object]
  rfl

theorem Layout.At.skip (isSection : o.elf.sections[k]? = some sec) (unplaced : sec.placed = false)
    (noData : (sec.threadLocal && sec.type ≠ .nobits) = false) :
    { l.note with
      tbss := if sec.threadLocal then some k else l.tbss
      object := { l.note.object with
        relocationTables := if o.elf.isTable sec then l.object.relocationTables ++ [k]
          else l.object.relocationTables } } = l.next previous o k sec l.object.symbols [] := by
  have unmapped : o.elf.maps previous k sec = false := by
    unfold Elf.maps
    rw [noData, unplaced]
    rfl
  have tables : l.object.relocationTables = (o.laidOut previous k).relocationTables := by
    rw [built.object]
  have noInit : sec.returns previous = false := by simp [Section.returns, unplaced]
  have noFrame : sec.unwinds = false := by simp [Section.unwinds, unplaced]
  have isTbss : (sec.threadLocal && sec.type = .nobits) = sec.threadLocal := by
    cases isLocal : sec.threadLocal with
    | false => rfl
    | true =>
      rw [isLocal, Bool.true_and, decide_eq_false_iff_not, not_not] at noData
      simp [noData]
  unfold Layout.next
  rw [laidOut_succ isSection, laidOut_elf_unplaced isSection unplaced, unmapped, noInit, noFrame,
    built.note_object, tables, noData, isTbss]
  cases o.elf.isTable sec <;> simp [Object.laidOut, Layout.note]

theorem Layout.At.data (isSection : o.elf.sections[k]? = some sec) (unplaced : sec.placed = false)
    (isData : (sec.threadLocal && sec.type ≠ .nobits)) (seg : MemorySegment) :
    { l.note with
      tdata := some k
      object := { l.note.object with
        offset := (o.sectionOffset previous k + alignUp (sec.size + 0) pageSize) % 2 ^ 64 }
      segments := l.segments ++ [seg] } = l.next previous o k sec l.object.symbols [seg] := by
  have maps : o.elf.maps previous k sec := by
    unfold Elf.maps
    rw [isData]
    rfl
  have noMore : sec.additionalSize previous = 0 := additionalSize_unplaced unplaced
  have noInit : sec.returns previous = false := by simp [Section.returns, unplaced]
  have noFrame : sec.unwinds = false := by simp [Section.unwinds, unplaced]
  unfold Layout.next
  rw [isData]
  rw [Bool.and_eq_true, decide_eq_true_eq] at isData
  have noTable : o.elf.isTable sec = false := by simp [Elf.isTable, isData.1]
  rw [laidOut_succ isSection, laidOut_elf_unplaced isSection unplaced, maps, noInit, noFrame,
    noTable, noMore, built.note_object]
  simp [isData.2, Layout.note]

theorem Layout.At.placed (isSection : o.elf.sections[k]? = some sec) (isPlaced : sec.placed)
    (aligned : (o.base + o.sectionOffset previous k) % pageSize = 0) (delta : Nat) :
    ∃ symbols, l.note.addAllocated premapped previous k (sec.move delta) =
      if o.elf.maps previous k sec then
        (MemorySegment.ofSection premapped sec (o.sectionOffset previous k)
          (sec.additionalSize previous) o.base).map fun seg => l.next previous o k sec symbols [seg]
      else some (l.next previous o k sec symbols []) := by
  rw [addAllocated_eq]
  have noted : l.note.noting previous k (sec.move delta) = { o.laidOut previous k with
      symbols := l.object.symbols
      offsetSections := (o.laidOut previous k).offsetSections ++ [o.sectionOffset previous k]
      initSections := (o.laidOut previous k).initSections ++
        if sec.returns previous then [k] else []
      ehSection := if sec.unwinds then some k else (o.laidOut previous k).ehSection } := by
    unfold Layout.noting Section.returns Section.unwinds
    rw [built.note_object, isPlaced]
    simp only [Bool.true_and]
    congr 1
    show (if (previous.isNone && sec.isInitFini) = true then _ else _) = _
    split <;> simp
  have offset : l.note.object.offset = o.sectionOffset previous k := by
    rw [built.note_object]
    rfl
  generalize l.note.noting previous k (sec.move delta) = v at noted ⊢
  have sameElf : v.elf = (o.laidOut previous k).elf := by rw [noted]
  have sameRef : v.ref = o.ref := by
    rw [noted]
    rfl
  have changed : (v.adjustOffsets previous (o.sectionOffset previous k) k (sec.move delta)).2 =
      o.elf.changes previous k sec := by
    rw [adjustOffsets_changed, sameElf]
    exact changes_laidOut k sec
  have elf := laidOut_elf_placed isSection isPlaced sameElf sameRef
    (show (sec.move delta).writeable = sec.writeable from rfl)
  have adjusted : (v.adjustOffsets previous (o.sectionOffset previous k) k (sec.move delta)).1 =
      { v with
        elf := (o.laidOut previous (k + 1)).elf
        symbols := (v.adjustOffsets previous (o.sectionOffset previous k) k
          (sec.move delta)).1.symbols } := by
    rw [elf, adjustOffsets_object]
  rw [offset, changed]
  generalize (v.adjustOffsets previous (o.sectionOffset previous k) k (sec.move delta)).1 = w
    at adjusted ⊢
  have notLocal := threadLocal_of_placed isPlaced
  have isMapped : o.elf.maps previous k sec =
      (previous.isNone || o.elf.changes previous k sec || !sec.writeable) := by
    unfold Elf.maps
    rw [notLocal, isPlaced, Bool.false_and, Bool.false_or, Bool.true_and]
  have object : ∀ behind, behind = (if o.elf.maps previous k sec then
      (o.sectionOffset previous k + alignUp (sec.size + sec.additionalSize previous) pageSize) % 2 ^ 64
      else o.sectionOffset previous k) →
      { w with offset := behind } = { o.laidOut previous (k + 1) with symbols := w.symbols } := by
    rw [adjusted, laidOut_succ isSection, isTable_of_placed isPlaced, noted]
    simp
  have running : w.offset = o.sectionOffset previous k := by
    rw [adjusted, noted]
    rfl
  have more : ((if (previous.isNone && (sec.move delta).isInitFini) = true then 1 else 0) +
      if (decide ((sec.move delta).type = .progbits) && decide ((sec.move delta).name = ".eh_frame")) =
        true then ehFrameSpace else 0) = sec.additionalSize previous := by
    unfold Section.additionalSize Section.returns Section.unwinds
    rw [isPlaced]
    rfl
  rw [show (sec.move delta).writeable = sec.writeable from rfl, ← isMapped, more]
  refine ⟨w.symbols, ?_⟩
  unfold Layout.next
  rw [notLocal]
  cases maps : o.elf.maps previous k sec with
  | false =>
    have laid := object _ (by rw [maps, if_neg Bool.false_ne_true])
    rw [← running] at laid
    simp only [List.append_nil, ← laid]
    rfl
  | true =>
    have base : w.base = o.base := by
      rw [adjusted, noted]
      rfl
    have laid := object _ (by rw [maps, if_pos rfl])
    rw [emplace_eq (by rw [base, running]; exact aligned), base, running, ← laid]
    rfl

theorem Layout.At.section (isSection : o.elf.sections[k]? = some sec) :
    l.object.elf.sections[k]? = some (sec.move (o.shift previous k sec)) := by
  rw [built.object]
  unfold Object.laidOut
  rw [List.getElem?_map, isSection]
  rfl

theorem Layout.At.isTable (sec : Section) : l.object.elf.isTable sec = o.elf.isTable sec := by
  rw [built.object]
  exact isTable_laidOut sec

theorem Layout.At.place :
    l.object.base = o.base ∧ l.object.offset = o.sectionOffset previous k := by
  rw [built.object]
  exact ⟨rfl, rfl⟩

theorem Layout.At.addSection (aligned : (o.base + o.sectionOffset previous k) % pageSize = 0)
    (isSection : o.elf.sections[k]? = some sec) :
    ∃ symbols, Layout.addSection premapped previous l k =
      if o.elf.maps previous k sec then
        (MemorySegment.ofSection premapped sec (o.sectionOffset previous k)
          (sec.additionalSize previous) o.base).map fun seg => l.next previous o k sec symbols [seg]
      else some (l.next previous o k sec symbols []) := by
  rw [addSection_eq (built.section isSection)]
  by_cases isPlaced : sec.placed
  · obtain ⟨symbols, added⟩ := built.placed isSection isPlaced aligned (o.shift previous k sec)
    refine ⟨symbols, ?_⟩
    rw [← added]
    exact if_pos isPlaced
  have unplaced : sec.placed = false := Bool.eq_false_iff.mpr isPlaced
  obtain ⟨base, offset⟩ := built.place
  refine ⟨l.object.symbols, (if_neg isPlaced).trans ?_⟩
  by_cases isData : (sec.threadLocal && sec.type ≠ .nobits)
  · have maps : o.elf.maps previous k sec := by
      unfold Elf.maps
      rw [isData]
      rfl
    have more : sec.additionalSize previous = 0 := additionalSize_unplaced unplaced
    refine (if_pos isData).trans ?_
    rw [emplace_eq (by
      show (l.object.base + l.object.offset) % pageSize = 0
      rw [base, offset, aligned]), maps, if_pos rfl, more]
    simp only [← built.data isSection unplaced isData, ← base, ← offset]
    rfl
  · have noData : (sec.threadLocal && sec.type ≠ .nobits) = false := Bool.eq_false_iff.mpr isData
    have unmapped : o.elf.maps previous k sec = false := by
      unfold Elf.maps
      rw [noData, unplaced]
      rfl
    rw [unmapped, ← built.skip isSection unplaced noData, ← built.isTable]
    exact if_neg isData

theorem Layout.At.succ (aligned : (o.base + o.sectionOffset previous k) % pageSize = 0)
    (isSection : o.elf.sections[k]? = some sec)
    (run : Layout.addSection premapped previous l k = some l') :
    l'.At premapped previous o (k + 1) := by
  obtain ⟨symbols, added⟩ := built.addSection aligned isSection
  rw [added] at run
  have parts : ∀ segments, (o.segmentOf premapped previous k).toList = segments →
      o.Fits previous k → (l.next previous o k sec symbols segments).At premapped previous o (k + 1) := by
    rintro segments rfl fits
    refine ⟨rfl, ?_, ?_, ?_, fun n below => ?_⟩
    · rw [List.range_succ, List.filterMap_append, ← built.segments]
      cases made : o.segmentOf premapped previous k <;> simp [made, Layout.next]
    · rw [indices_getLast isSection, ← built.tdata]
      rfl
    · rw [indices_getLast isSection, ← built.tbss]
      rfl
    · by_cases last : n = k
      · exact last ▸ fits
      · exact built.fits n (by omega)
  have segment : o.segmentOf premapped previous k = if o.elf.maps previous k sec then
      MemorySegment.ofSection premapped sec (o.sectionOffset previous k)
        (sec.additionalSize previous) o.base else none := by
    unfold Object.segmentOf
    rw [isSection, Option.bind_some]
  split at run
  · next maps =>
    rw [if_pos maps] at segment
    obtain ⟨seg, made, rfl⟩ := Option.map_eq_some_iff.mp run
    apply parts
    · rw [segment, made]
      rfl
    · intro other isOther _
      cases isSection.symm.trans isOther
      exact (ofSection_inv made).1
  · next unmapped =>
    rw [if_neg unmapped] at segment
    cases run
    apply parts
    · rw [segment]
      rfl
    · intro other isOther maps
      cases isSection.symm.trans isOther
      exact absurd maps unmapped

theorem Layout.At.progress (aligned : (o.base + o.sectionOffset previous k) % pageSize = 0)
    (isSection : o.elf.sections[k]? = some sec) (fits : o.Fits previous k) :
    ∃ l', Layout.addSection premapped previous l k = some l' := by
  obtain ⟨symbols, added⟩ := built.addSection aligned isSection
  rw [added]
  split
  · next maps =>
    obtain ⟨nonzero, divides⟩ := fits sec isSection maps
    obtain ⟨seg, made⟩ := Option.isSome_iff_exists.mp (ofSection_isSome _ _ nonzero divides)
    rw [made]
    exact ⟨_, rfl⟩
  · exact ⟨_, rfl⟩

end Built

end Step

/-! ## All sections -/

/-- A new object at a page boundary, for which nothing is laid out yet. -/
structure Object.Blank (o : Object) : Prop where
  offsetSections : o.offsetSections = []
  initSections : o.initSections = []
  ehSection : o.ehSection = none
  relocationTables : o.relocationTables = []
  base : o.base % pageSize = 0
  offset : o.offset % pageSize = 0

section Loop

variable {premapped : Bool} {previous : Option Object} {o : Object} {l : Layout}

theorem laidOut_zero (blank : o.Blank) : o.laidOut previous 0 = o := by
  have sections : ∀ linked : Section, linked.move (o.shift previous 0 linked) = linked := by
    intro linked
    have none : o.shift previous 0 linked = 0 := by simp [Object.shift]
    rw [none, move_zero]
  have symbols : o.movedSymbol previous 0 = id := by
    funext sym
    unfold Object.movedSymbol
    repeat' split
    · next impossible => exact absurd impossible.1 (Nat.not_lt_zero _)
    all_goals rfl
  have inits := blank.initSections
  have frame := blank.ehSection
  have tables := blank.relocationTables
  have offsets := blank.offsetSections
  obtain ⟨⟩ := o
  subst inits frame tables offsets
  unfold Object.laidOut
  simp only [sections, symbols, List.map_id', List.map_id_fun]
  rfl

theorem Layout.At.start (blank : o.Blank) :
    Layout.At premapped previous o 0 ⟨o, [], none, none⟩ where
  object := by rw [laidOut_zero blank]
  segments := rfl
  tdata := rfl
  tbss := rfl
  fits _ impossible := absurd impossible (Nat.not_lt_zero _)

theorem layout_at (blank : o.Blank) (inside : n ≤ o.elf.sections.length)
    (run : (List.range n).foldlM (Layout.addSection premapped previous) ⟨o, [], none, none⟩ =
      some l) : l.At premapped previous o n := by
  induction n generalizing l with
  | zero =>
    cases run
    exact Layout.At.start blank
  | succ n ih =>
    rw [List.range_succ, List.foldlM_append] at run
    obtain ⟨before, first, last⟩ := Option.bind_eq_some_iff.mp run
    obtain ⟨after, added, same⟩ := Option.bind_eq_some_iff.mp last
    cases same
    have isSection := List.getElem?_eq_getElem inside
    exact (ih (by omega) first).succ (sectionOffset_aligned blank.base blank.offset n) isSection added

theorem layout_isSome (blank : o.Blank) (inside : n ≤ o.elf.sections.length)
    (fits : ∀ m < n, o.Fits previous m) :
    ∃ l, (List.range n).foldlM (Layout.addSection premapped previous) ⟨o, [], none, none⟩ =
      some l := by
  induction n with
  | zero => exact ⟨_, rfl⟩
  | succ n ih =>
    obtain ⟨before, first⟩ := ih (by omega) fun m below => fits m (by omega)
    have isSection := List.getElem?_eq_getElem inside
    obtain ⟨after, added⟩ := (layout_at blank (by omega) first).progress
      (sectionOffset_aligned blank.base blank.offset n) isSection (fits n (by omega))
    rw [List.range_succ, List.foldlM_append, first]
    exact ⟨after, by simp [added]⟩

end Loop

/-! ## `preload` -/

section Preload

variable {e : Env} {r : ObjectRef} {o : Object} {i : ObjectIdentity} {s s' : Loader} {ok : Bool}

/-- Is the thread local storage registered by this version? -/
def Layout.registers (l : Layout) (i : ObjectIdentity) : Bool :=
  (l.tdata.isSome || l.tbss.isSome) && i.tlsModuleId = 0

/-- The layout with the symbols of `.tbss` moved if the storage is registered. -/
def Layout.final (l : Layout) (previous : Option Object) (i : ObjectIdentity) : Layout :=
  if l.registers i then (l.tls previous).2 else l

/-- The size of the thread local data with contents. -/
def Layout.tlsSize (l : Layout) : Nat :=
  ((l.tdata.bind fun n => l.object.elf.sections[n]?).map Section.size).getD 0

/-- The section whose symbols and relocations are moved at the end. -/
def Layout.movesTbss (l : Layout) (i : ObjectIdentity) : Option (Nat × Section) :=
  if l.registers i && l.tlsSize ≠ 0 then
    l.tbss.bind fun n => (l.object.elf.sections[n]?).map fun tbss => (n, tbss)
  else none

/-- What is added to the offsets of a relocation table at the end. -/
def Layout.tbssShift (l : Layout) (i : ObjectIdentity) (linked : Section) : Nat :=
  match l.movesTbss i with
  | some (index, _) => if linked.relocates index then l.tlsSize else 0
  | none => 0

/-- A symbol at the end, which it had this form before. -/
def Layout.tbssSymbol (l : Layout) (previous : Option Object) (i : ObjectIdentity) (o : Object)
    (sym : Symbol) : Symbol :=
  match l.movesTbss i with
  | some (index, tbss) =>
    if o.elf.hasSymbolTable then sym.adjusted (o.entryIn previous index tbss l.tlsSize sym) else sym
  | none => sym

theorem movesTbss_inv {index : Nat} {tbss : Section} (moved : l.movesTbss i = some (index, tbss)) :
    l.registers i ∧ l.tlsSize ≠ 0 ∧ l.tbss = some index ∧
      l.object.elf.sections[index]? = some tbss := by
  unfold Layout.movesTbss at moved
  split at moved
  · next both =>
    rw [Bool.and_eq_true, decide_eq_true_eq] at both
    obtain ⟨n, isBss, moved⟩ := Option.bind_eq_some_iff.mp moved
    obtain ⟨sec, isSection, same⟩ := Option.map_eq_some_iff.mp moved
    cases same
    exact ⟨both.1, both.2, isBss, isSection⟩
  · cases moved

theorem final_eq (l : Layout) (previous : Option Object) (i : ObjectIdentity) :
    l.final previous i = match l.movesTbss i with
      | some (index, tbss) =>
        { l with object := (l.object.adjustOffsets previous l.tlsSize index tbss).1 }
      | none => l := by
  unfold Layout.final Layout.movesTbss
  cases l.registers i with
  | false => rfl
  | true =>
    unfold Layout.tls
    cases isBss : l.tbss with
    | none => cases decide (l.tlsSize ≠ 0) <;> rfl
    | some index =>
      cases isSection : l.object.elf.sections[index]? with
      | none =>
        simp only [Option.bind_some, isSection]
        cases decide (l.tlsSize ≠ 0) <;> rfl
      | some tbss =>
        simp only [Option.bind_some, isSection]
        by_cases empty : l.tlsSize ≠ 0
        · rw [decide_eq_true empty]
          exact if_pos empty
        · rw [decide_eq_false empty]
          exact if_neg empty

/-- The object that `preload` leaves, but for its list of symbols. -/
theorem Layout.At.final_object {premapped : Bool} {previous : Option Object} {k : Nat}
    (built : l.At premapped previous o k) :
    ∃ symbols, (l.final previous i).object = { o.laidOut previous k with
      elf := { o.elf with
        sections := o.elf.sections.map fun linked =>
          linked.move (o.shift previous k linked + l.tbssShift i linked)
        symbolTable := o.elf.symbolTable.map fun sym =>
          l.tbssSymbol previous i o (o.movedSymbol previous k sym) }
      symbols := symbols } := by
  rw [final_eq]
  unfold Layout.tbssShift Layout.tbssSymbol
  cases l.movesTbss i with
  | none =>
    refine ⟨l.object.symbols, ?_⟩
    rw [built.object]
    rfl
  | some moved =>
    obtain ⟨index, tbss⟩ := moved
    refine ⟨(l.object.adjustOffsets previous l.tlsSize index tbss).1.symbols, ?_⟩
    have sections : ∀ linked : Section, (if (linked.move (o.shift previous k linked)).relocates index
        then (linked.move (o.shift previous k linked)).move l.tlsSize
        else linked.move (o.shift previous k linked)) =
          linked.move (o.shift previous k linked + if linked.relocates index then l.tlsSize else 0) := by
      intro linked
      rw [show (linked.move (o.shift previous k linked)).relocates index = linked.relocates index from rfl]
      cases linked.relocates index with
      | false => rfl
      | true =>
        unfold Section.move
        simp only [if_pos, List.map_map, Function.comp_def, Nat.add_assoc]
    have entries : ∀ sym, l.object.entryIn previous index tbss l.tlsSize sym =
        o.entryIn previous index tbss l.tlsSize sym := by
      intro sym
      rw [built.object]
      rfl
    have adjusted := @adjustOffsets_object previous l.object index l.tlsSize tbss
    dsimp only
    generalize (l.object.adjustOffsets previous l.tlsSize index tbss).1 = w at adjusted ⊢
    simp only [entries] at adjusted
    rw [built.object] at adjusted
    rw [hasSymbolTable_laidOut] at adjusted
    refine adjusted.trans ?_
    unfold Object.laidOut
    simp only [List.map_map, Function.comp_def, sections]

theorem tls_segments (l : Layout) (previous : Option Object) :
    (l.tls previous).2.segments = l.segments := by
  unfold Layout.tls
  dsimp only
  repeat' split
  all_goals rfl

theorem object_addTlsModule {file size align image imageSize : Nat} {u : Unit}
    (run : addTlsModule file size align image imageSize s = some (u, s')) :
    s'.object = s.object ∧ s'.memoryMap = s.memoryMap ∧
      ∃ m, s'.tls.modules = s.tls.modules ++ [m] ∧ m.object = file ∧ m.size = size := by
  obtain ⟨-, run⟩ := require_bind_inv run
  rw [bind_of_eq (get_apply s)] at run
  obtain ⟨_, s1, set, run⟩ := bind_inv run
  rw [modify_inv run, modify_inv set]
  refine ⟨funext fun r => ?_, rfl, ?_⟩
  swap
  · show ∃ m, (s.tls.addModule file size align image imageSize).2.2.modules = _ ∧ _
    unfold Tls.addModule
    split
    · exact ⟨_, rfl, rfl, rfl⟩
    · exact ⟨_, rfl, rfl, rfl⟩
  unfold Loader.object
  by_cases same : r.file = file
  · rw [same]
    show (Loader.identity (s.modifyIdentity file _) file).bind _ = _
    rw [Loader.identity_modifyIdentity_same (by intro; rfl)]
    cases s.identity file <;> rfl
  · show (Loader.identity (s.modifyIdentity file _) r.file).bind _ = _
    rw [Loader.identity_modifyIdentity_ne (by intro; rfl) same]

/-- A successful check for external symbols. -/
def Object.available (e : Env) (s : Loader) (o : Object) (i : ObjectIdentity)
    (previous : Option Object) : Option (List Symbol) :=
  if previous.isSome && !e.config.forceUpdate then o.missingSymbols e s i else some []

/-- What `preload` leaves: nothing has happened because symbols are missing, or the sections
are laid out. -/
theorem preloadRelocatable_inv (blank : o.Blank) (isObject : s.object r = some o)
    (identity : s.identity r.file = some i)
    (run : preloadRelocatable e r s = some (ok, s')) :
    (ok = false ∧ s' = s) ∨
      ∃ l : Layout, l.At i.flags.premapped (s.filePrevious r) o o.elf.sections.length ∧
        s'.object r = some ((l.final (s.filePrevious r) i).object.layoutOf o) ∧
        s'.memoryMap r.uid = l.segments ∧
        (l.registers i → ∃ m, s'.tls.modules = s.tls.modules ++ [m] ∧ m.object = r.file ∧
          m.size = (l.tls (s.filePrevious r)).1.1) := by
  unfold preloadRelocatable at run
  rw [bind_of_eq (get_apply s)] at run
  obtain ⟨o', found, run⟩ := getObject_bind_inv run
  cases isObject.symm.trans found
  obtain ⟨i', isIdentity, run⟩ := getIdentity_bind_inv run
  cases identity.symm.trans isIdentity
  obtain ⟨missing, -, run⟩ := orAbort_bind_inv run
  split at run
  · cases run
    exact Or.inl ⟨rfl, rfl⟩
  obtain ⟨l, laidOut, run⟩ := orAbort_bind_inv run
  obtain ⟨_, s1, written, run⟩ := bind_inv run
  obtain ⟨_, s2, mapped, run⟩ := bind_inv run
  obtain ⟨_, s3, registered, run⟩ := bind_inv run
  have last : s'.object = s2.object ∧ s'.memoryMap = s2.memoryMap ∧
      (l.registers i → ∃ m, s'.tls.modules = s2.tls.modules ++ [m] ∧ m.object = r.file ∧
        m.size = (l.tls (s.filePrevious r)).1.1) := by
    rw [(pure_inv run).2]
    unfold Exec.onlyIf at registered
    split at registered
    · obtain ⟨objects, maps, added⟩ := object_addTlsModule registered
      exact ⟨objects, maps, fun _ => added⟩
    · next without =>
      rw [(pure_inv registered).2]
      exact ⟨rfl, rfl, fun registers => absurd registers without⟩
  have modules : s2.tls = s.tls := by
    rw [modify_inv mapped, modify_inv written]
    rfl
  refine Or.inr ⟨l, layout_at blank le_rfl laidOut, ?_, ?_, modules ▸ last.2.2⟩
  · have same : s2.lookup = s1.lookup := by
      rw [modify_inv mapped]
      rfl
    rw [last.1, Loader.object_congr same, modify_inv written]
    exact Loader.object_modifyObject isObject fun _ => rfl
  · rw [last.2.1, modify_inv mapped]
    simp only [Loader.setMemoryMap, if_pos]
    split
    · exact tls_segments l _
    · rfl

end Preload

end Luci
