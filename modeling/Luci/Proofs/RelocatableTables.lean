import Luci.Proofs.TentativeDefinitions

/-!
# Symbol tables of relocatable objects

`preload` goes through the sections of a relocatable object and moves the symbols of each
loaded one: to the address the previous version has under the same name in its list of
symbols, or along with the section. `Object.Carries` says what these loops leave in the
symbol table and in the list, and that `preprepare` changes nothing about it.
-/

namespace Luci

open Exec

variable {c c' : Common} {sec : Section} {name : String} {elf elf' : Elf} {sym x y : Symbol}
  {index n own : Nat} {p : Section → Bool} {syms syms' : List Symbol}
  {noted prev : Symbol × ObjectRef} {sections sections' : List Section}
  {symbols : List (Symbol × ObjectRef)} {entries : List (Option (Symbol × ObjectRef))}

/-! ## A symbol of a section -/

/-- The symbol of the previous version whose address is taken over. -/
def Symbol.taken (previous : Option Object) (writeable : Bool) (sym : Symbol) :
    Option (Symbol × ObjectRef) :=
  (if writeable then previous else none).bind fun p =>
    (p.resolveInternalSymbol sym.name).filter fun entry =>
      entry.1.type = sym.type && entry.1.size = sym.size

/-- What is put on the list for a symbol. -/
def Symbol.entry (previous : Option Object) (writeable : Bool) (owner : ObjectRef) (offset : Nat)
    (sym : Symbol) : Option (Symbol × ObjectRef) :=
  (sym.taken previous writeable).or
    (if sym.type.moves then some ({ sym with value := sym.value + offset }, owner) else none)

/-- The symbol in the table has the value of the one on the list. -/
def Symbol.adjusted (entry : Option (Symbol × ObjectRef)) (sym : Symbol) : Symbol :=
  match entry with
  | some noted => { sym with value := noted.1.value }
  | none => sym

/-- Put a symbol on the list. -/
def insertEntry (symbols : List (Symbol × ObjectRef)) :
    Option (Symbol × ObjectRef) → List (Symbol × ObjectRef)
  | some noted => insertSymbol symbols noted.1 noted.2
  | none => symbols

/-- Same name, type and size. -/
structure Symbol.Matches (x y : Symbol) : Prop where
  name : x.name = y.name
  type : x.type = y.type
  size : x.size = y.size

section Symbols

variable {previous : Option Object} {writeable : Bool} {owner : ObjectRef} {offset : Nat}
  {sym x : Symbol} {symbols : List (Symbol × ObjectRef)} {noted : Symbol × ObjectRef}

theorem addSymbol_eq (a : Adjusted) :
    (a.addSymbol previous writeable owner offset sym).symbolTable =
        a.symbolTable ++ [sym.adjusted (sym.entry previous writeable owner offset)] ∧
      (a.addSymbol previous writeable owner offset sym).symbols =
        insertEntry a.symbols (sym.entry previous writeable owner offset) := by
  have reused : (if writeable then previous else none).bind (fun p =>
      (p.resolveInternalSymbol sym.name).filter fun entry =>
        entry.1.type = sym.type && entry.1.size = sym.size) = sym.taken previous writeable := rfl
  unfold Adjusted.addSymbol Symbol.entry
  simp only [reused]
  cases sym.taken previous writeable with
  | some prev => exact ⟨rfl, rfl⟩
  | none =>
    cases sym.type.moves with
    | true => exact ⟨rfl, rfl⟩
    | false => exact ⟨rfl, rfl⟩

theorem resolveInternalSymbol_inv {o : Object} (found : o.resolveInternalSymbol name = some noted) :
    noted ∈ o.symbols ∧ noted.1.name = name ∧ noted.1.undefined = false := by
  unfold Object.resolveInternalSymbol at found
  split at found
  · obtain ⟨first, defined⟩ := Option.filter_eq_some_iff.mp found
    refine ⟨List.mem_of_find?_eq_some first, ?_, by simpa using defined⟩
    simpa using List.find?_some first
  · cases found

/-- A symbol is only taken over by one of the same name, type and size. -/
theorem Symbol.taken_inv (taken : sym.taken previous writeable = some noted) :
    ∃ p, previous = some p ∧ noted ∈ p.symbols ∧ noted.1.undefined = false ∧
      sym.Matches noted.1 := by
  obtain ⟨p, isPrevious, found⟩ := Option.bind_eq_some_iff.mp taken
  obtain ⟨resolved, same⟩ := Option.filter_eq_some_iff.mp found
  obtain ⟨member, name, defined⟩ := resolveInternalSymbol_inv resolved
  simp only [Bool.and_eq_true, decide_eq_true_eq] at same
  refine ⟨p, ?_, member, defined, name.symm, same.1.symm, same.2.symm⟩
  cases writeable with
  | true => exact isPrevious
  | false => cases isPrevious

theorem Symbol.entry_inv (isEntry : sym.entry previous writeable owner offset = some noted)
    (placed : sym.undefined = false) : sym.Matches noted.1 ∧ noted.1.undefined = false := by
  rcases Option.or_eq_some_iff.mp isEntry with taken | ⟨-, moved⟩
  · obtain ⟨-, -, -, defined, same⟩ := taken_inv taken
    exact ⟨same, defined⟩
  · split at moved
    · cases moved
      exact ⟨⟨rfl, rfl, rfl⟩, placed⟩
    · cases moved

theorem mem_insertSymbol {owner : ObjectRef} (member : noted ∈ insertSymbol symbols sym owner) :
    noted ∈ symbols ∨ noted = (sym, owner) := by
  unfold insertSymbol at member
  split at member
  · exact .inl member
  · exact (List.mem_cons.mp member).symm

/-- The list has a symbol of this name. -/
def Noted (symbols : List (Symbol × ObjectRef)) (name : String) : Prop :=
  ∃ noted ∈ symbols, noted.1.name = name

theorem Noted.insertSymbol (isNoted : Noted symbols name) (noted : Symbol × ObjectRef) :
    Noted (insertSymbol symbols noted.1 noted.2) name := by
  obtain ⟨first, member, named⟩ := isNoted
  unfold Luci.insertSymbol
  split
  · exact ⟨first, member, named⟩
  · exact ⟨first, List.mem_cons_of_mem _ member, named⟩

theorem noted_insertSymbol (noted : Symbol × ObjectRef) :
    Noted (insertSymbol symbols noted.1 noted.2) noted.1.name := by
  unfold insertSymbol
  split
  · next found =>
    obtain ⟨first, member, named⟩ := List.any_eq_true.mp found
    exact ⟨first, member, of_decide_eq_true named⟩
  · exact ⟨noted, List.mem_cons_self, rfl⟩

/-- `HashSet::insert` keeps the element of the name. -/
theorem find?_insertSymbol (name : String) :
    (insertSymbol symbols noted.1 noted.2).find? (fun entry => entry.1.name = name) =
      (symbols.find? fun entry => entry.1.name = name).or
        (if noted.1.name = name then some noted else none) := by
  unfold insertSymbol
  by_cases same : noted.1.name = name
  · rw [if_pos same, ← same]
    split
    · next found =>
      obtain ⟨first, isFirst⟩ := Option.isSome_iff_exists.mp (List.find?_isSome.mpr
        (List.any_eq_true.mp found))
      rw [isFirst, Option.some_or]
    · next absent =>
      rw [List.find?_cons_of_pos (by simp), List.find?_eq_none.mpr, Option.none_or]
      exact fun entry member => fun named => absent (List.any_eq_true.mpr ⟨entry, member, named⟩)
  · rw [if_neg same, Option.or_none]
    split
    · rfl
    · exact List.find?_cons_of_neg (by simpa using same)

theorem noted_iff_find? :
    Noted symbols name ↔ ∃ entry, symbols.find? (fun entry => entry.1.name = name) = some entry := by
  rw [← Option.isSome_iff_exists]
  simp [Noted]

end Symbols

/-! ## The loop over the symbols -/

section AdjustSymbols

variable {previous : Option Object} {o : Object} {index offset : Nat} {sec : Section}

/-- The entry for a symbol, if it is one of the section. -/
def Object.entryIn (o : Object) (previous : Option Object) (index : Nat) (sec : Section)
    (offset : Nat) (sym : Symbol) : Option (Symbol × ObjectRef) :=
  if sym.sectionIndex = .index index then sym.entry previous sec.writeable o.ref offset else none

theorem foldl_addSymbol (syms : List Symbol) (a : Adjusted) :
    let a' := syms.foldl (fun (a : Adjusted) sym =>
      if sym.sectionIndex = .index index then
        a.addSymbol previous sec.writeable o.ref offset sym
      else { a with symbolTable := a.symbolTable ++ [sym] }) a
    a'.symbolTable = a.symbolTable ++
        syms.map (fun sym => sym.adjusted (o.entryIn previous index sec offset sym)) ∧
      a'.symbols = (syms.map (o.entryIn previous index sec offset)).foldl insertEntry a.symbols := by
  induction syms generalizing a with
  | nil => exact ⟨(List.append_nil _).symm, rfl⟩
  | cons sym syms ih =>
    simp only [List.foldl_cons, List.map_cons]
    obtain ⟨table, symbols⟩ := ih (if sym.sectionIndex = .index index then
      a.addSymbol previous sec.writeable o.ref offset sym
      else { a with symbolTable := a.symbolTable ++ [sym] })
    rw [table, symbols]
    by_cases here : sym.sectionIndex = .index index
    · rw [if_pos here, Object.entryIn, if_pos here, (addSymbol_eq a).1, (addSymbol_eq a).2,
        List.append_assoc]
      exact ⟨rfl, rfl⟩
    · rw [if_neg here, Object.entryIn, if_neg here, List.append_assoc]
      exact ⟨rfl, rfl⟩

theorem adjustSymbols_table :
    (o.adjustSymbols previous index sec offset).1.elf.symbolTable =
      o.elf.symbolTable.map fun sym => sym.adjusted (o.entryIn previous index sec offset sym) :=
  (foldl_addSymbol o.elf.symbolTable ⟨[], o.symbols, false⟩).1

theorem adjustSymbols_symbols :
    (o.adjustSymbols previous index sec offset).1.symbols =
      (o.elf.symbolTable.map (o.entryIn previous index sec offset)).foldl insertEntry o.symbols :=
  (foldl_addSymbol o.elf.symbolTable ⟨[], o.symbols, false⟩).2

theorem mem_foldl_insertEntry (member : noted ∈ entries.foldl insertEntry symbols) :
    noted ∈ symbols ∨ some noted ∈ entries := by
  induction entries generalizing symbols with
  | nil => exact .inl member
  | cons entry entries ih =>
    rcases ih member with before | later
    · cases entry with
      | none => exact .inl before
      | some first =>
        rcases mem_insertSymbol before with before | rfl
        · exact .inl before
        · exact .inr List.mem_cons_self
    · exact .inr (List.mem_cons_of_mem _ later)

theorem Noted.insertEntries (isNoted : Noted symbols name)
    (entries : List (Option (Symbol × ObjectRef))) :
    Noted (entries.foldl insertEntry symbols) name := by
  induction entries generalizing symbols with
  | nil => exact isNoted
  | cons entry entries ih =>
    cases entry with
    | none => exact ih isNoted
    | some first => exact ih (isNoted.insertSymbol first)

theorem noted_insertEntries (member : some noted ∈ entries) (symbols : List (Symbol × ObjectRef)) :
    Noted (entries.foldl insertEntry symbols) noted.1.name := by
  induction entries generalizing symbols with
  | nil => cases member
  | cons entry entries ih =>
    rcases List.mem_cons.mp member with rfl | later
    · exact (noted_insertSymbol noted).insertEntries entries
    · exact ih later _

end AdjustSymbols

/-! ## What a version carries on -/

/-- A section is writable. -/
def Elf.writeable (elf : Elf) (n : Nat) : Bool := (elf.sections[n]?).any Section.writeable

/-- The symbols on the list of an object are those of sections that have been `placed`, with the
address they have in the table, or have the name of a tentative definition; and symbols
of these sections have the address of the previous version if there is one to take over. -/
structure Object.Carries (previous : Option Object) (placed : Nat → Prop) (o : Object) : Prop where
  recorded : ∀ noted ∈ o.symbols, noted.1.undefined = false ∧
    ((∃ x ∈ o.elf.symbolTable, ∃ n, placed n ∧ x.sectionIndex = .index n ∧
        x.Matches noted.1 ∧ x.value = noted.1.value) ∨
      ∃ x ∈ o.elf.symbolTable, x.tentative = true ∧ x.name = noted.1.name)
  noted : ∀ x ∈ o.elf.symbolTable, ∀ n, placed n → x.sectionIndex = .index n →
    x.type.moves = true → Noted o.symbols x.name
  followed : ∀ x ∈ o.elf.symbolTable, ∀ n, placed n → x.sectionIndex = .index n →
    ∀ prev, x.taken previous (o.elf.writeable n) = some prev → x.value = prev.1.value

section Carries

variable {previous : Option Object} {placed : Nat → Prop} {o : Object} {index offset : Nat}
  {sec : Section}

theorem Symbol.adjusted_matches (entry : Option (Symbol × ObjectRef)) (sym : Symbol) :
    (sym.adjusted entry).Matches sym ∧ (sym.adjusted entry).sectionIndex = sym.sectionIndex := by
  cases entry with
  | none => exact ⟨⟨rfl, rfl, rfl⟩, rfl⟩
  | some noted => exact ⟨⟨rfl, rfl, rfl⟩, rfl⟩

theorem Symbol.Matches.taken_eq (same : x.Matches y) (writeable : Bool) :
    x.taken previous writeable = y.taken previous writeable := by
  unfold Symbol.taken
  rw [same.name, same.type, same.size]

theorem Symbol.Matches.symm (same : x.Matches y) : y.Matches x :=
  ⟨same.name.symm, same.type.symm, same.size.symm⟩

theorem Symbol.Matches.trans {x y z : Symbol} (first : x.Matches y) (second : y.Matches z) :
    x.Matches z :=
  ⟨first.name.trans second.name, first.type.trans second.type, first.size.trans second.size⟩

theorem Symbol.entry_of_taken {writeable : Bool} (owner : ObjectRef)
    (taken : sym.taken previous writeable = some prev) :
    sym.entry previous writeable owner offset = some prev := by
  rw [Symbol.entry, taken, Option.some_or]

theorem Symbol.entry_of_moves {writeable : Bool} (owner : ObjectRef)
    (moves : sym.type.moves) :
    ∃ noted, sym.entry previous writeable owner offset = some noted := by
  unfold Symbol.entry
  cases sym.taken previous writeable with
  | some prev => exact ⟨prev, rfl⟩
  | none => exact ⟨({ sym with value := sym.value + offset }, owner), by rw [if_pos moves]; rfl⟩

theorem Symbol.defined_of_index (inSection : sym.sectionIndex = .index n) :
    sym.undefined = false := by
  unfold Symbol.undefined
  rw [inSection]
  rfl

theorem Symbol.tentative_index (tentative : sym.tentative) (n : Nat) :
    sym.sectionIndex ≠ .index n := by
  simp only [Symbol.tentative, Bool.and_eq_true, decide_eq_true_eq] at tentative
  rw [tentative.2]
  intro isIndex
  cases isIndex

theorem mem_adjustSymbols_of_ne (member : x ∈ o.elf.symbolTable)
    (elsewhere : x.sectionIndex ≠ .index index) :
    x ∈ (o.adjustSymbols previous index sec offset).1.elf.symbolTable := by
  rw [adjustSymbols_table]
  refine List.mem_map.mpr ⟨x, member, ?_⟩
  rw [Object.entryIn, if_neg elsewhere]
  rfl

theorem mem_adjustSymbols
    (member : x ∈ (o.adjustSymbols previous index sec offset).1.elf.symbolTable) :
    (x ∈ o.elf.symbolTable ∧ x.sectionIndex ≠ .index index) ∨
      ∃ sym ∈ o.elf.symbolTable, sym.sectionIndex = .index index ∧
        x = sym.adjusted (sym.entry previous sec.writeable o.ref offset) := by
  rw [adjustSymbols_table] at member
  obtain ⟨sym, before, rfl⟩ := List.mem_map.mp member
  unfold Object.entryIn
  by_cases here : sym.sectionIndex = .index index
  · rw [if_pos here]
    exact .inr ⟨sym, before, here, rfl⟩
  · rw [if_neg here]
    exact .inl ⟨before, here⟩

theorem entry_mem_entries (member : sym ∈ o.elf.symbolTable)
    (here : sym.sectionIndex = .index index)
    (isEntry : sym.entry previous sec.writeable o.ref offset = some noted) :
    some noted ∈ o.elf.symbolTable.map (o.entryIn previous index sec offset) := by
  refine List.mem_map.mpr ⟨sym, member, ?_⟩
  rw [Object.entryIn, if_pos here, isEntry]

section Carries

variable (carries : o.Carries previous placed)

include carries

theorem adjustSymbols_recorded (fresh : ¬ placed index)
    (member : noted ∈ (o.adjustSymbols previous index sec offset).1.symbols) :
    noted.1.undefined = false ∧
      ((∃ x ∈ (o.adjustSymbols previous index sec offset).1.elf.symbolTable,
          ∃ n, (placed n ∨ n = index) ∧ x.sectionIndex = .index n ∧
            x.Matches noted.1 ∧ x.value = noted.1.value) ∨
        ∃ x ∈ (o.adjustSymbols previous index sec offset).1.elf.symbolTable,
          x.tentative ∧ x.name = noted.1.name) := by
  rw [adjustSymbols_symbols] at member
  rcases mem_foldl_insertEntry member with before | new
  · obtain ⟨defined, source⟩ := carries.recorded noted before
    refine ⟨defined, ?_⟩
    rcases source with ⟨x, inTable, n, isPlaced, inSection, same⟩ | ⟨x, inTable, tentative, name⟩
    · have elsewhere : x.sectionIndex ≠ .index index := by
        rw [inSection]
        rintro ⟨⟩
        exact fresh isPlaced
      exact .inl ⟨x, mem_adjustSymbols_of_ne inTable elsewhere, n, .inl isPlaced, inSection, same⟩
    · have elsewhere := Symbol.tentative_index tentative index
      exact .inr ⟨x, mem_adjustSymbols_of_ne inTable elsewhere, tentative, name⟩
  · obtain ⟨sym, inTable, isEntry⟩ := List.mem_map.mp new
    unfold Object.entryIn at isEntry
    split at isEntry
    · next here =>
      obtain ⟨same, defined⟩ := Symbol.entry_inv isEntry (Symbol.defined_of_index here)
      refine ⟨defined, .inl ⟨sym.adjusted (some noted), ?_, index, .inr rfl, here,
        ⟨same.name, same.type, same.size⟩, rfl⟩⟩
      rw [adjustSymbols_table]
      refine List.mem_map.mpr ⟨sym, inTable, ?_⟩
      rw [Object.entryIn, if_pos here, isEntry]
    · cases isEntry

theorem adjustSymbols_noted
    (member : x ∈ (o.adjustSymbols previous index sec offset).1.elf.symbolTable)
    (isPlaced : placed n ∨ n = index) (inSection : x.sectionIndex = .index n)
    (moves : x.type.moves) :
    Noted (o.adjustSymbols previous index sec offset).1.symbols x.name := by
  rw [adjustSymbols_symbols]
  rcases mem_adjustSymbols member with ⟨before, elsewhere⟩ | ⟨sym, before, here, rfl⟩
  · have old : placed n := isPlaced.resolve_right fun same => elsewhere (same ▸ inSection)
    exact (carries.noted x before n old inSection moves).insertEntries _
  · obtain ⟨same, -⟩ := sym.adjusted_matches (sym.entry previous sec.writeable o.ref offset)
    rw [same.type] at moves
    obtain ⟨noted, isEntry⟩ : ∃ noted, sym.entry previous sec.writeable o.ref offset = some noted :=
      Symbol.entry_of_moves o.ref moves
    have isNoted := noted_insertEntries (entry_mem_entries before here isEntry) o.symbols
    rw [same.name, (Symbol.entry_inv isEntry (Symbol.defined_of_index here)).1.name]
    exact isNoted

theorem adjustSymbols_followed (writeable : o.elf.writeable index = sec.writeable)
    (member : x ∈ (o.adjustSymbols previous index sec offset).1.elf.symbolTable)
    (isPlaced : placed n ∨ n = index) (inSection : x.sectionIndex = .index n)
    (taken : x.taken previous (o.elf.writeable n) = some prev) :
    x.value = prev.1.value := by
  rcases mem_adjustSymbols member with ⟨before, elsewhere⟩ | ⟨sym, before, here, rfl⟩
  · have old : placed n := isPlaced.resolve_right fun same => elsewhere (same ▸ inSection)
    exact carries.followed x before n old inSection prev taken
  · obtain ⟨same, sameSection⟩ :=
      sym.adjusted_matches (sym.entry previous sec.writeable o.ref offset)
    rw [sameSection, here] at inSection
    cases inSection
    rw [same.taken_eq, writeable] at taken
    rw [Symbol.entry_of_taken o.ref taken]
    rfl

theorem Object.Carries.adjustSymbols (fresh : ¬ placed index)
    (writeable : o.elf.writeable index = sec.writeable) :
    (o.adjustSymbols previous index sec offset).1.Carries previous
      (fun n => placed n ∨ n = index) where
  recorded _ member := adjustSymbols_recorded carries fresh member
  noted _ member _ isPlaced := adjustSymbols_noted carries member isPlaced
  followed _ member _ isPlaced inSection _ taken :=
    adjustSymbols_followed carries writeable member isPlaced inSection taken

end Carries

end Carries

/-! ## The loop over the sections -/

/-- A section without the offsets of its relocations, which `adjust_offsets` moves. -/
def Section.bare (sec : Section) : Section := { sec with relocations := [] }

/-- A section whose symbols `preload` adjusts. -/
def Section.placed (sec : Section) : Bool :=
  sec.size ≠ 0 && !(sec.tls && sec.allocate) && sec.type.loads && sec.allocate

/-- The file has a symbol table. -/
def Elf.hasSymbolTable (elf : Elf) : Bool :=
  elf.sections.any fun linked => linked.size ≠ 0 && linked.type = .symtab

/-- One of the first `k` sections, and placed. -/
def Elf.PlacedBefore (elf : Elf) (k n : Nat) : Prop :=
  n < k ∧ (elf.sections[n]?).any Section.placed = true

/-- Nothing has changed that an update looks at. -/
structure Object.SameTables (o o' : Object) : Prop where
  ref : o'.ref = o.ref
  kind : o'.kind = o.kind
  base : o'.base = o.base
  sections : o'.elf.sections.map Section.bare = o.elf.sections.map Section.bare
  symbolTable : o'.elf.symbolTable = o.elf.symbolTable
  symbols : o'.symbols = o.symbols

/-- What is never rewritten of a file: its header, and the bytes as they were read. -/
def Elf.stored (elf : Elf) : Header × (Nat → UInt8) := (elf.header, elf.bytes)

/-- What is stored in the file is the same as well. -/
structure Object.SameFile (o o' : Object) : Prop extends Object.SameTables o o' where
  stored : o'.elf.stored = o.elf.stored

section Sections

variable {previous : Option Object} {placed placed' : Nat → Prop} {o o' o'' : Object}
  {premapped : Bool} {l l' : Layout} {k : Nat}

theorem Object.SameFile.refl (o : Object) : o.SameFile o := ⟨⟨rfl, rfl, rfl, rfl, rfl, rfl⟩, rfl⟩

theorem Object.SameFile.trans (first : o.SameFile o') (second : o'.SameFile o'') :
    o.SameFile o'' where
  ref := second.ref.trans first.ref
  kind := second.kind.trans first.kind
  base := second.base.trans first.base
  sections := second.sections.trans first.sections
  symbolTable := second.symbolTable.trans first.symbolTable
  symbols := second.symbols.trans first.symbols
  stored := second.stored.trans first.stored

/-- A property of sections that has nothing to do with relocations. -/
theorem any_of_bare (bare : ∀ sec, p sec = p sec.bare)
    (same : sections'.map Section.bare = sections.map Section.bare) (n : Nat) :
    (sections'[n]?).any p = (sections[n]?).any p := by
  have each : ∀ l : List Section, (l[n]?).any p = ((l.map Section.bare)[n]?).any p := by
    intro l
    rw [List.getElem?_map]
    cases l[n]? with
    | none => rfl
    | some sec => exact bare sec
  rw [each sections', each sections, same]

theorem writeable_of_bare (same : elf'.sections.map Section.bare = elf.sections.map Section.bare)
    (n : Nat) :
    elf'.writeable n = elf.writeable n :=
  any_of_bare (fun _ => rfl) same n

theorem hasSymbolTable_of_bare
    (same : elf'.sections.map Section.bare = elf.sections.map Section.bare) :
    elf'.hasSymbolTable = elf.hasSymbolTable := by
  have each : ∀ elf : Elf, elf.hasSymbolTable =
      (elf.sections.map Section.bare).any fun linked => linked.size ≠ 0 && linked.type = .symtab := by
    intro elf
    rw [List.any_map]
    rfl
  rw [each elf', each elf, same]

theorem Object.Carries.congr (carries : o.Carries previous placed) (same : o.SameTables o')
    (iff : ∀ n, placed' n ↔ placed n) : o'.Carries previous placed' where
  recorded := by
    rw [same.symbols, same.symbolTable]
    simp only [iff]
    exact carries.recorded
  noted := by
    rw [same.symbols, same.symbolTable]
    simp only [iff]
    exact carries.noted
  followed := by
    rw [same.symbolTable]
    simp only [iff, writeable_of_bare same.sections]
    exact carries.followed

theorem bare_relocations (sections : List Section) (index offset : Nat) :
    (sections.map fun linked => if linked.relocates index then
      { linked with relocations := linked.relocations.map fun r =>
          { r with offset := r.offset + offset } }
      else linked).map Section.bare = sections.map Section.bare := by
  rw [List.map_map]
  apply List.map_congr_left
  intro linked _
  rw [Function.comp_apply]
  split
  · rfl
  · rfl

theorem adjustOffsets_tables (previous : Option Object) (offset index : Nat) (sec : Section)
    (hasTable : o.elf.hasSymbolTable) :
    (o.adjustSymbols previous index sec offset).1.SameFile
      (o.adjustOffsets previous offset index sec).1 := by
  unfold Object.adjustOffsets
  rw [
    show (o.elf.sections.any fun linked => linked.size ≠ 0 && linked.type = .symtab) = true from hasTable]
  exact ⟨⟨rfl, rfl, rfl, bare_relocations _ index offset, rfl, rfl⟩, rfl⟩

/-- Objects differing in members the tables do not depend on. -/
theorem emplace_tables {additionalSize : Nat}
    (run : l.emplace premapped sec additionalSize = some l') :
    l.object.SameFile l'.object ∧ l'.tbss = l.tbss := by
  obtain ⟨seg, -, placed⟩ := Option.bind_eq_some_iff.mp run
  have isPlaced := Option.some.inj placed
  generalize seg.pageSize = size at isPlaced
  subst isPlaced
  exact ⟨⟨⟨rfl, rfl, rfl, rfl, rfl, rfl⟩, rfl⟩, rfl⟩

/-- The object with a section noted as initialisation or unwind section. -/
def Layout.noting (l : Layout) (previous : Option Object) (k : Nat) (sec : Section) : Object :=
  { l.object with
    initSections := if previous.isNone && sec.isInitFini then l.object.initSections ++ [k]
      else l.object.initSections
    ehSection := if sec.type = .progbits && sec.name = ".eh_frame" then some k
      else l.object.ehSection }

/-- An allocated section is adjusted, and emplaced unless all its data is taken over. -/
theorem addAllocated_eq : l.addAllocated premapped previous k sec =
    if previous.isNone ||
        ((l.noting previous k sec).adjustOffsets previous l.object.offset k sec).2 ||
        !sec.writeable then
      Layout.emplace { l with
        object := ((l.noting previous k sec).adjustOffsets previous l.object.offset k sec).1 }
        premapped sec ((if previous.isNone && sec.isInitFini then 1 else 0) +
          if sec.type = .progbits && sec.name = ".eh_frame" then ehFrameSpace else 0)
    else some { l with
      object := ((l.noting previous k sec).adjustOffsets previous l.object.offset k sec).1 } := rfl

theorem addAllocated_inv (run : l.addAllocated premapped previous k sec = some l') :
    ∃ o offset, l.object.SameFile o ∧
      (o.adjustOffsets previous offset k sec).1.SameFile l'.object ∧ l'.tbss = l.tbss := by
  refine ⟨l.noting previous k sec, l.object.offset, ⟨⟨rfl, rfl, rfl, rfl, rfl, rfl⟩, rfl⟩, ?_⟩
  rw [addAllocated_eq] at run
  split at run
  · exact emplace_tables run
  · cases run
    exact ⟨Object.SameFile.refl _, rfl⟩

/-- A section is either placed, or it leaves the tables alone. -/
theorem addSection_inv (run : Layout.addSection premapped previous l k = some l') :
    ∃ sec, l.object.elf.sections[k]? = some sec ∧
      ((sec.placed = false ∧ l.object.SameFile l'.object ∧
          (l'.tbss = l.tbss ∨ l'.tbss = some k)) ∨
        (sec.placed ∧ l'.tbss = l.tbss ∧ ∃ o offset, l.object.SameFile o ∧
          (o.adjustOffsets previous offset k sec).1.SameFile l'.object)) := by
  obtain ⟨sec, isSection, run⟩ := Option.bind_eq_some_iff.mp run
  refine ⟨sec, isSection, ?_⟩
  have noted : l.object.SameFile { l.object with
      offsetSections := l.object.offsetSections ++ [l.object.offset] } :=
    ⟨⟨rfl, rfl, rfl, rfl, rfl, rfl⟩, rfl⟩
  unfold Section.placed
  by_cases empty : sec.size = 0
  · rw [if_pos empty] at run
    cases run
    exact .inl ⟨by simp [empty], noted, .inl rfl⟩
  rw [if_neg empty] at run
  by_cases tls : (sec.tls && sec.allocate)
  · rw [if_pos tls] at run
    refine .inl ⟨by simp [tls], ?_⟩
    split at run
    · cases run
      exact ⟨noted, .inr rfl⟩
    · obtain ⟨same, tbss⟩ := emplace_tables run
      exact ⟨noted.trans same, .inl tbss⟩
  rw [if_neg tls] at run
  by_cases loads : sec.type.loads
  · rw [if_pos loads] at run
    by_cases allocate : sec.allocate
    · rw [if_pos allocate] at run
      obtain ⟨o, offset, before, after, tbss⟩ := addAllocated_inv run
      exact .inr ⟨by simp_all, tbss, o, offset, noted.trans before, after⟩
    · rw [if_neg allocate] at run
      cases run
      exact .inl ⟨by simp [allocate], noted, .inl rfl⟩
  · rw [if_neg loads] at run
    refine .inl ⟨by simp [loads], ?_⟩
    repeat' split at run
    all_goals
      cases run
      exact ⟨⟨⟨rfl, rfl, rfl, rfl, rfl, rfl⟩, rfl⟩, .inl rfl⟩

/-- Nothing has changed but tables and sections. -/
structure Object.SameHead (o o' : Object) : Prop where
  ref : o'.ref = o.ref
  kind : o'.kind = o.kind
  base : o'.base = o.base
  sections : o'.elf.sections.map Section.bare = o.elf.sections.map Section.bare
  stored : o'.elf.stored = o.elf.stored

theorem Object.SameFile.head (same : o.SameFile o') : o.SameHead o' :=
  ⟨same.ref, same.kind, same.base, same.sections, same.stored⟩

theorem Object.SameHead.trans (first : o.SameHead o') (second : o'.SameHead o'') :
    o.SameHead o'' where
  ref := second.ref.trans first.ref
  kind := second.kind.trans first.kind
  base := second.base.trans first.base
  sections := second.sections.trans first.sections
  stored := second.stored.trans first.stored

theorem adjustOffsets_head (offset index : Nat) (sec : Section) :
    o.SameHead (o.adjustOffsets previous offset index sec).1 := by
  cases hasTable : o.elf.hasSymbolTable with
  | true =>
    have tables := adjustOffsets_tables previous offset index sec hasTable
    exact ⟨tables.ref, tables.kind, tables.base, tables.sections, tables.stored⟩
  | false =>
    unfold Object.adjustOffsets
    rw [
      show (o.elf.sections.any fun linked => linked.size ≠ 0 && linked.type = .symtab) = false from hasTable]
    exact ⟨rfl, rfl, rfl, bare_relocations _ index offset, rfl⟩

theorem Object.Carries.adjustOffsets {index offset : Nat} (carries : o.Carries previous placed)
    (hasTable : o.elf.hasSymbolTable) (fresh : ¬ placed index)
    (writeable : o.elf.writeable index = sec.writeable) :
    (o.adjustOffsets previous offset index sec).1.Carries previous
      (fun n => placed n ∨ n = index) :=
  (carries.adjustSymbols fresh writeable).congr
    (adjustOffsets_tables previous offset index sec hasTable).toSameTables fun _ => Iff.rfl

/-- The layout of an object after the first `k` sections. -/
structure Layout.Carried (previous : Option Object) (o : Object) (k : Nat) (l : Layout) : Prop where
  head : o.SameHead l.object
  carries : o.elf.hasSymbolTable = true → l.object.Carries previous (o.elf.PlacedBefore k)
  tbss : ∀ n, l.tbss = some n → (o.elf.sections[n]?).any Section.placed = false

theorem placed_of_bare (same : sections'.map Section.bare = sections.map Section.bare)
    (found : sections'[n]? = some sec) :
    (sections[n]?).any Section.placed = sec.placed := by
  rw [← any_of_bare (fun _ => rfl) same, found]
  rfl

theorem placedBefore_succ :
    elf.PlacedBefore (k + 1) n ↔
      elf.PlacedBefore k n ∨ (n = k ∧ (elf.sections[k]?).any Section.placed) := by
  constructor
  · rintro ⟨below, isPlaced⟩
    by_cases last : n = k
    · subst last
      exact .inr ⟨rfl, isPlaced⟩
    · exact .inl ⟨by omega, isPlaced⟩
  · rintro (⟨below, isPlaced⟩ | ⟨rfl, isPlaced⟩)
    · exact ⟨by omega, isPlaced⟩
    · exact ⟨by omega, isPlaced⟩

theorem Layout.Carried.step (carried : l.Carried previous o k)
    (run : Layout.addSection premapped previous l k = some l') : l'.Carried previous o (k + 1) := by
  obtain ⟨sec, isSection, outcome⟩ := addSection_inv run
  have placedHere := placed_of_bare carried.head.sections isSection
  rcases outcome with ⟨unplaced, same, tbss⟩ | ⟨isPlaced, tbss, o1, offset, before, after⟩
  · refine ⟨carried.head.trans same.head, fun hasTable => ?_, ?_⟩
    · refine (carried.carries hasTable).congr same.toSameTables fun n => ?_
      rw [placedBefore_succ, placedHere, unplaced]
      simp
    · intro n isTbss
      rcases tbss with kept | set
      · exact carried.tbss n (kept ▸ isTbss)
      · rw [set] at isTbss
        cases isTbss
        rw [placedHere, unplaced]
  · have head1 := carried.head.trans before.head
    refine ⟨(head1.trans (adjustOffsets_head offset k sec)).trans after.head, ?_, ?_⟩
    · intro hasTable
      have fresh : ¬ o.elf.PlacedBefore k k := fun ⟨below, _⟩ => Nat.lt_irrefl k below
      have hasTable1 : o1.elf.hasSymbolTable :=
        (hasSymbolTable_of_bare head1.sections).trans hasTable
      have carries1 := (carried.carries hasTable).congr before.toSameTables fun _ => Iff.rfl
      have writeable1 : o1.elf.writeable k = sec.writeable := by
        rw [writeable_of_bare before.sections, Elf.writeable, isSection]
        rfl
      refine (carries1.adjustOffsets hasTable1 fresh writeable1).congr after.toSameTables fun n => ?_
      rw [placedBefore_succ, placedHere, isPlaced]
      simp
    · intro n isTbss
      exact carried.tbss n (tbss ▸ isTbss)

/-- A version whose tables continue those of the previous one: every section that is loaded has
been placed. -/
def Object.Continues (previous : Option Object) (o : Object) : Prop :=
  o.elf.hasSymbolTable = true →
    ∃ placed, (∀ n, (o.elf.sections[n]?).any Section.placed = true → placed n) ∧
      o.Carries previous placed

theorem Object.Continues.congr (continues : o.Continues previous) (same : o.SameTables o') :
    o'.Continues previous := by
  intro hasTable
  rw [hasSymbolTable_of_bare same.sections] at hasTable
  obtain ⟨placed, all, carries⟩ := continues hasTable
  refine ⟨placed, fun n isPlaced => all n ?_, carries.congr same fun _ => Iff.rfl⟩
  rwa [any_of_bare (fun _ => rfl) same.sections] at isPlaced

theorem lt_length_of_any (holds : (sections[n]?).any p) : n < sections.length := by
  by_contra beyond
  rw [List.getElem?_eq_none (Nat.le_of_not_lt beyond)] at holds
  cases holds

theorem Layout.Carried.start (empty : o.symbols = []) : Layout.Carried previous o 0 ⟨o, [], none, none⟩ where
  head := (Object.SameFile.refl o).head
  carries _ :=
    { recorded := by
        rw [empty]
        nofun
      noted := fun _ _ _ ⟨below, _⟩ => absurd below (Nat.not_lt_zero _)
      followed := fun _ _ _ ⟨below, _⟩ => absurd below (Nat.not_lt_zero _) }
  tbss := nofun

/-- The loop over all sections. -/
theorem Layout.Carried.loop (empty : o.symbols = [])
    (run : (List.range o.elf.sections.length).foldlM (Layout.addSection premapped previous)
      ⟨o, [], none, none⟩ = some l) : l.Carried previous o o.elf.sections.length :=
  foldlM_range (P := fun k l => Layout.Carried previous o k l)
    (fun _ _ _ carried step => carried.step step) (Layout.Carried.start empty) run

section Carried

variable (carried : l.Carried previous o o.elf.sections.length)

include carried

theorem Layout.Carried.continues : l.object.Continues previous := by
  intro hasTable
  rw [hasSymbolTable_of_bare carried.head.sections] at hasTable
  refine ⟨_, fun n isPlaced => ?_, carried.carries hasTable⟩
  rw [any_of_bare (fun _ => rfl) carried.head.sections] at isPlaced
  exact ⟨lt_length_of_any isPlaced, isPlaced⟩

/-- The symbols of `.tbss` are moved last. -/
theorem Layout.Carried.adjustTbss {tbss : Section} (offset : Nat) (isIndex : l.tbss = some index)
    (isSection : l.object.elf.sections[index]? = some tbss) :
    o.SameHead (l.object.adjustOffsets previous offset index tbss).1 ∧
      (l.object.adjustOffsets previous offset index tbss).1.Continues previous := by
  have head : o.SameHead (l.object.adjustOffsets previous offset index tbss).1 :=
    carried.head.trans (adjustOffsets_head offset index tbss)
  refine ⟨head, fun hasTable => ?_⟩
  rw [hasSymbolTable_of_bare head.sections] at hasTable
  have writeable : l.object.elf.writeable index = tbss.writeable := by
    rw [Elf.writeable, isSection]
    rfl
  have fresh : ¬ o.elf.PlacedBefore o.elf.sections.length index := by
    rintro ⟨-, isPlaced⟩
    rw [carried.tbss index isIndex] at isPlaced
    cases isPlaced
  refine ⟨_, fun n isPlaced => .inl ?_, (carried.carries hasTable).adjustOffsets
    ((hasSymbolTable_of_bare carried.head.sections).trans hasTable) fresh writeable⟩
  rw [any_of_bare (fun _ => rfl) head.sections] at isPlaced
  exact ⟨lt_length_of_any isPlaced, isPlaced⟩

theorem Layout.Carried.tls :
    o.SameHead (l.tls previous).2.object ∧ (l.tls previous).2.object.Continues previous := by
  unfold Layout.tls
  dsimp only
  split
  · next index tbss isIndex isSection =>
    rw [isIndex] at isSection
    split
    · exact carried.adjustTbss _ isIndex isSection
    · exact ⟨carried.head, carried.continues⟩
  · exact ⟨carried.head, carried.continues⟩

end Carried

end Sections

/-! ## Preloading and preparing -/

section Runs

variable {e : Env} {file : Nat} {o : Object} {previous : Option Object} {s s' : Loader}

theorem current_addTlsModule {size align image imageSize : Nat} {u : Unit}
    (run : addTlsModule file size align image imageSize s = some (u, s')) :
    s'.current = s.current := by
  obtain ⟨-, run⟩ := require_bind_inv run
  rw [bind_of_eq (get_apply s)] at run
  obtain ⟨_, s1, set, run⟩ := bind_inv run
  have same : s'.lookup = s1.lookup := by rw [modify_inv run]
  funext j
  rw [Loader.current_congr same, modify_inv set]
  exact Loader.current_modifyIdentity (fun _ => rfl) fun _ => rfl

theorem layoutOf_tables {layout : Object} (head : o.SameHead layout) :
    layout.SameFile (layout.layoutOf o) :=
  ⟨⟨head.ref.symm, head.kind.symm, head.base.symm, rfl, rfl, rfl⟩, rfl⟩

/-- A version that has been preloaded continues its predecessor. -/
theorem preloadRelocatable_current (isCurrent : s.current file = some o) (own : o.file = file)
    (empty : o.symbols = []) (run : preloadRelocatable e o.ref s = some (true, s')) :
    ∃ v, s'.current file = some v ∧ o.SameHead v ∧ v.Continues (s.filePrevious o.ref) := by
  unfold preloadRelocatable at run
  rw [bind_of_eq (get_apply s)] at run
  obtain ⟨o', found, run⟩ := getObject_bind_inv run
  cases (Loader.object_of_current isCurrent own).symm.trans found
  obtain ⟨i, -, run⟩ := getIdentity_bind_inv run
  dsimp only at run
  obtain ⟨missing, -, run⟩ := orAbort_bind_inv run
  split at run
  · cases run
  obtain ⟨l, laidOut, run⟩ := orAbort_bind_inv run
  generalize hold : (if ((l.tdata.isSome || l.tbss.isSome) && decide (i.tlsModuleId = 0)) = true then
    (l.tls (s.filePrevious o.ref)).2 else l) = l' at run
  obtain ⟨_, s1, written, run⟩ := bind_inv run
  obtain ⟨_, s2, mapped, run⟩ := bind_inv run
  obtain ⟨_, s3, registered, run⟩ := bind_inv run
  have carried := Layout.Carried.loop empty laidOut
  have laid : o.SameHead l'.object ∧ l'.object.Continues (s.filePrevious o.ref) := by
    rw [← hold]
    split
    · exact carried.tls
    · exact ⟨carried.head, carried.continues⟩
  have last : s'.current = s2.current := by
    rw [(pure_inv run).2]
    unfold Exec.onlyIf at registered
    split at registered
    · exact current_addTlsModule registered
    · rw [(pure_inv registered).2]
  have sameLookup : s2.lookup = s1.lookup := by
    rw [modify_inv mapped]
    rfl
  have isCurrent' : s'.current file = some (l'.object.layoutOf o) := by
    rw [last, Loader.current_congr sameLookup, modify_inv written]
    exact Loader.current_modifyObject isCurrent own
  have tables := layoutOf_tables laid.1
  exact ⟨_, isCurrent', laid.1.trans tables.head, laid.2.congr tables.toSameTables⟩

/-! ### Tentative definitions -/

/-- A definition has the name, type and size of the tentative one. -/
theorem definition_matches {entry : Symbol × ObjectRef} {file : ObjectIdentity}
    (found : file.definition own symbols sym = some entry) :
    sym.Matches entry.1 ∧ entry.1.undefined = false := by
  obtain ⟨current, -, found⟩ := Option.bind_eq_some_iff.mp found
  obtain ⟨resolved, same⟩ := Option.filter_eq_some_iff.mp found
  obtain ⟨-, name, defined⟩ := resolveInternalSymbol_inv resolved
  rw [Bool.and_eq_true, decide_eq_true_iff, decide_eq_true_iff] at same
  exact ⟨⟨name.symm, same.1.symm, same.2.symm⟩, defined⟩

theorem Loader.binding_inv {file : ObjectIdentity} {entry : Symbol × ObjectRef}
    (bound : s.binding own symbols sym = some (file, entry)) :
    file.definition own symbols sym = some entry ∧ file ∈ s.lookup := by
  obtain ⟨file', member, found⟩ := List.exists_of_findSome?_eq_some bound
  obtain ⟨entry', isEntry, same⟩ := Option.map_eq_some_iff.mp found
  cases same
  exact ⟨isEntry, member⟩

/-- The tables in the loop of `preprepare`: only tentative definitions have changed. -/
structure Common.Extends (symbols : List (Symbol × ObjectRef)) (syms : List Symbol) (c : Common) :
    Prop where
  table : List.Forall₂ (fun x y => y = { x with value := y.value } ∧
    (x.tentative = false → y = x)) syms c.symbolTable
  recorded : ∀ noted ∈ c.symbols, noted ∈ symbols ∨
    (noted.1.undefined = false ∧ ∃ x ∈ syms, x.tentative = true ∧ x.Matches noted.1)
  kept : ∀ name noted, symbols.find? (fun entry => entry.1.name = name) = some noted →
    c.symbols.find? (fun entry => entry.1.name = name) = some noted

theorem Common.Extends.start (symbols : List (Symbol × ObjectRef)) :
    Common.Extends symbols [] ⟨[], symbols, 0, 0⟩ :=
  ⟨.nil, fun _ member => .inl member, fun _ _ isFirst => isFirst⟩

/-- A tentative definition is put on the list under its name. -/
theorem prepareCommon_entry (tentative : sym.tentative)
    (run : prepareCommon e o c sym s = some (c', s')) :
    ∃ (placed : Symbol) (noted : Symbol × ObjectRef),
      c'.symbolTable = c.symbolTable ++ [placed] ∧ placed = { sym with value := placed.value } ∧
      c'.symbols = insertSymbol c.symbols noted.1 noted.2 ∧
      sym.Matches noted.1 ∧ noted.1.undefined = false := by
  obtain ⟨found, placed, searched, table, outcome⟩ := prepareCommon_tentative tentative run
  cases found with
  | some entry =>
    obtain ⟨rfl, symbols, -, -⟩ := outcome
    obtain ⟨⟨file, initSym, owner⟩, bound, same⟩ :=
      Option.map_eq_some_iff.mp (findCommon_eq searched).symm
    cases same
    exact ⟨_, (initSym, owner), table, rfl, symbols, definition_matches (Loader.binding_inv bound).1⟩
  | none =>
    obtain ⟨-, -, rfl, symbols⟩ := outcome
    refine ⟨_, (_, o.ref), table, rfl, symbols, ⟨rfl, rfl, rfl⟩, ?_⟩
    simp only [Symbol.tentative, Bool.and_eq_true, decide_eq_true_eq] at tentative
    simp only [tentative.2]
    rfl

theorem Common.Extends.step (before : c.Extends symbols syms)
    (run : prepareCommon e o c sym s = some (c', s')) : c'.Extends symbols (syms ++ [sym]) := by
  have older : ∀ noted ∈ c.symbols, noted ∈ symbols ∨ (noted.1.undefined = false ∧
      ∃ x ∈ syms ++ [sym], x.tentative ∧ x.Matches noted.1) := by
    intro noted member
    rcases before.recorded noted member with old | ⟨defined, x, inTable, named⟩
    · exact .inl old
    · exact .inr ⟨defined, x, List.mem_append_left _ inTable, named⟩
  cases tentative : sym.tentative with
  | false =>
    obtain ⟨rfl, -⟩ := prepareCommon_other tentative run
    exact ⟨List.rel_append before.table (.cons ⟨rfl, fun _ => rfl⟩ .nil), older, before.kept⟩
  | true =>
    obtain ⟨placed, noted, table, value, list, same, defined⟩ := prepareCommon_entry tentative run
    refine ⟨?_, ?_, ?_⟩
    · rw [table]
      refine List.rel_append before.table (.cons ⟨value, fun other => ?_⟩ .nil)
      rw [tentative] at other
      cases other
    · rw [list]
      intro noted' member
      rcases mem_insertSymbol member with old | rfl
      · exact older noted' old
      · exact .inr ⟨defined, sym, by simp, tentative, same⟩
    · rw [list]
      intro name first isFirst
      rw [find?_insertSymbol, before.kept name first isFirst, Option.some_or]

theorem Common.Extends.loop {rest : List Symbol} :
    ∀ {syms : List Symbol} {s : Loader}, c.Extends symbols syms →
      rest.foldlM (prepareCommon e o) c s = some (c', s') → c'.Extends symbols (syms ++ rest) := by
  induction rest generalizing c with
  | nil =>
    intro syms s before run
    obtain ⟨rfl, -⟩ := pure_inv run
    rwa [List.append_nil]
  | cons sym rest ih =>
    intro syms s before run
    obtain ⟨c1, s1, first, run⟩ := bind_inv run
    have whole := ih (before.step first) run
    rwa [List.append_assoc] at whole

/-- Tables that differ in the values of tentative definitions have the same other symbols. -/
theorem mem_iff_of_plain (same : List.Forall₂ (fun x y : Symbol => y = { x with value := y.value } ∧
      (x.tentative = false → y = x)) syms syms') (plain : x.tentative = false) :
    x ∈ syms' ↔ x ∈ syms := by
  induction same with
  | nil => exact Iff.rfl
  | @cons y y' ys ys' here _ ih =>
    rw [List.mem_cons, List.mem_cons, ih]
    refine or_congr ⟨?_, ?_⟩ Iff.rfl
    · rintro rfl
      -- only the value may differ
      refine here.2 ?_
      rw [here.1] at plain
      exact plain
    · rintro rfl
      exact (here.2 plain).symm

theorem tentative_of_tables
    (same : List.Forall₂ (fun x y : Symbol => y = { x with value := y.value } ∧
      (x.tentative = false → y = x)) syms syms') (member : x ∈ syms)
    (tentative : x.tentative) : ∃ y ∈ syms', y.tentative ∧ y.name = x.name := by
  induction same with
  | nil => cases member
  | @cons y y' ys ys' here _ ih =>
    rcases List.mem_cons.mp member with rfl | later
    · refine ⟨y', List.mem_cons_self, ?_, by rw [here.1]⟩
      rw [here.1]
      exact tentative
    · obtain ⟨z, inTable, found⟩ := ih later
      exact ⟨z, List.mem_cons_of_mem _ inTable, found⟩

theorem Symbol.plain_of_index (inSection : x.sectionIndex = .index n) : x.tentative = false := by
  unfold Symbol.tentative
  rw [inSection]
  simp

/-- `preprepare` leaves the symbols of sections alone. -/
theorem Object.Carries.preprepare {placed : Nat → Prop} (carries : o.Carries previous placed)
    (whole : c.Extends o.symbols o.elf.symbolTable) : (c.written o).Carries previous placed where
  recorded := by
    intro noted member
    rcases whole.recorded noted member with old | ⟨defined, x, inTable, tentative, same⟩
    · obtain ⟨defined, source⟩ := carries.recorded noted old
      refine ⟨defined, ?_⟩
      rcases source with ⟨x, inTable, n, isPlaced, inSection, same⟩ | ⟨x, inTable, tentative, name⟩
      · exact .inl ⟨x, (mem_iff_of_plain whole.table (Symbol.plain_of_index inSection)).mpr inTable,
          n, isPlaced, inSection, same⟩
      · obtain ⟨y, inTable', tentative', name'⟩ := tentative_of_tables whole.table inTable tentative
        exact .inr ⟨y, inTable', tentative', name'.trans name⟩
    · obtain ⟨y, inTable', tentative', name'⟩ := tentative_of_tables whole.table inTable tentative
      exact ⟨defined, .inr ⟨y, inTable', tentative', name'.trans same.name⟩⟩
  noted := by
    intro x member n isPlaced inSection moves
    have before := (mem_iff_of_plain whole.table (Symbol.plain_of_index inSection)).mp member
    obtain ⟨first, isFirst⟩ := noted_iff_find?.mp (carries.noted x before n isPlaced inSection moves)
    exact noted_iff_find?.mpr ⟨first, whole.kept x.name first isFirst⟩
  followed := by
    intro x member n isPlaced inSection
    have before := (mem_iff_of_plain whole.table (Symbol.plain_of_index inSection)).mp member
    exact carries.followed x before n isPlaced inSection

/-- A version that continues its predecessor still does after `preprepare`. -/
theorem preprepareRelocatable_current (isCurrent : s.current file = some o) (own : o.file = file)
    (continues : o.Continues previous) (run : preprepareRelocatable e o.ref s = some ((), s')) :
    ∃ v, s'.current file = some v ∧ o.SameHead v ∧ v.Continues previous := by
  have isObject := Loader.object_of_current isCurrent own
  cases prepared : o.preprepared with
  | true =>
    obtain ⟨o', found, run⟩ := getObject_bind_inv run
    rw [isObject] at found
    cases found
    rw [prepared] at run
    obtain ⟨-, rfl⟩ := pure_inv run
    exact ⟨o, isCurrent, (Object.SameFile.refl o).head, continues⟩
  | false =>
    obtain ⟨c, s1, loop, lookup⟩ := preprepareRelocatable_inv isObject prepared run
    have started : c.Started e s s1 := Common.Started.loop (.inl ⟨rfl, rfl⟩) loop
    have isCurrent1 : s1.current file = some o := by
      rw [Loader.current_congr started.lookup]
      exact isCurrent
    have whole := (Common.Extends.start o.symbols).loop loop
    refine ⟨c.written o, ?_, ⟨rfl, rfl, rfl, rfl, rfl⟩, fun hasTable => ?_⟩
    · rw [Loader.current_congr lookup]
      exact Loader.current_modifyObject isCurrent1 own
    · obtain ⟨placed, all, carries⟩ := continues hasTable
      exact ⟨placed, all, carries.preprepare whole⟩

end Runs

end Luci
