import Luci.Proofs.SectionLayout

/-!
# Alignment and room of the sections

The offsets of the sections are multiples of the page size and of nothing else, so the assertion
of the constructor for sections holds wherever the object lies exactly for alignments between 1
and the page size. The segments never overlap, and what `prepare` writes behind a section is in
its segment if it has one.
-/

namespace Luci

open Exec VirtualMemory

variable {k n : Nat} {elf : Elf} {sym : Symbol} {sec : Section} {p : Section → Bool}

/-! ## Alignment -/

section Alignment

variable {e : Env} {r : ObjectRef} {o : Object} {i : ObjectIdentity} {s s' : Loader} {l : Layout}
  {premapped : Bool} {previous : Option Object}

theorem mem_indices : n ∈ elf.indices p k ↔ n < k ∧ (elf.sections[n]?).any p := by
  unfold Elf.indices
  rw [List.mem_filter, List.mem_range]

theorem section_of_getLast (isLast : (o.elf.indices p k).getLast? = some n) :
    ∃ sec, o.elf.sections[n]? = some sec ∧ p sec :=
  (Option.any_eq_true _ _).mp (mem_indices.mp (List.mem_of_getLast? isLast)).2

theorem Layout.At.section? (built : l.At premapped previous o k)
    (isSection : o.elf.sections[n]? = some sec) :
    l.object.elf.sections[n]? = some (sec.move (o.shift previous k sec)) := by
  rw [built.object]
  unfold Object.laidOut
  rw [List.getElem?_map, isSection]
  rfl

theorem Layout.At.tdata_section (built : l.At premapped previous o k) (isData : l.tdata = some n) :
    ∃ sec, o.elf.sections[n]? = some sec ∧ sec.threadLocal ∧ sec.type ≠ .nobits ∧
      l.object.elf.sections[n]? = some (sec.move (o.shift previous k sec)) := by
  obtain ⟨sec, isSection, both⟩ := section_of_getLast (built.tdata ▸ isData)
  rw [Bool.and_eq_true, decide_eq_true_eq] at both
  exact ⟨sec, isSection, both.1, both.2, built.section? isSection⟩

theorem Layout.At.tbss_section (built : l.At premapped previous o k) (isBss : l.tbss = some n) :
    ∃ sec, o.elf.sections[n]? = some sec ∧ sec.threadLocal ∧ sec.type = .nobits ∧
      l.object.elf.sections[n]? = some (sec.move (o.shift previous k sec)) := by
  obtain ⟨sec, isSection, both⟩ := section_of_getLast (built.tbss ▸ isBss)
  rw [Bool.and_eq_true, decide_eq_true_eq] at both
  exact ⟨sec, isSection, both.1, both.2, built.section? isSection⟩

theorem size_of_threadLocal (isLocal : sec.threadLocal) : 0 < sec.size := by
  unfold Section.threadLocal at isLocal
  rw [Bool.and_eq_true, decide_eq_true_eq] at isLocal
  exact Nat.pos_of_ne_zero isLocal.1

theorem Layout.At.tls_positive (built : l.At premapped previous o k)
    (registers : (l.tdata.isSome || l.tbss.isSome)) :
    0 < (l.tls previous).1.1 ∧ (l.tls previous).1.2.2.2 ≤ (l.tls previous).1.1 := by
  unfold Layout.tls
  cases isBss : l.tbss with
  | some n =>
    obtain ⟨tbss, -, isLocal, -, isSection⟩ := built.tbss_section isBss
    have positive : 0 < (tbss.move (o.shift previous k tbss)).size := size_of_threadLocal isLocal
    simp only [Option.bind_some, isSection]
    exact ⟨by omega, by omega⟩
  | none =>
    rw [isBss] at registers
    simp only [Option.isSome_none, Bool.or_false] at registers
    obtain ⟨n, isData⟩ := Option.isSome_iff_exists.mp registers
    obtain ⟨tdata, -, isLocal, -, isSection⟩ := built.tdata_section isData
    have positive : 0 < (tdata.move (o.shift previous k tdata)).size := size_of_threadLocal isLocal
    simp only [isData, Option.bind_some, isSection]
    exact ⟨positive, le_rfl⟩

theorem addTlsModule_returns {file size align image imageSize : Nat} (s : Loader)
    (positive : 0 < size) (within : imageSize ≤ size) :
    ∃ s', addTlsModule file size align image imageSize s = some ((), s') := by
  unfold addTlsModule
  rw [decide_eq_true positive, decide_eq_true within]
  exact ⟨_, rfl⟩

/-- `preload` returns if no symbol is missing and all sections fit. -/
theorem preloadRelocatable_returns (blank : o.Blank) (isObject : s.object r = some o)
    (identity : s.identity r.file = some i)
    (available : o.available e s i (s.filePrevious r) = some [])
    (fits : ∀ n < o.elf.sections.length, o.Fits (s.filePrevious r) n) :
    ∃ (l : Layout) (s' : Loader), l.At i.flags.premapped (s.filePrevious r) o o.elf.sections.length ∧
      preloadRelocatable e r s = some (!l.segments.isEmpty, s') ∧ s'.memoryMap r.uid = l.segments := by
  obtain ⟨l, laidOut⟩ : ∃ l, (List.range o.elf.sections.length).foldlM
      (Layout.addSection i.flags.premapped (s.filePrevious r)) ⟨o, [], none, none⟩ = some l :=
    layout_isSome blank le_rfl fits
  have built := layout_at blank le_rfl laidOut
  have segments : ∀ registers : Bool, (if registers then (l.tls (s.filePrevious r)).2 else l).segments =
      l.segments := by
    intro registers
    split
    · exact tls_segments l _
    · rfl
  have registered : ∀ t : Loader, ∃ t', Exec.onlyIf
      ((l.tdata.isSome || l.tbss.isSome) && decide (i.tlsModuleId = 0))
      (addTlsModule r.file (l.tls (s.filePrevious r)).1.1 (l.tls (s.filePrevious r)).1.2.1
        (l.tls (s.filePrevious r)).1.2.2.1 (l.tls (s.filePrevious r)).1.2.2.2) t = some ((), t') ∧
        t'.memoryMap = t.memoryMap := by
    intro t
    unfold Exec.onlyIf
    split
    · next registers =>
      obtain ⟨positive, within⟩ := built.tls_positive (Bool.and_eq_true_iff.mp registers).1
      obtain ⟨t', added⟩ := addTlsModule_returns t positive within
      exact ⟨t', added, (object_addTlsModule added).2.1⟩
    · exact ⟨t, rfl, rfl⟩
  unfold preloadRelocatable
  rw [bind_of_eq (get_apply s), bind_of_eq (getObject_eq isObject),
    bind_of_eq (getIdentity_eq identity)]
  dsimp only
  rw [show (if (s.filePrevious r).isSome && !e.config.forceUpdate then o.missingSymbols e s i
    else some []) = some [] from available, laidOut, orAbort_some, orAbort_some]
  rw [bind_of_eq (pure_apply _ _), if_neg (by simp), bind_of_eq (pure_apply _ _),
    bind_of_eq (modify_apply _ _), bind_of_eq (modify_apply _ _), segments]
  obtain ⟨s', added, sameMap⟩ := registered (Loader.setMemoryMap r.uid l.segments
    (Loader.modifyObject r (Object.layoutOf (if (l.tdata.isSome || l.tbss.isSome) &&
      decide (i.tlsModuleId = 0) then (l.tls (s.filePrevious r)).2 else l).object) s))
  rw [bind_of_eq added]
  refine ⟨l, s', built, rfl, ?_⟩
  rw [sameMap]
  simp [Loader.setMemoryMap]

theorem segmentOf_inv {seg : MemorySegment} (made : o.segmentOf premapped previous n = some seg) :
    ∃ sec, o.elf.sections[n]? = some sec ∧ o.elf.maps previous n sec ∧ seg.base = o.base ∧
      seg.offset = o.sectionOffset previous n ∧
      seg.size = (sec.size + sec.additionalSize previous) % 2 ^ 64 := by
  obtain ⟨sec, isSection, made⟩ := Option.bind_eq_some_iff.mp made
  split at made
  · next maps =>
    obtain ⟨-, base, offset, size⟩ := ofSection_inv made
    exact ⟨sec, isSection, maps, base, offset, size⟩
  · cases made

theorem sectionAddress_aligned (blank : o.Blank) (n : Nat) :
    o.sectionAddress previous n % pageSize = 0 := by
  unfold Object.sectionAddress
  rw [Nat.mod_mod_of_dvd _ (by decide), sectionOffset_aligned blank.base blank.offset]

theorem Layout.At.segment (built : l.At premapped previous o o.elf.sections.length)
    (isSection : o.elf.sections[n]? = some sec) (maps : o.elf.maps previous n sec) :
    ∃ seg ∈ l.segments, o.segmentOf premapped previous n = some seg := by
  have inside : n < o.elf.sections.length := (List.getElem?_eq_some_iff.mp isSection).1
  obtain ⟨nonzero, divides⟩ := built.fits n inside sec isSection maps
  obtain ⟨seg, made⟩ := Option.isSome_iff_exists.mp (ofSection_isSome premapped
    (sec.additionalSize previous) nonzero divides)
  have isSegment : o.segmentOf premapped previous n = some seg := by
    unfold Object.segmentOf
    rw [isSection, Option.bind_some, maps, if_pos rfl, made]
  refine ⟨seg, ?_, isSegment⟩
  rw [built.segments]
  exact List.mem_filterMap.mpr ⟨n, List.mem_range.mpr inside, isSegment⟩

end Alignment

/-- Wherever the file is loaded, `preload` returns, and every section for which a segment is made
lies at a multiple of its alignment. -/
def Elf.AlwaysAligned (elf : Elf) (previous : Option Object) : Prop :=
  ∀ (e : Env) (s : Loader) (r : ObjectRef) (o : Object) (i : ObjectIdentity), o.elf = elf →
    o.Blank → s.object r = some o → s.identity r.file = some i → s.filePrevious r = previous →
    o.available e s i previous = some [] →
    ∃ ok s', preloadRelocatable e r s = some (ok, s') ∧
      ∀ n sec, elf.sections[n]? = some sec → elf.maps previous n sec = true →
        ∃ seg ∈ s'.memoryMap r.uid, o.segmentOf i.flags.premapped previous n = some seg ∧
          (sec.alignment = 0 ∨ sec.alignment ∣ seg.address)

/-- An update that is forced, so that no symbols are looked for. -/
def Env.forced : Env := Env.reference { Config.default with forceUpdate := true } fun _ => none

/-- A new version of a file at an address. -/
def Object.newVersion (elf : Elf) (base : Nat) : Object :=
  { Object.construct 0 0 .relocatable elf .none with base := base }

/-- The new version is on top of the previous one. -/
def Loader.newVersion (elf : Elf) (previous : Option Object) (base : Nat) : Loader :=
  { Loader.initial with
    lookup := [.global 0 "x.o" (Object.newVersion elf base :: previous.toList)] }

theorem Elf.AlwaysAligned.fits {previous : Option Object} (always : elf.AlwaysAligned previous)
    (isSection : elf.sections[n]? = some sec) (maps : elf.maps previous n sec) (base : Nat)
    (aligned : base % pageSize = 0) :
    sec.alignment ≠ 0 ∧
      (base + (Object.newVersion elf 0).sectionOffset previous n) % 2 ^ 64 % sec.alignment = 0 := by
  have blank : (Object.newVersion elf base).Blank := ⟨rfl, rfl, rfl, rfl, aligned, rfl⟩
  have isPrevious : (Loader.newVersion elf previous base).filePrevious ⟨0, 0⟩ = previous := by
    cases previous <;> rfl
  obtain ⟨ok, s', -, placed⟩ := always .forced (Loader.newVersion elf previous base) ⟨0, 0⟩
    (Object.newVersion elf base) _ rfl blank rfl rfl isPrevious (by
      unfold Object.available
      rw [if_neg (by simp [Env.forced, Env.reference])])
  obtain ⟨seg, -, made, -⟩ := placed n sec isSection maps
  have same : ∀ n, (Object.newVersion elf base).sectionOffset previous n =
      (Object.newVersion elf 0).sectionOffset previous n := by
    intro n
    induction n with
    | zero => rfl
    | succ n ih => exact congrArg (elf.advance previous n) ih
  unfold Object.segmentOf at made
  rw [show (Object.newVersion elf base).elf.sections[n]? = some sec from isSection,
    Option.bind_some, show (Object.newVersion elf base).elf.maps previous n sec = true from maps,
    same] at made
  exact (ofSection_inv made).1

/-- Every legal alignment is honoured exactly if it is not 0 and not larger than a page. -/
theorem alwaysAligned_iff {elf : Elf} {previous : Option Object}
    (legal : ∀ sec ∈ elf.sections, sec.alignment = 0 ∨ ∃ exponent, sec.alignment = 2 ^ exponent) :
    elf.AlwaysAligned previous ↔
      ∀ n sec, elf.sections[n]? = some sec → elf.maps previous n sec = true →
        0 < sec.alignment ∧ sec.alignment ≤ pageSize := by
  constructor
  · intro always n sec isSection maps
    obtain ⟨nonzero, here⟩ := always.fits isSection maps 0x400000 rfl
    obtain ⟨-, further⟩ := always.fits isSection maps (0x400000 + pageSize) (by decide)
    generalize (Object.newVersion elf 0).sectionOffset previous n = offset at here further
    refine ⟨Nat.pos_of_ne_zero nonzero, Nat.le_of_dvd (by decide) ?_⟩
    obtain ⟨exponent, isPower⟩ := (legal sec (List.mem_of_getElem? isSection)).resolve_left nonzero
    -- A larger alignment than the address space would put both versions at address 0.
    have divides : sec.alignment ∣ 2 ^ 64 := by
      rw [isPower]
      by_contra larger
      have bound : 2 ^ 64 < 2 ^ exponent := Nat.pow_lt_pow_right (by decide)
        (Nat.lt_of_not_le fun within => larger (Nat.pow_dvd_pow 2 within))
      rw [isPower, Nat.mod_eq_of_lt (by omega)] at here further
      unfold pageSize at further
      omega
    rw [Nat.mod_mod_of_dvd _ divides] at here further
    have difference := (Nat.dvd_sub (Nat.dvd_of_mod_eq_zero further) (Nat.dvd_of_mod_eq_zero here))
    rwa [show 0x400000 + pageSize + offset - (0x400000 + offset) = pageSize by omega] at difference
  · intro small e s r o i sameElf blank isObject identity isPrevious available
    subst sameElf isPrevious
    have fits : ∀ n, o.Fits (s.filePrevious r) n := by
      intro n sec isSection maps
      obtain ⟨positive, bounded⟩ := small n sec isSection maps
      refine ⟨positive.ne', Nat.mod_eq_zero_of_dvd ?_⟩
      have divides : sec.alignment ∣ pageSize := by
        rcases legal sec (List.mem_of_getElem? isSection) with zero | ⟨exponent, isPower⟩
        · omega
        · rw [isPower] at bounded ⊢
          exact Nat.pow_dvd_pow 2 ((Nat.pow_le_pow_iff_right (by decide)).mp
            (show 2 ^ exponent ≤ 2 ^ 12 from bounded))
      exact divides.trans (Nat.dvd_of_mod_eq_zero (sectionAddress_aligned blank n))
    obtain ⟨l, s', built, run, segments⟩ := preloadRelocatable_returns blank isObject identity
      available fun n _ => fits n
    refine ⟨_, s', run, fun n sec isSection maps => ?_⟩
    obtain ⟨seg, member, isSegment⟩ := built.segment isSection maps
    obtain ⟨-, -, -, base, offset, -⟩ := segmentOf_inv isSegment
    refine ⟨seg, segments ▸ member, isSegment, Or.inr ?_⟩
    rw [MemorySegment.address, base, offset]
    exact Nat.dvd_of_mod_eq_zero (fits n sec isSection maps).2

/-- A file with a single section with contents of the given alignment. -/
def Elf.withAlignment (alignment : Nat) : Elf :=
  { Elf.empty .rel with
    sections := [⟨"", .other 0, 0, 0, 0, 0, false, false, false, false, []⟩,
      ⟨".text", .progbits, 0x40, 16, alignment, 0, true, false, true, false, []⟩] }

theorem alwaysAligned_iff_page : (Elf.withAlignment 4096).AlwaysAligned none ∧
    ∀ n sec, (Elf.withAlignment 4096).sections[n]? = some sec →
      (Elf.withAlignment 4096).maps none n sec = true → sec.alignment = pageSize := by
  have all : ∀ n sec, (Elf.withAlignment 4096).sections[n]? = some sec →
      (Elf.withAlignment 4096).maps none n sec = true → sec.alignment = pageSize := by
    intro n sec isSection maps
    rcases n with - | - | n
    · cases isSection
      cases maps
    · cases isSection
      rfl
    · cases isSection
  refine ⟨(alwaysAligned_iff ?_).mpr fun n sec isSection maps => ?_, all⟩
  · intro sec member
    rcases List.mem_pair.mp member with rfl | rfl
    · exact Or.inl rfl
    · exact Or.inr ⟨12, rfl⟩
  · rw [all n sec isSection maps]
    decide

/-- Without alignment, or with one of two pages at an odd page, the assertion fails. -/
theorem alignment_aborts :
    (preloadRelocatable .forced ⟨0, 0⟩
      (.newVersion (Elf.withAlignment 0) none 0x400000)).isNone ∧
    (preloadRelocatable .forced ⟨0, 0⟩
      (.newVersion (Elf.withAlignment 8192) none 0x401000)).isNone ∧
    ¬ (Elf.withAlignment 0).AlwaysAligned none := by
  refine ⟨by decide +kernel, by decide +kernel, fun always => ?_⟩
  exact (always.fits (n := 1) rfl rfl 0x400000 rfl).1 rfl

/-! ## Room for the additions -/

/-- A number that `prepare` writes behind a section. -/
structure Addition where
  index : Nat
  width : Nat
  address : Nat
  value : Nat

/-- What is written behind the sections: the error handling frame header and the return
instructions. -/
def Object.additions (v : Object) : List Addition :=
  (v.ehSection.toList.flatMap fun n =>
    let start := (v.sectionRange n).1
    let header := (start + (v.sectionRange n).2 + 16) / 16 * 16
    [⟨n, 4, header, 0xffff0401⟩, ⟨n, 8, header + 4, start⟩, ⟨n, 8, header + 12, 0⟩]) ++
  v.initSections.map fun n => ⟨n, 1, (v.sectionRange n).1 + (v.sectionRange n).2, 0xc3⟩

/-- The sections are laid out one behind the other, each with room in the pages of its segment, the
symbols along with them, and what `prepare` writes behind a section is in its segment and behind
its contents. -/
structure Object.WellLaid (o : Object) (premapped : Bool) (previous : Option Object) (v : Object)
    (segments : List MemorySegment) : Prop where
  pages : segments.Pairwise fun a b => a.pageEnd ≤ b.pageStart
  room : ∀ n sec seg, o.elf.sections[n]? = some sec →
    o.segmentOf premapped previous n = some seg → seg.address + sec.size ≤ seg.pageEnd
  symbols : ∀ (j : Nat) (sym : Symbol) (n : Nat) (sec : Section),
    o.elf.symbolTable[j]? = some sym → sym.sectionIndex = .index n →
    o.elf.sections[n]? = some sec → sec.placed = true → o.elf.hasSymbolTable = true →
    sym.movesWith previous n sec = true →
    ∃ seg ∈ segments, o.segmentOf premapped previous n = some seg ∧
      (v.elf.symbolTable[j]?).map Symbol.value = some (seg.offset + sym.value)
  additions : ∀ a ∈ v.additions, ∃ sec seg, o.elf.sections[a.index]? = some sec ∧
    o.segmentOf premapped previous a.index = some seg ∧ seg ∈ segments ∧
    seg.address + sec.size ≤ a.address ∧ a.address + a.width ≤ seg.address + seg.size

/-- The sections with a segment end in the address space, in whole pages. -/
def Object.NoWrap (o : Object) (previous : Option Object) : Prop :=
  ∀ n sec, o.elf.sections[n]? = some sec → o.elf.maps previous n sec = true →
    o.sectionAddress previous n + alignUp (sec.size + sec.additionalSize previous) pageSize < 2 ^ 64

section WellLaid

variable {premapped : Bool} {previous : Option Object} {o : Object} {i : ObjectIdentity} {l : Layout}

theorem sectionAddress_succ (noWrap : o.NoWrap previous) (isSection : o.elf.sections[n]? = some sec)
    (maps : o.elf.maps previous n sec) :
    o.sectionAddress previous (n + 1) = o.sectionAddress previous n +
      alignUp (sec.size + sec.additionalSize previous) pageSize := by
  have within := noWrap n sec isSection maps
  unfold Object.sectionAddress at within ⊢
  rw [Object.sectionOffset, Elf.advance, isSection]
  simp only [maps, if_pos]
  omega

theorem sectionAddress_mono (noWrap : o.NoWrap previous) {n m : Nat} (before : n ≤ m) :
    o.sectionAddress previous n ≤ o.sectionAddress previous m := by
  induction before with
  | refl => exact le_rfl
  | @step m _ ih =>
    refine ih.trans ?_
    by_cases mapped : ∃ sec, o.elf.sections[m]? = some sec ∧ o.elf.maps previous m sec
    · obtain ⟨sec, isSection, maps⟩ := mapped
      rw [sectionAddress_succ noWrap isSection maps]
      exact Nat.le_add_right _ _
    · have same : o.sectionOffset previous (m + 1) = o.sectionOffset previous m := by
        rw [Object.sectionOffset, Elf.advance]
        split
        · next sec isSection => exact if_neg fun maps => mapped ⟨sec, isSection, maps⟩
        · rfl
      unfold Object.sectionAddress
      rw [same]

/-- The pages of the segment of a section. -/
theorem segmentOf_pages (blank : o.Blank) (made : o.segmentOf premapped previous n = some seg)
    (isSection : o.elf.sections[n]? = some sec) :
    seg.address = o.sectionAddress previous n ∧ seg.pageStart = seg.address ∧
      seg.pageEnd = (seg.address +
        alignUp (sec.size + sec.additionalSize previous) pageSize) % 2 ^ 64 := by
  obtain ⟨sec', isSection', -, base, offset, size⟩ := segmentOf_inv made
  cases isSection.symm.trans isSection'
  have address : seg.address = o.sectionAddress previous n := by
    rw [MemorySegment.address, base, offset]
    rfl
  have pages := @pageSize_of_aligned seg (by rw [address, sectionAddress_aligned blank])
  refine ⟨address, pages.1, ?_⟩
  rw [MemorySegment.pageEnd, pages.1, pages.2, size, alignUp_word, Nat.add_mod_mod]

theorem Layout.At.pages (blank : o.Blank) (noWrap : o.NoWrap previous)
    (built : l.At premapped previous o k) :
    l.segments.Pairwise fun a b => a.pageEnd ≤ b.pageStart := by
  rw [built.segments, List.pairwise_filterMap]
  refine List.pairwise_lt_range.imp fun {n m} before a isFirst b isSecond => ?_
  obtain ⟨sec, isSection, maps, -⟩ := segmentOf_inv isFirst
  obtain ⟨sec', isSection', -⟩ := segmentOf_inv isSecond
  obtain ⟨address, -, stop⟩ := segmentOf_pages blank isFirst isSection
  obtain ⟨address', start, -⟩ := segmentOf_pages blank isSecond isSection'
  calc a.pageEnd ≤ a.address + alignUp (sec.size + sec.additionalSize previous) pageSize := by
        rw [stop]
        exact Nat.mod_le _ _
    _ = o.sectionAddress previous (n + 1) := by
        rw [address, sectionAddress_succ noWrap isSection maps]
    _ ≤ o.sectionAddress previous m := sectionAddress_mono noWrap before
    _ = b.pageStart := by rw [start, address']

/-- A section with room in the pages of its segment ends in the address space: the additional bytes
are too few for a sum that wraps around to come out behind the section. -/
theorem noWrap_of_room (built : l.At premapped previous o o.elf.sections.length) (blank : o.Blank) (room : ∀ n sec seg, o.elf.sections[n]? = some sec →
    o.segmentOf premapped previous n = some seg → seg.address + sec.size ≤ seg.pageEnd) :
    o.NoWrap previous := by
  intro n sec isSection maps
  obtain ⟨seg, -, made⟩ := built.segment isSection maps
  have within := room n sec seg isSection made
  obtain ⟨address, -, stop⟩ := segmentOf_pages blank made isSection
  have few : sec.additionalSize previous ≤ 177 := by
    unfold Section.additionalSize ehFrameSpace
    split <;> split <;> decide
  have near := alignUp_lt (show 0 < pageSize by decide) (sec.size + sec.additionalSize previous)
  have word : o.sectionAddress previous n < 2 ^ 64 := Nat.mod_lt _ (by decide)
  rw [stop, address] at within
  unfold pageSize at *
  omega

/-- A symbol whose section is not `.tbss` stays as it is at the end. -/
theorem tbssSymbol_ne (inSection : sym.sectionIndex = .index n) (other : l.tbss ≠ some n) :
    l.tbssSymbol previous i o sym = sym := by
  unfold Layout.tbssSymbol
  split
  · next index tbss moved =>
    obtain ⟨-, -, isBss, -⟩ := movesTbss_inv moved
    have elsewhere : sym.sectionIndex ≠ .index index := by
      rw [inSection]
      intro same
      exact other (isBss.trans (congrArg some (SectionIndex.index.inj same).symm))
    unfold Object.entryIn
    rw [if_neg elsewhere]
    exact ite_self _
  · rfl

theorem movedSymbol_value (before : n < k) (inSection : sym.sectionIndex = .index n)
    (isSection : o.elf.sections[n]? = some sec) (isPlaced : sec.placed)
    (hasTable : o.elf.hasSymbolTable) (moves : sym.movesWith previous n sec) :
    (o.movedSymbol previous k sym).value = o.sectionOffset previous n + sym.value := by
  unfold Symbol.movesWith at moves
  rw [Bool.and_eq_true, Bool.and_eq_true, Option.isNone_iff_eq_none] at moves
  unfold Object.movedSymbol Symbol.entry
  simp only [inSection, isSection, before, isPlaced, hasTable, moves.1.2, moves.2]
  exact Nat.add_comm _ _

variable (built : l.At premapped previous o o.elf.sections.length) {v : Object}
  (isFinal : v = (l.final previous i).object.layoutOf o)

include built isFinal

theorem final_sectionRange (isSection : o.elf.sections[n]? = some sec) :
    v.sectionRange n = (o.sectionAddress previous n, sec.size) := by
  have inside : n < o.elf.sections.length := (List.getElem?_eq_some_iff.mp isSection).1
  obtain ⟨symbols, object⟩ := built.final_object
  rw [isFinal, object]
  unfold Object.sectionRange Object.layoutOf Object.laidOut
  rw [List.getElem?_map, List.getElem?_map, List.getElem?_range inside, isSection]
  rfl

theorem final_additions : v.ehSection = (o.elf.indices Section.unwinds o.elf.sections.length).getLast? ∧
    v.initSections = o.elf.indices (·.returns previous) o.elf.sections.length := by
  obtain ⟨symbols, object⟩ := built.final_object
  rw [isFinal, object]
  exact ⟨rfl, rfl⟩

/-- The additions to a section with a segment are in the segment, behind the contents. -/
theorem addition_fits {a : Addition} (noWrap : o.NoWrap previous) (isAddition : a ∈ v.additions)
    (isSection : o.elf.sections[a.index]? = some sec)
    (maps : o.elf.maps previous a.index sec) :
    ∃ seg ∈ l.segments, o.segmentOf premapped previous a.index = some seg ∧
      seg.address + sec.size ≤ a.address ∧ a.address + a.width ≤ seg.address + seg.size := by
  obtain ⟨seg, member, isSegment⟩ := built.segment isSection maps
  obtain ⟨sec', isSection', -, base, offset, size⟩ := segmentOf_inv isSegment
  cases isSection.symm.trans isSection'
  refine ⟨seg, member, isSegment, ?_⟩
  have address : seg.address = o.sectionAddress previous a.index := by
    rw [MemorySegment.address, base, offset]
    rfl
  have within := noWrap a.index sec isSection maps
  have whole := le_alignUp (sec.size + sec.additionalSize previous) pageSize
  rw [Nat.mod_eq_of_lt (by omega)] at size
  rw [address]
  obtain ⟨isFrame, isInit⟩ := final_additions built isFinal
  have range := final_sectionRange built isFinal isSection
  have additional : sec.additionalSize previous = (if sec.returns previous then 1 else 0) +
    if sec.unwinds then ehFrameSpace else 0 := rfl
  rcases List.mem_append.mp isAddition with header | returns
  · obtain ⟨n, isN, member⟩ := List.mem_flatMap.mp header
    have isLast := Option.mem_toList.mp isN
    obtain ⟨isIndex, d, address, within⟩ : a.index = n ∧ ∃ d, a.address =
        ((v.sectionRange n).1 + (v.sectionRange n).2 + 16) / 16 * 16 + d ∧ d + a.width ≤ 20 := by
      simp only [List.mem_cons, List.not_mem_nil, or_false] at member
      rcases member with rfl | rfl | rfl
      · exact ⟨rfl, 0, rfl, Nat.le_of_ble_eq_true rfl⟩
      · exact ⟨rfl, 4, rfl, Nat.le_of_ble_eq_true rfl⟩
      · exact ⟨rfl, 12, rfl, Nat.le_of_ble_eq_true rfl⟩
    rw [isFrame, ← isIndex] at isLast
    obtain ⟨sec', isSection', unwinds⟩ := section_of_getLast isLast
    cases isSection.symm.trans isSection'
    rw [unwinds, if_pos rfl] at additional
    rw [← isIndex, range] at address
    unfold ehFrameSpace at additional
    omega
  · obtain ⟨n, isN, rfl⟩ := List.mem_map.mp returns
    rw [isInit] at isN
    obtain ⟨-, holds⟩ := mem_indices.mp isN
    rw [isSection, Option.any_some] at holds
    rw [holds, if_pos rfl] at additional
    rw [range]
    dsimp only
    omega

theorem final_symbol {j n : Nat} (isSymbol : o.elf.symbolTable[j]? = some sym)
    (inSection : sym.sectionIndex = .index n) (isSection : o.elf.sections[n]? = some sec)
    (isPlaced : sec.placed) :
    v.elf.symbolTable[j]? =
      some (o.movedSymbol previous o.elf.sections.length sym) := by
  obtain ⟨symbols, object⟩ := built.final_object
  have other : l.tbss ≠ some n := by
    intro isBss
    obtain ⟨sec', isSection', isLocal, -⟩ := built.tbss_section isBss
    cases isSection.symm.trans isSection'
    rw [threadLocal_of_placed isPlaced] at isLocal
    cases isLocal
  rw [isFinal, object]
  unfold Object.layoutOf
  rw [List.getElem?_map, isSymbol, Option.map_some,
    tbssSymbol_ne ((movedSymbol_sectionIndex sym).trans inSection) other]

/-- The layout is as it should be exactly if no section wraps around and the last section with an
error handling frame has a segment. -/
theorem final_wellLaid (blank : o.Blank) :
    o.WellLaid premapped previous v l.segments ↔ o.NoWrap previous ∧
      ∀ n sec, v.ehSection = some n → o.elf.sections[n]? = some sec →
        o.elf.maps previous n sec := by
  obtain ⟨isFrame, isInit⟩ := final_additions built isFinal
  constructor
  · refine fun wellLaid => ⟨noWrap_of_room built blank wellLaid.room, fun n sec isLast isSection => ?_⟩
    have header : (⟨n, 8, ((v.sectionRange n).1 + (v.sectionRange n).2 + 16) / 16 * 16 + 12, 0⟩ :
        Addition) ∈ v.additions := by
      unfold Object.additions
      rw [isLast]
      simp
    obtain ⟨sec', seg, isSection', made, -⟩ := wellLaid.additions _ header
    obtain ⟨sec'', isSection'', maps, -⟩ := segmentOf_inv made
    cases isSection.symm.trans isSection''
    exact maps
  · rintro ⟨noWrap, mapped⟩
    refine ⟨built.pages blank noWrap, fun n sec seg isSection made => ?_, ?_, fun a isAddition => ?_⟩
    · obtain ⟨sec', isSection', maps, -⟩ := segmentOf_inv made
      cases isSection.symm.trans isSection'
      obtain ⟨address, -, stop⟩ := segmentOf_pages blank made isSection
      have within := noWrap n sec isSection maps
      have whole := le_alignUp (sec.size + sec.additionalSize previous) pageSize
      rw [stop, address, Nat.mod_eq_of_lt within]
      omega
    · intro j sym n sec isSymbol inSection isSection isPlaced hasTable moves
      have inside : n < o.elf.sections.length := (List.getElem?_eq_some_iff.mp isSection).1
      have changes : o.elf.changes previous n sec := by
        unfold Elf.changes
        rw [hasTable, List.any_eq_true.mpr ⟨sym, List.mem_of_getElem? isSymbol, moves⟩]
        rfl
      have maps : o.elf.maps previous n sec := by
        unfold Elf.maps
        rw [isPlaced, changes]
        simp
      obtain ⟨seg, member, isSegment⟩ := built.segment isSection maps
      obtain ⟨-, -, -, -, offset, -⟩ := segmentOf_inv isSegment
      refine ⟨seg, member, isSegment, ?_⟩
      rw [final_symbol built isFinal isSymbol inSection isSection isPlaced, Option.map_some, offset,
        movedSymbol_value inside inSection isSection isPlaced hasTable moves]
    · obtain ⟨sec, isSection, maps⟩ : ∃ sec, o.elf.sections[a.index]? = some sec ∧
          o.elf.maps previous a.index sec := by
        rcases List.mem_append.mp isAddition with header | returns
        · obtain ⟨n, isN, member⟩ := List.mem_flatMap.mp header
          have isLast := Option.mem_toList.mp isN
          have isIndex : a.index = n := by
            simp only [List.mem_cons, List.not_mem_nil, or_false] at member
            rcases member with rfl | rfl | rfl <;> rfl
          obtain ⟨sec, isSection, -⟩ := section_of_getLast (isFrame ▸ isLast)
          rw [isIndex]
          exact ⟨sec, isSection, mapped n sec isLast isSection⟩
        · obtain ⟨n, isN, rfl⟩ := List.mem_map.mp returns
          obtain ⟨-, holds⟩ := mem_indices.mp (isInit ▸ isN)
          obtain ⟨sec, isSection, returns⟩ := (Option.any_eq_true _ _).mp holds
          refine ⟨sec, isSection, ?_⟩
          unfold Section.returns at returns
          rw [Bool.and_eq_true, Bool.and_eq_true] at returns
          unfold Elf.maps
          rw [returns.1, returns.2.1]
          simp
      obtain ⟨seg, member, isSegment, behind, inside⟩ :=
        addition_fits built isFinal noWrap isAddition isSection maps
      exact ⟨sec, seg, isSection, isSegment, member, behind, inside⟩

end WellLaid

/-- After `preload` the sections are laid out as they should be exactly if no section with a segment
wraps around and the last section with an error handling frame has a segment. -/
theorem wellLaid_iff {e : Env} {r : ObjectRef} {o : Object} {i : ObjectIdentity} {s s' : Loader}
    (blank : o.Blank) (isObject : s.object r = some o) (identity : s.identity r.file = some i)
    (run : preloadRelocatable e r s = some (true, s')) :
    ∃ v, s'.object r = some v ∧
      (o.WellLaid i.flags.premapped (s.filePrevious r) v (s'.memoryMap r.uid) ↔
        o.NoWrap (s.filePrevious r) ∧ ∀ n sec, (o.elf.indices Section.unwinds o.elf.sections.length).getLast? = some n →
          o.elf.sections[n]? = some sec → o.elf.maps (s.filePrevious r) n sec = true) := by
  rcases preloadRelocatable_inv blank isObject identity run with ⟨impossible, -⟩ |
    ⟨l, built, isFinal, segments, -⟩
  · cases impossible
  · refine ⟨_, isFinal, ?_⟩
    rw [segments, final_wellLaid built rfl blank, (final_additions built rfl).1]

/-- A file with a writable error handling frame without relocations, and code behind it. -/
def Elf.withFrame : Elf :=
  { Elf.empty .rel with
    sections := [⟨"", .other 0, 0, 0, 0, 0, false, false, false, false, []⟩,
      ⟨".eh_frame", .progbits, 0x40, 24, 8, 0, true, true, false, false, []⟩,
      ⟨".text", .progbits, 0x60, 64, 16, 0, true, false, true, false, []⟩] }

/-- A version of the file, and another one on top of it. -/
def loadedFrame (updated : Bool) : Loader :=
  let first := { Object.newVersion Elf.withFrame 0x400000 with uid := 1 }
  { Loader.initial with
    lookup := [.global 0 "x.o" (if updated then
      [{ Object.newVersion Elf.withFrame 0x400000 with offset := 0x2000 }, first] else [first])] }

/-- What `preload` leaves: the additions by section and address, and the segments by address and
size. -/
def preloadedFrame (updated : Bool) (uid : Nat) :
    Option (Bool × Option (List (Nat × Nat)) × List (Nat × Nat)) :=
  (preloadRelocatable .forced ⟨0, uid⟩ (loadedFrame updated)).map fun (ok, s) =>
    (ok, (s.object ⟨0, uid⟩).map fun v => v.additions.map fun a => (a.index, a.address),
      (s.memoryMap uid).map fun seg => (seg.address, seg.size))

theorem wellLaid_iff_first : ∃ s' v, preloadRelocatable .forced ⟨0, 1⟩ (loadedFrame false) =
    some (true, s') ∧ s'.object ⟨0, 1⟩ = some v ∧
    ({ Object.newVersion Elf.withFrame 0x400000 with uid := 1 } : Object).WellLaid false none v
      (s'.memoryMap 1) := by
  have result : preloadedFrame false 1 = some (true, some [(1, 0x400020),
      (1, 0x400024), (1, 0x40002c)], [(0x400000, 200), (0x401000, 64)]) := by decide +kernel
  obtain ⟨⟨ok, s'⟩, run, outcome⟩ := Option.map_eq_some_iff.mp result
  obtain ⟨rfl, -⟩ := Prod.mk.inj outcome
  obtain ⟨v, isObject, laid⟩ := wellLaid_iff ⟨rfl, rfl, rfl, rfl, rfl, rfl⟩ rfl rfl run
  refine ⟨s', v, run, isObject, laid.mpr ⟨?_, fun n sec isLast isSection => ?_⟩⟩
  · intro n sec isSection maps
    rcases n with - | - | - | n
    · cases isSection
      cases maps
    all_goals cases isSection
    all_goals decide +kernel
  · have isFrame : n = 1 := (Option.some.inj (show some 1 = some n from isLast)).symm
    subst isFrame
    cases isSection
    rfl

/-- The frame is not loaded again by the update, and its header is written into the code. -/
theorem frame_without_segment :
    preloadedFrame true 0 = some (true, some [(1, 0x402020), (1, 0x402024),
      (1, 0x40202c)], [(0x402000, 64)]) ∧
    ∃ s' v, preloadRelocatable .forced ⟨0, 0⟩ (loadedFrame true) = some (true, s') ∧
      s'.object ⟨0, 0⟩ = some v ∧
      ¬ ({ Object.newVersion Elf.withFrame 0x400000 with offset := 0x2000 } : Object).WellLaid false
        (some { Object.newVersion Elf.withFrame 0x400000 with uid := 1 }) v (s'.memoryMap 0) := by
  have result : preloadedFrame true 0 = some (true, some [(1, 0x402020),
      (1, 0x402024), (1, 0x40202c)], [(0x402000, 64)]) := by decide +kernel
  refine ⟨result, ?_⟩
  obtain ⟨⟨ok, s'⟩, run, outcome⟩ := Option.map_eq_some_iff.mp result
  obtain ⟨rfl, parts⟩ := Prod.mk.inj outcome
  obtain ⟨v, isObject, additions⟩ := Option.map_eq_some_iff.mp (Prod.mk.inj parts).1
  refine ⟨s', v, run, isObject, fun laid => ?_⟩
  obtain ⟨a, member, isHeader⟩ := List.mem_map.mp
    (additions ▸ List.mem_cons_self : (1, 0x402020) ∈ v.additions.map _)
  obtain ⟨-, seg, -, made, -⟩ := laid.additions a member
  rw [(Prod.mk.inj isHeader).1] at made
  cases made

end Luci
