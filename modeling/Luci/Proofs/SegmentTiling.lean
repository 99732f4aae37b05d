import Mathlib.Data.List.Pairwise
import Luci.Proofs.Hooks
import Luci.Proofs.Operations

/-!
# Tiling by memory segments

`ObjectExecutable::preload_segments` makes one or two memory segments of a load segment: the part
that is read-only after relocation is split off if it is at the start. The memory segments of a
well-formed file are on different pages, and together they are the load segments, as long as no load
segment wraps around the end of the address space.
-/

namespace Luci

open Exec VirtualMemory

variable {a b : MemorySegment} {segments : List Segment} {tiles : List MemorySegment}

variable {e : Env} {seg r : Segment} {m : MemorySegment} {elf : Elf} {base : Nat}

/-- A load segment that is not empty. -/
def Segment.Occupied (seg : Segment) : Prop := seg.type = .load ∧ 0 < seg.virtSize

/-- The pages of a load segment are before those of another one. -/
def Segment.Before (a b : Segment) : Prop := a.Occupied → b.Occupied →
  (a.virtAddr + a.virtSize - 1) / pageSize < b.virtAddr / pageSize

/-- The load segments are on different pages in increasing order, and what is read-only after
relocation is a part of a load segment and ends with a page. -/
structure Elf.WellLaidOut (elf : Elf) : Prop where
  ordered : elf.segments.Pairwise Segment.Before
  sizes : ∀ seg ∈ elf.segments, seg.type = .load ∨ seg.type = .tls →
    seg.size ≤ seg.virtSize ∧ seg.virtSize < 2 ^ 64
  relro : ∀ r ∈ elf.segments, r.type = .gnuRelro → r.writeable = false ∧
    (r.virtAddr + r.virtSize) % pageSize = 0 ∧ ∃ seg ∈ elf.segments, seg.type = .load ∧
      seg.offset ≤ r.offset ∧ r.offset + r.size ≤ seg.offset + seg.size ∧
      seg.virtAddr ≤ r.virtAddr ∧ r.virtAddr + r.virtSize ≤ seg.virtAddr + seg.virtSize

/-- From this base on the pages of the segment are in the address space, and its bytes in the file. -/
def Segment.FitsAt (base : Nat) (seg : Segment) : Prop :=
  base + seg.virtAddr + seg.virtSize + pageSize ≤ 2 ^ 64 ∧ seg.offset + seg.size < 2 ^ 64

/-- The memory segment is a part of the load segment, with the bytes that the file has for it. -/
structure MemorySegment.PieceOf (m : MemorySegment) (base : Nat) (seg : Segment) : Prop where
  base : m.base = base
  inside : seg.virtAddr ≤ m.offset ∧ m.offset + m.size ≤ seg.virtAddr + seg.virtSize
  source : m.sourceOffset = seg.offset + (m.offset - seg.virtAddr)
  file : ∀ a, m.offset ≤ a → a < m.offset + m.size →
    (a - m.offset < m.sourceSize ↔ a - seg.virtAddr < seg.size)
  sizes : m.sourceSize ≤ m.size
  relro : m.relro = true → m.protection.write = false

/-- The memory segments are the load segments, on different pages in increasing order. -/
@[mk_iff] structure Tiles (base : Nat) (segments : List Segment) (tiles : List MemorySegment) : Prop where
  increasing : tiles.Pairwise fun a b => a.pageEnd ≤ b.pageStart
  covers : ∀ x, (∃ m ∈ tiles, m.contains x = true) ↔ ∃ seg ∈ segments, seg.Occupied ∧
    base + seg.virtAddr ≤ x ∧ x < base + seg.virtAddr + seg.virtSize
  pieces : ∀ m ∈ tiles, ∃ seg ∈ segments, seg.Occupied ∧ m.PieceOf base seg

/-! ## One load segment -/

theorem pageEnd_le_pageStart (word : b.base + b.offset < 2 ^ 64)
    (below : (a.base + a.offset + a.size + pageSize - 1) / pageSize ≤ (b.base + b.offset) / pageSize) :
    a.pageEnd ≤ b.pageStart := by
  unfold MemorySegment.pageEnd MemorySegment.pageSize MemorySegment.pageStart MemorySegment.address
  unfold VirtualMemory.pageSize at *
  dsimp only
  omega

theorem pieces_before {seg seg' : Segment} (aligned : base % pageSize = 0)
    (first : a.PieceOf base seg) (second : b.PieceOf base seg') (occupied : 0 < seg.virtSize)
    (fits : seg'.FitsAt base)
    (below : (seg.virtAddr + seg.virtSize - 1) / pageSize < seg'.virtAddr / pageSize) :
    a.pageEnd ≤ b.pageStart := by
  obtain ⟨-, high⟩ := first.inside
  obtain ⟨low, high'⟩ := second.inside
  obtain ⟨fits, -⟩ := fits
  unfold pageSize at fits
  apply pageEnd_le_pageStart
  · rw [second.base]
    omega
  · rw [first.base, second.base]
    unfold pageSize at *
    omega

/-- A file has the start of a segment for what is read-only after relocation there. -/
theorem Elf.WellLaidOut.relro_fits (laidOut : elf.WellLaidOut) (member : seg ∈ elf.segments)
    (occupied : seg.Occupied) (relro : r ∈ elf.segments) (type : r.type = .gnuRelro)
    (whole : r.virtSize = r.size) (offset : seg.offset = r.offset)
    (address : seg.virtAddr = r.virtAddr) : r.virtSize ≤ seg.size := by
  obtain ⟨-, -, around, isMember, isLoad, -, file, low, high⟩ := laidOut.relro r relro type
  by_cases empty : r.virtSize = 0
  · omega
  · have : Std.Symm fun a b : Segment => a = b ∨ a.Before b ∨ b.Before a :=
      ⟨fun a b apart => apart.imp Eq.symm Or.symm⟩
    have isOccupied : around.Occupied := ⟨isLoad, by omega⟩
    have apart : elf.segments.Pairwise fun a b => a = b ∨ a.Before b ∨ b.Before a :=
      laidOut.ordered.imp fun before => .inr (.inl before)
    rcases apart.forall_of_forall (fun _ _ => .inl rfl) member isMember with rfl | before | after
    · omega
    · have below := before occupied isOccupied
      have positive := occupied.2
      unfold pageSize at below
      omega
    · have below := after isOccupied occupied
      unfold pageSize at below
      omega

theorem ofSegment_eq (premapped : Bool) (base : Nat) {delta : Nat} (fits : delta ≤ seg.size)
    (sizes : seg.size ≤ seg.virtSize) (small : seg.virtAddr + seg.virtSize < 2 ^ 64)
    (file : seg.offset + seg.size < 2 ^ 64) :
    ∃ m, MemorySegment.ofSegment premapped seg base delta = some m ∧ m.base = base ∧
      m.offset = seg.virtAddr + delta ∧ m.size = seg.virtSize - delta ∧
      m.sourceOffset = seg.offset + delta ∧ m.sourceSize = seg.size - delta ∧
      m.protection.write = seg.writeable ∧ m.relro = decide (seg.type = .gnuRelro) := by
  have word : ∀ n, delta ≤ n → n < 2 ^ 64 → subWord n delta = n - delta := by
    unfold subWord
    omega
  unfold MemorySegment.ofSegment
  dsimp only
  rw [word _ fits (by omega), word _ (by omega) (by omega), if_pos (by omega),
    Nat.mod_eq_of_lt (show seg.offset + delta < 2 ^ 64 by omega),
    Nat.mod_eq_of_lt (show seg.virtAddr + delta < 2 ^ 64 by omega)]
  exact ⟨_, rfl, rfl, rfl, rfl, rfl, rfl, rfl, rfl⟩

theorem contains_iff {x : Nat} (word : m.base + m.offset + m.size < 2 ^ 64) :
    m.contains x ↔ m.base + m.offset ≤ x ∧ x < m.base + m.offset + m.size := by
  unfold MemorySegment.contains MemorySegment.address
  rw [Bool.and_eq_true, decide_eq_true_eq, decide_eq_true_eq, Nat.mod_eq_of_lt word,
    Nat.mod_eq_of_lt (by omega)]

theorem pieceOf_whole {tile : MemorySegment} (isBase : tile.base = base)
    (offset : tile.offset = seg.virtAddr) (size : tile.size = seg.virtSize)
    (source : tile.sourceOffset = seg.offset) (sourceSize : tile.sourceSize = seg.size)
    (sizes : seg.size ≤ seg.virtSize) (relro : tile.relro → tile.protection.write = false) :
    tile.PieceOf base seg := by
  refine ⟨isBase, by omega, by omega, fun a low high => by omega, by omega, relro⟩

theorem toMemory_tiles (premapped setup : Bool) (laidOut : elf.WellLaidOut)
    (aligned : base % pageSize = 0) (member : seg ∈ elf.segments) (isLoad : seg.type = .load)
    (fitsAt : seg.Occupied → seg.FitsAt base) :
    ∃ tiles, seg.toMemory premapped base (if setup then elf.relro else none) = some tiles ∧
      Tiles base [seg] tiles := by
  obtain ⟨sizes, small⟩ := laidOut.sizes seg member (.inl isLoad)
  unfold Segment.toMemory
  by_cases empty : seg.virtSize = 0
  · rw [if_pos empty]
    refine ⟨[], rfl, .nil, fun x => ?_, by simp⟩
    simp [empty]
  · rw [if_neg empty]
    have occupied : seg.Occupied := ⟨isLoad, Nat.pos_of_ne_zero empty⟩
    obtain ⟨address, file⟩ := fitsAt occupied
    unfold pageSize at address
    split
    · rename_i r found
      obtain ⟨isRelro, matching⟩ := Option.filter_eq_some_iff.mp found
      obtain ⟨isMember, isFilter⟩ : r ∈ elf.segments ∧ r.type = .gnuRelro ∧ r.virtSize = r.size := by
        cases setup with
        | false => cases isRelro
        | true => simpa using List.mem_filter.mp (List.mem_of_getLast? isRelro)
      obtain ⟨isType, whole⟩ := isFilter
      obtain ⟨readOnly, ends, -⟩ := laidOut.relro r isMember isType
      simp only [Bool.and_eq_true, decide_eq_true_eq] at matching
      obtain ⟨⟨isOffset, isAddress⟩, -⟩ := matching
      have fits := laidOut.relro_fits member occupied isMember isType whole isOffset isAddress
      obtain ⟨head, made, isBase, offset, size, source, sourceSize, write, -⟩ :=
        ofSegment_eq premapped base (Nat.zero_le r.size) whole.ge (by omega) (by omega)
      have piece : head.PieceOf base seg := ⟨isBase, by omega, by omega, fun a low high => by omega,
        by omega, fun _ => by rw [write, readOnly]⟩
      rw [made]
      by_cases rest : seg.virtSize = r.virtSize
      · refine ⟨[head], by simp [rest], List.pairwise_singleton .., fun x => ?_, fun m found => ?_⟩
        · simp [contains_iff (show head.base + head.offset + head.size < 2 ^ 64 by omega), occupied]
          omega
        · cases List.mem_singleton.mp found
          exact ⟨seg, by simp, occupied, piece⟩
      · obtain ⟨tail, madeTail, isBase', offset', size', source', sourceSize', -, isRelro'⟩ :=
          ofSegment_eq premapped base fits sizes (by omega) file
        have piece' : tail.PieceOf base seg := ⟨isBase', by omega, by omega,
          fun a low high => by omega, by omega, by simp [isRelro', isLoad]⟩
        refine ⟨[head, tail], ?_, ?_, fun x => ?_, fun m found => ?_⟩
        · simp [rest, madeTail, ends]
        · refine List.pairwise_pair.mpr (pageEnd_le_pageStart (by omega) ?_)
          unfold pageSize at *
          omega
        · simp [contains_iff (show head.base + head.offset + head.size < 2 ^ 64 by omega),
            contains_iff (show tail.base + tail.offset + tail.size < 2 ^ 64 by omega), occupied]
          omega
        · refine ⟨seg, by simp, occupied, ?_⟩
          simp only [List.mem_cons, List.not_mem_nil, or_false] at found
          rcases found with rfl | rfl
          · exact piece
          · exact piece'
    · obtain ⟨tile, made, isBase, offset, size, source, sourceSize, -, isRelro⟩ :=
        ofSegment_eq premapped base (Nat.zero_le seg.size) sizes (by omega) file
      rw [made]
      refine ⟨_, rfl, List.pairwise_singleton .., fun x => ?_, fun m found => ⟨seg, by simp, occupied, ?_⟩⟩
      · simp [contains_iff (show tile.base + tile.offset + tile.size < 2 ^ 64 by omega), isBase,
          offset, size, occupied]
      · cases List.mem_singleton.mp found
        exact pieceOf_whole isBase offset size source sourceSize sizes (by simp [isRelro, isLoad])

/-! ## All segments -/

theorem Tiles.nil (base : Nat) : Tiles base [] [] := ⟨.nil, by simp, by simp⟩

theorem Tiles.skip (tiled : Tiles base segments tiles) (other : seg.type ≠ .load) :
    Tiles base (seg :: segments) tiles := by
  refine ⟨tiled.increasing, fun x => ?_, fun m member => ?_⟩
  · simp [tiled.covers x, Segment.Occupied, other]
  · obtain ⟨seg', isMember, piece⟩ := tiled.pieces m member
    exact ⟨seg', List.mem_cons_of_mem _ isMember, piece⟩

/-- The tiles of a segment and those of the segments after it. -/
theorem Tiles.append {first rest : List MemorySegment} (aligned : base % pageSize = 0)
    (head : Tiles base [seg] first) (tail : Tiles base segments rest)
    (before : ∀ seg' ∈ segments, seg.Before seg')
    (fits : ∀ seg' ∈ segments, seg'.Occupied → seg'.FitsAt base) :
    Tiles base (seg :: segments) (first ++ rest) := by
  refine ⟨List.pairwise_append.mpr ⟨head.increasing, tail.increasing, ?_⟩, fun x => ?_, ?_⟩
  · intro a isFirst b isRest
    obtain ⟨seg1, isSeg, occupied, piece⟩ := head.pieces a isFirst
    cases List.mem_singleton.mp isSeg
    obtain ⟨seg', member, occupied', piece'⟩ := tail.pieces b isRest
    exact pieces_before aligned piece piece' occupied.2 (fits seg' member occupied')
      (before seg' member occupied occupied')
  · simp only [List.mem_append, or_and_right, exists_or, head.covers x, tail.covers x,
      List.mem_cons, List.not_mem_nil, or_false]
  · intro m member
    rcases List.mem_append.mp member with isFirst | isRest
    · obtain ⟨seg1, isSeg, piece⟩ := head.pieces m isFirst
      exact ⟨seg1, List.mem_cons.mpr (.inl (List.mem_singleton.mp isSeg)), piece⟩
    · obtain ⟨seg', isSeg, piece⟩ := tail.pieces m isRest
      exact ⟨seg', List.mem_cons_of_mem _ isSeg, piece⟩

/-- The segment without its memory file. -/
def MemorySegment.closed (m : MemorySegment) : MemorySegment := { m with fd := none }

theorem tiles_closed :
    Tiles base segments (tiles.map MemorySegment.closed) ↔ Tiles base segments tiles := by
  have piece : ∀ (m : MemorySegment) seg,
      m.closed.PieceOf base seg ↔ m.PieceOf base seg := fun m seg =>
    ⟨fun h => ⟨h.1, h.2, h.3, h.4, h.5, h.6⟩, fun h => ⟨h.1, h.2, h.3, h.4, h.5, h.6⟩⟩
  simp only [tiles_iff, List.pairwise_map, List.mem_map, exists_exists_and_eq_and,
    forall_exists_index, and_imp, forall_apply_eq_imp_iff₂, piece]
  exact Iff.rfl

theorem shareDescriptors_closed (tiles : List MemorySegment) : ∀ previous : List MemorySegment,
    tiles.length = previous.length →
    (shareDescriptors tiles previous).map MemorySegment.closed =
      tiles.map MemorySegment.closed := by
  induction tiles with
  | nil => exact fun _ _ => rfl
  | cons m tiles ih =>
    intro previous same
    cases previous with
    | nil => cases same
    | cons previous others =>
      rw [List.map_cons, ← ih others (Nat.succ.inj same)]
      refine congrArg (· :: _) ?_
      dsimp only
      split <;> rfl

section Loop

variable {ref : ObjectRef} {s s' : Loader}

theorem addTlsModule_known {file size align image imageSize : Nat} (positive : 0 < size)
    (fits : imageSize ≤ size) (known : (s.identity file).isSome) : ∃ s',
    addTlsModule file size align image imageSize s = some ((), s') ∧
      s'.memoryMap = s.memoryMap ∧ (s'.identity file).isSome := by
  unfold addTlsModule
  rw [bind_of_eq (show Exec.require _ s = some ((), s) by simp [positive, fits])]
  have kept : ∀ n offset,
      ((s.modifyIdentity file (ObjectIdentity.setTls n offset)).identity file).isSome := by
    intro n offset
    have same := Loader.identity_modifyIdentity_same (s := s) (i := file)
      (f := ObjectIdentity.setTls n offset) fun _ => rfl
    rw [same, Option.isSome_map, known]
  exact ⟨_, rfl, rfl, kept _ _⟩

/-- An iteration of the loop for a segment that is not loaded. -/
theorem preloadSegment_other (premapped : Bool) (base : Nat) (relro : Option Segment)
    (other : seg.type ≠ .load) (fits : seg.type = .tls → seg.size ≤ seg.virtSize)
    (known : (s.identity ref.file).isSome) : ∃ s',
    preloadSegment ref premapped base relro seg s = some ((), s') ∧
      s'.memoryMap = s.memoryMap ∧ (s'.identity ref.file).isSome := by
  cases isType : seg.type with
  | load => exact absurd isType other
  | tls =>
    obtain ⟨i, found⟩ := Option.isSome_iff_exists.mp known
    simp only [preloadSegment, isType]
    rw [bind_of_eq (getIdentity_eq found)]
    split
    · rename_i needed
      simp only [Bool.and_eq_true, decide_eq_true_eq] at needed
      exact addTlsModule_known needed.1 (fits isType) known
    · exact ⟨s, rfl, rfl, known⟩
  | dynamic => exact ⟨s, by simp only [preloadSegment, isType]; rfl, rfl, known⟩
  | gnuEhFrame => exact ⟨s, by simp only [preloadSegment, isType]; rfl, rfl, known⟩
  | gnuRelro => exact ⟨s, by simp only [preloadSegment, isType]; rfl, rfl, known⟩
  | other => exact ⟨s, by simp only [preloadSegment, isType]; rfl, rfl, known⟩

/-- The loop over the segments appends their tiles to the memory map. -/
theorem preloadSegment_tiles (premapped setup : Bool) (laidOut : elf.WellLaidOut)
    (aligned : base % pageSize = 0)
    (fits : ∀ seg ∈ elf.segments, seg.Occupied → seg.FitsAt base) (l : List Segment) : ∀ s : Loader,
    (∀ seg ∈ l, seg ∈ elf.segments) → l.Pairwise Segment.Before →
    (s.identity ref.file).isSome → ∃ s' tiles,
      forEach (preloadSegment ref premapped base (if setup then elf.relro else none)) l s =
        some ((), s') ∧
      s'.memoryMap ref.uid = s.memoryMap ref.uid ++ tiles ∧ Tiles base l tiles := by
  induction l with
  | nil => exact fun s _ _ _ => ⟨s, [], rfl, by simp, .nil base⟩
  | cons seg l ih =>
    intro s members ordered known
    obtain ⟨before, ordered⟩ := List.pairwise_cons.mp ordered
    have member := members seg List.mem_cons_self
    have rest := fun seg' isRest => members seg' (List.mem_cons_of_mem seg isRest)
    rw [forEach]
    by_cases isLoad : seg.type = .load
    · obtain ⟨first, made, tiled⟩ := toMemory_tiles premapped setup laidOut aligned member isLoad
        (fits seg member)
      have step : preloadSegment ref premapped base (if setup then elf.relro else none) seg s =
          some ((), s.setMemoryMap ref.uid (s.memoryMap ref.uid ++ first)) := by
        unfold preloadSegment
        rw [isLoad, made]
        rfl
      obtain ⟨s', tiles, loop, isMap, others⟩ :=
        ih (s.setMemoryMap ref.uid (s.memoryMap ref.uid ++ first)) rest ordered known
      refine ⟨s', first ++ tiles, by rw [bind_of_eq step, loop], ?_, ?_⟩
      · rw [isMap]
        simp [Loader.setMemoryMap]
      · exact tiled.append aligned others before fun seg' isRest => fits seg' (rest seg' isRest)
    · obtain ⟨s1, step, same, known⟩ := preloadSegment_other premapped base
        (if setup then elf.relro else none) isLoad
        (fun isTls => (laidOut.sizes seg member (.inr isTls)).1) known
      obtain ⟨s', tiles, loop, isMap, others⟩ := ih s1 rest ordered known
      exact ⟨s', tiles, by rw [bind_of_eq step, loop], by rw [isMap, same], others.skip isLoad⟩

end Loop

/-! ## Preloading -/

/-- `finalize` gives a segment its final protection if it succeeds, unless it is inactive. -/
theorem finalize_inv {seg seg' : MemorySegment} {force : Bool} {s s' : Loader}
    (run : seg.finalize e force s = some ((true, seg'), s')) :
    seg'.protection = seg.protection ∧ (seg'.status = .inactive ∨
      seg'.effectiveProtection = seg'.protection ∧ seg'.buffer = 0) := by
  unfold MemorySegment.finalize at run
  split at run
  · rename_i inactive
    rw [Bool.and_eq_true, decide_eq_true_eq] at inactive
    cases run
    exact ⟨rfl, .inl inactive.2⟩
  · by_cases some : seg.buffer ≠ 0
    · rw [if_pos some] at run
      obtain ⟨isProtected, s1, -, run⟩ := bind_inv run
      obtain ⟨moved, s2, -, run⟩ := bind_inv run
      cases moved <;> cases run
      exact ⟨rfl, .inr ⟨rfl, rfl⟩⟩
    · have none : seg.buffer = 0 := not_not.mp some
      rw [if_neg some] at run
      split at run
      · cases run
      · split at run
        · rename_i same
          rw [Bool.and_eq_true, decide_eq_true_eq] at same
          cases run
          exact ⟨rfl, .inr ⟨same.2, none⟩⟩
        · obtain ⟨isProtected, s1, -, run⟩ := bind_inv run
          cases isProtected <;> cases run
          exact ⟨rfl, .inr ⟨rfl, none⟩⟩

/-- A file with code and data; the first page of the data is read-only after relocation. -/
def relroFile : Elf :=
  { Elf.empty .dyn with
    segments := [⟨.load, 0, 0, 0x100, 0x100, 0x1000, true, false, true⟩,
      ⟨.load, 0x1000, 0x2000, 0x1800, 0x2800, 0x1000, true, true, false⟩,
      ⟨.gnuRelro, 0x1000, 0x2000, 0x1000, 0x1000, 1, true, false, false⟩] }

/-- The file before its segments are preloaded. -/
def relroObject : Object := .construct 1 0 .dynamic relroFile .none

def unpreloaded : Loader := { Loader.initial with lookup := [.global 0 "lib.so" [relroObject]] }

/-- A file with a page of code and the last page of the address space. -/
def wrappingFile : Elf :=
  { Elf.empty .dyn with
    segments := [⟨.load, 0x1000, 0x1000, 0x1000, 0x1000, 0x1000, true, false, true⟩,
      ⟨.load, 0x2000, 2 ^ 64 - 0x1000, 0x1000, 0x1000, 0x1000, true, true, false⟩] }

/-- The file at its base, before its segments are preloaded. -/
def wrappingObject : Object :=
  { Object.construct 1 0 .dynamic wrappingFile .none with base := 0x400000 }

def wrapping : Loader := { Loader.initial with lookup := [.global 0 "lib.so" [wrappingObject]] }

end Luci
