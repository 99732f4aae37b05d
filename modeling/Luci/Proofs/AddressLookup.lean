import Mathlib.Data.List.Pairwise
import Luci.Proofs.AddressSpace

/-!
# The owner of an address

`Loader::resolve_object` and `resolve_symbol` of an address test intervals with the end
included, `_dl_find_object` without. The object and the symbol that contain the address are
found exactly if no other one that is visited before ends there, and if the address is not the
base.
-/

namespace Luci

/-! ## Specification -/

/-- One of the segments of the object contains the address. -/
def Loader.Owns (s : Loader) (addr : Nat) (o : Object) : Prop :=
  ∃ mem ∈ s.memoryMap o.uid, mem.contains addr = true

/-- One of the segments of the object ends at the address. -/
def Loader.EndsAt (s : Loader) (addr : Nat) (o : Object) : Prop :=
  ∃ mem ∈ s.memoryMap o.uid, mem.address ≤ addr ∧ (mem.address + mem.size) % 2 ^ 64 = addr

/-- All objects are in the base namespace, and their segments do not overlap. -/
structure Loader.Tiled (s : Loader) : Prop where
  ns : ∀ file ∈ s.lookup, file.ns = namespaceBase
  disjoint : (s.objects.flatMap fun o => s.memoryMap o.uid).Pairwise fun a b =>
    ∀ x, a.contains x = true → b.contains x = false

/-- The symbol is defined and its extent contains the address. -/
def Symbol.Spans (sym : Symbol) (base addr : Nat) : Prop :=
  sym.undefined = false ∧ base + sym.value ≤ addr ∧ addr < base + sym.value + sym.size

/-- The symbols of an object. -/
def Object.ownSymbols (o : Object) : List Symbol :=
  match o.kind with
  | .executable => []
  | .dynamic => o.elf.dynamicSymbols.map Prod.fst
  | .relocatable => o.symbols.map Prod.fst

/-- The symbols in the order in which `resolve_symbol` of an address visits them. -/
def Object.visited (order : List (Symbol × ObjectRef) → List (Symbol × ObjectRef)) (o : Object) :
    List Symbol :=
  match o.kind with
  | .executable => []
  | .dynamic => o.elf.dynamicSymbols.map Prod.fst
  | .relocatable => (order o.symbols).map Prod.fst

/-- The object finds a symbol for the address if it has one. -/
def Object.FindsSymbol (libs : Libs)
    (order : List (Symbol × ObjectRef) → List (Symbol × ObjectRef)) (addr : Nat) (o : Object) :
    Prop :=
  (∃ sym ∈ o.ownSymbols, sym.Spans o.base addr) →
    ∃ found, o.resolveSymbolAt libs order addr = some found ∧ found.symbol.Spans o.base addr

/-- The lookup of an address finds its owner, which is the object that `_dl_find_object` finds,
and the owner finds its symbol. -/
structure Loader.FindsOwner (libs : Libs)
    (order : List (Symbol × ObjectRef) → List (Symbol × ObjectRef)) (s : Loader) (addr : Nat) :
    Prop where
  object : ∀ o ∈ s.objects, s.Owns addr o → s.resolveObject addr namespaceBase = some o
  agrees : s.resolveObject addr namespaceBase = (s.dlFindObject addr).map DlFindObject.object
  symbol : ∀ o ∈ s.objects, s.Owns addr o → o.FindsSymbol libs order addr

/-- The object does not begin at the address, and in front of some symbol that contains the
address no other one ends there. -/
def Object.Discerns (order : List (Symbol × ObjectRef) → List (Symbol × ObjectRef)) (addr : Nat)
    (o : Object) : Prop :=
  o.base < addr ∧ ∃ pre sym post, o.visited order = pre ++ sym :: post ∧ sym.Spans o.base addr ∧
    sym.value + sym.size < 2 ^ 64 ∧
    ∀ other ∈ pre, other.undefined = false → o.base + other.value + other.size ≠ addr

/-- An object that is visited before any owner of the address has no segment that ends there,
and the owner distinguishes the symbols at the address. -/
structure Loader.Discerns (order : List (Symbol × ObjectRef) → List (Symbol × ObjectRef))
    (s : Loader) (addr : Nat) : Prop where
  segments : ∀ pre o post, s.objects = pre ++ o :: post → (∀ other ∈ pre, ¬ s.Owns addr other) →
    s.EndsAt addr o → s.Owns addr o
  symbols : ∀ o ∈ s.objects, s.Owns addr o → (∃ sym ∈ o.ownSymbols, sym.Spans o.base addr) →
    o.Discerns order addr

/-! ## First matches -/

section Find

variable {α : Type} {p q : α → Bool} {l : List α}

/-- A search with a weaker test finds the same element if no element that passes only the weaker
test comes first. -/
theorem find?_eq_iff (weaker : ∀ a, q a → p a) :
    l.find? p = l.find? q ↔
      ∀ pre a post, l = pre ++ a :: post → (∀ b ∈ pre, q b = false) → p a → q a := by
  induction l with
  | nil => simp
  | cons head tail ih =>
    by_cases strong : q head
    · rw [List.find?_cons_of_pos strong, List.find?_cons_of_pos (weaker head strong)]
      simp only [true_iff]
      intro pre a post split none _
      cases pre with
      | nil => exact (List.cons.inj split).1 ▸ strong
      | cons b pre =>
        have failed := none b List.mem_cons_self
        rw [← (List.cons.inj split).1, strong] at failed
        cases failed
    · rw [List.find?_cons_of_neg strong]
      by_cases weak : p head
      · rw [List.find?_cons_of_pos weak]
        constructor
        · intro found
          exact absurd (List.find?_some found.symm) strong
        · intro all
          exact absurd (all [] head tail rfl nofun weak) strong
      · rw [List.find?_cons_of_neg weak, ih]
        constructor
        · intro all pre a post split none holds
          cases pre with
          | nil => exact absurd ((List.cons.inj split).1 ▸ holds) weak
          | cons b pre =>
            exact all pre a post (List.cons.inj split).2
              (fun c member => none c (List.mem_cons_of_mem _ member)) holds
        · intro all pre a post split none holds
          apply all (head :: pre) a post (congrArg (head :: ·) split) _ holds
          intro b member
          rcases List.mem_cons.mp member with rfl | member
          · exact Bool.eq_false_iff.mpr strong
          · exact none b member

end Find

/-! ## Objects -/

section Objects

variable {s : Loader} {addr : Nat}

theorem MemorySegment.contains_iff {mem : MemorySegment} :
    mem.contains addr ↔ mem.address ≤ addr ∧ addr < (mem.address + mem.size) % 2 ^ 64 := by
  unfold MemorySegment.contains MemorySegment.address
  rw [Bool.and_eq_true, decide_eq_true_eq, decide_eq_true_eq, Nat.mod_add_mod]

/-- The test of `_dl_find_object`. -/
def Loader.owns (s : Loader) (addr : Nat) (o : Object) : Bool :=
  (s.memoryMap o.uid).any fun mem => mem.contains addr

theorem Loader.owns_iff {o : Object} : s.owns addr o ↔ s.Owns addr o := by
  simp [Loader.owns, Loader.Owns]

/-- The test of `resolve_object`. -/
def Loader.reaches (s : Loader) (addr : Nat) (o : Object) : Bool :=
  (s.memoryMap o.uid).any fun mem =>
    decide (mem.address ≤ addr ∧ addr ≤ (mem.address + mem.size) % 2 ^ 64)

theorem Loader.reaches_iff {o : Object} :
    s.reaches addr o ↔ s.Owns addr o ∨ s.EndsAt addr o := by
  unfold Loader.reaches Loader.Owns Loader.EndsAt
  simp only [List.any_eq_true, decide_eq_true_eq, MemorySegment.contains_iff]
  constructor
  · rintro ⟨mem, member, start, stop⟩
    rcases Nat.lt_or_eq_of_le stop with inside | atEnd
    · exact .inl ⟨mem, member, start, inside⟩
    · exact .inr ⟨mem, member, start, atEnd.symm⟩
  · rintro (⟨mem, member, start, stop⟩ | ⟨mem, member, start, atEnd⟩)
    · exact ⟨mem, member, start, stop.le⟩
    · exact ⟨mem, member, start, atEnd.ge⟩

theorem findSome?_congr_mem {α β : Type} {f g : α → Option β} {l : List α}
    (same : ∀ a ∈ l, f a = g a) : l.findSome? f = l.findSome? g := by
  induction l with
  | nil => rfl
  | cons head tail ih =>
    rw [List.findSome?_cons, List.findSome?_cons, same head List.mem_cons_self,
      ih fun a member => same a (List.mem_cons_of_mem _ member)]

theorem resolveObject_eq (ns : ∀ file ∈ s.lookup, file.ns = namespaceBase) :
    s.resolveObject addr namespaceBase = s.objects.find? (s.reaches addr) := by
  unfold Loader.objects
  rw [List.find?_flatMap]
  apply findSome?_congr_mem
  intro file member
  rw [if_neg (not_not.mpr (ns file member))]
  rfl

theorem dlFindObject_eq :
    (s.dlFindObject addr).map DlFindObject.object = s.objects.find? (s.owns addr) := by
  unfold Loader.dlFindObject Loader.objects
  rw [List.find?_flatMap, List.map_findSome?]
  apply findSome?_congr_mem
  intro file _
  rw [Function.comp_apply, List.map_findSome?, List.find?_eq_findSome?_guard]
  apply findSome?_congr_mem
  intro o _
  rw [Function.comp_apply]
  unfold Loader.owns
  cases found : (s.memoryMap o.uid).find? fun mem => mem.contains addr with
  | none =>
    have none : ((s.memoryMap o.uid).any fun mem => mem.contains addr) = false := by
      simpa using found
    simp [Option.guard, none]
  | some mem =>
    have isOwner : ((s.memoryMap o.uid).any fun mem => mem.contains addr) :=
      List.any_eq_true.mpr ⟨mem, List.mem_of_find?_eq_some found,
        (List.find?_eq_some_iff_append.mp found).1⟩
    simp [isOwner]

theorem Loader.Tiled.owner_unique (tiled : s.Tiled) {o o' : Object} (first : o ∈ s.objects)
    (second : o' ∈ s.objects) (owns : s.Owns addr o) (owns' : s.Owns addr o') : o = o' := by
  by_contra different
  let Disjoint := fun a b : Object => ∀ x ∈ s.memoryMap a.uid, ∀ y ∈ s.memoryMap b.uid, ∀ p,
    x.contains p → y.contains p = false
  have disjoint : s.objects.Pairwise Disjoint := (List.pairwise_flatMap.mp tiled.disjoint).2
  have symm : Std.Symm Disjoint := ⟨fun a b apart y inB x inA p isIn => by
    by_contra both
    have := apart x inA y inB p (Bool.eq_true_of_not_eq_false both)
    rw [isIn] at this
    cases this⟩
  obtain ⟨mem, member, contains⟩ := owns
  obtain ⟨mem', member', contains'⟩ := owns'
  have apart := disjoint.forall first second different mem member mem' member' addr contains
  rw [contains'] at apart
  cases apart

/-- The two searches agree exactly if no object in front ends at the address. -/
theorem resolveObject_agrees_iff (tiled : s.Tiled) :
    s.resolveObject addr namespaceBase = (s.dlFindObject addr).map DlFindObject.object ↔
      ∀ pre o post, s.objects = pre ++ o :: post → (∀ other ∈ pre, ¬ s.Owns addr other) →
        s.EndsAt addr o → s.Owns addr o := by
  have weaker : ∀ o, s.owns addr o → s.reaches addr o := fun o owns =>
    Loader.reaches_iff.mpr (.inl (Loader.owns_iff.mp owns))
  rw [resolveObject_eq tiled.ns, dlFindObject_eq, find?_eq_iff weaker]
  simp only [Loader.reaches_iff, Loader.owns_iff, ← Bool.not_eq_true]
  constructor
  · intro all pre o post split none atEnd
    exact all pre o post split none (.inr atEnd)
  · intro all pre o post split none reaches
    exact reaches.elim id (all pre o post split none)

theorem Loader.Tiled.dlFindObject (tiled : s.Tiled) {o : Object} (member : o ∈ s.objects)
    (owns : s.Owns addr o) : (s.dlFindObject addr).map DlFindObject.object = some o := by
  rw [dlFindObject_eq]
  obtain ⟨found, isFound⟩ := Option.isSome_iff_exists.mp
    (List.find?_isSome.mpr ⟨o, member, Loader.owns_iff.mpr owns⟩)
  rw [isFound, tiled.owner_unique (List.mem_of_find?_eq_some isFound) member
    (Loader.owns_iff.mp (List.find?_some isFound)) owns]

end Objects

/-! ## Symbols -/

section Symbols

variable {libs : Libs} {order : List (Symbol × ObjectRef) → List (Symbol × ObjectRef)} {o : Object}
  {base addr : Nat}

theorem Symbol.touches_iff {sym : Symbol} (after : base < addr) (word : addr < 2 ^ 64)
    (size : sym.size < 2 ^ 64) :
    sym.touches (addr - base) ↔ sym.undefined = false ∧ base + sym.value ≤ addr ∧
      addr ≤ base + sym.value + sym.size ∧ sym.value + sym.size < 2 ^ 64 := by
  unfold Symbol.touches
  simp only [Bool.and_eq_true, Bool.not_eq_true', decide_eq_true_eq, and_assoc]
  constructor
  · rintro ⟨defined, start, stop⟩
    exact ⟨defined, by omega, by omega, by omega⟩
  · rintro ⟨defined, start, stop, small⟩
    exact ⟨defined, by omega, by omega⟩

theorem resolveSymbolAt_symbol :
    (o.resolveSymbolAt libs order addr).map VersionedSymbol.symbol =
      if o.base < addr then (o.visited order).find? fun sym => sym.touches (addr - o.base)
      else none := by
  unfold Object.resolveSymbolAt Object.visited
  split
  · cases o.kind <;> simp [List.find?_map, Function.comp_def]
  · rfl

theorem mem_visited (permutes : ∀ l, (order l).Perm l) {sym : Symbol} :
    sym ∈ o.visited order ↔ sym ∈ o.ownSymbols := by
  unfold Object.visited Object.ownSymbols
  cases o.kind with
  | relocatable => exact ((permutes o.symbols).map Prod.fst).mem_iff
  | _ => exact Iff.rfl

theorem findsSymbol_iff (permutes : ∀ l, (order l).Perm l) (word : addr < 2 ^ 64)
    (sizes : ∀ sym ∈ o.ownSymbols, sym.size < 2 ^ 64) :
    o.FindsSymbol libs order addr ↔
      ((∃ sym ∈ o.ownSymbols, sym.Spans o.base addr) → o.Discerns order addr) := by
  replace sizes : ∀ sym ∈ o.visited order, sym.size < 2 ^ 64 := fun sym member =>
    sizes sym ((mem_visited permutes).mp member)
  have result := @resolveSymbolAt_symbol libs order o addr
  apply imp_congr Iff.rfl
  constructor
  · rintro ⟨found, isFound, spans⟩
    rw [isFound] at result
    split at result
    · rename_i after
      obtain ⟨touches, pre, post, split, none⟩ := List.find?_eq_some_iff_append.mp result.symm
      have member : found.symbol ∈ o.visited order := by
        rw [split]
        exact List.mem_append_right _ List.mem_cons_self
      have small := ((Symbol.touches_iff after word (sizes _ member)).mp touches).2.2.2
      refine ⟨after, pre, found.symbol, post, split, spans, small, fun other isOther defined atEnd => ?_⟩
      have visited : other ∈ o.visited order := by
        rw [split]
        exact List.mem_append_left _ isOther
      have passed : other.touches (addr - o.base) :=
        (Symbol.touches_iff after word (sizes _ visited)).mpr
          ⟨defined, by omega, by omega, by omega⟩
      have failed := none other isOther
      rw [passed] at failed
      cases failed
    · cases result
  · rintro ⟨after, pre, sym, post, split, spans, small, none⟩
    rw [if_pos after, split, List.find?_append] at result
    have member : sym ∈ o.visited order := by
      rw [split]
      exact List.mem_append_right _ List.mem_cons_self
    have touches : sym.touches (addr - o.base) :=
      (Symbol.touches_iff after word (sizes _ member)).mpr
        ⟨spans.1, spans.2.1, Nat.le_of_lt spans.2.2, small⟩
    -- The loop stops at a symbol in front, which does not end at the address, or at this one.
    have found : ∃ first, (o.resolveSymbolAt libs order addr).map VersionedSymbol.symbol =
        some first ∧ first.Spans o.base addr := by
      cases front : pre.find? fun sym => sym.touches (addr - o.base) with
      | none =>
        simp only [front, List.find?_cons, touches] at result
        exact ⟨sym, result, spans⟩
      | some first =>
        rw [front] at result
        have inFront := List.mem_of_find?_eq_some front
        have visited : first ∈ o.visited order := by
          rw [split]
          exact List.mem_append_left _ inFront
        obtain ⟨defined, start, stop, -⟩ := (Symbol.touches_iff after word (sizes _ visited)).mp
          (List.find?_eq_some_iff_append.mp front).1
        exact ⟨first, result, defined, start,
          Nat.lt_of_le_of_ne stop (none first inFront defined).symm⟩
    obtain ⟨first, isFirst, spans⟩ := found
    obtain ⟨found, isFound, rfl⟩ := Option.map_eq_some_iff.mp isFirst
    exact ⟨found, isFound, spans⟩

end Symbols

/-! ## The lookup -/

/-- Two functions, one behind the other, at the beginning of a section. -/
def adjacentFunctions : List Symbol :=
  [⟨"f", 0, 8, .stbGlobal, .sttFunc, .stvDefault, .index 1⟩,
    ⟨"g", 8, 8, .stbGlobal, .sttFunc, .stvDefault, .index 1⟩]

/-- The object with these functions. -/
def adjacentObject : Object :=
  { Object.construct 2 1 .relocatable (Elf.empty .rel) .none with
    base := 0x101000
    symbols := adjacentFunctions.map fun sym => (sym, ⟨1, 2⟩) }

/-- A library with one page, and directly behind it the object. -/
def adjacentObjects : Loader :=
  { Loader.initial with
    lookup := [
      .global 0 "libx.so" [{ Object.construct 1 0 .dynamic (Elf.library [] [] []) .none with
        base := 0x100000 }],
      .global 1 "y.o" [adjacentObject]]
    memoryMap := fun uid =>
      if uid = 1 then [MemorySegment.ofBss 0 0x1000 0x100000]
      else if uid = 2 then [MemorySegment.ofBss 0 0x1000 0x101000] else [] }

theorem adjacentObjects_tiled : adjacentObjects.Tiled := by
  refine ⟨by decide, ?_⟩
  apply List.pairwise_pair.mpr
  intro x first
  rw [MemorySegment.contains_iff] at first
  rw [Bool.eq_false_iff, Ne, MemorySegment.contains_iff]
  dsimp only [MemorySegment.address, MemorySegment.ofBss] at first ⊢
  omega

end Luci
