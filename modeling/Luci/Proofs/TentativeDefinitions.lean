import Luci.Proofs.Frame
import Luci.Proofs.AddressSpace

/-!
# Tentative definitions

`ObjectRelocatable::preprepare` gives an address to the `SHN_COMMON` symbols of an object:
the one of a definition in the current version of a loaded object, or new storage behind
everything mapped. When an object is updated, its new version is already current, so the
previous version is not among the objects searched, and a variable that no other object
defines gets new storage.
-/

namespace Luci

open Exec

variable {base own : Nat} {syms : List Symbol} {symbols : List (Symbol × ObjectRef)}

/-- A symbol `preprepare` looks for. -/
def Symbol.tentative (sym : Symbol) : Bool := sym.size ≠ 0 && sym.sectionIndex = .common

/-- The symbol of the same name, type and size in the current version of an identity. The object
with the address `own` has got `symbols` so far. -/
def ObjectIdentity.definition (own : Nat) (symbols : List (Symbol × ObjectRef)) (sym : Symbol)
    (file : ObjectIdentity) : Option (Symbol × ObjectRef) :=
  file.current.bind fun current =>
    ((if current.uid = own then { current with symbols := symbols } else current).resolveInternalSymbol
      sym.name).filter fun entry => entry.1.type = sym.type && entry.1.size = sym.size

/-- The address of the first definition of a tentative symbol, in the order of `lookup`. -/
def Loader.definition (s : Loader) (own : Nat) (symbols : List (Symbol × ObjectRef))
    (sym : Symbol) : Option Nat :=
  s.lookup.findSome? fun file =>
    (file.definition own symbols sym).map fun entry => (file.base + entry.1.value) % 2 ^ 64

/-- The first identity with a definition of a tentative symbol, and the definition. -/
def Loader.binding (s : Loader) (own : Nat) (symbols : List (Symbol × ObjectRef)) (sym : Symbol) :
    Option (ObjectIdentity × Symbol × ObjectRef) :=
  s.lookup.findSome? fun file => (file.definition own symbols sym).map fun entry => (file, entry)

section Loop

variable {e : Env} {o : Object} {c c' : Common} {s s' s₀ : Loader} {sym : Symbol}

theorem Loader.definition_eq :
    s.definition own symbols sym =
      (s.binding own symbols sym).map fun b => (b.1.base + b.2.1.value) % 2 ^ 64 := by
  unfold Loader.definition Loader.binding
  rw [List.map_findSome?]
  congr 1
  funext file
  rw [Function.comp_apply, Option.map_map]
  rfl

/-- `findCommon` finds the first definition. -/
theorem findCommon_eq {found : Option (Symbol × ObjectRef × Nat)}
    (run : findCommon own symbols sym s.lookup = some found) :
    found = (s.binding own symbols sym).map fun b => (b.2.1, b.2.2, b.1.base) := by
  unfold Loader.binding
  generalize s.lookup = files at run ⊢
  induction files with
  | nil =>
    cases run
    rfl
  | cons file files ih =>
    obtain ⟨current, isCurrent, run⟩ := Option.bind_eq_some_iff.mp run
    have here : file.definition own symbols sym =
        ((if current.uid = own then { current with symbols := symbols }
          else current).resolveInternalSymbol sym.name).filter fun entry =>
            entry.1.type = sym.type && entry.1.size = sym.size := by
      rw [ObjectIdentity.definition, isCurrent, Option.bind_some]
    rw [List.findSome?_cons]
    simp only [← here] at run
    cases current : file.definition own symbols sym with
    | none =>
      rw [current] at run
      exact ih run
    | some entry =>
      rw [current] at run
      cases run
      rfl

theorem prepareCommon_other (other : sym.tentative = false)
    (run : prepareCommon e o c sym s = some (c', s')) :
    c' = { c with symbolTable := c.symbolTable ++ [sym] } ∧ s' = s := by
  unfold prepareCommon at run
  have skipped : ¬ ((sym.size ≠ 0 && sym.sectionIndex = .common)) := by
    rw [show (sym.size ≠ 0 && sym.sectionIndex = .common) = sym.tentative from rfl, other]
    exact Bool.false_ne_true
  rw [if_neg skipped] at run
  exact pure_inv run

/-- A tentative definition gets the address of a definition, or storage behind `commonBase`. -/
theorem prepareCommon_tentative (tentative : sym.tentative)
    (run : prepareCommon e o c sym s = some (c', s')) :
    ∃ found placed, findCommon o.uid c.symbols sym s.lookup = some found ∧
      c'.symbolTable = c.symbolTable ++ [placed] ∧
      match found with
      | some (initSym, owner, base) =>
        placed = { sym with value := subWord (base + initSym.value) o.base } ∧
          c'.symbols = insertSymbol c.symbols initSym owner ∧ c'.commonBase = c.commonBase ∧ s' = s
      | none =>
        commonAddress e c s = some (c'.commonBase, s') ∧ o.base < c'.commonBase ∧
          placed = { sym with value := c'.commonBase - o.base + alignUp c.globalBss sym.value } ∧
          c'.symbols = insertSymbol c.symbols placed o.ref := by
  have taken : (sym.size ≠ 0 && sym.sectionIndex = .common) := tentative
  unfold prepareCommon at run
  rw [if_pos taken, bind_of_eq (get_apply s)] at run
  obtain ⟨found, isFound, run⟩ := orAbort_bind_inv run
  refine ⟨found, ?_⟩
  cases found with
  | some entry =>
    obtain ⟨rfl, rfl⟩ := pure_inv run
    exact ⟨_, isFound, rfl, rfl, rfl, rfl, rfl⟩
  | none =>
    obtain ⟨commonBase, s₁, allocated, run⟩ := bind_inv run
    obtain ⟨above, run⟩ := require_bind_inv run
    obtain ⟨rfl, rfl⟩ := pure_inv run
    exact ⟨_, isFound, rfl, allocated, of_decide_eq_true above, rfl, rfl⟩

/-- The storage starts at the first address requested in the loop. -/
def Common.Started (e : Env) (s₀ : Loader) (c : Common) (s : Loader) : Prop :=
  (c.commonBase = 0 ∧ s = s₀) ∨ (c.commonBase ≠ 0 ∧ nextAddress e 0 s₀ = some (c.commonBase, s))

section Started

variable (started : c.Started e s₀ s)

include started

theorem Common.Started.commonAddress (run : commonAddress e c s = some (base, s')) :
    nextAddress e 0 s₀ = some (base, s') := by
  unfold Luci.commonAddress at run
  rcases started with ⟨zero, rfl⟩ | ⟨nonzero, allocated⟩
  · rwa [if_pos zero] at run
  · rw [if_neg nonzero] at run
    obtain ⟨rfl, rfl⟩ := pure_inv run
    exact allocated

theorem Common.Started.lookup : s.lookup = s₀.lookup := by
  rcases started with ⟨-, rfl⟩ | ⟨-, allocated⟩
  · rfl
  · exact (nextAddress_frame allocated).2.1

theorem Common.Started.step (run : prepareCommon e o c sym s = some (c', s')) :
    c'.Started e s₀ s' := by
  cases tentative : sym.tentative with
  | false =>
    obtain ⟨rfl, rfl⟩ := prepareCommon_other tentative run
    exact started
  | true =>
    obtain ⟨found, placed, -, -, outcome⟩ := prepareCommon_tentative tentative run
    cases found with
    | some entry =>
      obtain ⟨-, -, same, rfl⟩ := outcome
      unfold Common.Started
      rwa [same]
    | none =>
      obtain ⟨allocated, above, -, -⟩ := outcome
      exact Or.inr ⟨by omega, started.commonAddress allocated⟩

theorem Common.Started.loop (run : syms.foldlM (prepareCommon e o) c s = some (c', s')) :
    c'.Started e s₀ s' := by
  induction syms generalizing c s with
  | nil =>
    obtain ⟨rfl, rfl⟩ := pure_inv run
    exact started
  | cons sym syms ih =>
    obtain ⟨c1, s₁, first, rest⟩ := bind_inv run
    exact ih (started.step first) rest

end Started

theorem prepareCommon_table (run : prepareCommon e o c sym s = some (c', s')) :
    ∃ placed, c'.symbolTable = c.symbolTable ++ [placed] := by
  cases tentative : sym.tentative with
  | false =>
    obtain ⟨rfl, -⟩ := prepareCommon_other tentative run
    exact ⟨sym, rfl⟩
  | true =>
    obtain ⟨-, placed, -, table, -⟩ := prepareCommon_tentative tentative run
    exact ⟨placed, table⟩

theorem prepareCommon_tables (run : syms.foldlM (prepareCommon e o) c s = some (c', s')) :
    ∃ placed : List Symbol, placed.length = syms.length ∧
      c'.symbolTable = c.symbolTable ++ placed := by
  induction syms generalizing c s with
  | nil =>
    obtain ⟨rfl, rfl⟩ := pure_inv run
    exact ⟨[], rfl, (List.append_nil _).symm⟩
  | cons sym syms ih =>
    obtain ⟨c1, s₁, first, rest⟩ := bind_inv run
    obtain ⟨placed, table⟩ := prepareCommon_table first
    obtain ⟨others, length, tables⟩ := ih rest
    refine ⟨placed :: others, by simp [length], ?_⟩
    rw [tables, table, List.append_assoc]
    rfl

end Loop

/-! ## The previous version -/

/-- A tentative definition that the previous version has, too. -/
structure Loader.Retained (s : Loader) (r : ObjectRef) (p : Object) (prev sym : Symbol) : Prop where
  previous : s.filePrevious r = some p
  member : prev ∈ p.elf.symbolTable
  tentative : prev.tentative = true
  name : prev.name = sym.name
  type : prev.type = sym.type
  size : prev.size = sym.size

/-- The address of a symbol. -/
def Object.symbolAddress (o : Object) (sym : Symbol) : Nat := (o.base + sym.value) % 2 ^ 64

section Update

variable {e : Env} {r : ObjectRef} {o p : Object} {c c' : Common} {s s' s₀ s₁ : Loader}
  {prev sym : Symbol}

theorem add_subWord {base value : Nat} (word : base < 2 ^ 64) :
    (base + subWord value base) % 2 ^ 64 = value % 2 ^ 64 := by
  unfold subWord
  omega

/-- The address a tentative definition gets is not one in use, unless it is the one of a
definition. -/
theorem prepareCommon_address {old size : Nat} (positive : 0 < size) (known : s₀.Known ⟨old, size⟩)
    (word : o.base < 2 ^ 64) (started : c.Started e s₀ s) (tentative : sym.tentative)
    (fits : alignUp (s₀.knownEnd e) VirtualMemory.pageSize + alignUp c.globalBss sym.value < 2 ^ 64)
    (run : prepareCommon e o c sym s = some (c', s')) :
    ∃ placed, c'.symbolTable = c.symbolTable ++ [placed] ∧
      (o.symbolAddress placed = old ↔ s₀.definition o.uid c.symbols sym = some old) := by
  obtain ⟨found, placed, searched, table, outcome⟩ := prepareCommon_tentative tentative run
  rw [started.lookup] at searched
  have definition : s₀.definition o.uid c.symbols sym =
      found.map fun entry => (entry.2.2 + entry.1.value) % 2 ^ 64 := by
    rw [Loader.definition_eq, findCommon_eq searched, Option.map_map]
    rfl
  refine ⟨placed, table, ?_⟩
  cases found with
  | some entry =>
    obtain ⟨rfl, -, -, -⟩ := outcome
    rw [definition, Option.map_some, Option.some.injEq, Object.symbolAddress, add_subWord word]
  | none =>
    obtain ⟨allocated, above, rfl, -⟩ := outcome
    have first := started.commonAddress allocated
    obtain ⟨start, behind⟩ := nextAddress_start (by omega) first
    rw [← start] at fits
    have inUse : old + size ≤ s₀.highestEnd s₀.nextLibraryAddress := known.le_highestEnd
    have address : o.symbolAddress
        { sym with value := c'.commonBase - o.base + alignUp c.globalBss sym.value } =
        c'.commonBase + alignUp c.globalBss sym.value := by
      rw [Object.symbolAddress, ← Nat.add_assoc, Nat.add_sub_cancel' (Nat.le_of_lt above),
        Nat.mod_eq_of_lt fits]
    rw [definition]
    simp only [Option.map_none, reduceCtorEq, iff_false]
    omega

/-- The object with the tables of the loop. -/
def Common.written (c : Common) (o : Object) : Object :=
  { o with
    elf := { o.elf with symbolTable := c.symbolTable }
    symbols := c.symbols
    preprepared := true }

theorem preprepareRelocatable_inv (isObject : s.object r = some o) (notYet : o.preprepared = false)
    (run : preprepareRelocatable e r s = some ((), s')) :
    ∃ c s₁, o.elf.symbolTable.foldlM (prepareCommon e o) ⟨[], o.symbols, 0, 0⟩ s = some (c, s₁) ∧
      s'.lookup = (s₁.modifyObject r c.written).lookup := by
  obtain ⟨o', found, run⟩ := getObject_bind_inv run
  rw [isObject] at found
  cases found
  rw [notYet] at run
  obtain ⟨c, s₁, placed, run⟩ := bind_inv run
  refine ⟨c, s₁, placed, ?_⟩
  obtain ⟨u, s2, written, run⟩ := bind_inv run
  have isWritten : s2 = s₁.modifyObject r c.written := modify_inv written
  rw [← isWritten]
  split at run
  · obtain ⟨o', -, run⟩ := getObject_bind_inv run
    obtain ⟨⟨ok, seg⟩, s3, mapped, run⟩ := bind_inv run
    rw [modify_inv run]
    have quiet : Quiet s2 s3 := frame_map _ _ _ _ _ mapped
    exact quiet.lookup
  · obtain ⟨-, rfl⟩ := pure_inv run
    rfl

/-- A tentative definition of the previous version keeps its address if and only if the first
definition in the current versions of the loaded objects is at this address, when the loop
reaches the symbol. The storage is in a range known to `next_address`, and the storage of
the new version does not wrap around. -/
theorem tentative_kept_iff {pre post : List Symbol} (isObject : s.object r = some o)
    (word : o.base < 2 ^ 64) (notYet : o.preprepared = false)
    (table : o.elf.symbolTable = pre ++ sym :: post) (retained : s.Retained r p prev sym)
    (tentative : sym.tentative = true) (known : s.Known ⟨p.symbolAddress prev, prev.size⟩)
    (reached : pre.foldlM (prepareCommon e o) ⟨[], o.symbols, 0, 0⟩ s = some (c, s₁))
    (fits : alignUp (s.knownEnd e) VirtualMemory.pageSize + alignUp c.globalBss sym.value < 2 ^ 64)
    (run : preprepareRelocatable e r s = some ((), s')) :
    ∃ o' placed, s'.object r = some o' ∧ o'.elf.symbolTable[pre.length]? = some placed ∧
      (o'.symbolAddress placed = p.symbolAddress prev ↔
        s.definition o.uid c.symbols sym = some (p.symbolAddress prev)) := by
  have positive : 0 < prev.size := by
    have nonzero := retained.tentative
    simp only [Symbol.tentative, Bool.and_eq_true, decide_eq_true_eq] at nonzero
    omega
  obtain ⟨c2, s₂, loop, lookup⟩ := preprepareRelocatable_inv isObject notYet run
  rw [table, List.foldlM_append, bind_of_eq reached] at loop
  obtain ⟨c1, s3, step, rest⟩ := bind_inv loop
  have started : c.Started e s s₁ := Common.Started.loop (Or.inl ⟨rfl, rfl⟩) reached
  obtain ⟨placed, here, same⟩ :=
    prepareCommon_address positive known word started tentative fits step
  obtain ⟨before, length, tableBefore⟩ := prepareCommon_tables reached
  obtain ⟨after, -, tableAfter⟩ := prepareCommon_tables rest
  have isObject2 : s₂.object r = some o := by
    rw [Loader.object_congr ((started.step step).loop rest).lookup]
    exact isObject
  have isObject' : s'.object r = some (c2.written o) := by
    rw [Loader.object_congr lookup]
    exact Loader.object_modifyObject isObject2 fun _ => rfl
  refine ⟨c2.written o, placed, isObject', ?_, same⟩
  show c2.symbolTable[pre.length]? = some placed
  rw [tableAfter, here, tableBefore, List.nil_append, List.append_assoc, ← length,
    List.getElem?_append_right (Nat.le_refl _), Nat.sub_self]
  rfl

end Update

/-! ## Two updates -/

/-- `int x;` -/
def Symbol.commonX : Symbol := ⟨"x", 4, 4, .stbGlobal, .sttObject, .stvDefault, .common⟩

/-- `int x = …;` -/
def Symbol.definedX : Symbol := ⟨"x", 0x10, 4, .stbGlobal, .sttObject, .stvDefault, .index 1⟩

/-- The object `y.o`, which defines `x`. -/
def definingX : Object :=
  { Object.construct 10 1 .relocatable (Elf.empty .rel) Data.none with
    base := 0x600000
    symbols := [(.definedX, ⟨1, 10⟩)] }

/-- A version of `x.o` with this declaration of `x`. -/
def declaresX (uid : Nat) (x : Symbol) : Object :=
  { Object.construct uid 0 .relocatable { Elf.empty .rel with symbolTable := [x] } Data.none with
    base := 0x700000 }

/-- The previous version of `x.o` uses the variable of `y.o`. -/
def previousX : Object :=
  declaresX 11 { Symbol.commonX with value := subWord 0x600010 0x700000 }

/-- A new version of `x.o` has been preloaded. -/
def updatesX : Loader :=
  { Loader.initial with
    lookup := [{ ObjectIdentity.global 1 "y.o" [definingX] with base := 0x600000 },
      { ObjectIdentity.global 0 "x.o" [declaresX 12 .commonX, previousX] with base := 0x700000 }]
    nextLibraryAddress := 0x800000 }

theorem tentative_kept_iff_defined : ∃ s' o' placed,
    preprepareRelocatable Env.noFiles ⟨0, 12⟩ updatesX = some ((), s') ∧
      s'.object ⟨0, 12⟩ = some o' ∧ o'.elf.symbolTable[0]? = some placed ∧
      o'.symbolAddress placed = 0x600010 := by
  have run : preprepareRelocatable Env.noFiles ⟨0, 12⟩ updatesX =
      some ((), (preprepareRelocatable Env.noFiles ⟨0, 12⟩ updatesX |>.get (by decide +kernel)).2) := by
    rfl
  have retained : updatesX.Retained ⟨0, 12⟩ previousX
      { Symbol.commonX with value := subWord 0x600010 0x700000 } .commonX :=
    ⟨rfl, List.mem_singleton_self _, rfl, rfl, rfl, rfl⟩
  have known : updatesX.Known ⟨0x600010, 4⟩ := Or.inl (by decide)
  obtain ⟨o', placed, isObject, isSymbol, same⟩ := tentative_kept_iff
    rfl (by decide) rfl (show [Symbol.commonX] = [] ++ Symbol.commonX :: [] from rfl) retained rfl known rfl
    (by decide +kernel) run
  exact ⟨_, o', placed, run, isObject, isSymbol, same.mpr (by decide +kernel)⟩

/-- Code of a relocatable object. -/
def Section.text : Section := ⟨".text", .progbits, 0, 16, 1, 0, true, false, true, false, []⟩

/-- A version of a file with `int x;`. -/
def openedX (modificationTime : Nat) : Opened :=
  ⟨⟨(modificationTime, 0), 0, none, 0, modificationTime⟩,
    { Elf.empty .rel with sections := [.text], symbolTable := [.null, .commonX] }, .rel⟩

/-- The address of `x` in a version. -/
def addressOfX (r : Option ObjectRef) : LoaderM (Option Nat) := do
  let s ← get
  return (r.bind s.object).bind fun o =>
    (o.elf.symbolTable.find? fun sym => sym.name = "x").map o.symbolAddress

/-- Load `x.o`, prepare it, and create a new version once it is initialized. -/
def loadTwiceX : LoaderM (Option Nat × Option Nat) := do
  let (first, _) ← create Env.noFiles (fun _ _ _ _ _ => return none) 0 (openedX 0)
  Exec.forEach (preprepareRelocatable Env.noFiles) first.toList
  modify (Loader.modifyIdentity 0 fun i => { i with flags := { i.flags with initialized := true } })
  let (second, _) ← create Env.noFiles (fun _ _ _ _ _ => return none) 0 (openedX 1)
  return (← addressOfX first, ← addressOfX second)

/-- Nothing but `x.o` is loaded: the new version has another variable. -/
theorem tentative_replaced :
    (loadTwiceX { Loader.initial with lookup := [.global 0 "x.o" []] }).map Prod.fst =
      some (some 0x401000, some 0x403000) := by
  decide +kernel

end Luci
