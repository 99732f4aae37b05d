import Luci.Proofs.Resolution
import Luci.Proofs.Trampolines

/-!
# Calls out of relocatable objects

The field of a `PLT32` or `PC32` relocation has 32 bits. If a function is too far away,
`ObjectRelocatable::relocate` puts a trampoline in its place (`src/object/relocatable.cpp:524-534`).
It does not check that there is one, nor that the trampoline is within reach.
-/

namespace Luci

open Exec VirtualMemory

/-- A value is the sign extension of its lower half. -/
def Fits (value : Nat) : Prop := displaced 0 (value % 2 ^ 32) = value % 2 ^ 64

instance (value : Nat) : Decidable (Fits value) := inferInstanceAs (Decidable (_ = _))

/-- What the field of a relocation has to hold for an address. -/
def distance (place : Nat) (addend : Int) (address : Nat) : Nat :=
  wordOfInt (address + addend - place)

/-- What is assumed of the `Relocator` for a call. -/
structure Libs.RelocatesCall (libs : Libs) (reloc : Relocation) : Prop where
  isCopy : libs.isCopy reloc = false
  width : libs.width reloc = 4
  address : ∀ base, libs.address reloc 0 base = base + reloc.offset
  plt : reloc.type = rX8664Plt32 → ∀ base symbol symbolBase pltEntry tlsModuleId tlsOffset,
    libs.valueExternal reloc 0 base symbol symbolBase pltEntry tlsModuleId tlsOffset =
      distance (base + reloc.offset) reloc.addend pltEntry
  pc : reloc.type = rX8664Pc32 → ∀ base symbol symbolBase pltEntry tlsModuleId tlsOffset,
    libs.valueExternal reloc 0 base symbol symbolBase pltEntry tlsModuleId tlsOffset =
      distance (base + reloc.offset) reloc.addend (symbolBase + symbol.value)
  valid : ∀ value, libs.validValue reloc value = decide (Fits value)

/-- `symbol_trampoline.set` returns this for a symbol, in some state of the table. -/
def Env.SetsTrampoline (e : Env) (sym : VersionedSymbol) (code : Option Nat) : Prop :=
  e.world.trampoline sym = code.getD 0 ∧ ∃ undefinedTrampoline tlsAddress t t' s s',
    Trampoline.set e undefinedTrampoline tlsAddress t sym s = some ((code, t'), s')

/-- A call of `relocate` for the call at a place writes a value that leads to the function or to
its trampoline, or it is postponed and writes nothing. -/
def CallArrives (place : Nat) (addend : Int) (function : Nat) (code : Option Nat) (s : Loader)
    (result : Nat × Bool) (s' : Loader) : Prop :=
  (result = (0, true) ∧ s'.vm = s.vm) ∨
    s.vm.writeNat 4 place result.1 = some s'.vm ∧ ∃ address,
      displaced (wordOfInt (place - addend)) (result.1 % 2 ^ 32) = address % 2 ^ 64 ∧
      (address = function ∨ code = some address)

/-- A relocation of `o` refers to a symbol of another object. -/
structure Loader.RefersTo (e : Env) (s : Loader) (r : ObjectRef) (o : Object) (i : ObjectIdentity)
    (reloc : Relocation) (sym : VersionedSymbol) (symobj : Object) : Prop where
  object : s.object r = some o
  identity : s.identity r.file = some i
  index : reloc.symbolIndex ≠ 0
  needed : ∃ needed, o.elf.symbolTable[reloc.symbolIndex]? = some needed ∧
    needed.undefined = true ∧ s.resolveSymbol e (i.externalQuery e reloc needed) = some (some sym)
  defined : s.object sym.object = some symobj

section Calls

variable {e : Env} {s s' : Loader} {o symobj : Object} {i : ObjectIdentity} {r : ObjectRef}
  {reloc : Relocation} {needed : Symbol} {sym : VersionedSymbol} {postpone : Bool}
  {result : Nat × Bool} {code : Option Nat} {place address : Nat} {addend : Int}

theorem displaced_eq_iff {value : Nat} :
    displaced (wordOfInt (place - addend)) (value % 2 ^ 32) = address % 2 ^ 64 ↔
      displaced 0 (value % 2 ^ 32) = distance place addend address := by
  unfold displaced distance wordOfInt
  split <;> omega

theorem fits_of_displaced {value : Nat}
    (same : displaced 0 (value % 2 ^ 32) = distance place addend address) :
    Fits (distance place addend address) := by
  unfold Fits
  rw [← same]
  unfold displaced
  split <;> split <;> omega

/-- An address is reached through its distance if that fits. -/
theorem displaced_distance : displaced (wordOfInt (place - addend))
    (distance place addend address % 2 ^ 32) = address % 2 ^ 64 ↔ Fits (distance place addend address) := by
  have small : distance place addend address % 2 ^ 64 = distance place addend address := by
    unfold distance wordOfInt
    omega
  rw [displaced_eq_iff, Fits, small]

theorem externalValue_call (relocator : e.libs.RelocatesCall reloc)
    (isCall : reloc.type = rX8664Plt32 ∨ reloc.type = rX8664Pc32)
    (isFunction : sym.symbol.type.isFunction) (value : sym.symbol.value < 2 ^ 64) :
    externalValue e o symobj i reloc sym = distance (o.base + reloc.offset) reloc.addend
      (if Fits (distance (o.base + reloc.offset) reloc.addend (symobj.base + sym.symbol.value)) then
        symobj.base + sym.symbol.value else e.world.trampoline sym) := by
  have wraps : distance (o.base + reloc.offset) reloc.addend
      (subWord (e.world.trampoline sym) sym.symbol.value + sym.symbol.value) =
      distance (o.base + reloc.offset) reloc.addend (e.world.trampoline sym) := by
    unfold distance wordOfInt subWord
    omega
  unfold externalValue
  rcases isCall with plt | pc
  · simp only [relocator.plt plt, relocator.valid]
    split <;> simp_all
  · have other : reloc.type ≠ rX8664Plt32 := by rw [pc]; decide
    simp only [relocator.pc pc, relocator.valid]
    split <;> simp_all

/-- What `relocate` does about a call: it is postponed, or the value is written. -/
theorem relocateInRelocatable_call (relocator : e.libs.RelocatesCall reloc)
    (isCall : reloc.type = rX8664Plt32 ∨ reloc.type = rX8664Pc32)
    (refers : s.RefersTo e r o i reloc sym symobj)
    (run : relocateInRelocatable e r reloc postpone s = some (result, s')) :
    if postpone ∧ sym.symbol.type = .sttGnuIfunc then result = (0, true) ∧ s'.vm = s.vm
    else result = (externalValue e o symobj i reloc sym, false) ∧
      s.vm.writeNat 4 (o.base + reloc.offset) (externalValue e o symobj i reloc sym) = some s'.vm := by
  obtain ⟨s1, resolution, relaxed, resolved, run⟩ :=
    relocateInRelocatable_inv refers.object refers.identity run
  obtain rfl : s1 = s := by
    unfold relaxGot at relaxed
    rw [
      if_neg (by rcases isCall with type | type <;> simp [type, rX8664Plt32, rX8664Pc32, rX8664Gotpcrelx, rX8664RexGotpcrelx])] at relaxed
    exact (pure_inv relaxed).2
  obtain ⟨needed, isNeeded, undefined, resolves⟩ := refers.needed
  rcases resolution_inv resolved with ⟨zero, -⟩ | ⟨needed', -, isNeeded', cases⟩
  · exact absurd zero refers.index
  obtain rfl := Option.some.inj (isNeeded.symm.trans isNeeded')
  rcases cases with ⟨wrong, -⟩ | ⟨-, found, isFound, cases⟩
  · cases undefined.symm.trans wrong
  cases resolves.symm.trans isFound
  obtain ⟨_, isObject, rfl⟩ := cases
  cases refers.defined.symm.trans isObject
  split at run
  case isTrue waits =>
    rw [if_pos waits]
    cases run
    exact ⟨rfl, rfl⟩
  case isFalse now =>
    rw [if_neg now]
    obtain ⟨_, s2, bound, run⟩ := bind_inv run
    cases modify_inv bound
    obtain ⟨_, s3, fixed, run⟩ := bind_inv run
    obtain ⟨rfl, rfl⟩ := pure_inv run
    unfold fixValue writeMemory at fixed
    rw [relocator.isCopy, relocator.width, relocator.address, if_neg Bool.false_ne_true,
      bind_of_eq (get_apply _)] at fixed
    obtain ⟨vm, written, fixed⟩ := orAbort_bind_inv fixed
    cases fixed
    exact ⟨rfl, written⟩

end Calls

/-! ## A call without a trampoline -/

/-- The `Relocator` for calls. -/
def Libs.calls : Libs :=
  { Libs.reference with
    width _ := 4
    valueExternal r _ base symbol symbolBase pltEntry _ _ :=
      distance (base + r.offset) r.addend
        (if r.type = rX8664Plt32 then pltEntry else symbolBase + symbol.value)
    validValue _ value := Fits value }

/-- No memory can be mapped, so there are no trampolines. -/
def outOfMemory : Env :=
  { Env.noFiles with
    libs := Libs.calls
    world := { Env.noFiles.world with succeeds _ := false } }

/-- The library with the function `f`, loaded at an address. -/
def Object.definesF (base : Nat) : Object :=
  { Object.construct 3 2 .dynamic (Elf.sharedObject [.function "f"]) Data.none with base := base }

/-- A file that calls `f` is loaded at address 0, and the library. -/
def calledF (base : Nat) : Loader :=
  { loadedF .stbGlobal with
    lookup := (loadedF .stbGlobal).lookup ++ [.global 2 "libf.so" [.definesF base]]
    vm := Vm.empty.map 0 pageSize ⟨true, true, false⟩ (.anonymous 0) }

/-- The call of `f`. -/
def callOfF : Relocation := ⟨0, rX8664Plt32, 1, -4⟩

theorem calls_relocates : outOfMemory.libs.RelocatesCall callOfF where
  isCopy := rfl
  width := rfl
  address _ := rfl
  plt _ _ _ _ _ _ _ := rfl
  pc wrong := by cases wrong
  valid _ := rfl

/-- The function `f` of the library. -/
def functionF : VersionedSymbol := ⟨.function "f", ⟨2, 3⟩, .ofValid true⟩

theorem callOfF_refers (base : Nat) : (calledF base).RefersTo outOfMemory ⟨0, 1⟩ (.callsF .stbGlobal)
    (.global 0 "f.o" [.callsF .stbGlobal]) callOfF functionF (.definesF base) where
  object := rfl
  identity := rfl
  index := by decide
  needed := ⟨_, rfl, rfl, rfl⟩
  defined := rfl

theorem sets_nothing : outOfMemory.SetsTrampoline functionF none := by
  have evaluated : (Trampoline.set outOfMemory 0 (fun _ _ => 0) .initial functionF (calledF 0)).map
      (fun p => p.1.1) = some none := by decide +kernel
  obtain ⟨⟨⟨code, t'⟩, s'⟩, run, isNone⟩ := Option.map_eq_some_iff.mp evaluated
  obtain rfl : code = none := isNone
  exact ⟨rfl, 0, _, _, t', _, s', run⟩

end Luci
