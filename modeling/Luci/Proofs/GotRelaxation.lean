import Luci.Misc.X86
import Luci.Proofs.FarCalls

/-!
# Instructions that would need a global offset table

A relocatable object has no such table, so `ObjectRelocatable::relocate` rewrites an instruction with
an operand in it to one with the address itself (`src/object/relocatable.cpp:450-478`) and stores the
distance of the symbol. It rewrites `mov`, `call` and `jmp`. The specification of the relocation
types also allows `test` and operations such as `add`: these keep their opcode and find what is in
the memory of the symbol instead of its address.
-/

namespace Luci

open Exec VirtualMemory X86

/-- The bytes that the processor fetches. -/
def Loader.code (s : Loader) : Nat → UInt8 := s.snapshot 0

/-- The address of the symbol of a relocation (`src/object/relocatable.cpp:484-522`). -/
def Loader.symbolAddress (e : Env) (s : Loader) (o : Object) (i : ObjectIdentity)
    (reloc : Relocation) : Option Nat :=
  (o.elf.symbolTable[reloc.symbolIndex]?).bind fun needed =>
    if needed.undefined then
      (s.resolveSymbol e (i.externalQuery e reloc needed)).join.bind fun sym =>
        (s.object sym.object).map fun symobj => symobj.base + sym.symbol.value
    else match s.newerFunction o needed with
      | some (current, latest, _) => some (current.base + latest.value)
      | none => some (if needed.type = .sttGnuIfunc then e.world.ifunc (o.base + needed.value)
          else o.base + needed.value)

/-- What is assumed of the `Relocator` for these types. -/
structure Libs.RelocatesGot (libs : Libs) (reloc : Relocation) : Prop where
  isCopy : libs.isCopy reloc = false
  width : libs.width reloc = 4
  address : ∀ base, libs.address reloc 0 base = base + reloc.offset
  internal : ∀ base pltEntry tlsModuleId tlsOffset,
    libs.valueInternal reloc 0 base pltEntry tlsModuleId tlsOffset =
      distance (base + reloc.offset) reloc.addend pltEntry
  external : ∀ base symbol symbolBase pltEntry tlsModuleId tlsOffset,
    libs.valueExternal reloc 0 base symbol symbolBase pltEntry tlsModuleId tlsOffset =
      distance (base + reloc.offset) reloc.addend (symbolBase + symbol.value)

/-- The instruction stands in memory as it was or as it is after the relocation. -/
def Loader.HoldsInstruction (s : Loader) (ins : Instruction) (start : Nat) : Prop :=
  (∃ b offset, s.vm.Shows start (ins.rex.length + 6) b offset) ∧
    (ins.At ins.opcode s.code start ∨ ins.At (relaxed ins.opcode) s.code start)

section Relaxation

variable {e : Env} {s s' : Loader} {o : Object} {i : ObjectIdentity} {r : ObjectRef}
  {reloc : Relocation} {postpone : Bool} {ins : Instruction} {b : Backing} {resolution : Resolution}
  {address base length n offset start value : Nat}

theorem relaxed_eq (opcode modrm : UInt8) : relaxed (opcode, modrm) =
    if opcode.toNat = 0x8b then (0x8d, modrm)
    else if opcode.toNat = 0xff ∧ modrm.toNat = 0x15 then (0x90, 0xe8)
    else if opcode.toNat = 0xff ∧ modrm.toNat = 0x25 then (0x90, 0xe9)
    else (opcode, modrm) := by
  simp only [relaxed, Prod.mk.injEq, ← UInt8.toNat_inj]
  rfl

theorem code_shown (shown : s.vm.Shows start length b offset) {k : Nat} (lt : k < length) :
    s.code (start + k) = s.vm.content b (offset + k) := by
  rw [Loader.code, Loader.snapshot, Nat.zero_add, shown k lt]

theorem readMemory_code {found : Nat} (run : readMemory 1 address s = some (found, s')) :
    s' = s ∧ found = (s.code address).toNat := by
  unfold readMemory at run
  rw [bind_of_eq (get_apply s)] at run
  obtain ⟨read, rfl⟩ := orAbort_inv run
  obtain ⟨byte, isByte, read⟩ := Option.bind_eq_some_iff.mp read
  obtain rfl : byte.toNat = found := Option.some.inj read
  unfold Vm.readByte at isByte
  split at isByte
  · obtain ⟨place, located, rfl⟩ := Option.map_eq_some_iff.mp isByte
    rw [Loader.code, Loader.snapshot, Nat.zero_add, located]
    exact ⟨rfl, rfl⟩
  · cases isByte

/-- What a write to bytes that are shown does. -/
theorem writeMemory_code (shown : s.vm.Shows start length b offset) {k : Nat} (fits : k + n ≤ length)
    (run : writeMemory n (start + k) value s = some ((), s')) :
    s'.vm.Shows start length b offset ∧ ∀ j < length,
      s'.code (start + j) = if k ≤ j ∧ j < k + n then byteOf value (j - k) else s.code (start + j) := by
  unfold writeMemory at run
  rw [bind_of_eq (get_apply s)] at run
  obtain ⟨vm, written, run⟩ := orAbort_bind_inv run
  cases run
  have page := (Vm.writeNat_stored written).page
  have stays : vm.Shows start length b offset := fun j lt => by rw [Vm.locate_congr page, shown j lt]
  have content := Vm.writeBytes_shown _ n (shown.part fits) written
  refine ⟨stays, fun j lt => ?_⟩
  rw [code_shown stays lt, code_shown shown lt, content, overlay]
  simp only [Nat.add_assoc, Nat.add_le_add_iff_left, Nat.add_lt_add_iff_left, Nat.add_sub_add_left]

theorem writeByte_code (shown : s.vm.Shows start length b offset) {k : Nat} (fits : k < length)
    (run : writeMemory 1 (start + k) value s = some ((), s')) :
    s'.vm.Shows start length b offset ∧ s'.code (start + k) = byteOf value 0 ∧
      ∀ j < length, j ≠ k → s'.code (start + j) = s.code (start + j) := by
  obtain ⟨stays, code⟩ := writeMemory_code shown fits run
  refine ⟨stays, ?_, fun j lt other => ?_⟩
  · rw [code k fits, if_pos (by omega), Nat.sub_self]
  · rw [code j lt, if_neg (by omega)]

/-- The rewriting changes opcode and ModRM byte. -/
theorem relaxGot_code (type : reloc.type = rX8664Gotpcrelx ∨ reloc.type = rX8664RexGotpcrelx)
    {k : Nat} (shown : s.vm.Shows start (k + 6) b offset) (place : base + reloc.offset = start + k + 2)
    (run : relaxGot base reloc s = some ((), s')) :
    s'.vm.Shows start (k + 6) b offset ∧ (∀ j < k, s'.code (start + j) = s.code (start + j)) ∧
      (s'.code (start + k), s'.code (start + (k + 1))) =
        relaxed (s.code (start + k), s.code (start + (k + 1))) := by
  unfold relaxGot at run
  rw [if_pos type, place, Nat.add_sub_cancel, Nat.add_assoc start] at run
  obtain ⟨_, s1, read, run⟩ := bind_inv run
  obtain ⟨rfl, rfl⟩ := readMemory_code read
  obtain ⟨_, s1, read, run⟩ := bind_inv run
  obtain ⟨rfl, rfl⟩ := readMemory_code read
  have branch {x y : Nat} (run : (do writeMemory 1 (start + k) x; writeMemory 1 (start + (k + 1)) y :
      LoaderM Unit) s1 = some ((), s')) : s'.vm.Shows start (k + 6) b offset ∧
      (∀ j < k, s'.code (start + j) = s1.code (start + j)) ∧
      (s'.code (start + k), s'.code (start + (k + 1))) = (byteOf x 0, byteOf y 0) := by
    obtain ⟨_, s2, first, second⟩ := bind_inv run
    obtain ⟨shown, code, same⟩ := writeByte_code shown (by omega) first
    obtain ⟨shown, code', same'⟩ := writeByte_code shown (by omega) second
    refine ⟨shown, fun j lt => ?_, ?_⟩
    · rw [same' j (by omega) (by omega), same j (by omega) (by omega)]
    · rw [same' k (by omega) (by omega), code, code']
  rw [relaxed_eq]
  split at run
  case isTrue mov =>
    rw [if_pos mov]
    obtain ⟨shown, code, same⟩ := writeByte_code shown (by omega) (require_bind_inv run).2
    refine ⟨shown, fun j lt => same j (by omega) (by omega), ?_⟩
    rw [same (k + 1) (by omega) (by omega), code]
    rfl
  case isFalse notMov =>
    rw [if_neg notMov]
    split at run
    case isTrue call =>
      rw [if_pos call]
      exact branch (require_bind_inv run).2
    case isFalse notCall =>
      rw [if_neg notCall]
      split at run
      case isTrue jmp =>
        rw [if_pos jmp]
        exact branch (require_bind_inv run).2
      case isFalse other =>
        rw [if_neg other]
        obtain ⟨-, rfl⟩ := pure_inv run
        exact ⟨shown, fun _ _ => rfl, rfl⟩

theorem resolution_got (relocator : e.libs.RelocatesGot reloc) (index : reloc.symbolIndex ≠ 0)
    (type : reloc.type = rX8664Gotpcrelx ∨ reloc.type = rX8664RexGotpcrelx)
    (symbol : s.symbolAddress e o i reloc = some address)
    (resolved : s.resolution e o i reloc postpone = some resolution) :
    (∃ bound, resolution = .postponed bound) ∨ ∃ bound size,
      resolution = .fixed bound size (distance (o.base + reloc.offset) reloc.addend address) := by
  have other : reloc.type ≠ rX8664Plt32 ∧ reloc.type ≠ rX8664Pc32 := by
    rcases type with type | type <;> rw [type] <;> decide
  unfold Loader.symbolAddress at symbol
  rcases resolution_inv resolved with ⟨zero, -⟩ | ⟨needed, -, isNeeded, cases⟩
  · exact absurd zero index
  rw [isNeeded, Option.bind_some] at symbol
  rcases cases with ⟨defined, rfl⟩ | ⟨undefined, found, isFound, cases⟩
  · rw [if_neg (by simp [defined])] at symbol
    unfold Loader.definedResolution
    split
    · exact .inl ⟨_, rfl⟩
    · cases newer : s.newerFunction o needed with
      | none =>
        rw [newer] at symbol
        cases symbol
        exact .inr ⟨_, _, congrArg _ (relocator.internal _ _ _ _)⟩
      | some found =>
        rw [newer] at symbol
        cases symbol
        exact .inr ⟨_, _, congrArg _ (relocator.external _ _ _ _ _ _)⟩
  · rw [if_pos undefined, isFound] at symbol
    cases found with
    | none => cases symbol
    | some sym =>
      obtain ⟨symobj, isObject, rfl⟩ := cases
      obtain rfl : symobj.base + sym.symbol.value = address := by
        simpa [isObject] using symbol
      split
      · exact .inl ⟨_, rfl⟩
      · refine .inr ⟨_, _, congrArg _ ?_⟩
        unfold externalValue
        simp only [if_neg other.1, if_neg other.2, ite_self, relocator.external]

/-- A `mov`, `call` or `jmp` has the effect it had with the address of the symbol in the table, and
other instructions use what is at this address. They can be relocated again. -/
theorem relocate_relaxes (object : s.object r = some o) (identity : s.identity r.file = some i)
    (relocator : e.libs.RelocatesGot reloc) (index : reloc.symbolIndex ≠ 0)
    (type : reloc.type = rX8664Gotpcrelx ∨ reloc.type = rX8664RexGotpcrelx)
    (addend : reloc.addend = -4) (holds : s.HoldsInstruction ins start)
    (place : o.base + reloc.offset = start + ins.rex.length + 2)
    (symbol : s.symbolAddress e o i reloc = some address)
    (near : Fits (distance (o.base + reloc.offset) (-4) address))
    (run : relocateInRelocatable e r reloc postpone s = some ((value, false), s')) :
    s'.HoldsInstruction ins start ∧ ins.Relaxes s'.code start address := by
  obtain ⟨s1, resolution, rewritten, resolved, run⟩ := relocateInRelocatable_inv object identity run
  obtain ⟨⟨b, offset, shown⟩, stands⟩ := holds
  obtain ⟨shown, rex, opcodes⟩ := relaxGot_code type shown place rewritten
  rcases resolution_got relocator index type symbol resolved with ⟨bound, rfl⟩ | ⟨bound, size, rfl⟩
  · cases run
  obtain ⟨_, s2, binds, run⟩ := bind_inv run
  obtain ⟨_, s3, fixed, run⟩ := bind_inv run
  obtain ⟨-, rfl⟩ := pure_inv run
  have vm : s2.vm = s1.vm := by
    rw [modify_inv binds]
    cases bound <;> rfl
  have code : s2.code = s1.code := by
    unfold Loader.code Loader.snapshot
    rw [vm]
  rw [← vm] at shown
  rw [← code] at rex opcodes
  unfold fixValue at fixed
  rw [relocator.isCopy, relocator.width, relocator.address, if_neg Bool.false_ne_true, addend, place,
    Nat.add_assoc start] at fixed
  rw [place, Nat.add_assoc start] at near
  obtain ⟨shown, code⟩ := writeMemory_code shown (by omega) fixed
  have stands : ins.At (relaxed ins.opcode) s'.code start := by
    refine ⟨fun k lt => ?_, ?_⟩
    · rw [code k (by omega), if_neg (by omega), rex k lt]
      exact stands.elim (fun stands => stands.rex k lt) fun stands => stands.rex k lt
    · rw [code _ (by omega), Nat.add_assoc start, code _ (by omega), if_neg (by omega),
        if_neg (by omega), opcodes]
      rcases stands with stands | stands
      · exact congrArg relaxed stands.opcodes
      · exact (congrArg relaxed stands.opcodes).trans (relaxed_idem _)
  have stored : wordOf s'.code 4 (start + (ins.rex.length + 2)) =
      distance (start + (ins.rex.length + 2)) (-4) address % 256 ^ 4 := by
    refine wordOf_bytes 4 _ _ _ fun k lt => ?_
    rw [Nat.add_assoc, code _ (by omega), if_pos (by omega), Nat.add_sub_cancel_left]
  have lands : target s'.code (start + ins.rex.length + 2) = address % 2 ^ 64 := by
    rw [← displaced_distance.mpr near, target, Nat.add_assoc start, stored]
    unfold displaced wordOfInt
    split <;> split <;> omega
  exact ⟨⟨⟨b, offset, shown⟩, .inr stands⟩, relaxes_at stands lands⟩

end Relaxation

/-! ## Instructions that use the address of a function -/

/-- The `Relocator` for these types. -/
def Libs.got : Libs :=
  { Libs.calls with
    valueInternal r _ base pltEntry _ _ := distance (base + r.offset) r.addend pltEntry }

def gotEnv : Env := { outOfMemory with libs := Libs.got }

/-- The bytes of an operation with `rax` and the address of `f`. -/
def bytesOf (operation : Operation) : Nat → UInt8 := fun k => [0x48, operation.opcode, 0x05].getD k 0

/-- The instruction is at address 0. -/
def usesF (operation : Operation) : Loader :=
  { calledF 0x1000 with vm := { (calledF 0x1000).vm with content := fun _ => bytesOf operation } }

def useOfF : Relocation := ⟨3, rX8664RexGotpcrelx, 1, -4⟩

/-- The slot in the table, at address 7, has the address of `f`; the code of `f` starts with 1. -/
def usesMachine : Machine :=
  ⟨0, fun _ => 1, false, false, fun k => if k = 7 ∨ k = 8 then 0x10 else if k = 0x1010 then 1 else 0⟩

/-- A `mov` has the address of `f`. -/
theorem relocate_relaxes_mov : ∃ value s',
    relocateInRelocatable gotEnv ⟨0, 1⟩ useOfF false (usesF .mov) = some ((value, false), s') ∧
    usesMachine.execute s'.code = usesMachine.execute (bytesOf .mov) := by
  have evaluated : (relocateInRelocatable gotEnv ⟨0, 1⟩ useOfF false (usesF .mov)).map
      Prod.fst = some (0x1009, false) := by decide +kernel
  obtain ⟨⟨_, s'⟩, run, rfl⟩ := Option.map_eq_some_iff.mp evaluated
  refine ⟨_, s', run, ?_⟩
  have stands : (Instruction.compute .mov 0 true).At (0x8b, 0x05) (bytesOf .mov) 0 :=
    ⟨by decide, by decide⟩
  have holds : (usesF .mov).HoldsInstruction (.compute .mov 0 true) 0 :=
    ⟨⟨.anonymous 0, 0, by unfold Vm.Shows; decide +kernel⟩, .inl ⟨by decide +kernel, by decide +kernel⟩⟩
  have relocator : gotEnv.libs.RelocatesGot useOfF :=
    ⟨rfl, rfl, fun _ => rfl, fun _ _ _ _ => rfl, fun _ _ _ _ _ _ => rfl⟩
  exact (relocate_relaxes (o := .callsF .stbGlobal) (i := .global 0 "f.o" [.callsF .stbGlobal]) rfl rfl
    relocator (by decide) (.inr rfl) rfl holds rfl rfl (by decide) run).2 _ usesMachine stands rfl rfl

/-- An `add` adds what is in the code of `f` instead of its address
(`src/object/relocatable.cpp:454-477`). -/
theorem relocate_keeps_add : ∃ s',
    relocateInRelocatable gotEnv ⟨0, 1⟩ useOfF false (usesF .add) = some ((0x1009, false), s') ∧
    usesMachine.word (target (bytesOf .add) 3) = 0x1010 ∧
    (usesMachine.execute (bytesOf .add)).map (fun m => m.registers 0) = some 0x1011 ∧
    (usesMachine.execute s'.code).map (fun m => m.registers 0) = some 2 := by
  have evaluated : (relocateInRelocatable gotEnv ⟨0, 1⟩ useOfF false (usesF .add)).map (fun p =>
      (p.1, (usesMachine.execute p.2.code).map fun m => m.registers 0)) =
      some ((0x1009, false), some 2) := by decide +kernel
  obtain ⟨⟨_, s'⟩, run, result⟩ := Option.map_eq_some_iff.mp evaluated
  obtain ⟨rfl, sum⟩ := Prod.mk.inj result
  exact ⟨s', run, by decide +kernel, by decide +kernel, sum⟩

end Luci
