import Mathlib.Logic.Function.Basic
import Luci.Misc.Range
import Luci.Misc.VirtualMemory

/-!
# Some instructions of x86-64

Instructions whose operand is in the memory at an address relative to the instruction pointer, and
those whose operand is that address. Of the flags there are zero and carry.
-/

namespace Luci.X86

open VirtualMemory

/-- What is done with a register and an operand. -/
inductive Operation where
  | adc | add | and | cmp | mov | or | sbb | sub | test | xor
  deriving DecidableEq

/-- An instruction; its operand is given by an address. Operations have 64 or 32 bits. -/
inductive Instruction where
  | compute (operation : Operation) (register : Fin 16) (wide : Bool)
  | call
  | jmp
  deriving DecidableEq

namespace Operation

/-- The opcode for an operand in memory. -/
def opcode : Operation → UInt8
  | adc => 0x13
  | add => 0x03
  | and => 0x23
  | cmp => 0x3b
  | mov => 0x8b
  | or => 0x0b
  | sbb => 0x1b
  | sub => 0x2b
  | test => 0x85
  | xor => 0x33

def all : List Operation := [adc, add, and, cmp, mov, or, sbb, sub, test, xor]

variable {w : Nat} (carry : Bool) (a b : BitVec w)

/-- The result, which `cmp` and `test` do not store. -/
def result : Operation → BitVec w
  | adc => a + b + BitVec.ofNat w carry.toNat
  | add => a + b
  | and | test => a &&& b
  | cmp | sub => a - b
  | mov => b
  | or => a ||| b
  | sbb => a - b - BitVec.ofNat w carry.toNat
  | xor => a ^^^ b

def carryOut : Operation → Bool
  | adc => 2 ^ w ≤ a.toNat + b.toNat + carry.toNat
  | add => 2 ^ w ≤ a.toNat + b.toNat
  | cmp | sub => a.toNat < b.toNat
  | sbb => a.toNat < b.toNat + carry.toNat
  | _ => false

end Operation

structure Machine where
  rip : Nat
  registers : Fin 16 → BitVec 64
  carry : Bool
  zero : Bool
  memory : Nat → UInt8

namespace Machine

/-- The word of 64 bits at an address. -/
def word (m : Machine) (address : Nat) : BitVec 64 := BitVec.ofNat 64 (wordOf m.memory 8 address)

/-- An operation with `w` bits; the rest of the register is set to zero. -/
def compute (m : Machine) (operation : Operation) (register : Fin 16) (w : Nat)
    (operand : BitVec 64) : Machine :=
  let a := (m.registers register).setWidth w
  let b := operand.setWidth w
  let result := operation.result m.carry a b
  let stored := { m with registers := Function.update m.registers register (result.setWidth 64) }
  match operation with
  | .mov => stored
  | .cmp | .test => { m with carry := operation.carryOut m.carry a b, zero := result = 0 }
  | _ => { stored with carry := operation.carryOut m.carry a b, zero := result = 0 }

/-- What an instruction does with its operand; the next one is at `next`. -/
def perform (m : Machine) (operand : BitVec 64) (next : Nat) : Instruction → Machine
  | .compute operation register wide =>
    { m.compute operation register (if wide then 64 else 32) operand with rip := next }
  | .call =>
    let top := m.registers 4 - 8
    { m with
      rip := operand.toNat
      registers := Function.update m.registers 4 top
      memory := overlay m.memory top.toNat 8 (byteOf next) }
  | .jmp => { m with rip := operand.toNat }

end Machine

/-! ## Bytes -/

/-- The prefix of an instruction. -/
def Instruction.rex : Instruction → List UInt8
  | .compute _ register wide =>
    if wide ∨ 8 ≤ register.val then
      [0x40 + (if wide then 8 else 0) + (if 8 ≤ register.val then 4 else 0)]
    else []
  | _ => []

/-- Opcode and ModRM byte for an operand in memory. -/
def Instruction.opcode : Instruction → UInt8 × UInt8
  | .compute operation register _ => (operation.opcode, UInt8.ofNat (register.val % 8 * 8 + 5))
  | .call => (0xff, 0x15)
  | .jmp => (0xff, 0x25)

/-- The instruction with a prefix (or 0), an opcode and a ModRM byte, and whether the operand is
the address itself. A direct branch is taken with the `nop` in front of it. -/
def decodeOpcode (rex : UInt8) : UInt8 × UInt8 → Option (Instruction × Bool)
  | (0xff, 0x15) => some (.call, false)
  | (0xff, 0x25) => some (.jmp, false)
  | (0x90, 0xe8) => some (.call, true)
  | (0x90, 0xe9) => some (.jmp, true)
  | (opcode, modrm) =>
    let register := Fin.ofNat 16 (modrm.toNat / 8 + rex.toNat / 4 % 2 * 8)
    let wide := rex.toNat / 8 % 2 = 1
    if 64 ≤ modrm.toNat ∨ modrm.toNat % 8 ≠ 5 then none
    else if opcode = 0x8d then some (.compute .mov register wide, true)
    else (Operation.all.find? fun operation => operation.opcode = opcode).map fun operation =>
      (.compute operation register wide, false)

/-- The instruction at an address and the place of its displacement. -/
def decode (code : Nat → UInt8) (a : Nat) : Option ((Instruction × Bool) × Nat) :=
  if (code a).toNat / 16 = 4 then
    (decodeOpcode (code a) (code (a + 1), code (a + 2))).map fun found => (found, a + 3)
  else (decodeOpcode 0 (code a, code (a + 1))).map fun found => (found, a + 2)

/-- The address that the displacement at a place leads to. -/
def target (code : Nat → UInt8) (place : Nat) : Nat := displaced (place + 4) (wordOf code 4 place)

/-- Run the instruction at the instruction pointer. -/
def Machine.execute (code : Nat → UInt8) (m : Machine) : Option Machine :=
  (decode code m.rip).map fun ((i, direct), place) =>
    m.perform (if direct then BitVec.ofNat 64 (target code place) else m.word (target code place))
      (place + 4) i

/-- Opcode and ModRM byte for an operand that is the address itself: `lea` for `mov`, a direct branch
for an indirect one. Others have no such form. -/
def relaxed (opcode : UInt8 × UInt8) : UInt8 × UInt8 :=
  if opcode.1 = 0x8b then (0x8d, opcode.2)
  else if opcode = (0xff, 0x15) then (0x90, 0xe8)
  else if opcode = (0xff, 0x25) then (0x90, 0xe9)
  else opcode

def Instruction.relaxable : Instruction → Bool
  | .compute operation _ _ => operation = .mov
  | _ => true

/-- An instruction with this opcode and ModRM byte stands at an address. -/
structure Instruction.At (i : Instruction) (opcode : UInt8 × UInt8) (code : Nat → UInt8) (a : Nat) :
    Prop where
  rex : ∀ k < i.rex.length, code (a + k) = i.rex.getD k 0
  opcodes : (code (a + i.rex.length), code (a + i.rex.length + 1)) = opcode

theorem rex_inv (i : Instruction) : i.rex = [] ∨ ∃ r, i.rex = [r] ∧ r.toNat / 16 = 4 := by
  cases i with
  | compute operation register wide =>
    by_cases extended : wide ∨ 8 ≤ register.val
    · refine .inr ⟨_, if_pos extended, ?_⟩
      split <;> split <;> decide
    · exact .inl (if_neg extended)
  | call => exact .inl rfl
  | jmp => exact .inl rfl

/-- An opcode that is not taken for a prefix, and what it is decoded to. -/
def Decodes (i : Instruction) (opcode : UInt8 × UInt8) (direct : Bool) : Prop :=
  opcode.1.toNat / 16 ≠ 4 ∧ decodeOpcode (i.rex.headD 0) opcode = some (i, direct)

theorem decodes (i : Instruction) :
    Decodes i i.opcode false ∧ Decodes i (relaxed i.opcode) i.relaxable := by
  unfold Decodes
  cases i with
  | compute operation register wide => cases operation <;> revert register wide <;> decide
  | call => decide
  | jmp => decide

theorem relaxed_idem (opcode : UInt8 × UInt8) : relaxed (relaxed opcode) = relaxed opcode := by
  unfold relaxed
  grind

section Execution

variable {i : Instruction} {code : Nat → UInt8} {a : Nat} {opcode : UInt8 × UInt8} {direct : Bool}
  {m : Machine}

theorem decode_at (stands : i.At opcode code a) (decodes : Decodes i opcode direct) :
    decode code a = some ((i, direct), a + i.rex.length + 2) := by
  obtain ⟨isRex, rfl⟩ := stands
  obtain ⟨bare, decoded⟩ := decodes
  unfold decode
  rcases rex_inv i with none | ⟨r, one, high⟩
  · rw [none] at bare decoded ⊢
    change ¬ (code a).toNat / 16 = 4 at bare
    rw [if_neg bare]
    exact congrArg (Option.map _) decoded
  · rw [one] at isRex decoded ⊢
    obtain rfl : code a = r := isRex 0 Nat.zero_lt_one
    rw [if_pos high]
    exact congrArg (Option.map _) decoded

theorem execute_at (stands : i.At opcode code a) (decodes : Decodes i opcode direct)
    (starts : m.rip = a) : m.execute code = some (m.perform
      (if direct then BitVec.ofNat 64 (target code (a + i.rex.length + 2))
        else m.word (target code (a + i.rex.length + 2))) (a + i.rex.length + 2 + 4) i) := by
  rw [Machine.execute, starts, decode_at stands decodes]
  rfl

/-- With the address for an operand that is held in memory, the bytes do the same as the instruction
if there is such a form, and use the word at the address if not. -/
def Instruction.Relaxes (i : Instruction) (code : Nat → UInt8) (a address : Nat) : Prop :=
  ∀ original (m : Machine), i.At i.opcode original a → m.rip = a →
    m.word (target original (a + i.rex.length + 2)) = BitVec.ofNat 64 address →
    if i.relaxable then m.execute code = m.execute original
    else m.execute code = some (m.perform (m.word (address % 2 ^ 64)) (a + i.rex.length + 6) i)

theorem relaxes_at {address : Nat} (stands : i.At (relaxed i.opcode) code a)
    (lands : target code (a + i.rex.length + 2) = address % 2 ^ 64) : i.Relaxes code a address := by
  intro original m isOriginal starts held
  have word : BitVec.ofNat 64 (address % 2 ^ 64) = BitVec.ofNat 64 address := by
    rw [← BitVec.toNat_inj, BitVec.toNat_ofNat, BitVec.toNat_ofNat, Nat.mod_mod]
  rw [execute_at stands (decodes i).2 starts, execute_at isOriginal (decodes i).1 starts, lands, held]
  split
  case isTrue direct => rw [if_neg Bool.false_ne_true, word]
  case isFalse indirect => rfl

end Execution

end Luci.X86
