import Luci.Patch
import Luci.Proofs.RedirectTable

/-!
# Patched functions

Where the patches of glibc write. `Patch::apply` skips an `endbr64` also if the function is shorter
than this instruction, and `redirect_fork_syscall` looks for the start of the instructions within
the function, but not for their end.
-/

namespace Luci.Patch

open VirtualMemory Redirect

variable {code code' : Nat → UInt8} {a address size arg n : Nat} {since234 : Bool}

/-- Only the bytes of the function are changed. -/
def Inside (code code' : Nat → UInt8) (address size : Nat) : Prop :=
  ∀ x, x < address ∨ address + size ≤ x → code' x = code x

/-- The next instruction, for the instructions of a patched function. -/
def nextInstruction (code : Nat → UInt8) (pc : Nat) : Option Nat :=
  if endbr64 code pc then some (pc + 4)
  else if code pc = 0x90 then some (pc + 1)
  else decodeJump code pc

/-- Execution gets from an address to another one. -/
def Arrives (code : Nat → UInt8) : Nat → Nat → Prop :=
  Relation.ReflTransGen fun pc pc' => nextInstruction code pc = some pc'

/-- What is skipped at the start of a function. -/
def skipped (code : Nat → UInt8) (address : Nat) : Nat := if endbr64 code address then 4 else 0

theorem apply_eq (func : Function) (word : size < 2 ^ 64) :
    apply func true code address size arg =
      func code (address + skipped code address) (subWord size (skipped code address)) arg := by
  have whole : subWord size 0 = size := by
    unfold subWord
    omega
  unfold apply skipped
  rw [if_pos rfl]
  split
  · rfl
  · rw [whole, Nat.add_zero]

theorem nopSlide_eq (n : Nat) : ∀ (code : Nat → UInt8) (address : Nat),
    nopSlide code address n = overlay code address n fun _ => 0x90 := by
  induction n with
  | zero =>
    intro code address
    funext x
    exact (overlay_outside (by omega)).symm
  | succ n ih =>
    intro code address
    rw [nopSlide, ih]
    funext x
    unfold overlay
    split_ifs <;> first | rfl | omega

theorem slide_arrives (n : Nat) : ∀ {a : Nat}, (∀ i < n, code (a + i) = 0x90) →
    Arrives code a (a + n) := by
  induction n with
  | zero => exact fun _ => .refl
  | succ n ih =>
    intro a nops
    have first : code a = 0x90 := nops 0 (by omega)
    have step : nextInstruction code a = some (a + 1) := by
      simp [nextInstruction, endbr64, first]
    have rest := ih fun i lt => by
      rw [Nat.add_assoc, Nat.add_comm 1 i]
      exact nops (i + 1) (by omega)
    rw [Nat.add_assoc, Nat.add_comm 1 n] at rest
    exact .head step rest

/-! ## Jumps -/

theorem nopsJmp_inv (run : nopsJmp code address size arg = some code') : 14 ≤ size ∧
    (∀ x, x < address ∨ address + size ≤ x → code' x = code x) ∧
    (∀ i < size - 14, code' (address + i) = 0x90) ∧
    ∀ i < 14, code' (address + (size - 14) + i) = absoluteJump arg i := by
  unfold nopsJmp at run
  split at run
  · cases run
  · cases run
    rw [nopSlide_eq]
    refine ⟨by omega, fun x outside => ?_, fun i lt => ?_, fun i lt => overlay_patch _ _ _ _ i lt⟩
    · rw [overlay_outside (by omega), overlay_outside (by omega)]
    · rw [overlay_outside (by omega), overlay_patch _ _ _ _ i lt]

theorem nopsJmp_arrives (range : address + size ≤ 2 ^ 64) (word : arg < 2 ^ 64)
    (run : nopsJmp code address size arg = some code') : Arrives code' address arg := by
  obtain ⟨enough, -, nops, jump⟩ := nopsJmp_inv run
  have opcode : code' (address + (size - 14)) = 0xff := jump 0 (by omega)
  refine (slide_arrives _ nops).tail ?_
  rw [nextInstruction, if_neg (by simp [endbr64, opcode]), if_neg (by simp [opcode])]
  exact decodeJump_absolute (by omega) word jump

theorem endbr64_congr (same : ∀ i < 4, code' (a + i) = code (a + i)) :
    endbr64 code' a = endbr64 code a := by
  have first := same 0 (by omega)
  rw [Nat.add_zero] at first
  unfold endbr64
  rw [first, same 1 (by omega), same 2 (by omega), same 3 (by omega)]

/-- The patch of a function that is at least as long as its `endbr64`. -/
theorem apply_nopsJmp (range : address + size ≤ 2 ^ 64) (word : size < 2 ^ 64) (isArg : arg < 2 ^ 64)
    (fits : skipped code address ≤ size)
    (run : apply nopsJmp true code address size arg = some code') :
    Inside code code' address size ∧ Arrives code' address arg := by
  have rest : subWord size (skipped code address) = size - skipped code address := by
    unfold subWord
    omega
  rw [apply_eq _ word] at run
  obtain ⟨-, outside, -, -⟩ := nopsJmp_inv run
  have arrives := nopsJmp_arrives (by omega) isArg run
  refine ⟨fun x place => outside x (by omega), ?_⟩
  by_cases starts : endbr64 code address = true
  · have four : skipped code address = 4 := if_pos starts
    have kept := endbr64_congr fun i lt => outside (address + i) (.inl (by omega))
    rw [four] at arrives
    refine .head ?_ arrives
    rw [nextInstruction, kept, if_pos starts]
  · have none : skipped code address = 0 := if_neg starts
    rwa [none] at arrives

/-- The size of a shorter function wraps around, and the jump is written behind it. -/
theorem apply_nopsJmp_outside (word : size < 2 ^ 64) (short : size < skipped code address) :
    ∃ arg < 2 ^ 64, ∃ code', apply nopsJmp true code address size arg = some code' ∧
      ¬ Inside code code' address size := by
  have four : skipped code address = 4 := by
    unfold skipped at *
    split at short
    · rw [if_pos ‹_›]
    · omega
  have rest : subWord size 4 = size + 2 ^ 64 - 4 := by
    unfold subWord
    omega
  have writes : ∀ arg, ∃ code', apply nopsJmp true code address size arg = some code' ∧
      code' (address + 4 + (subWord size 4 - 14) + 6) = byteOf arg 0 := by
    intro arg
    obtain ⟨code', run⟩ : ∃ code', nopsJmp code (address + 4) (subWord size 4) arg = some code' :=
      ⟨_, if_neg (by omega)⟩
    refine ⟨code', by rw [apply_eq _ word, four, run], ?_⟩
    exact (nopsJmp_inv run).2.2.2 6 (by omega)
  obtain ⟨code0, run0, byte0⟩ := writes 0
  obtain ⟨code1, run1, byte1⟩ := writes 1
  by_cases inside : Inside code code0 address size
  · refine ⟨1, by decide, code1, run1, fun inside1 => ?_⟩
    have behind : address + size ≤ address + 4 + (subWord size 4 - 14) + 6 := by omega
    have same := (inside _ (.inr behind)).trans (inside1 _ (.inr behind)).symm
    rw [byte0, byte1] at same
    exact absurd same (by decide)
  · exact ⟨0, by decide, code0, run0, inside⟩

/-! ## The call in `fork` -/

theorem findForkSyscall_inv (n : Nat) : ∀ {a found : Nat},
    findForkSyscall since234 code a n = some found →
    a ≤ found ∧ code (found + ((forkSyscall since234).length - 1)) = 0x05 := by
  induction n with
  | zero => exact nofun
  | succ n ih =>
    intro a found run
    rw [findForkSyscall] at run
    split at run
    · rename_i same
      cases run
      have last := congrArg (·[(forkSyscall since234).length - 1]?) same
      cases since234 <;> simpa [forkSyscall] using last
    · obtain ⟨le, last⟩ := ih run
      exact ⟨by omega, last⟩

theorem forkCall_length (since234 : Bool) (arg : Nat) :
    (forkCall since234 arg).length = (forkSyscall since234).length := by
  cases since234 <;> rfl

/-- The call is inside of the function if the instructions are. -/
theorem redirect_inside_iff (since234 : Bool) (arg : Nat) {found : Nat} (low : address ≤ found)
    (last : code (found + ((forkSyscall since234).length - 1)) = 0x05) :
    Inside code (overlay code found (forkCall since234 arg).length fun i =>
      (forkCall since234 arg).getD i 0) address size ↔
    found + (forkSyscall since234).length ≤ address + size := by
  have length := forkCall_length since234 arg
  have positive : 0 < (forkSyscall since234).length := by
    cases since234 <;> decide
  constructor
  · intro inside
    by_contra beyond
    have same := inside _ (.inr (show address + size ≤
      found + ((forkSyscall since234).length - 1) by omega))
    rw [last, overlay_patch _ _ _ _ _ (by omega)] at same
    cases since234 <;> simp [forkSyscall, forkCall] at same
  · intro ends x place
    exact overlay_outside (by omega)

/-- `nops_jmp` stays in the function, and leads to its argument, exactly if the function is not
shorter than the `endbr64` at its start. `redirect_fork_syscall` stays in it exactly if the
instructions that it finds end there. -/
theorem apply_inside_iff (range : address + size ≤ 2 ^ 64) (word : size < 2 ^ 64) :
    ((∀ arg < 2 ^ 64, ∀ code', apply nopsJmp true code address size arg = some code' →
      Inside code code' address size ∧ Arrives code' address arg) ↔
      skipped code address ≤ size) ∧
    ∀ since234, ((∀ arg < 2 ^ 64, ∀ code',
      apply (redirectForkSyscall since234) true code address size arg = some code' →
      Inside code code' address size) ↔
      ∀ found, findForkSyscall since234 code (address + skipped code address)
        (subWord size (skipped code address)) = some found →
        found + (forkSyscall since234).length ≤ address + size) := by
  refine ⟨⟨fun inside => ?_, fun fits arg isArg code' => apply_nopsJmp range word isArg fits⟩,
    fun since234 => ⟨fun inside found search => ?_, fun ends arg isArg code' run => ?_⟩⟩
  · by_contra short
    obtain ⟨arg, isArg, code', run, outside⟩ := apply_nopsJmp_outside word (Nat.not_le.mp short)
    exact outside (inside arg isArg code' run).1
  · obtain ⟨low, last⟩ := findForkSyscall_inv _ search
    refine (redirect_inside_iff since234 0 (by omega) last).mp (inside 0 (by decide) _ ?_)
    rw [apply_eq _ word, redirectForkSyscall, search, Option.map_some]
  · rw [apply_eq _ word] at run
    obtain ⟨found, search, rfl⟩ := Option.map_eq_some_iff.mp run
    obtain ⟨low, last⟩ := findForkSyscall_inv _ search
    exact (redirect_inside_iff since234 arg (by omega) last).mpr (ends found search)

/-- A function of `nop` instructions. -/
theorem apply_inside_iff_nops : ∃ code',
    apply nopsJmp true (fun _ => 0x90) 0x1000 32 0x2000 = some code' ∧
      Inside (fun _ => 0x90) code' 0x1000 32 ∧ Arrives code' 0x1000 0x2000 := by
  refine ⟨_, rfl, ?_⟩
  exact (apply_inside_iff (by decide) (by decide)).1.mpr (by decide) 0x2000 (by decide) _ rfl

/-- The instructions of `fork` at an address. -/
def forkCode (i : Nat) : UInt8 := (forkSyscall false).getD (i - 0x1000) 0x90

/-- The function ends within the instructions; the byte at their end is changed. -/
theorem apply_changes_behind : ∃ code',
    apply (redirectForkSyscall false) true forkCode 0x1000 5 0 = some code' ∧
      ¬ Inside forkCode code' 0x1000 5 := by
  refine ⟨_, rfl, fun inside => ?_⟩
  exact absurd (inside (0x1000 + 11) (.inr (by decide))) (by decide)

end Luci.Patch
