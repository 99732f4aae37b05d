import Luci.Process
import Mathlib.Data.List.Forall2

/-!
# The initial stack

What a program finds on the stack that `Process::init` has built: a reader that follows the
System V layout from the stack pointer gets the arguments, the environment and the auxiliary
vectors back. The stack pointer is aligned for half of all numbers of strings.
-/

namespace Luci

open VirtualMemory DownStack

variable {bottom size top : Nat} {env strings : List CString}
  {aux entries : List (UInt64 × UInt64)}

/-! ## Stages -/

/-- The stack below the end marker. -/
def Process.marked (p : Process) : DownStack :=
  ⟨(p.stackPointer + 2 ^ 64 - 8) % 2 ^ 64, overlay p.memory p.stackPointer 8 (byteOf 0)⟩

/-- The environment strings, and the stack with them. -/
def Process.environment (p : Process) : List Nat × DownStack :=
  pushBlocks (p.env.reverse.map CString.terminated) p.marked

/-- The argument strings, and the stack with them. -/
def Process.arguments (p : Process) (arg : List CString) : List Nat × DownStack :=
  pushBlocks (arg.reverse.map CString.terminated) p.environment.2

/-- The stack with the padding. -/
def Process.padded (p : Process) (arg : List CString) : DownStack :=
  { (p.arguments arg).2 with
    pointer := (p.arguments arg).2.pointer - (p.arguments arg).2.pointer % 16 }

/-- The stack with the auxiliary vectors. -/
def Process.auxiliary (p : Process) (arg : List CString) : DownStack :=
  p.aux.foldl pushAuxiliary (pushAuxiliary (p.padded arg) (atNull, 0))

/-- The stack with the pointers to the environment. -/
def Process.pointers (p : Process) (arg : List CString) : DownStack :=
  ((p.auxiliary arg).pushWord 0).pushWords p.environment.1

/-- The stack with the pointers to the arguments. -/
def Process.vector (p : Process) (arg : List CString) : DownStack :=
  ((p.pointers arg).pushWord 0).pushWords (p.arguments arg).1

/-- The whole stack. -/
def Process.initial (p : Process) (arg : List CString) : DownStack :=
  (p.vector arg).pushWord (wordOfInt (intOfSize arg.length))

variable {p p' : Process} {arg : List CString} {s : DownStack}

theorem init_eq (aligned : p.stackPointer % 8 = 0) : p.init arg = some { p with
    argc := intOfSize arg.length
    argv := (p.vector arg).pointer
    envp := (p.pointers arg).pointer
    stackPointer := (p.initial arg).pointer
    memory := (p.initial arg).memory } := by
  unfold Process.init
  rw [if_pos aligned]
  rfl

/-! ## Alignment -/

theorem pushWord_mod (word : Nat) : (s.pushWord word).pointer % 16 = (s.pointer + 8) % 16 := by
  unfold pushWord push
  dsimp only
  omega

theorem pushWords_mod (words : List Nat) :
    (s.pushWords words).pointer % 16 = (s.pointer + 8 * words.length) % 16 := by
  induction words generalizing s with
  | nil => rfl
  | cons word words ih =>
    have first := pushWord_mod (s := s) word
    rw [pushWords_cons, ih, List.length_cons]
    omega

theorem pushAuxiliary_mod (entry : UInt64 × UInt64) :
    (pushAuxiliary s entry).pointer % 16 = s.pointer % 16 := by
  unfold pushAuxiliary
  have first := pushWord_mod (s := s) entry.2.toNat
  rw [pushWord_mod]
  omega

theorem foldl_pushAuxiliary_mod (aux : List (UInt64 × UInt64)) :
    (aux.foldl pushAuxiliary s).pointer % 16 = s.pointer % 16 := by
  induction aux generalizing s with
  | nil => rfl
  | cons entry aux ih => rw [List.foldl_cons, ih, pushAuxiliary_mod]

theorem length_pushBlocks (blocks : List (List UInt8)) :
    (pushBlocks blocks s).1.length = blocks.length := by
  induction blocks generalizing s with
  | nil => rfl
  | cons block blocks ih => rw [pushBlocks, List.length_cons, List.length_cons, ih]

theorem length_environment : p.environment.1.length = p.env.length := by
  unfold Process.environment
  rw [length_pushBlocks, List.length_map, List.length_reverse]

theorem length_arguments : (p.arguments arg).1.length = arg.length := by
  unfold Process.arguments
  rw [length_pushBlocks, List.length_map, List.length_reverse]

/-- The stack pointer is a multiple of 16 exactly if the number of strings is odd. -/
theorem init_aligned_iff (run : p.init arg = some p') :
    p'.stackPointer % 16 = 0 ↔ (arg.length + p.env.length) % 2 = 1 := by
  have aligned : p.stackPointer % 8 = 0 := by
    by_contra odd
    unfold Process.init at run
    rw [if_neg odd] at run
    cases run
  rw [init_eq aligned] at run
  cases run
  have padded : (p.padded arg).pointer % 16 = 0 := by
    unfold Process.padded
    dsimp only
    omega
  have auxiliary : (p.auxiliary arg).pointer % 16 = 0 := by
    unfold Process.auxiliary
    rw [foldl_pushAuxiliary_mod, pushAuxiliary_mod, padded]
  have pointers : (p.pointers arg).pointer % 16 = (8 + 8 * p.env.length) % 16 := by
    have null := pushWord_mod (s := p.auxiliary arg) 0
    unfold Process.pointers
    rw [pushWords_mod, length_environment]
    omega
  have vector : (p.vector arg).pointer % 16 = (16 + 8 * p.env.length + 8 * arg.length) % 16 := by
    have null := pushWord_mod (s := p.pointers arg) 0
    unfold Process.vector
    rw [pushWords_mod, length_arguments]
    omega
  unfold Process.initial
  rw [pushWord_mod]
  omega

/-- A process without environment on a stack of 32 KiB. -/
def Process.plain : Process := ⟨0, 0, 0, [], [], 0x8000, fun _ => 0⟩

/-- The argument `a`. -/
def CString.a : CString := ⟨[0x61], by decide⟩

/-- With one argument the stack pointer is aligned. -/
theorem init_aligned_iff_one : ∃ p', Process.plain.init [.a] = some p' ∧
    p'.stackPointer % 16 = 0 := by
  have run : Process.plain.init [.a] = some _ := init_eq rfl
  exact ⟨_, run, (init_aligned_iff run).mpr rfl⟩

/-- Without arguments it is not. -/
theorem init_unaligned : (Process.plain.init []).map (fun p' => p'.stackPointer % 16) = some 8 := by
  decide +kernel

/-! ## Reading the stack -/

/-- Reading an array of strings up to its null pointer: the pointers, the strings, and the
address behind the array. -/
inductive ReadsStrings (memory : Nat → UInt8) : Nat → List Nat → List CString → Nat → Prop
  | null {a : Nat} (word : wordOf memory 8 a = 0) : ReadsStrings memory a [] [] (a + 8)
  | next {a stop : Nat} {string : CString} {pointers : List Nat} {strings : List CString}
      (nonzero : wordOf memory 8 a ≠ 0)
      (bytes : BytesAt memory (wordOf memory 8 a) string.terminated)
      (rest : ReadsStrings memory (a + 8) pointers strings stop) :
      ReadsStrings memory a (wordOf memory 8 a :: pointers) (string :: strings) stop

/-- Reading auxiliary vectors up to the one of type `AT_NULL`, and the address behind it. -/
inductive ReadsAuxiliary (memory : Nat → UInt8) : Nat → List (UInt64 × UInt64) → Nat → Prop
  | null {a : Nat} (type : wordOf memory 8 a = atNull.toNat) : ReadsAuxiliary memory a [] (a + 16)
  | next {a stop : Nat} {entry : UInt64 × UInt64} {entries : List (UInt64 × UInt64)}
      (nonzero : entry.1 ≠ atNull) (type : wordOf memory 8 a = entry.1.toNat)
      (value : wordOf memory 8 (a + 8) = entry.2.toNat)
      (rest : ReadsAuxiliary memory (a + 16) entries stop) :
      ReadsAuxiliary memory a (entry :: entries) stop

/-- What a reader of the System V layout finds from the stack pointer on, and that strings
overlap neither each other nor the arrays. -/
structure Process.Shows (p : Process) (arg env : List CString) (aux : List (UInt64 × UInt64)) :
    Prop where
  argc : p.argc = arg.length ∧ wordOf p.memory 8 p.stackPointer = arg.length
  argv : p.argv = p.stackPointer + 8
  arrays : ∃ (argPointers envPointers : List Nat) (entries : List (UInt64 × UInt64))
    (auxv stop : Nat),
    ReadsStrings p.memory p.argv argPointers arg p.envp ∧
    ReadsStrings p.memory p.envp envPointers env auxv ∧
    ReadsAuxiliary p.memory auxv entries stop ∧ entries.Perm aux ∧
    (ranges argPointers (arg.map CString.terminated) ++
      ranges envPointers (env.map CString.terminated)).Pairwise Range.Apart ∧
    ∀ r ∈ ranges argPointers (arg.map CString.terminated) ++
      ranges envPointers (env.map CString.terminated),
      r.Apart ⟨p.stackPointer, stop - p.stackPointer⟩

variable {memory memory' : Nat → UInt8} {a : Nat}

theorem readsStrings_of_words {pointers : List Nat} (words : WordsAt memory a (pointers ++ [0]))
    (nonzero : ∀ w ∈ pointers, w ≠ 0)
    (bytes : List.Forall₂ (BytesAt memory) pointers (strings.map CString.terminated)) :
    ReadsStrings memory a pointers strings (a + 8 * (pointers.length + 1)) := by
  induction pointers generalizing a strings with
  | nil =>
    obtain rfl := List.map_eq_nil_iff.mp (List.forall₂_nil_left_iff.mp bytes)
    exact .null words.1
  | cons pointer pointers ih =>
    cases strings with
    | nil => cases bytes
    | cons string strings =>
      obtain ⟨isNonzero, others⟩ := List.forall_mem_cons.mp nonzero
      obtain ⟨first, rest⟩ := List.forall₂_cons.mp bytes
      have stop : a + 8 * ((pointer :: pointers).length + 1) =
          a + 8 + 8 * (pointers.length + 1) := by
        rw [List.length_cons]
        omega
      have isPointer : wordOf memory 8 a = pointer := words.1
      rw [stop, ← isPointer]
      apply ReadsStrings.next
      · rwa [isPointer]
      · rwa [isPointer]
      · exact ih words.2 others rest

theorem readsAuxiliary_of_words
    (words : WordsAt memory a (entries.flatMap (fun entry => [entry.1.toNat, entry.2.toNat]) ++
      [0, 0])) (nonzero : ∀ entry ∈ entries, entry.1 ≠ atNull) :
    ReadsAuxiliary memory a entries (a + 16 * (entries.length + 1)) := by
  induction entries generalizing a with
  | nil => exact .null words.1
  | cons entry entries ih =>
    obtain ⟨isNonzero, others⟩ := List.forall_mem_cons.mp nonzero
    have stop : a + 16 * ((entry :: entries).length + 1) = a + 16 + 16 * (entries.length + 1) := by
      rw [List.length_cons]
      omega
    rw [stop]
    exact .next isNonzero words.1 words.2.1 (ih words.2.2 others)

theorem ReadsAuxiliary.nonzero {stop : Nat} (reads : ReadsAuxiliary memory a entries stop) :
    ∀ entry ∈ entries, entry.1 ≠ atNull := by
  induction reads with
  | null type => exact nofun
  | next nonzero type value rest ih => exact List.forall_mem_cons.mpr ⟨nonzero, ih⟩

/-! ## Positions on the stack -/

/-- The bytes that `Process::init` may need below the stack pointer. -/
def Process.stackNeeded (p : Process) (arg : List CString) : Nat :=
  8 + bytesOf (p.env.map CString.terminated) + bytesOf (arg.map CString.terminated) + 16 +
    16 * (p.aux.length + 1) + 8 * (p.env.length + 1) + 8 * (arg.length + 1) + 8

theorem bytesOf_reverse (strings : List CString) :
    bytesOf (strings.reverse.map CString.terminated) = bytesOf (strings.map CString.terminated) := by
  unfold bytesOf
  rw [List.map_reverse, List.map_reverse, List.sum_reverse]

/-- The words of the auxiliary vectors, in the order in which they are pushed. -/
def auxiliaryWords (aux : List (UInt64 × UInt64)) : List Nat :=
  aux.flatMap fun entry => [entry.2.toNat, entry.1.toNat]

theorem foldl_pushAuxiliary (aux : List (UInt64 × UInt64)) :
    aux.foldl pushAuxiliary s = s.pushWords (auxiliaryWords aux) := by
  induction aux generalizing s with
  | nil => rfl
  | cons entry aux ih =>
    have words : auxiliaryWords (entry :: aux) =
        entry.2.toNat :: entry.1.toNat :: auxiliaryWords aux := rfl
    rw [List.foldl_cons, ih, words, pushWords_cons, pushWords_cons]
    rfl

theorem length_auxiliaryWords (aux : List (UInt64 × UInt64)) :
    (auxiliaryWords aux).length = 2 * aux.length := by
  induction aux with
  | nil => rfl
  | cons entry aux ih =>
    have words : auxiliaryWords (entry :: aux) =
        entry.2.toNat :: entry.1.toNat :: auxiliaryWords aux := rfl
    rw [words, List.length_cons, List.length_cons, List.length_cons]
    omega

theorem auxiliaryWords_lt (aux : List (UInt64 × UInt64)) :
    ∀ w ∈ auxiliaryWords aux, w < 2 ^ 64 := by
  intro w member
  obtain ⟨entry, -, isWord⟩ := List.mem_flatMap.mp member
  simp only [List.mem_cons, List.not_mem_nil, or_false] at isWord
  rcases isWord with rfl | rfl
  · exact entry.2.toNat_lt
  · exact entry.1.toNat_lt

/-- The strings are found at their pointers, from `top` down to `bottom`. -/
def StringsAt (p : Process) (arg : List CString) (memory : Nat → UInt8) (top bottom : Nat) :
    Prop :=
  ∃ middle,
    BlocksAt memory top p.environment.1 (p.env.reverse.map CString.terminated) middle ∧
    BlocksAt memory middle (p.arguments arg).1 (arg.reverse.map CString.terminated) bottom

theorem StringsAt.congr (strings : StringsAt p arg memory top bottom)
    (same : ∀ q, bottom ≤ q → memory' q = memory q) : StringsAt p arg memory' top bottom := by
  obtain ⟨middle, environment, arguments⟩ := strings
  have le := arguments.bottom_le
  exact ⟨middle, environment.congr fun q above => same q (by omega), arguments.congr same⟩

theorem strings_pushed (small : p.stackPointer < 2 ^ 64)
    (room : p.stackNeeded arg ≤ p.stackPointer) :
    (p.arguments arg).2.pointer + bytesOf (p.env.map CString.terminated) +
        bytesOf (arg.map CString.terminated) + 8 = p.stackPointer ∧
      StringsAt p arg (p.arguments arg).2.memory (p.stackPointer - 8)
        (p.arguments arg).2.pointer := by
  unfold Process.stackNeeded at room
  have marked : p.marked.pointer = p.stackPointer - 8 := by
    unfold Process.marked
    dsimp only
    omega
  have first : Pushed p.marked p.environment.2 (bytesOf (p.env.map CString.terminated)) ∧
      BlocksAt p.environment.2.memory p.marked.pointer p.environment.1
        (p.env.reverse.map CString.terminated) p.environment.2.pointer := by
    rw [← bytesOf_reverse]
    apply pushBlocks_pushed
    · omega
    · rw [bytesOf_reverse]
      omega
  have moved := first.1.pointer
  have second : Pushed p.environment.2 (p.arguments arg).2
      (bytesOf (arg.map CString.terminated)) ∧
      BlocksAt (p.arguments arg).2.memory p.environment.2.pointer (p.arguments arg).1
        (arg.reverse.map CString.terminated) (p.arguments arg).2.pointer := by
    rw [← bytesOf_reverse]
    apply pushBlocks_pushed
    · omega
    · rw [bytesOf_reverse]
      omega
  have moved' := second.1.pointer
  refine ⟨by omega, p.environment.2.pointer, ?_, second.2⟩
  rw [← marked]
  exact first.2.congr second.1.kept

/-- The arrays are found below the strings. -/
structure ArraysAt (p : Process) (arg : List CString) (top : Nat) : Prop where
  kept : ∀ q, top ≤ q → (p.initial arg).memory q = (p.padded arg).memory q
  auxv : (p.auxiliary arg).pointer + 16 * (p.aux.length + 1) = top
  envp : (p.pointers arg).pointer + 8 * (p.env.length + 1) = (p.auxiliary arg).pointer
  argv : (p.vector arg).pointer + 8 * (arg.length + 1) = (p.pointers arg).pointer
  argc : (p.initial arg).pointer + 8 = (p.vector arg).pointer
  auxiliary : WordsAt (p.initial arg).memory (p.auxiliary arg).pointer
    (0 :: 0 :: auxiliaryWords p.aux).reverse
  environment : WordsAt (p.initial arg).memory (p.pointers arg).pointer
    (0 :: p.environment.1).reverse
  arguments : WordsAt (p.initial arg).memory (p.vector arg).pointer (0 :: (p.arguments arg).1).reverse
  count : wordOf (p.initial arg).memory 8 (p.initial arg).pointer = wordOfInt (intOfSize arg.length)

theorem auxiliary_eq :
    p.auxiliary arg = (p.padded arg).pushWords (0 :: 0 :: auxiliaryWords p.aux) := by
  unfold Process.auxiliary
  rw [foldl_pushAuxiliary, pushWords_cons, pushWords_cons]
  rfl

theorem pointers_eq : p.pointers arg = (p.auxiliary arg).pushWords (0 :: p.environment.1) := by
  unfold Process.pointers
  rw [pushWords_cons]

theorem vector_eq : p.vector arg = (p.pointers arg).pushWords (0 :: (p.arguments arg).1) := by
  unfold Process.vector
  rw [pushWords_cons]

theorem initial_eq :
    p.initial arg = (p.vector arg).pushWords [wordOfInt (intOfSize arg.length)] := by
  unfold Process.initial
  rw [pushWords_cons, pushWords_nil]

theorem wordOfInt_lt (value : Int) : wordOfInt value < 2 ^ 64 := by
  unfold wordOfInt
  omega

theorem arrays_pushed (small : (p.padded arg).pointer < 2 ^ 64)
    (room : 16 * (p.aux.length + 1) + 8 * (p.env.length + 1) + 8 * (arg.length + 1) + 8 ≤
      (p.padded arg).pointer)
    (environment : ∀ w ∈ p.environment.1, w < 2 ^ 64)
    (arguments : ∀ w ∈ (p.arguments arg).1, w < 2 ^ 64) :
    ArraysAt p arg (p.padded arg).pointer := by
  have zero : 0 < 2 ^ 64 := by decide
  have auxSize : (0 :: 0 :: auxiliaryWords p.aux).length = 2 * (p.aux.length + 1) := by
    rw [List.length_cons, List.length_cons, length_auxiliaryWords]
    omega
  have envSize : (0 :: p.environment.1).length = p.env.length + 1 := by
    rw [List.length_cons, length_environment]
  have argSize : (0 :: (p.arguments arg).1).length = arg.length + 1 := by
    rw [List.length_cons, length_arguments]
  have first : Pushed (p.padded arg) (p.auxiliary arg)
      (8 * (0 :: 0 :: auxiliaryWords p.aux).length) ∧
      WordsAt (p.auxiliary arg).memory (p.auxiliary arg).pointer
        (0 :: 0 :: auxiliaryWords p.aux).reverse := by
    rw [auxiliary_eq]
    apply pushWords_pushed small (by omega)
    intro w member
    rcases List.mem_cons.mp member with rfl | member
    · exact zero
    · rcases List.mem_cons.mp member with rfl | member
      · exact zero
      · exact auxiliaryWords_lt _ w member
  have moved1 := first.1.pointer
  have second : Pushed (p.auxiliary arg) (p.pointers arg) (8 * (0 :: p.environment.1).length) ∧
      WordsAt (p.pointers arg).memory (p.pointers arg).pointer (0 :: p.environment.1).reverse := by
    rw [pointers_eq]
    apply pushWords_pushed (by omega) (by omega)
    exact List.forall_mem_cons.mpr ⟨zero, environment⟩
  have moved2 := second.1.pointer
  have third : Pushed (p.pointers arg) (p.vector arg) (8 * (0 :: (p.arguments arg).1).length) ∧
      WordsAt (p.vector arg).memory (p.vector arg).pointer (0 :: (p.arguments arg).1).reverse := by
    rw [vector_eq]
    apply pushWords_pushed (by omega) (by omega)
    exact List.forall_mem_cons.mpr ⟨zero, arguments⟩
  have moved3 := third.1.pointer
  have last : Pushed (p.vector arg) (p.initial arg) 8 ∧
      WordsAt (p.initial arg).memory (p.initial arg).pointer
        [wordOfInt (intOfSize arg.length)] := by
    rw [initial_eq]
    apply pushWords_pushed (by omega)
    · rw [List.length_singleton]
      omega
    · exact List.forall_mem_cons.mpr ⟨wordOfInt_lt _, nofun⟩
  have moved4 := last.1.pointer
  have fromVector := last.1.kept
  have fromPointers := (third.1.trans last.1).kept
  have fromAuxiliary := (second.1.trans (third.1.trans last.1)).kept
  exact {
    kept := (first.1.trans (second.1.trans (third.1.trans last.1))).kept
    auxv := by omega
    envp := by omega
    argv := by omega
    argc := by omega
    auxiliary := first.2.congr fromAuxiliary
    environment := second.2.congr fromPointers
    arguments := third.2.congr fromVector
    count := last.2.1 }

/-! ## The reader gets back what was put in -/

theorem wordOfInt_intOfSize_iff (small : size < 2 ^ 63) :
    wordOfInt (intOfSize size) = size ↔ size < 2 ^ 31 := by
  unfold wordOfInt intOfSize
  split <;> omega

theorem intOfSize_eq_iff : intOfSize size = size ↔ size < 2 ^ 31 := by
  unfold intOfSize
  split <;> omega

theorem blocks_reverse {pointers : List Nat}
    (blocks : BlocksAt memory top pointers (strings.reverse.map CString.terminated) bottom) :
    List.Forall₂ (BytesAt memory) pointers.reverse (strings.map CString.terminated) ∧
      (ranges pointers.reverse (strings.map CString.terminated)).Pairwise Range.Apart ∧
      ∀ r ∈ ranges pointers.reverse (strings.map CString.terminated),
        bottom ≤ r.start ∧ r.stop ≤ top := by
  have found := blocks.forall₂
  have same : strings.map CString.terminated =
      (strings.reverse.map CString.terminated).reverse := by
    rw [List.map_reverse, List.reverse_reverse]
  have ranged : ranges pointers.reverse (strings.map CString.terminated) =
      (ranges pointers (strings.reverse.map CString.terminated)).reverse := by
    unfold ranges
    rw [same, List.reverse_zipWith found.length_eq]
  rw [ranged]
  refine ⟨?_, ?_, fun r member => blocks.within r (List.mem_reverse.mp member)⟩
  · rw [same]
    exact List.forall₂_reverse_iff.mpr found
  · rw [List.pairwise_reverse]
    exact blocks.apart.imp Range.Apart.symm

theorem reverse_auxiliaryWords (aux : List (UInt64 × UInt64)) :
    (0 :: 0 :: auxiliaryWords aux).reverse =
      aux.reverse.flatMap (fun entry => [entry.1.toNat, entry.2.toNat]) ++ [0, 0] := by
  rw [List.reverse_cons, List.reverse_cons, List.append_assoc]
  unfold auxiliaryWords
  rw [List.reverse_flatMap]
  rfl

/-- On the finished stack the reader finds arguments, environment and auxiliary vectors, if the
number of arguments is one of an `int`, and no auxiliary vector looks like the end of them. -/
theorem shows_of_layout (counted : arg.length < 2 ^ 31)
    (nonzero : ∀ entry ∈ p.aux, entry.1 ≠ atNull) (arrays : ArraysAt p arg (p.padded arg).pointer)
    (padded : 0 < (p.padded arg).pointer ∧ (p.padded arg).pointer ≤ (p.arguments arg).2.pointer)
    (strings : StringsAt p arg (p.initial arg).memory top (p.arguments arg).2.pointer) :
    Process.Shows { p with
      argc := intOfSize arg.length
      argv := (p.vector arg).pointer
      envp := (p.pointers arg).pointer
      stackPointer := (p.initial arg).pointer
      memory := (p.initial arg).memory } arg p.env p.aux := by
  obtain ⟨middle, envBlocks, argBlocks⟩ := strings
  obtain ⟨envBytes, envApart, envWithin⟩ := blocks_reverse envBlocks
  obtain ⟨argBytes, argApart, argWithin⟩ := blocks_reverse argBlocks
  have argLe := argBlocks.bottom_le
  have envNonzero : ∀ w ∈ p.environment.1.reverse, w ≠ 0 := by
    intro w member
    have bounds := envBlocks.bounds w (List.mem_reverse.mp member)
    omega
  have argNonzero : ∀ w ∈ (p.arguments arg).1.reverse, w ≠ 0 := by
    intro w member
    have bounds := argBlocks.bounds w (List.mem_reverse.mp member)
    omega
  have readArguments := readsStrings_of_words (by rw [← List.reverse_cons]; exact arrays.arguments)
    argNonzero argBytes
  have readEnvironment := readsStrings_of_words
    (by rw [← List.reverse_cons]; exact arrays.environment) envNonzero envBytes
  have readAuxiliary := readsAuxiliary_of_words
    (by rw [← reverse_auxiliaryWords]; exact arrays.auxiliary)
    fun entry member => nonzero entry (List.mem_reverse.mp member)
  rw [List.length_reverse, length_arguments, arrays.argv] at readArguments
  rw [List.length_reverse, length_environment, arrays.envp] at readEnvironment
  rw [List.length_reverse, arrays.auxv] at readAuxiliary
  have small : arg.length < 2 ^ 63 := by omega
  constructor <;> dsimp only
  · exact ⟨intOfSize_eq_iff.mpr counted,
      arrays.count.trans ((wordOfInt_intOfSize_iff small).mpr counted)⟩
  · exact arrays.argc.symm
  refine ⟨_, _, _, _, _, readArguments, readEnvironment, readAuxiliary, p.aux.reverse_perm, ?_, ?_⟩
  · refine List.pairwise_append.mpr ⟨argApart, envApart, fun r isArg q isEnv => Or.inl ?_⟩
    exact (argWithin r isArg).2.trans (envWithin q isEnv).1
  · intro r member
    have above : (p.arguments arg).2.pointer ≤ r.start := by
      rcases List.mem_append.mp member with isArg | isEnv
      · exact (argWithin r isArg).1
      · exact argLe.trans (envWithin r isEnv).1
    have auxv := arrays.auxv
    have envp := arrays.envp
    have argv := arrays.argv
    have argc := arrays.argc
    have stop : (p.initial arg).pointer + ((p.padded arg).pointer - (p.initial arg).pointer) =
        (p.padded arg).pointer := by omega
    unfold Range.Apart Range.stop
    rw [stop]
    exact Or.inr (padded.2.trans above)

theorem Process.Shows.nonzero (shows : p.Shows arg env aux) : ∀ entry ∈ aux, entry.1 ≠ atNull := by
  obtain ⟨_, _, entries, _, _, -, -, reads, perm, -⟩ := shows.arrays
  intro entry member
  exact reads.nonzero entry (perm.mem_iff.mpr member)

theorem Process.Shows.counted (shows : p'.Shows arg env aux) (run : p.init arg = some p') :
    arg.length < 2 ^ 31 := by
  have count : p'.argc = intOfSize arg.length := by
    unfold Process.init at run
    split at run
    · cases run
      rfl
    · cases run
  rw [← intOfSize_eq_iff, ← count]
  exact shows.argc.1

/-- What `Process::init` puts on the stack is what the reader finds, exactly if the `int` that
counts the arguments can hold their number and no auxiliary vector has the type that ends
them. -/
theorem init_shows_iff (aligned : p.stackPointer % 8 = 0) (small : p.stackPointer < 2 ^ 64)
    (room : p.stackNeeded arg ≤ p.stackPointer) :
    ∃ p', p.init arg = some p' ∧
      (p'.Shows arg p.env p.aux ↔
        arg.length < 2 ^ 31 ∧ ∀ entry ∈ p.aux, entry.1 ≠ atNull) := by
  have run : p.init arg = some _ := init_eq aligned
  refine ⟨_, run, fun shows => ⟨shows.counted run, shows.nonzero⟩, fun holds => ?_⟩
  obtain ⟨bottom, strings⟩ := strings_pushed small room
  have padded : (p.padded arg).pointer =
      (p.arguments arg).2.pointer - (p.arguments arg).2.pointer % 16 := rfl
  unfold Process.stackNeeded at room
  have arrays : ArraysAt p arg (p.padded arg).pointer := by
    obtain ⟨middle, envBlocks, argBlocks⟩ := strings
    have middleLe := envBlocks.bottom_le
    apply arrays_pushed
    · omega
    · omega
    · intro w member
      have bounds := envBlocks.bounds w member
      omega
    · intro w member
      have bounds := argBlocks.bounds w member
      omega
  apply shows_of_layout holds.1 holds.2 arrays
  · omega
  · apply strings.congr
    intro q above
    exact arrays.kept q (by omega)

/-- A process with an environment string and an auxiliary vector (`AT_PAGESZ`). -/
def Process.paged : Process := { Process.plain with env := [.a], aux := [(6, 4096)] }

/-- The reader finds the two strings and the auxiliary vector. -/
theorem init_shows_iff_paged : ∃ p', Process.paged.init [.a] = some p' ∧
    p'.Shows [.a] [.a] [(6, 4096)] := by
  have aligned : Process.paged.stackPointer % 8 = 0 := by decide
  have small : Process.paged.stackPointer < 2 ^ 64 := by decide
  have room : Process.paged.stackNeeded [.a] ≤ Process.paged.stackPointer := by decide
  have counted : [CString.a].length < 2 ^ 31 := by
    rw [List.length_singleton]
    omega
  have nonzero : ∀ entry ∈ Process.paged.aux, entry.1 ≠ atNull :=
    List.forall_mem_singleton.mpr (by decide)
  obtain ⟨p', run, found⟩ := init_shows_iff aligned small room
  exact ⟨p', run, found.mpr ⟨counted, nonzero⟩⟩

/-- A process with an auxiliary vector of type `AT_NULL`. -/
def Process.nulled : Process := { Process.plain with aux := [(atNull, 1)] }

/-- A process with room for many arguments. -/
def Process.roomy : Process := { Process.plain with stackPointer := 2 ^ 40 }

theorem stackNeeded_replicate (count : Nat) :
    Process.roomy.stackNeeded (List.replicate count .a) = 10 * count + 64 := by
  unfold Process.stackNeeded bytesOf
  rw [List.map_replicate, List.map_replicate, List.sum_replicate_nat, List.length_replicate]
  have size : CString.a.terminated.length = 2 := rfl
  have noEnv : Process.roomy.env = [] := rfl
  have noAux : Process.roomy.aux = [] := rfl
  rw [size, noEnv, noAux]
  simp only [List.map_nil, List.sum_nil, List.length_nil]
  omega

/-- A vector of type `AT_NULL` is taken for the end of the vectors, and `2 ^ 31` arguments make
the count negative. -/
theorem init_shows_not :
    (Process.nulled.stackNeeded [] ≤ Process.nulled.stackPointer ∧
      ∃ p', Process.nulled.init [] = some p' ∧ ¬ p'.Shows [] [] [(atNull, 1)]) ∧
    (Process.roomy.stackNeeded (List.replicate (2 ^ 31) .a) ≤ Process.roomy.stackPointer ∧
      ∃ p', Process.roomy.init (List.replicate (2 ^ 31) .a) = some p' ∧
        ¬ p'.Shows (List.replicate (2 ^ 31) .a) [] []) := by
  constructor
  · refine ⟨by decide, _, init_eq (by decide), fun shows => ?_⟩
    exact shows.nonzero _ (List.mem_singleton_self _) rfl
  · have run : Process.roomy.init (List.replicate (2 ^ 31) .a) = some _ := init_eq (by decide)
    refine ⟨?_, _, run, fun shows => ?_⟩
    · rw [stackNeeded_replicate]
      decide
    · have counted := shows.counted run
      rw [List.length_replicate] at counted
      omega

end Luci
