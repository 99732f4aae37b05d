import Luci.Misc.Range
import Luci.Misc.VirtualMemory

/-!
# Stacks that grow downwards

A stack pointer and the memory of its bytes. What is pushed is written below the pointer, so
that everything from the old pointer on is kept; a list of blocks or of words that is pushed
in order ends up in memory in the reverse order.
-/

namespace Luci

open VirtualMemory

/-- The pointer to the last byte pushed, and the memory. -/
structure DownStack where
  pointer : Nat
  memory : Nat → UInt8

namespace DownStack

/-- Move the pointer by `n` bytes, in 64 bits, and write these bytes. -/
def push (s : DownStack) (n : Nat) (bytes : Nat → UInt8) : DownStack :=
  let pointer := (s.pointer + 2 ^ 64 - n) % 2 ^ 64
  ⟨pointer, overlay s.memory pointer n bytes⟩

/-- Push a word of 64 bits. -/
def pushWord (s : DownStack) (word : Nat) : DownStack := s.push 8 (byteOf word)

/-- Push words one after the other. -/
def pushWords (s : DownStack) (words : List Nat) : DownStack := words.foldl pushWord s

/-- Push a block of bytes. -/
def pushBlock (s : DownStack) (block : List UInt8) : DownStack :=
  s.push block.length fun i => block.getD i 0

/-- Push blocks one after the other; the result has the pointer to each. -/
def pushBlocks : List (List UInt8) → DownStack → List Nat × DownStack
  | [], s => ([], s)
  | block :: blocks, s =>
    ((s.pushBlock block).pointer :: (pushBlocks blocks (s.pushBlock block)).1,
      (pushBlocks blocks (s.pushBlock block)).2)

/-! ## Contents of the memory -/

/-- The bytes stand at an address. -/
def BytesAt (memory : Nat → UInt8) (a : Nat) (bytes : List UInt8) : Prop :=
  ∀ i < bytes.length, memory (a + i) = bytes.getD i 0

/-- The words of 64 bits stand at an address. -/
def WordsAt (memory : Nat → UInt8) : Nat → List Nat → Prop
  | _, [] => True
  | a, word :: words => wordOf memory 8 a = word ∧ WordsAt memory (a + 8) words

/-- The blocks stand one below the other, from `top` down to `bottom`. -/
inductive BlocksAt (memory : Nat → UInt8) : Nat → List Nat → List (List UInt8) → Nat → Prop
  | nil (top : Nat) : BlocksAt memory top [] [] top
  | cons {a bottom : Nat} {block : List UInt8} {pointers : List Nat} {blocks : List (List UInt8)}
      (bytes : BytesAt memory a block) (rest : BlocksAt memory a pointers blocks bottom) :
      BlocksAt memory (a + block.length) (a :: pointers) (block :: blocks) bottom

variable {memory memory' : Nat → UInt8} {a top bottom n m : Nat} {words words' : List Nat}
  {pointers : List Nat} {blocks : List (List UInt8)} {s s' s'' : DownStack}

theorem BytesAt.congr {bytes : List UInt8} (bytesAt : BytesAt memory a bytes)
    (same : ∀ p, a ≤ p → memory' p = memory p) : BytesAt memory' a bytes := by
  intro i lt
  rw [same (a + i) (by omega)]
  exact bytesAt i lt

theorem WordsAt.congr (wordsAt : WordsAt memory a words)
    (same : ∀ p, a ≤ p → memory' p = memory p) : WordsAt memory' a words := by
  induction words generalizing a with
  | nil => trivial
  | cons word words ih =>
    constructor
    · rw [wordOf_congr 8 fun i _ => same (a + i) (by omega)]
      exact wordsAt.1
    · exact ih wordsAt.2 fun p le => same p (by omega)

theorem WordsAt.append (first : WordsAt memory a words)
    (second : WordsAt memory (a + 8 * words.length) words') :
    WordsAt memory a (words ++ words') := by
  induction words generalizing a with
  | nil => exact second
  | cons word words ih =>
    refine ⟨first.1, ih first.2 ?_⟩
    rwa [List.length_cons, Nat.mul_succ, Nat.add_comm _ 8, ← Nat.add_assoc] at second

section Blocks

variable (blocksAt : BlocksAt memory top pointers blocks bottom)

include blocksAt

theorem BlocksAt.bottom_le : bottom ≤ top := by
  induction blocksAt with
  | nil top => exact le_rfl
  | cons bytes rest ih => omega

theorem BlocksAt.bounds : ∀ a ∈ pointers, bottom ≤ a ∧ a ≤ top := by
  induction blocksAt with
  | nil top => exact nofun
  | @cons a bottom block pointers blocks bytes rest ih =>
    have le := rest.bottom_le
    intro b member
    rcases List.mem_cons.mp member with rfl | isRest
    · exact ⟨le, Nat.le_add_right _ _⟩
    · obtain ⟨lower, upper⟩ := ih b isRest
      exact ⟨lower, by omega⟩

theorem BlocksAt.congr (same : ∀ p, bottom ≤ p → memory' p = memory p) :
    BlocksAt memory' top pointers blocks bottom := by
  induction blocksAt with
  | nil top => exact .nil top
  | cons bytes rest ih =>
    have le := rest.bottom_le
    exact .cons (bytes.congr fun p le' => same p (by omega)) (ih same)

theorem BlocksAt.forall₂ : List.Forall₂ (BytesAt memory) pointers blocks := by
  induction blocksAt with
  | nil top => exact .nil
  | cons bytes rest ih => exact .cons bytes ih

end Blocks

/-- The ranges of some blocks. -/
def ranges (pointers : List Nat) (blocks : List (List UInt8)) : List Range :=
  List.zipWith (fun a block => ⟨a, block.length⟩) pointers blocks

theorem BlocksAt.within (blocksAt : BlocksAt memory top pointers blocks bottom) :
    ∀ r ∈ ranges pointers blocks, bottom ≤ r.start ∧ r.stop ≤ top := by
  induction blocksAt with
  | nil top => exact nofun
  | @cons a bottom block pointers blocks bytes rest ih =>
    have le := rest.bottom_le
    intro r member
    rcases List.mem_cons.mp member with rfl | isRest
    · exact ⟨le, le_rfl⟩
    · obtain ⟨lower, upper⟩ := ih r isRest
      exact ⟨lower, by omega⟩

theorem BlocksAt.apart (blocksAt : BlocksAt memory top pointers blocks bottom) :
    (ranges pointers blocks).Pairwise Range.Apart := by
  induction blocksAt with
  | nil top => exact .nil
  | cons bytes rest ih => exact .cons (fun r member => Or.inr (rest.within r member).2) ih

/-! ## Pushing -/

/-- The stack has got `n` bytes, and everything from its old pointer on is kept. -/
structure Pushed (s s' : DownStack) (n : Nat) : Prop where
  pointer : s'.pointer + n = s.pointer
  kept : ∀ p, s.pointer ≤ p → s'.memory p = s.memory p

theorem Pushed.refl (s : DownStack) : Pushed s s 0 := ⟨rfl, fun _ _ => rfl⟩

theorem Pushed.trans (first : Pushed s s' n) (second : Pushed s' s'' m) : Pushed s s'' (n + m) where
  pointer := by
    have := first.pointer
    have := second.pointer
    omega
  kept p le := by
    have := first.pointer
    rw [second.kept p (by omega), first.kept p le]

theorem push_pushed (word : s.pointer < 2 ^ 64) (room : n ≤ s.pointer) (bytes : Nat → UInt8) :
    Pushed s (s.push n bytes) n := by
  have pointer : (s.push n bytes).pointer = s.pointer - n := by
    unfold push
    dsimp only
    omega
  constructor
  · omega
  · intro p le
    exact if_neg (by omega)

theorem push_memory (n : Nat) (bytes : Nat → UInt8) {i : Nat} (lt : i < n) :
    (s.push n bytes).memory ((s.push n bytes).pointer + i) = bytes i := by
  unfold push
  simp [overlay, lt]

@[simp] theorem pushWords_nil : s.pushWords [] = s := by
  unfold pushWords
  rw [List.foldl_nil]

theorem pushWords_cons (word : Nat) (words : List Nat) :
    s.pushWords (word :: words) = (s.pushWord word).pushWords words := by
  unfold pushWords
  rw [List.foldl_cons]

theorem pushWords_pushed (word : s.pointer < 2 ^ 64) (room : 8 * words.length ≤ s.pointer)
    (small : ∀ w ∈ words, w < 2 ^ 64) : Pushed s (s.pushWords words) (8 * words.length) ∧
      WordsAt (s.pushWords words).memory (s.pushWords words).pointer words.reverse := by
  induction words generalizing s with
  | nil => exact ⟨.refl s, trivial⟩
  | cons w words ih =>
    obtain ⟨isSmall, others⟩ := List.forall_mem_cons.mp small
    rw [List.length_cons, Nat.mul_succ, Nat.add_comm] at room ⊢
    have first : Pushed s (s.pushWord w) 8 := push_pushed word (by omega) _
    have moved := first.pointer
    obtain ⟨rest, found⟩ := ih (s := s.pushWord w) (by omega) (by omega) others
    rw [pushWords_cons]
    refine ⟨first.trans rest, ?_⟩
    rw [List.reverse_cons]
    refine found.append ⟨?_, trivial⟩
    rw [List.length_reverse, rest.pointer]
    have here : wordOf (s.pushWord w).memory 8 (s.pushWord w).pointer = w := by
      unfold pushWord
      rw [wordOf_bytes 8 w _ _ fun i lt => push_memory 8 (byteOf w) lt]
      exact Nat.mod_eq_of_lt isSmall
    rw [wordOf_congr 8 fun i _ => rest.kept _ (Nat.le_add_right _ i), here]

/-- The number of bytes of some blocks. -/
def bytesOf (blocks : List (List UInt8)) : Nat := (blocks.map List.length).sum

theorem bytesOf_cons (block : List UInt8) (blocks : List (List UInt8)) :
    bytesOf (block :: blocks) = block.length + bytesOf blocks := by
  unfold bytesOf
  rw [List.map_cons, List.sum_cons]

theorem pushBlocks_pushed (word : s.pointer < 2 ^ 64) (room : bytesOf blocks ≤ s.pointer) :
    Pushed s (pushBlocks blocks s).2 (bytesOf blocks) ∧
      BlocksAt (pushBlocks blocks s).2.memory s.pointer (pushBlocks blocks s).1 blocks
        (pushBlocks blocks s).2.pointer := by
  induction blocks generalizing s with
  | nil => exact ⟨.refl s, .nil _⟩
  | cons block blocks ih =>
    rw [bytesOf_cons] at room ⊢
    have first : Pushed s (s.pushBlock block) block.length := push_pushed word (by omega) _
    have moved := first.pointer
    have bytes : BytesAt (s.pushBlock block).memory (s.pushBlock block).pointer block := by
      intro i lt
      exact push_memory _ _ lt
    obtain ⟨rest, found⟩ := ih (s := s.pushBlock block) (by omega) (by omega)
    rw [pushBlocks]
    refine ⟨first.trans rest, ?_⟩
    rw [← moved]
    exact .cons (bytes.congr rest.kept) found

end DownStack

end Luci
