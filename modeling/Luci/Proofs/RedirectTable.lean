import Luci.Redirect
import Mathlib.Logic.Function.Basic
import Mathlib.Logic.Relation
import Mathlib.Tactic.IntervalCases

/-!
# Redirection table and code

What one call of `Redirect::add` and one execution of the trap handler do to the
table and to the composed code, the meaning of the jumps they write, and the
agreement of table and code over all runs of such steps: the code at a key either
jumps to the target of its entry or traps there, and the target is that of the
latest call.
-/

namespace Luci.Redirect

open VirtualMemory Relation

variable {mode : Mode} {o : CodeObject} {tasks : List Nat} {code : Nat → UInt8}
  {helper : Option Nat} {Allowed : Nat → Nat → Prop}
  {a address base n object ptr source target tid : Nat}

/-! ## Effects of the steps -/

/-- Every buffer is available and every system call of `finalize` succeeds. -/
structure Env.Succeeds (e : Env) : Prop where
  compose : ∀ seg, e.compose seg ≠ .unavailable
  mprotect : ∀ seg, e.mprotect seg = true
  mremap : ∀ seg, e.mremap seg = true

variable {e : Env} {seg : MemorySegment} {s s' : State} {trap : Trap} {call : AddCall}

/-- The code was changed at an address, and nothing besides code and table. -/
structure Patched (s s' : State) (address n : Nat) (bytes : Nat → UInt8) : Prop where
  mode : s'.mode = s.mode
  objects : s'.objects = s.objects
  composed : s'.composed = overlay s.composed address n bytes

theorem finalize_eq (e : Env) (seg : MemorySegment) (s : State) : ∃ active, (s.finalize e seg).2 = { s with active := active } := by
  unfold State.finalize
  by_cases buffered : e.compose seg = .buffered
  · by_cases moved : e.mremap seg
    · simp only [if_pos buffered, if_pos moved]
      exact ⟨_, rfl⟩
    · simp only [if_pos buffered, if_neg moved]
      exact ⟨s.active, rfl⟩
  · simp only [if_neg buffered]
    exact ⟨s.active, rfl⟩

@[simp] theorem finalize_mode : (s.finalize e seg).2.mode = s.mode := by
  obtain ⟨active, state⟩ := finalize_eq e seg s
  rw [state]

@[simp] theorem finalize_objects : (s.finalize e seg).2.objects = s.objects := by
  obtain ⟨active, state⟩ := finalize_eq e seg s
  rw [state]

@[simp] theorem finalize_composed : (s.finalize e seg).2.composed = s.composed := by
  obtain ⟨active, state⟩ := finalize_eq e seg s
  rw [state]

@[simp] theorem finalize_entries : (s.finalize e seg).2.entries = s.entries := by
  obtain ⟨active, state⟩ := finalize_eq e seg s
  rw [state]

theorem finalize_succeeds (succeeds : e.Succeeds) : (s.finalize e seg).1 := by
  unfold State.finalize
  split <;> simp [succeeds.mprotect, succeeds.mremap]

theorem staticRedirect_inv (redirected : staticRedirect e object source target s = (true, s')) :
    Patched s s' source (jumpSize source target) (jump source target) ∧
      s'.entries = s.entries := by
  unfold staticRedirect at redirected
  split at redirected
  · cases redirected
  · have state := congrArg Prod.snd redirected
    subst state
    exact ⟨⟨finalize_mode, finalize_objects, finalize_composed⟩, finalize_entries⟩

theorem staticRedirect_entries (s : State) :
    (staticRedirect e object source target s).2.entries = s.entries := by
  unfold staticRedirect
  split
  · rfl
  · exact finalize_entries

/-- With succeeding system calls a static redirection only fails outside all segments. -/
theorem staticRedirect_failed (succeeds : e.Succeeds)
    (failed : staticRedirect e object source target s = (false, s')) : s' = s := by
  unfold staticRedirect at failed
  split at failed
  · exact (congrArg Prod.snd failed).symm
  · have result := congrArg Prod.fst failed
    rw [finalize_succeeds succeeds] at result
    cases result

theorem entry_not_madeStatic (code : Nat → UInt8) :
    (call.entry trap a code).type ≠ .madeStatic := by
  simp only [AddCall.entry, AddCall.type]
  split <;> decide

/-- What a successful call of `Redirect::add` has done. -/
inductive Added (call : AddCall) (trap : Trap) (s s' : State) : Prop
  /-- The redirection is already configured. -/
  | configured (val : RedirectionEntry) (found : s.entries (call.address s) = some val)
      (target : val.toAddress = call.toAddress)
      (same : if val.type = .madeStatic then call.type trap (call.address s) = .makeStatic
        else call.matchesEntry trap (call.address s) val = true)
      (state : s' = s)
  /-- An installed jump has another target now. -/
  | retargeted (val : RedirectionEntry) (found : s.entries (call.address s) = some val)
      (static : val.type = .madeStatic)
      (type : call.type trap (call.address s) = .makeStatic)
      (entries : s'.entries =
        (s.insert (call.address s) { val with toAddress := call.toAddress }).entries)
      (code : Patched s s' (call.address s) (jumpSize (call.address s) call.toAddress)
        (jump (call.address s) call.toAddress))
  /-- The trap instruction has been written, over whatever was there. -/
  | installed
      (replaced : ∀ val, s.entries (call.address s) = some val →
        if val.type = .madeStatic then call.type trap (call.address s) ≠ .makeStatic
        else call.matchesEntry trap (call.address s) val = false)
      (inside : ∃ seg ∈ (s.objects call.fromObject).memoryMap, seg.contains (call.address s))
      (entries : s'.entries =
        (s.insert (call.address s) (call.entry trap (call.address s) s.composed)).entries)
      (code : Patched s s' (call.address s) trap.size trap.instruction)

theorem composePointer_inside (found : composePointer e o ptr = some seg) :
    ∃ seg ∈ o.memoryMap, seg.contains ptr := by
  obtain ⟨first, -⟩ := Option.filter_eq_some_iff.mp found
  have contains := List.find?_some first
  exact ⟨seg, List.mem_of_find?_eq_some first, contains⟩

theorem composePointer_of_inside (succeeds : e.Succeeds)
    (inside : ∃ seg ∈ o.memoryMap, seg.contains ptr) :
    ∃ seg, composePointer e o ptr = some seg := by
  obtain ⟨seg, member, contains⟩ := inside
  cases first : o.memoryMap.find? (fun seg => seg.contains ptr) with
  | none => exact absurd contains (List.find?_eq_none.mp first seg member)
  | some seg' =>
    refine ⟨seg', ?_⟩
    unfold composePointer
    rw [first, Option.filter_some, if_pos (by simpa using succeeds.compose seg')]

theorem install_inv (installed : call.install e trap address s = (true, s')) :
    (∃ seg ∈ (s.objects call.fromObject).memoryMap, seg.contains address) ∧
      s'.entries = (s.insert address (call.entry trap address s.composed)).entries ∧
      Patched s s' address trap.size trap.instruction := by
  unfold AddCall.install at installed
  split at installed
  · cases installed
  · next seg found =>
    have state := congrArg Prod.snd installed
    simp only at state
    refine ⟨composePointer_inside found, ?_⟩
    subst state
    by_cases final : call.finalize
    · rw [if_pos final]
      exact ⟨finalize_entries, finalize_mode, finalize_objects, finalize_composed⟩
    · rw [if_neg final]
      exact ⟨rfl, rfl, rfl, rfl⟩

theorem add_inv (configured : traps s.mode = some trap) (added : add e call s = (true, s')) :
    Added call trap s s' := by
  unfold add at added
  rw [configured] at added
  simp only at added
  split at added
  · next missing =>
    obtain ⟨inside, entries, code⟩ := install_inv added
    refine .installed ?_ inside entries code
    intro val found
    rw [missing] at found
    cases found
  · next val found =>
    split at added
    · next static =>
      split at added
      · next type =>
        split at added
        · next target =>
          refine .configured val found target ?_ (congrArg Prod.snd added).symm
          rw [if_pos static]
          exact type
        · obtain ⟨code, entries⟩ := staticRedirect_inv added
          exact .retargeted val found static type entries ⟨code.mode, code.objects, code.composed⟩
      · next type =>
        obtain ⟨inside, entries, code⟩ := install_inv added
        refine .installed ?_ inside entries code
        intro val' found'
        rw [found] at found'
        cases found'
        rw [if_pos static]
        exact type
    · next dynamic =>
      split at added
      · next same =>
        have target : val.toAddress = call.toAddress := by
          exact (of_decide_eq_true same).2.1
        refine .configured val found target ?_ (congrArg Prod.snd added).symm
        rw [if_neg dynamic]
        exact same
      · next other =>
        obtain ⟨inside, entries, code⟩ := install_inv added
        refine .installed ?_ inside ?_ ⟨code.mode, code.objects, code.composed⟩
        · intro val' found'
          rw [found] at found'
          cases found'
          rw [if_neg dynamic]
          exact Bool.eq_false_iff.mpr other
        · rw [entries]
          funext a
          simp only [State.insert, State.erase]
          split <;> rfl

/-- A redirection of an address without one, in a segment that can be composed, is added. -/
theorem add_fresh (configured : traps s.mode = some trap)
    (unset : s.entries (call.address s) = none)
    (found : composePointer e (s.objects call.fromObject) (call.address s) = some seg) :
    (add e call s).1 := by
  unfold add
  rw [configured]
  simp only [unset]
  unfold AddCall.install
  rw [found]

theorem add_others (other : a ≠ call.address s) : (add e call s).2.entries a = s.entries a := by
  have installs : ∀ trap (s1 : State), s1.entries a = s.entries a →
      (call.install e trap (call.address s) s1).2.entries a = s.entries a := by
    intro trap s1 same
    unfold AddCall.install
    cases composePointer e (s1.objects call.fromObject) (call.address s) with
    | none => exact same
    | some seg =>
      dsimp only
      split
      · rw [finalize_entries]
        exact (if_neg other).trans same
      · exact (if_neg other).trans same
  unfold add
  cases configured : traps s.mode with
  | none => rfl
  | some trap =>
    cases found : s.entries (call.address s) with
    | none =>
      simp only [found]
      exact installs trap s rfl
    | some val =>
      simp only [found]
      by_cases static : val.type = .madeStatic
      · rw [if_pos static]
        split
        · split
          · rfl
          · rw [staticRedirect_entries]
            exact if_neg other
        · exact installs trap s rfl
      · rw [if_neg static]
        split
        · rfl
        · exact installs trap (s.erase _) (if_neg other)

/-- What an execution of the trap handler for an address has done. -/
inductive Trapped (address : Nat) (s s' : State) : Prop
  | idle (state : s' = s)
  /-- A task has reached the trap, and the others have not. -/
  | waiting (tid : Nat) (val : RedirectionEntry) (found : s.entries address = some val)
      (type : val.type = .makeStatic)
      (state : s' = s.insert address { val with tids := tid :: val.tids })
  /-- The last task has reached the trap. -/
  | promoted (tid : Nat) (val : RedirectionEntry) (found : s.entries address = some val)
      (type : val.type = .makeStatic)
      (entries : s'.entries = (s.insert address
        { val with tids := tid :: val.tids, type := .madeStatic }).entries)
      (code : Patched s s' address (jumpSize address val.toAddress)
        (jump address val.toAddress))

theorem promote_inv (succeeds : e.Succeeds) {val : RedirectionEntry}
    (found : s.entries address = some val) (type : val.type = .makeStatic) :
    Trapped address s (promote e address tid tasks helper val s) := by
  unfold promote
  by_cases seen : tid ∈ val.tids
  · rw [if_pos seen]
    exact .idle rfl
  · rw [if_neg seen]
    simp only
    split
    · cases redirected : staticRedirect e val.fromObject address val.toAddress
        (s.insert address { val with tids := tid :: val.tids }) with
      | mk installed s' =>
        cases installed with
        | false =>
          rw [staticRedirect_failed succeeds redirected]
          exact .waiting tid val found type rfl
        | true =>
          obtain ⟨code, entries⟩ := staticRedirect_inv redirected
          refine .promoted tid val found type ?_ ⟨code.mode, code.objects, code.composed⟩
          funext a
          rw [if_pos rfl]
          simp only [State.insert, entries]
          split <;> rfl
    · exact .waiting tid val found type rfl

theorem trapHandler_inv (configured : traps s.mode = some trap) (succeeds : e.Succeeds)
    {signal : Signal} {rip tid : Nat} :
    Trapped (subWord rip trap.offset) s (trapHandler e signal rip tid tasks helper s).2 := by
  unfold trapHandler
  rw [configured]
  simp only
  split
  · exact .idle rfl
  · split
    · exact .idle rfl
    · split
      · exact .idle rfl
      · next val found =>
        split
        · next type => exact promote_inv succeeds found type
        · exact .idle rfl

/-! ## The meaning of the jumps -/

/-- A displacement of 32 bits. -/
def signed32 (value : Nat) : Int := if value < 2 ^ 31 then value else (value : Int) - 2 ^ 32

/-- Where the jump at an address goes: `jmp rel32`, or `jmp [rip + disp32]`. -/
def decodeJump (code : Nat → UInt8) (a : Nat) : Option Nat :=
  if code a = 0xe9 then some (wordOfInt (a + 5 + signed32 (wordOf code 4 (a + 1))))
  else if code a = 0xff ∧ code (a + 1) = 0x25 then
    some (wordOf code 8 (wordOfInt (a + 6 + signed32 (wordOf code 4 (a + 2)))))
  else none

/-- If `check_relative_jump` accepts the target, its distance fits into the signed
displacement. Among the targets within 2^31 of the address, these are the ones with
`a + 5 ≤ target + 2 ^ 31`. -/
def Reaches (a target : Nat) : Prop :=
  checkRelativeJump a target = true → a + 5 ≤ target + 2 ^ 31 ∧ target < a + 5 + 2 ^ 31

theorem decodeJump_relative (word : target < 2 ^ 64) (lower : a + 5 ≤ target + 2 ^ 31)
    (upper : target < a + 5 + 2 ^ 31) (bytes : ∀ i < 5, code (a + i) = relativeJump a target i) :
    decodeJump code a = some target := by
  have opcode : code a = 0xe9 := bytes 0 (by omega)
  have displacement : wordOf code 4 (a + 1) = subWord (subWord target a) 5 % 2 ^ 32 := by
    rw [wordOf_bytes 4 (subWord (subWord target a) 5 % 2 ^ 32) code (a + 1)]
    · exact Nat.mod_eq_of_lt (by omega)
    · intro i lt
      have byte := bytes (i + 1) (by omega)
      rw [Nat.add_assoc, Nat.add_comm 1 i, byte]
      rfl
  have arrives : wordOfInt (a + 5 + signed32 (subWord (subWord target a) 5 % 2 ^ 32)) = target := by
    unfold wordOfInt signed32 subWord
    split <;> omega
  unfold decodeJump
  rw [if_pos opcode, displacement, arrives]

theorem decodeJump_absolute (inside : a + 14 ≤ 2 ^ 64) (word : target < 2 ^ 64)
    (bytes : ∀ i < 14, code (a + i) = absoluteJump target i) :
    decodeJump code a = some target := by
  have opcode : code a = 0xff := bytes 0 (by omega)
  have modrm : code (a + 1) = 0x25 := bytes 1 (by omega)
  have displacement : wordOf code 4 (a + 2) = 0 := by
    rw [wordOf_bytes 4 0 code (a + 2), Nat.zero_mod]
    intro i lt
    rw [Nat.add_assoc, bytes (2 + i) (by omega)]
    interval_cases i <;> rfl
  have pointer : wordOf code 8 (a + 6) = target := by
    rw [wordOf_bytes 8 target code (a + 6)]
    · exact Nat.mod_eq_of_lt (by omega)
    · intro i lt
      rw [Nat.add_assoc, bytes (6 + i) (by omega)]
      interval_cases i <;> rfl
  have here : wordOfInt (a + 6 + signed32 0) = a + 6 := by
    unfold wordOfInt signed32
    omega
  unfold decodeJump
  rw [if_neg (by rw [opcode]; decide), if_pos ⟨opcode, modrm⟩, displacement, here, pointer]

/-- Within the reach of its displacement the jump goes to its target. -/
theorem decodeJump_jump (inside : a + jumpSize a target ≤ 2 ^ 64) (word : target < 2 ^ 64)
    (reaches : Reaches a target) (bytes : ∀ i < jumpSize a target, code (a + i) = jump a target i) :
    decodeJump code a = some target := by
  unfold jumpSize at inside bytes
  unfold jump at bytes
  by_cases relative : checkRelativeJump a target
  · rw [if_pos relative] at bytes
    obtain ⟨lower, upper⟩ := reaches relative
    apply decodeJump_relative word lower upper
    intro i lt
    rw [bytes i lt, if_pos relative]
  · rw [if_neg relative] at inside bytes
    apply decodeJump_absolute inside word
    intro i lt
    rw [bytes i lt, if_neg relative]

/-! ## Runs -/

/-- A state with the target of the latest call of `Redirect::add` for each address. -/
structure Traced where
  state : State
  last : Nat → Option Nat

/-- The patched region of each address; an address without redirections has none. -/
def Regions (width : Nat → Nat) : Prop :=
  ∀ a b, a ≠ b → 0 < width a → 0 < width b → Range.Apart ⟨a, width a⟩ ⟨b, width b⟩

/-- The call patches the region of its address. -/
structure AddCall.Fits (call : AddCall) (width : Nat → Nat) (trap : Trap) (a : Nat) : Prop where
  trapFits : trap.size ≤ width a
  jumpFits : call.type trap a = .makeStatic → jumpSize a call.toAddress ≤ width a
  inside : a + width a ≤ 2 ^ 64
  word : call.toAddress < 2 ^ 64

/-- A successful call of `Redirect::add` whose target is allowed for its address, or an
execution of the trap handler by any thread. -/
inductive Step (width : Nat → Nat) (trap : Trap) (Allowed : Nat → Nat → Prop) :
    Traced → Traced → Prop
  | add {t : Traced} {s' : State} (e : Env) (call : AddCall) (succeeds : e.Succeeds)
      (added : add e call t.state = (true, s'))
      (fits : call.Fits width trap (call.address t.state))
      (allowed : call.type trap (call.address t.state) = .makeStatic →
        Allowed (call.address t.state) call.toAddress) :
      Step width trap Allowed t
        ⟨s', Function.update t.last (call.address t.state) (some call.toAddress)⟩
  | trapped {t : Traced} (e : Env) (signal : Signal) (rip tid : Nat) (tasks : List Nat)
      (helper : Option Nat) (succeeds : e.Succeeds) :
      Step width trap Allowed t ⟨(trapHandler e signal rip tid tasks helper t.state).2, t.last⟩

theorem Step.add_at {width : Nat → Nat} {t : Traced} (succeeds : e.Succeeds)
    (address : call.address t.state = a) (added : Redirect.add e call t.state = (true, s'))
    (fits : call.Fits width trap a)
    (allowed : call.type trap a = .makeStatic → Allowed a call.toAddress) :
    Step width trap Allowed t ⟨s', Function.update t.last a (some call.toAddress)⟩ := by
  subst address
  exact .add e call succeeds added fits allowed

/-- The bytes that stand at the address of an entry. -/
def RedirectionEntry.Shown (entry : RedirectionEntry) (trap : Trap) (code : Nat → UInt8)
    (a : Nat) : Prop :=
  if entry.type = .madeStatic then
    ∀ i < jumpSize a entry.toAddress, code (a + i) = jump a entry.toAddress i
  else ∀ i < trap.size, code (a + i) = trap.instruction i

/-- An entry agrees with the code, and the code it may be replaced by fits. -/
structure Agrees (width : Nat → Nat) (trap : Trap) (last : Nat → Option Nat)
    (code : Nat → UInt8) (a : Nat) (entry : RedirectionEntry) : Prop where
  trapFits : trap.size ≤ width a
  inside : a + width a ≤ 2 ^ 64
  word : entry.toAddress < 2 ^ 64
  latest : last a = some entry.toAddress
  jumpFits : entry.type ≠ .onlyDynamic → jumpSize a entry.toAddress ≤ width a
  reaches : entry.type ≠ .onlyDynamic → Reaches a entry.toAddress
  shown : entry.Shown trap code a

/-- Every entry of the table agrees with the composed code. -/
structure Agreement (width : Nat → Nat) (trap : Trap) (t : Traced) : Prop where
  mode : traps t.state.mode = some trap
  entries : ∀ a entry, t.state.entries a = some entry →
    Agrees width trap t.last t.state.composed a entry

section

variable {width : Nat → Nat} {last last' : Nat → Option Nat} {code : Nat → UInt8} {a b : Nat}
  {entry : RedirectionEntry} {t t' : Traced}

theorem traps_size (configured : traps mode = some trap) : 0 < trap.size := by
  cases mode <;> cases configured <;> decide

theorem traps_size_le (configured : traps mode = some trap) : trap.size ≤ 2 := by
  cases mode <;> cases configured <;> decide

theorem traps_offset (configured : traps mode = some trap) : trap.offset ≤ 1 := by
  cases mode <;> cases configured <;> decide

/-- A trap taken at the address of an entry continues at its target. -/
theorem trapHandler_continues (configured : traps s.mode = some trap) (small : a < 2 ^ 64)
    (found : s.entries a = some entry)
    (active : ∀ i < trap.size, s.active (a + i) = trap.instruction i) :
    (trapHandler e trap.signal ((a + trap.offset) % 2 ^ 64) tid tasks helper s).1 =
      entry.toAddress := by
  have address : subWord ((a + trap.offset) % 2 ^ 64) trap.offset = a := by
    have offset := traps_offset configured
    unfold subWord
    omega
  have instructions : ¬ ∃ i < trap.size, s.active (a + i) ≠ trap.instruction i := by
    rintro ⟨i, lt, other⟩
    exact other (active i lt)
  unfold trapHandler
  rw [configured]
  simp only [address, ne_eq, not_true_eq_false, if_false]
  rw [if_neg instructions, found]
  simp only
  split <;> rfl

/-- An entry still agrees after the code in the region of another address has changed. -/
theorem Agrees.frame (agrees : Agrees width trap last code b entry) (regions : Regions width)
    (positive : 0 < trap.size) (other : b ≠ a) (patch : n ≤ width a) (same : last' b = last b)
    (bytes : Nat → UInt8) (nonempty : 0 < n) :
    Agrees width trap last' (overlay code a n bytes) b entry := by
  have apart := regions b a other (Nat.lt_of_lt_of_le positive agrees.trapFits)
    (Nat.lt_of_lt_of_le nonempty patch)
  have untouched : ∀ i < width b, overlay code a n bytes (b + i) = code (b + i) := by
    intro i lt
    apply if_neg
    rcases apart with before | behind
    · have before : b + width b ≤ a := before
      omega
    · have behind : a + width a ≤ b := behind
      omega
  have shown := agrees.shown
  refine ⟨agrees.trapFits, agrees.inside, agrees.word, same.trans agrees.latest, agrees.jumpFits,
    agrees.reaches, ?_⟩
  unfold RedirectionEntry.Shown at shown ⊢
  by_cases static : entry.type = .madeStatic
  · rw [if_pos static] at shown ⊢
    have fits := agrees.jumpFits (by rw [static]; decide)
    intro i lt
    rw [untouched i (by omega), shown i lt]
  · rw [if_neg static] at shown ⊢
    have fits := agrees.trapFits
    intro i lt
    rw [untouched i (by omega), shown i lt]

theorem overlay_patch (code bytes : Nat → UInt8) (a n : Nat) :
    ∀ i < n, overlay code a n bytes (a + i) = bytes i := by
  intro i lt
  unfold overlay
  rw [if_pos (by omega), Nat.add_sub_cancel_left]

theorem jumpSize_pos (a target : Nat) : 0 < jumpSize a target := by
  unfold jumpSize
  split <;> decide

section Agreement

variable (agreement : Agreement width trap t)

include agreement

/-- The agreement after the entry of one address and the code in its region changed. -/
theorem Agreement.patch (regions : Regions width) {bytes : Nat → UInt8}
    (code : Patched t.state t'.state a n bytes) (fits : n ≤ width a) (positive : 0 < n)
    (entries : t'.state.entries = (t.state.insert a entry).entries)
    (same : ∀ b, b ≠ a → t'.last b = t.last b)
    (here : Agrees width trap t'.last t'.state.composed a entry) :
    Agreement width trap t' := by
  refine ⟨by rw [code.mode]; exact agreement.mode, ?_⟩
  intro b val found
  rw [entries] at found
  simp only [State.insert] at found
  by_cases isHere : b = a
  · rw [if_pos isHere] at found
    cases found
    rw [isHere]
    exact here
  · rw [if_neg isHere] at found
    rw [code.composed]
    exact (agreement.entries b val found).frame regions (traps_size agreement.mode) isHere fits
      (same b isHere) bytes positive

theorem Agreement.add {e : Env} {call : AddCall} (regions : Regions width)
    (added : add e call t.state = (true, s')) (fits : call.Fits width trap (call.address t.state))
    (allowed : call.type trap (call.address t.state) = .makeStatic →
      Reaches (call.address t.state) call.toAddress) :
    Agreement width trap
      ⟨s', Function.update t.last (call.address t.state) (some call.toAddress)⟩ := by
  have latest : Function.update t.last (call.address t.state) (some call.toAddress)
      (call.address t.state) = some call.toAddress := Function.update_self ..
  have others : ∀ b, b ≠ call.address t.state →
      Function.update t.last (call.address t.state) (some call.toAddress) b = t.last b :=
    fun b other => Function.update_of_ne other ..
  cases add_inv agreement.mode added with
  | configured val found target same state =>
    subst state
    refine ⟨agreement.mode, fun b entry found' => ?_⟩
    have agrees := agreement.entries b entry found'
    refine ⟨agrees.trapFits, agrees.inside, agrees.word, ?_, agrees.jumpFits, agrees.reaches,
      agrees.shown⟩
    by_cases here : b = call.address t.state
    · subst here
      rw [found] at found'
      cases found'
      rw [target]
      exact latest
    · exact (others b here).trans agrees.latest
  | retargeted val found static type entries code =>
    refine agreement.patch regions code (fits.jumpFits type) (jumpSize_pos ..) entries others ?_
    refine ⟨fits.trapFits, fits.inside, fits.word, latest, fun _ => fits.jumpFits type,
      fun _ => allowed type, ?_⟩
    unfold RedirectionEntry.Shown
    rw [if_pos static, code.composed]
    exact overlay_patch _ _ _ _
  | installed replaced inside entries code =>
    have made : (call.entry trap (call.address t.state) t.state.composed).type ≠ .onlyDynamic →
        call.type trap (call.address t.state) = .makeStatic := by
      intro waiting
      simp only [AddCall.entry, AddCall.type] at waiting ⊢
      split
      · rfl
      · next dynamic => rw [if_neg dynamic] at waiting; exact absurd rfl waiting
    refine agreement.patch regions code fits.trapFits (traps_size agreement.mode) entries others ?_
    refine ⟨fits.trapFits, fits.inside, fits.word, latest, fun waiting => fits.jumpFits (made waiting),
      fun waiting => allowed (made waiting), ?_⟩
    unfold RedirectionEntry.Shown
    rw [if_neg (entry_not_madeStatic _), code.composed]
    exact overlay_patch _ _ _ _

theorem Agreement.trapped (regions : Regions width) (trapped : Trapped a t.state s') :
    Agreement width trap ⟨s', t.last⟩ := by
  cases trapped with
  | idle state =>
    subst state
    exact agreement
  | waiting tid val found type state =>
    subst state
    refine ⟨agreement.mode, fun b entry found' => ?_⟩
    simp only [State.insert] at found'
    by_cases here : b = a
    · rw [if_pos here] at found'
      cases found'
      subst here
      have agrees := agreement.entries b val found
      exact ⟨agrees.trapFits, agrees.inside, agrees.word, agrees.latest, agrees.jumpFits,
        agrees.reaches, agrees.shown⟩
    · rw [if_neg here] at found'
      exact agreement.entries b entry found'
  | promoted tid val found type entries code =>
    have agrees := agreement.entries a val found
    have static : val.type ≠ .onlyDynamic := by rw [type]; decide
    refine agreement.patch regions code (agrees.jumpFits static) (jumpSize_pos ..) entries
      (fun _ _ => rfl) ?_
    refine ⟨agrees.trapFits, agrees.inside, agrees.word, agrees.latest,
      fun _ => agrees.jumpFits static, fun _ => agrees.reaches static, ?_⟩
    rw [code.composed]
    exact overlay_patch _ _ _ _

theorem Agreement.step (regions : Regions width) (step : Step width trap Reaches t t') :
    Agreement width trap t' := by
  cases step with
  | add e call succeeds added fits allowed => exact agreement.add regions added fits allowed
  | trapped e signal rip tid tasks helper succeeds =>
    exact agreement.trapped regions (trapHandler_inv agreement.mode succeeds)

theorem Agreement.run (regions : Regions width)
    (run : ReflTransGen (Step width trap Reaches) t t') : Agreement width trap t' := by
  induction run with
  | refl => exact agreement
  | tail _ step ih => exact ih.step regions step

end Agreement

end

/-- A state before the first redirection. -/
def Traced.initial (s : State) : Traced := ⟨{ s with entries := fun _ => none }, fun _ => none⟩

/-- Table and code agree in every run of additions and traps in which the target of every
static redirection is in the reach of its jump. -/
theorem redirections_agree {width : Nat → Nat} (regions : Regions width) {start : State}
    (configured : traps start.mode = some trap) {t : Traced}
    (run : ReflTransGen (Step width trap Reaches) (.initial start) t) {a : Nat}
    {entry : RedirectionEntry} (found : t.state.entries a = some entry) :
    t.last a = some entry.toAddress ∧
    (entry.type = .madeStatic → ∀ code : Nat → UInt8,
      (∀ i < width a, code (a + i) = t.state.composed (a + i)) →
        decodeJump code a = some entry.toAddress) ∧
    (entry.type ≠ .madeStatic →
      (∀ i < trap.size, t.state.composed (a + i) = trap.instruction i) ∧
      ∀ e tid tasks helper, (∀ i < trap.size, t.state.active (a + i) = trap.instruction i) →
        (trapHandler e trap.signal ((a + trap.offset) % 2 ^ 64) tid tasks helper t.state).1 =
          entry.toAddress) := by
  have initial : Agreement width trap (.initial start) :=
    ⟨configured, fun b entry found => nomatch found⟩
  have agreement := initial.run regions run
  have agrees := agreement.entries a entry found
  have shown := agrees.shown
  unfold RedirectionEntry.Shown at shown
  refine ⟨agrees.latest, fun static code same => ?_, fun dynamic => ?_⟩
  · rw [if_pos static] at shown
    have marked : entry.type ≠ .onlyDynamic := by rw [static]; decide
    have fits := agrees.jumpFits marked
    have inside := agrees.inside
    apply decodeJump_jump (by omega) agrees.word (agrees.reaches marked)
    intro i lt
    rw [same i (by omega), shown i lt]
  · rw [if_neg dynamic] at shown
    refine ⟨shown, fun e tid tasks helper active => ?_⟩
    have inside := agrees.inside
    have positive := traps_size agreement.mode
    have fits := agrees.trapFits
    exact trapHandler_continues agreement.mode (by omega) found active

/-! ## A redirection made static -/

/-- Everything is composed in a buffer, and every system call succeeds. -/
def Env.reference : Env := ⟨fun _ => .buffered, fun _ => true, fun _ => true⟩

theorem Env.reference_succeeds : Env.reference.Succeeds :=
  ⟨fun _ => nofun, fun _ => rfl, fun _ => rfl⟩

/-- A page of code at a base address, breakpoint traps and no redirections. -/
def State.onePage (base : Nat) : State where
  mode := .breakpointTrap
  objects := fun _ => ⟨base, [{ MemorySegment.ofBss 0 4096 base with
    protection := ⟨true, false, true⟩, status := .mapped }]⟩
  composed := fun _ => 0x90
  active := fun _ => 0x90
  entries := fun _ => none

/-- A redirection from the start of the page that is to be made static. -/
def AddCall.static (target : Nat) : AddCall := ⟨0, 0, target, 16, true, true⟩

/-- After the redirection was added, its trap is taken by the only task. -/
def madeStatic (base target : Nat) : State :=
  (trapHandler .reference .sigtrap (base + 1) 7 [7] none
    (add .reference (.static target) (.onePage base)).2).2

/-- The region of the one redirection. -/
def onlyWidth (base : Nat) (a : Nat) : Nat := if a = base then 14 else 0

theorem onlyWidth_regions (base : Nat) : Regions (onlyWidth base) := by
  intro a b other first second
  unfold onlyWidth at first second
  split at first
  · split at second
    · omega
    · omega
  · omega

theorem onePage_address (base target : Nat) :
    (AddCall.static target).address (.onePage base) = base % 2 ^ 64 := by
  unfold AddCall.address AddCall.static State.onePage
  rw [Nat.zero_add]

theorem onePage_inside (small : base + 4096 < 2 ^ 64) :
    ∃ seg ∈ ((State.onePage base).objects 0).memoryMap, seg.contains base := by
  refine ⟨_, List.mem_singleton_self _, Bool.and_eq_true_iff.mpr ?_⟩
  constructor
  · exact decide_eq_true (show (base + 0) % 2 ^ 64 ≤ base by omega)
  · exact decide_eq_true (show base < (base + 0 + 4096) % 2 ^ 64 by omega)

theorem add_static_onePage (small : base + 4096 < 2 ^ 64) (target : Nat) :
    (add .reference (.static target) (.onePage base)).1 := by
  have address := onePage_address base target
  rw [Nat.mod_eq_of_lt (by omega)] at address
  obtain ⟨seg, found⟩ := composePointer_of_inside Env.reference_succeeds (onePage_inside small)
  exact add_fresh rfl rfl (by rw [address]; exact found)

/-- The start of the page redirected to a target. -/
def staticTrace (base target : Nat) : Traced :=
  ⟨madeStatic base target, Function.update (fun _ => none) base (some target)⟩

theorem staticTrace_run (inside : base + 4096 < 2 ^ 64) (word : target < 2 ^ 64)
    (allowed : Allowed base target) :
    ReflTransGen (Step (onlyWidth base) ⟨[0xf1, 0x00], 1, 1, .sigtrap⟩ Allowed)
      (.initial (.onePage base)) (staticTrace base target) := by
  have address : (AddCall.static target).address (.onePage base) = base := by
    rw [onePage_address, Nat.mod_eq_of_lt (by omega)]
  have region : onlyWidth base base = 14 := if_pos rfl
  have size : jumpSize base target ≤ 14 := by
    unfold jumpSize
    split <;> decide
  have fits : (AddCall.static target).Fits (onlyWidth base) ⟨[0xf1, 0x00], 1, 1, .sigtrap⟩
      base := by
    refine ⟨?_, fun _ => ?_, ?_, word⟩ <;> rw [region]
    · decide
    · exact size
    · omega
  have added : add .reference (.static target) (.onePage base) =
      (true, (add .reference (.static target) (.onePage base)).2) :=
    Prod.ext (add_static_onePage (by omega) target) rfl
  have first := Step.add_at (t := .initial (.onePage base)) Env.reference_succeeds address added
    fits fun _ => allowed
  exact (ReflTransGen.single first).tail
    (.trapped .reference .sigtrap (base + 1) 7 [7] none Env.reference_succeeds)

/-- A redirection by one MiB, made static. -/
theorem redirections_agree_static :
    ∃ entry, (staticTrace (2 ^ 32) (2 ^ 32 + 2 ^ 20)).state.entries (2 ^ 32) = some entry ∧
      entry.type = .madeStatic ∧
      decodeJump (staticTrace (2 ^ 32) (2 ^ 32 + 2 ^ 20)).state.active (2 ^ 32) =
        some entry.toAddress := by
  have value : ((staticTrace (2 ^ 32) (2 ^ 32 + 2 ^ 20)).state.entries (2 ^ 32)).map
      (fun entry => entry.type) = some .madeStatic := by decide +kernel
  have applied : ∀ i < onlyWidth (2 ^ 32) (2 ^ 32),
      (staticTrace (2 ^ 32) (2 ^ 32 + 2 ^ 20)).state.active (2 ^ 32 + i) =
        (staticTrace (2 ^ 32) (2 ^ 32 + 2 ^ 20)).state.composed (2 ^ 32 + i) := by decide +kernel
  have reaches : Reaches (2 ^ 32) (2 ^ 32 + 2 ^ 20) := fun _ => by omega
  obtain ⟨entry, found, static⟩ := Option.map_eq_some_iff.mp value
  have agree := redirections_agree (onlyWidth_regions (2 ^ 32)) rfl
    (staticTrace_run (by omega) (by omega) reaches) found
  exact ⟨entry, found, static, agree.2.1 static _ applied⟩

/-- The target is within 2^31 of the address. -/
def Near (a target : Nat) : Prop := target ≤ a + 2 ^ 31 ∧ a ≤ target + 2 ^ 31

/-- The displacement counts from the end of the jump: a target less than 2^31 below the
address but more than 2^31 below the end of the jump is missed by 2^32. -/
theorem redirections_disagree :
    Regions (onlyWidth (2 ^ 32)) ∧
    ReflTransGen (Step (onlyWidth (2 ^ 32)) ⟨[0xf1, 0x00], 1, 1, .sigtrap⟩ Near)
      (.initial (.onePage (2 ^ 32))) (staticTrace (2 ^ 32) (2 ^ 31 + 1)) ∧
    ((staticTrace (2 ^ 32) (2 ^ 31 + 1)).state.entries (2 ^ 32)).map
      (fun entry => (entry.toAddress, entry.type)) = some (2 ^ 31 + 1, .madeStatic) ∧
    decodeJump (staticTrace (2 ^ 32) (2 ^ 31 + 1)).state.active (2 ^ 32) =
      some (2 ^ 31 + 1 + 2 ^ 32) := by
  refine ⟨onlyWidth_regions _, staticTrace_run (by omega) (by omega) ?_, ?_, ?_⟩
  · exact ⟨by omega, by omega⟩
  · decide +kernel
  · decide +kernel

end Luci.Redirect
