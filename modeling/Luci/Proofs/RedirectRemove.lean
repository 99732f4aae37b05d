import Luci.Proofs.RedirectTable

/-!
# Removing a redirection

`Redirect::remove` after any sequence of additions at one address, with trap handler
executions in between. Whether it restores the code is decided by four things: it
adds the base of the object to an address that already includes it; a second addition
saves the bytes of the trap or jump that is in place; only one byte of a trap is
recovered; and how much is recovered for a jump follows from the last target while
what was saved follows from the first.
-/

namespace Luci.Redirect

open VirtualMemory

variable {e : Env} {s s' : State} {trap : Trap} {call : AddCall} {a : Nat}

/-! ## Sequences of additions at one address -/

/-- What the additions at an address were. -/
structure History where
  /-- Object and type of the first addition, and the number of bytes it saved. -/
  fromObject : Nat
  type : EntryType
  saved : Nat
  /-- The targets of the first and of the latest addition. -/
  first : Nat
  last : Nat
  /-- `check_relative_jump` accepts all targets. -/
  relative : Prop
  /-- The additions after the first left the saved bytes alone. -/
  kept : Prop

/-- The call finds its redirection configured, or changes the target of an installed jump. -/
def AddCall.Keeps (call : AddCall) (trap : Trap) (a : Nat) (s : State) : Prop :=
  ∀ val, s.entries a = some val →
    if val.type = .madeStatic then call.type trap a = .makeStatic
    else call.matchesEntry trap a val = true

variable {n : Nat} {h : History} {start : State} {val : RedirectionEntry}
  {bytes code original previous : Nat → UInt8}

theorem AddCall.Keeps.of_entry (found : s.entries a = some val)
    (same : if val.type = .madeStatic then call.type trap a = .makeStatic
      else call.matchesEntry trap a val) : call.Keeps trap a s := by
  intro val' found'
  rw [found] at found'
  cases found'
  exact same

/-- The history after the first addition. -/
def AddCall.history (call : AddCall) (trap : Trap) (a : Nat) : History where
  fromObject := call.fromObject
  type := call.type trap a
  saved := call.bytesToPreserve trap a
  first := call.toAddress
  last := call.toAddress
  relative := checkRelativeJump a call.toAddress = true
  kept := True

/-- The history after another addition in a state. -/
def History.extend (h : History) (call : AddCall) (trap : Trap) (a : Nat) (s : State) : History :=
  { h with
    last := call.toAddress
    relative := h.relative ∧ checkRelativeJump a call.toAddress = true
    kept := h.kept ∧ call.Keeps trap a s }

/-- The states after a non-empty sequence of successful additions at an address, with
executions of the trap handler in between that do not make another redirection static. -/
inductive Sequence (trap : Trap) (start : State) (a : Nat) : State → History → Prop
  | first (e : Env) (call : AddCall) {s : State} (address : call.address start = a)
      (added : add e call start = (true, s)) : Sequence trap start a s (call.history trap a)
  | again (e : Env) (call : AddCall) {s s' : State} {h : History}
      (before : Sequence trap start a s h) (address : call.address s = a)
      (added : add e call s = (true, s')) :
      Sequence trap start a s' (h.extend call trap a s)
  | trapped (e : Env) (signal : Signal) (rip tid : Nat) (tasks : List Nat) (helper : Option Nat)
      {s : State} {h : History} (before : Sequence trap start a s h) (succeeds : e.Succeeds)
      (own : subWord rip trap.offset = a ∨
        ∀ val, s.entries (subWord rip trap.offset) = some val → val.type ≠ .makeStatic) :
      Sequence trap start a (trapHandler e signal rip tid tasks helper s).2 h

/-! ## The code after a sequence -/

/-- A byte that an addition or a jump leaves at the address. -/
def Marked (trap : Trap) (byte : UInt8) : Prop :=
  byte = trap.instruction 0 ∨ byte = 0xe9 ∨ byte = 0xff

/-- The code is the original one but for the trap instruction. -/
structure Waiting (trap : Trap) (start s : State) (a : Nat) (h : History)
    (val : RedirectionEntry) : Prop where
  type : val.type = h.type
  code : s.composed = overlay start.composed a trap.size trap.instruction
  target : h.last = h.first
  relative : h.relative ↔ checkRelativeJump a h.first = true

/-- The code is the original one but for the jumps written so far. -/
structure Jumped (start s : State) (a : Nat) (h : History) : Prop where
  type : h.type = .makeStatic
  outside : ∀ p, p < a ∨ a + 14 ≤ p → s.composed p = start.composed p
  short : h.relative → ∀ p, p < a ∨ a + 5 ≤ p → s.composed p = start.composed p
  long : ¬ h.relative → s.composed (a + 5) = 0
  first : h.relative → checkRelativeJump a h.first = true
  last : h.relative → checkRelativeJump a h.last = true

/-- The entry still has the bytes of the original code. -/
structure Intact (trap : Trap) (start s : State) (a : Nat) (h : History)
    (val : RedirectionEntry) : Prop where
  fromObject : val.fromObject = h.fromObject
  inside : ∃ seg ∈ (start.objects h.fromObject).memoryMap, seg.contains a
  saved : 0 < h.saved
  static : h.type = .makeStatic → h.saved = if checkRelativeJump a h.first then 5 else 16
  previous : ∀ i, val.previousOpcode i = if i < h.saved then start.composed (a + i) else 0
  code : if val.type = .madeStatic then Jumped start s a h else Waiting trap start s a h val

/-- The entry and the code after a sequence. -/
structure Tracked (trap : Trap) (start s : State) (a : Nat) (h : History) : Prop where
  mode : s.mode = start.mode
  objects : s.objects = start.objects
  marked : Marked trap (s.composed a)
  entry : ∃ val, s.entries a = some val ∧ val.toAddress = h.last ∧
    (h.kept → Intact trap start s a h val) ∧ (¬ h.kept → Marked trap (val.previousOpcode 0))

theorem Tracked.configured (tracked : Tracked trap start s a h)
    (configured : traps start.mode = some trap) : traps s.mode = some trap := by
  rw [tracked.mode]
  exact configured

theorem overlay_start (positive : 0 < n) :
    overlay code a n bytes a = bytes 0 := overlay_patch code bytes a n 0 positive

theorem jump_marked (trap : Trap) (a target : Nat) : Marked trap (jump a target 0) := by
  unfold jump
  split
  · exact .inr (.inl rfl)
  · exact .inr (.inr rfl)

theorem bytesToPreserve_pos (configured : 0 < trap.size) : 0 < call.bytesToPreserve trap a := by
  unfold AddCall.bytesToPreserve
  split
  · split <;> decide
  · exact configured

/-- An addition that writes the trap saves the byte that stood at the address. -/
theorem entry_saves (positive : 0 < trap.size) (code : Nat → UInt8) :
    (call.entry trap a code).previousOpcode 0 = code a :=
  if_pos (bytesToPreserve_pos positive)

theorem type_makeStatic (type : call.type trap a = .makeStatic) :
    call.bytesToPreserve trap a = if checkRelativeJump a call.toAddress then 5 else 16 := by
  unfold AddCall.type at type
  split at type
  · next static => exact if_pos static.1
  · cases type

/-- The state after the trap was written where no saved bytes are known to be good. -/
theorem Tracked.spoiled (positive : 0 < trap.size) (mode : s.mode = start.mode)
    (objects : s.objects = start.objects) (marked : Marked trap (s.composed a))
    (entries : s'.entries = (s.insert a (call.entry trap a s.composed)).entries)
    (code : Patched s s' a trap.size trap.instruction) (target : h.last = call.toAddress)
    (lost : ¬ h.kept) : Tracked trap start s' a h := by
  refine ⟨code.mode.trans mode, code.objects.trans objects, ?_, ?_⟩
  · rw [code.composed, overlay_start positive]
    exact .inl rfl
  · refine ⟨call.entry trap a s.composed, ?_, target.symm, fun kept => absurd kept lost, ?_⟩
    · rw [entries]
      exact if_pos rfl
    · intro _
      rw [entry_saves positive]
      exact marked

theorem Tracked.first (configured : traps start.mode = some trap) (unset : start.entries a = none)
    (address : call.address start = a) (added : add e call start = (true, s)) :
    Tracked trap start s a (call.history trap a) := by
  have positive := traps_size configured
  cases add_inv configured added with
  | configured val found target same state =>
    rw [address, unset] at found
    cases found
  | retargeted val found static type entries code =>
    rw [address, unset] at found
    cases found
  | installed replaced inside entries code =>
    rw [address] at inside entries code
    refine ⟨code.mode, code.objects, ?_, ?_⟩
    · rw [code.composed, overlay_start positive]
      exact .inl rfl
    · refine ⟨call.entry trap a start.composed, ?_, rfl, fun _ => ?_, fun lost => absurd trivial lost⟩
      · rw [entries]
        exact if_pos rfl
      · refine ⟨rfl, inside, bytesToPreserve_pos positive, type_makeStatic, fun _ => rfl, ?_⟩
        rw [if_neg (entry_not_madeStatic _)]
        exact ⟨rfl, code.composed, rfl, Iff.rfl⟩

theorem jumpSize_le (a target : Nat) : jumpSize a target ≤ 14 := by
  unfold jumpSize
  split <;> decide

theorem jump_far {target : Nat} (far : ¬ checkRelativeJump a target) (code : Nat → UInt8) :
    overlay code a (jumpSize a target) (jump a target) (a + 5) = 0 := by
  have size : jumpSize a target = 14 := if_neg far
  rw [overlay_patch _ _ _ _ 5 (by omega)]
  unfold jump
  rw [if_neg far]
  rfl

theorem Jumped.retarget (jumped : Jumped start s a h)
    (code : Patched s s' a (jumpSize a call.toAddress) (jump a call.toAddress)) :
    Jumped start s' a (h.extend call trap a s) := by
  have bound := jumpSize_le a call.toAddress
  refine ⟨jumped.type, fun p outside => ?_, fun relative p outside => ?_, fun far => ?_,
    fun relative => jumped.first relative.1, fun relative => relative.2⟩
  · rw [code.composed, overlay_outside (by omega), jumped.outside p outside]
  · have size : jumpSize a call.toAddress = 5 := if_pos relative.2
    rw [code.composed, overlay_outside (by omega), jumped.short relative.1 p outside]
  · rw [code.composed]
    by_cases near : checkRelativeJump a call.toAddress
    · have size : jumpSize a call.toAddress = 5 := if_pos near
      rw [overlay_outside (by omega)]
      exact jumped.long fun relative => far ⟨relative, near⟩
    · exact jump_far near _

theorem Waiting.promote (waiting : Waiting trap start s a h val) (type : val.type = .makeStatic)
    (size : trap.size ≤ 5) (code : Patched s s' a (jumpSize a h.first) (jump a h.first)) :
    Jumped start s' a h := by
  have bound := jumpSize_le a h.first
  have near : h.relative → checkRelativeJump a h.first := waiting.relative.mp
  refine ⟨waiting.type.symm.trans type, fun p outside => ?_, fun relative p outside => ?_,
    fun far => ?_, near, fun relative => ?_⟩
  · rw [code.composed, overlay_outside (by omega), waiting.code, overlay_outside (by omega)]
  · have size : jumpSize a h.first = 5 := if_pos (near relative)
    rw [code.composed, overlay_outside (by omega), waiting.code, overlay_outside (by omega)]
  · rw [code.composed]
    exact jump_far (fun accepted => far (waiting.relative.mpr accepted)) _
  · rw [waiting.target]
    exact near relative

/-- An addition that finds its redirection configured changes nothing. -/
theorem Intact.configured (intact : Intact trap start s a h val) (last : val.toAddress = h.last)
    (target : val.toAddress = call.toAddress) :
    Intact trap start s a (h.extend call trap a s) val := by
  refine ⟨intact.fromObject, intact.inside, intact.saved, intact.static, intact.previous, ?_⟩
  have code := intact.code
  have same : call.toAddress = h.last := target.symm.trans last
  by_cases static : val.type = .madeStatic
  · rw [if_pos static] at code ⊢
    refine ⟨code.type, code.outside, fun relative => code.short relative.1, fun far => ?_,
      fun relative => code.first relative.1, fun relative => relative.2⟩
    apply code.long
    intro relative
    refine far ⟨relative, ?_⟩
    rw [same]
    exact code.last relative
  · rw [if_neg static] at code ⊢
    have first : call.toAddress = h.first := same.trans code.target
    refine ⟨code.type, code.code, first, fun relative => code.relative.mp relative.1,
      fun accepted => ⟨code.relative.mpr accepted, ?_⟩⟩
    rw [first]
    exact accepted

theorem Tracked.again (configured : traps start.mode = some trap)
    (tracked : Tracked trap start s a h) (address : call.address s = a)
    (added : add e call s = (true, s')) : Tracked trap start s' a (h.extend call trap a s) := by
  obtain ⟨val, found, last, intact, spoiled⟩ := tracked.entry
  cases add_inv (tracked.configured configured) added with
  | configured val' found' target same state =>
    subst state
    rw [address] at found' same
    rw [found] at found'
    cases found'
    refine ⟨tracked.mode, tracked.objects, tracked.marked, val, found, target, ?_, ?_⟩
    · intro kept
      exact (intact kept.1).configured last target
    · intro lost
      apply spoiled
      intro kept
      exact lost ⟨kept, .of_entry found same⟩
  | retargeted val' found' static type entries code =>
    rw [address] at found' type entries code
    rw [found] at found'
    cases found'
    refine ⟨code.mode.trans tracked.mode, code.objects.trans tracked.objects, ?_,
      { val with toAddress := call.toAddress }, ?_, rfl, ?_, ?_⟩
    · rw [code.composed, overlay_start (jumpSize_pos _ _)]
      exact jump_marked trap a call.toAddress
    · rw [entries]
      exact if_pos rfl
    · intro kept
      have intact := intact kept.1
      have jumped := intact.code
      rw [if_pos static] at jumped
      refine ⟨intact.fromObject, intact.inside, intact.saved, intact.static, intact.previous, ?_⟩
      rw [if_pos static]
      exact jumped.retarget code
    · intro lost
      apply spoiled
      intro kept
      exact lost ⟨kept, .of_entry found (by rw [if_pos static]; exact type)⟩
  | installed replaced inside entries code =>
    rw [address] at replaced entries code
    refine .spoiled (traps_size configured) tracked.mode tracked.objects tracked.marked entries code
      rfl ?_
    intro kept
    have replaced := replaced val found
    have keeps := kept.2 val found
    split at keeps
    · next static =>
      rw [if_pos static] at replaced
      exact replaced keeps
    · next dynamic =>
      rw [if_neg dynamic, keeps] at replaced
      cases replaced

theorem Tracked.trapped {b : Nat} (configured : traps start.mode = some trap)
    (tracked : Tracked trap start s a h)
    (own : b = a ∨ ∀ val, s.entries b = some val → val.type ≠ .makeStatic)
    (trapped : Trapped b s s') : Tracked trap start s' a h := by
  obtain ⟨val, found, last, intact, spoiled⟩ := tracked.entry
  cases trapped with
  | idle state =>
    subst state
    exact tracked
  | waiting tid val' found' type state =>
    rcases own with rfl | other
    · rw [found] at found'
      cases found'
      subst state
      refine ⟨tracked.mode, tracked.objects, tracked.marked,
        { val with tids := tid :: val.tids }, if_pos rfl, last, fun kept => ?_, spoiled⟩
      have intact := intact kept
      have waiting := intact.code
      rw [if_neg (by rw [type]; decide)] at waiting
      refine ⟨intact.fromObject, intact.inside, intact.saved, intact.static, intact.previous, ?_⟩
      rw [if_neg (by rw [type]; decide)]
      exact ⟨waiting.type, waiting.code, waiting.target, waiting.relative⟩
    · exact absurd type (other val' found')
  | promoted tid val' found' type entries code =>
    rcases own with rfl | other
    · rw [found] at found'
      cases found'
      refine ⟨code.mode.trans tracked.mode, code.objects.trans tracked.objects, ?_,
        { val with tids := tid :: val.tids, type := .madeStatic }, ?_, last, fun kept => ?_,
        spoiled⟩
      · rw [code.composed, overlay_start (jumpSize_pos _ _)]
        exact jump_marked trap b val.toAddress
      · rw [entries]
        exact if_pos rfl
      · have intact := intact kept
        have waiting := intact.code
        rw [if_neg (by rw [type]; decide)] at waiting
        rw [last, waiting.target] at code
        refine ⟨intact.fromObject, intact.inside, intact.saved, intact.static, intact.previous, ?_⟩
        have size := traps_size_le configured
        exact waiting.promote type (by omega) code
    · exact absurd type (other val' found')

theorem Tracked.of_sequence (configured : traps start.mode = some trap)
    (unset : start.entries a = none) (sequence : Sequence trap start a s h) :
    Tracked trap start s a h := by
  induction sequence with
  | first e call address added => exact .first configured unset address added
  | again e call before address added ih => exact ih.again configured address added
  | trapped e signal rip tid tasks helper before succeeds own ih =>
    exact ih.trapped configured own (trapHandler_inv (ih.configured configured) succeeds)

/-! ## Removal -/

/-- How many bytes `Redirect::remove` recovers. -/
def RedirectionEntry.recovered (val : RedirectionEntry) (a : Nat) : Nat :=
  if val.type = .madeStatic then if checkRelativeJump a val.toAddress then 5 else 16 else 1

theorem recovered_pos (val : RedirectionEntry) (a : Nat) : 0 < val.recovered a := by
  unfold RedirectionEntry.recovered
  split
  · split <;> decide
  · decide

theorem remove_apply (finalize : Bool) (enabled : s.mode ≠ .disabled)
    (found : s.entries a = some val) :
    ∃ s', remove e a finalize s = (true, s') ∧ s'.entries a = none ∧
      s'.composed =
        if (composePointer e (s.objects val.fromObject)
          ((a + (s.objects val.fromObject).base) % 2 ^ 64)).isSome then
          overlay s.composed ((a + (s.objects val.fromObject).base) % 2 ^ 64) (val.recovered a)
            val.previousOpcode
        else s.composed := by
  unfold remove
  rw [if_neg enabled, found]
  simp only
  cases composePointer e (s.objects val.fromObject)
      ((a + (s.objects val.fromObject).base) % 2 ^ 64) with
  | none => exact ⟨_, rfl, if_pos rfl, rfl⟩
  | some seg =>
    refine ⟨_, rfl, ?_, ?_⟩
    · cases finalize with
      | true =>
        simp only [if_true, finalize_entries]
        exact if_pos rfl
      | false => exact if_pos rfl
    · cases finalize with
      | true =>
        simp only [if_true, finalize_composed]
        rfl
      | false => rfl

/-- The condition under which removing a redirection restores the code. -/
structure Restorable (trap : Trap) (start s : State) (a : Nat) (h : History) : Prop where
  /-- The object is not relocated. -/
  base : (start.objects h.fromObject).base = 0
  /-- No addition after the first has written the trap again. -/
  kept : h.kept
  /-- A trap still in place has one byte. -/
  trap : ∀ val, s.entries a = some val → val.type ≠ .madeStatic → trap.size = 1
  /-- All jumps were as long as the first target's, or the last is as long as a long one. -/
  jump : ∀ val, s.entries a = some val → val.type = .madeStatic →
    if checkRelativeJump a h.first then h.relative else checkRelativeJump a h.last = false

/-- Code whose bytes differ from those that traps and jumps leave behind. -/
structure Plain (trap : Trap) (code : Nat → UInt8) (a : Nat) : Prop where
  unmarked : ¬ Marked trap (code a)
  trap : ∀ i < trap.size, code (a + i) ≠ trap.instruction i
  jump : code (a + 5) ≠ 0

section

variable {start : State} {h : History} {val : RedirectionEntry}

/-- Bytes recovered at a higher address leave the mark where it is. -/
theorem base_of_restored {base n : Nat} {found : Bool} (marked : Marked trap (s.composed a))
    (unmarked : ¬ Marked trap (original a)) (user : a < userLimit) (bound : base < userLimit)
    (changed : code = if found then overlay s.composed ((a + base) % 2 ^ 64) n previous
      else s.composed) (restored : code = original) : base = 0 := by
  by_contra nonzero
  unfold userLimit at user bound
  have same : code a = s.composed a := by
    rw [changed]
    split
    · exact overlay_outside (by omega)
    · rfl
  rw [restored] at same
  rw [same] at unmarked
  exact unmarked marked

/-- The bytes saved from the original code restore it where they cover all changes. -/
theorem overlay_restores {n m : Nat} (outside : ∀ p, p < a ∨ a + n ≤ p → code p = original p)
    (saved : ∀ i, previous i = if i < m then original (a + i) else 0) (within : n ≤ m) :
    overlay code a n previous = original := by
  funext p
  by_cases inside : a ≤ p ∧ p < a + n
  · unfold overlay
    rw [if_pos inside, saved, if_pos (by omega), Nat.add_sub_cancel' inside.1]
  · rw [overlay_outside (by omega), outside p (by omega)]

theorem Intact.restores (intact : Intact trap start s a h val)
    (last : val.toAddress = h.last) (found : s.entries a = some val)
    (restorable : Restorable trap start s a h) :
    overlay s.composed a (val.recovered a) val.previousOpcode = start.composed := by
  have code := intact.code
  unfold RedirectionEntry.recovered
  by_cases static : val.type = .madeStatic
  · rw [if_pos static] at code ⊢
    have saved := intact.static code.type
    have condition := restorable.jump val found static
    rw [last]
    by_cases first : checkRelativeJump a h.first
    · rw [if_pos first] at condition saved
      rw [if_pos (code.last condition)]
      exact overlay_restores (code.short condition) intact.previous (by omega)
    · rw [if_neg first] at condition saved
      rw [if_neg (by rw [condition]; decide)]
      refine overlay_restores (fun p outside => code.outside p ?_) intact.previous (by omega)
      omega
  · rw [if_neg static] at code ⊢
    have one := restorable.trap val found static
    have saved := intact.saved
    refine overlay_restores (fun p outside => ?_) intact.previous (by omega)
    rw [code.code, overlay_outside (by omega)]

/-- Where the trap or the jumps have changed more than is recovered, the code differs. -/
theorem Intact.restorable (intact : Intact trap start s a h val) (size : trap.size ≤ 2)
    (positive : 0 < trap.size) (last : val.toAddress = h.last) (found : s.entries a = some val)
    (plain : Plain trap start.composed a) (base : (start.objects h.fromObject).base = 0)
    (kept : h.kept)
    (restored : overlay s.composed a (val.recovered a) val.previousOpcode = start.composed) :
    Restorable trap start s a h := by
  have code := intact.code
  refine ⟨base, kept, fun val' found' dynamic => ?_, fun val' found' static => ?_⟩
  · rw [found] at found'
    cases found'
    rw [if_neg dynamic] at code
    by_contra many
    have second := congrFun restored (a + 1)
    unfold RedirectionEntry.recovered at second
    rw [if_neg dynamic, overlay_outside (by omega), code.code,
      overlay_patch _ _ _ _ 1 (by omega)] at second
    exact plain.trap 1 (by omega) second.symm
  · rw [found] at found'
    cases found'
    rw [if_pos static] at code
    have saved := intact.static code.type
    have sixth := congrFun restored (a + 5)
    unfold RedirectionEntry.recovered at sixth
    rw [if_pos static, last] at sixth
    by_cases first : checkRelativeJump a h.first
    · rw [if_pos first] at saved ⊢
      by_contra far
      by_cases near : checkRelativeJump a h.last
      · rw [if_pos near, overlay_outside (by omega), code.long far] at sixth
        exact plain.jump sixth.symm
      · rw [if_neg near, overlay_patch _ _ _ _ 5 (by omega), intact.previous,
          if_neg (by omega)] at sixth
        exact plain.jump sixth.symm
    · rw [if_neg first]
      by_contra near
      have near : checkRelativeJump a h.last := Bool.eq_true_of_not_eq_false near
      rw [if_pos near, overlay_outside (by omega),
        code.long fun relative => first (code.first relative)] at sixth
      exact plain.jump sixth.symm

end

/-- Removing the redirection of an address after any sequence of additions restores the
code if the condition holds, and for plain code only then; it always clears the entry. -/
theorem remove_restores_iff {start : State} {h : History}
    (configured : traps start.mode = some trap) (unset : start.entries a = none)
    (user : a < userLimit) (bases : ∀ o, (start.objects o).base < userLimit)
    (sequence : Sequence trap start a s h) (succeeds : e.Succeeds) (finalize : Bool) :
    (remove e a finalize s).1 = true ∧ isSet a (remove e a finalize s).2 = none ∧
    (Restorable trap start s a h → (remove e a finalize s).2.composed = start.composed) ∧
    (Plain trap start.composed a → (remove e a finalize s).2.composed = start.composed →
      Restorable trap start s a h) := by
  have tracked := Tracked.of_sequence configured unset sequence
  obtain ⟨val, found, last, intact, spoiled⟩ := tracked.entry
  have enabled : s.mode ≠ .disabled := by
    intro disabled
    have configured := tracked.configured configured
    rw [disabled] at configured
    cases configured
  obtain ⟨s', removed, cleared, code⟩ := remove_apply finalize enabled found
  rw [removed]
  refine ⟨rfl, ?_, fun restorable => ?_, fun plain restored => ?_⟩
  · unfold isSet
    simp only [cleared, Option.map_none, ite_self]
  · have intact := intact restorable.kept
    rw [tracked.objects, intact.fromObject, restorable.base, Nat.add_zero,
      Nat.mod_eq_of_lt (by unfold userLimit at user; omega)] at code
    obtain ⟨seg, composed⟩ := composePointer_of_inside succeeds intact.inside
    rw [composed] at code
    exact code.trans (intact.restores last found restorable)
  · have bound := bases val.fromObject
    rw [← tracked.objects] at bound
    have base := base_of_restored tracked.marked plain.unmarked user bound code restored
    rw [base, Nat.add_zero, Nat.mod_eq_of_lt (by unfold userLimit at user; omega)] at code
    split at code
    · by_cases kept : h.kept
      · have intact := intact kept
        rw [tracked.objects, intact.fromObject] at base
        exact intact.restorable (traps_size_le configured) (traps_size configured) last found plain
          base kept (code.symm.trans restored)
      · have first := congrFun restored a
        rw [code, overlay_start (recovered_pos val a)] at first
        have marked := spoiled kept
        rw [first] at marked
        exact absurd marked plain.unmarked
    · have marked := tracked.marked
      rw [← code, restored] at marked
      exact absurd marked plain.unmarked

/-! ## Removal from fixed and from relocated code -/

/-- A page of code of an executable with a fixed address. -/
def State.fixedPage : State :=
  { State.onePage 0 with
    objects := fun _ => ⟨0, [{ MemorySegment.ofBss 0x400000 4096 0 with
      protection := ⟨true, false, true⟩, status := .mapped }]⟩ }

/-- A redirection of the start of that page. -/
def AddCall.fixed : AddCall := ⟨0, 0x400000, 0x500000, 16, true, true⟩

/-- Removing a redirection that has been made static. -/
theorem remove_restores_fixed :
    (remove .reference 0x400000 true
      (trapHandler .reference .sigtrap 0x400001 7 [7] none
        (add .reference .fixed .fixedPage).2).2).2.composed = State.fixedPage.composed := by
  have added : add .reference .fixed .fixedPage = (true, (add .reference .fixed .fixedPage).2) :=
    Prod.ext (by decide +kernel) rfl
  have first : Sequence ⟨[0xf1, 0x00], 1, 1, .sigtrap⟩ .fixedPage 0x400000
      (add .reference .fixed .fixedPage).2 (AddCall.fixed.history ⟨[0xf1, 0x00], 1, 1, .sigtrap⟩
        0x400000) := .first .reference .fixed (by decide +kernel) added
  have sequence := first.trapped .reference .sigtrap 0x400001 7 [7] none Env.reference_succeeds
    (Or.inl (by decide +kernel))
  have near : checkRelativeJump 0x400000 0x500000 = true := by decide +kernel
  refine (remove_restores_iff rfl rfl (by decide) (fun _ => Nat.two_pow_pos 47) sequence
    Env.reference_succeeds true).2.2.1 ⟨rfl, trivial, fun _ _ _ => rfl, fun _ _ _ => ?_⟩
  rw [if_pos (show checkRelativeJump 0x400000 (AddCall.fixed.history _ 0x400000).first = true
    from near)]
  exact near

/-- In an object that was relocated the trap stays: `remove` adds the base twice. -/
theorem remove_leaves_trap :
    Sequence ⟨[0xf1, 0x00], 1, 1, .sigtrap⟩ (.onePage (2 ^ 32)) (2 ^ 32)
      (add .reference (.static (2 ^ 32 + 2 ^ 20)) (.onePage (2 ^ 32))).2
      ((AddCall.static (2 ^ 32 + 2 ^ 20)).history ⟨[0xf1, 0x00], 1, 1, .sigtrap⟩ (2 ^ 32)) ∧
    (remove .reference (2 ^ 32) true
      (add .reference (.static (2 ^ 32 + 2 ^ 20)) (.onePage (2 ^ 32))).2).1 = true ∧
    (remove .reference (2 ^ 32) true
      (add .reference (.static (2 ^ 32 + 2 ^ 20)) (.onePage (2 ^ 32))).2).2.active (2 ^ 32) = 0xf1 ∧
    (State.onePage (2 ^ 32)).active (2 ^ 32) = 0x90 := by
  refine ⟨.first .reference _ ?_ (Prod.ext (add_static_onePage (by omega) _) rfl), ?_, ?_, rfl⟩
  · rw [onePage_address, Nat.mod_eq_of_lt (by omega)]
  · decide +kernel
  · decide +kernel

end Luci.Redirect
