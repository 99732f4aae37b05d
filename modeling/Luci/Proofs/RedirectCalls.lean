import Luci.Proofs.RedirectTable

/-!
# Single calls on redirections

What one call does: where the jump goes that `static_redirect` writes, what is left of the
table and of the code when `Redirect::add` fails, and which address the forms of
`Redirect::add` for an address and for a symbol redirect.
-/

namespace Luci.Redirect

open VirtualMemory

variable {e : Env} {seg : MemorySegment} {s s' : State} {trap : Trap} {call : AddCall}

/-! ## The reach of a jump -/

/-- Where the processor goes from a jump at an address, given its bytes: `e9 rel32` with a
sign-extended displacement, or `ff 25 00000000` followed by the target. -/
def jumpTarget (bytes : Nat → UInt8) (a : Nat) : Option Nat :=
  if bytes 0 = 0xe9 then some (wordOfInt (a + 5 + signed32 (wordOf bytes 4 1)))
  else if bytes 0 = 0xff ∧ bytes 1 = 0x25 ∧ wordOf bytes 4 2 = 0 then some (wordOf bytes 8 6)
  else none

/-- How far the target is behind the end of a relative jump, as unsigned addresses. -/
def distance (source target : Nat) : Int := target - ((source + 5) % 2 ^ 64 : Nat)

/-- The distance is one of a signed displacement, or `check_relative_jump` finds it too large. -/
def InReach (source target : Nat) : Prop :=
  -2 ^ 31 ≤ distance source target ∧ distance source target < 2 ^ 31 ∨
    distance source target ≤ -2 ^ 32 ∨ 2 ^ 32 ≤ distance source target

section Jump

variable {bytes : Nat → UInt8} {source target : Nat}

theorem checkRelativeJump_iff : checkRelativeJump source target ↔
    -2 ^ 32 < distance source target ∧ distance source target < 2 ^ 32 := by
  unfold checkRelativeJump distance
  rw [decide_eq_true_iff]
  split <;> omega

theorem jumpTarget_relative (written : ∀ i < 5, bytes i = relativeJump source target i) :
    jumpTarget bytes source =
      some (wordOfInt (source + 5 + signed32 (subWord (subWord target source) 5 % 2 ^ 32))) := by
  have opcode : bytes 0 = 0xe9 := written 0 (by omega)
  have displacement : wordOf bytes 4 1 = subWord (subWord target source) 5 % 2 ^ 32 := by
    rw [wordOf_bytes 4 (subWord (subWord target source) 5 % 2 ^ 32) bytes 1]
    · exact Nat.mod_eq_of_lt (by omega)
    · intro i lt
      rw [Nat.add_comm, written (i + 1) (by omega)]
      rfl
  unfold jumpTarget
  rw [if_pos opcode, displacement]

theorem jumpTarget_absolute (word : target < 2 ^ 64)
    (written : ∀ i < 14, bytes i = absoluteJump target i) : jumpTarget bytes source = some target := by
  have opcode : bytes 0 = 0xff := written 0 (by omega)
  have modrm : bytes 1 = 0x25 := written 1 (by omega)
  have displacement : wordOf bytes 4 2 = 0 := by
    rw [wordOf_bytes 4 0 bytes 2, Nat.zero_mod]
    intro i lt
    rw [written (2 + i) (by omega)]
    interval_cases i <;> rfl
  have pointer : wordOf bytes 8 6 = target := by
    rw [wordOf_bytes 8 target bytes 6]
    · exact Nat.mod_eq_of_lt (by omega)
    · intro i lt
      rw [written (6 + i) (by omega)]
      interval_cases i <;> rfl
  unfold jumpTarget
  rw [if_neg (by rw [opcode]; decide), if_pos ⟨opcode, modrm, displacement⟩, pointer]

/-- A jump goes to its target if that is in reach, and nowhere near it otherwise. -/
theorem jumpTarget_jump_iff (isSource : source < 2 ^ 64) (isTarget : target < 2 ^ 64)
    (written : ∀ i < jumpSize source target, bytes i = jump source target i) :
    jumpTarget bytes source = some target ↔ InReach source target := by
  have relative : checkRelativeJump source target ↔
      -2 ^ 32 < distance source target ∧ distance source target < 2 ^ 32 := checkRelativeJump_iff
  unfold jumpSize at written
  unfold jump at written
  by_cases near : checkRelativeJump source target
  · rw [if_pos near] at written
    rw [if_pos near] at written
    obtain ⟨lower, upper⟩ := relative.mp near
    rw [jumpTarget_relative written, Option.some_inj]
    unfold InReach distance at *
    unfold wordOfInt signed32 subWord
    split <;> omega
  · rw [if_neg near] at written
    rw [if_neg near] at written
    rw [jumpTarget_absolute isTarget written]
    have far : InReach source target := by
      unfold InReach
      rw [relative] at near
      omega
    exact iff_of_true rfl far

end Jump

/-- The code at an address jumps to the target of a call. Outside of the bytes that
`Redirect::add` asks for and saves, no code was changed. -/
structure AddCall.JumpWritten (call : AddCall) (trap : Trap) (source : Nat) (s s' : State) :
    Prop where
  arrives : jumpTarget (fun i => s'.composed (source + i)) source = some call.toAddress
  size : ∃ n ≤ call.bytesToPreserve trap source,
    (∀ p, p < source ∨ source + n ≤ p → s'.composed p = s.composed p) ∧
    ∀ (code : Nat → UInt8), ∀ i < n, (call.entry trap source code).previousOpcode i = code (source + i)

theorem jumpSize_le_bytesToPreserve {source : Nat} (static : call.makeStatic) :
    jumpSize source call.toAddress ≤ call.bytesToPreserve trap source := by
  unfold jumpSize AddCall.bytesToPreserve
  split <;> omega

/-- The jump of `static_redirect` reaches its target exactly if the target is in reach. -/
theorem staticRedirect_arrives_iff {object source : Nat} (isSource : source < 2 ^ 64)
    (isTarget : call.toAddress < 2 ^ 64) (static : call.makeStatic = true)
    (pointer : composePointer e (s.objects object) source = some seg) :
    call.JumpWritten trap source s (staticRedirect e object source call.toAddress s).2 ↔
      InReach source call.toAddress := by
  have composed : (staticRedirect e object source call.toAddress s).2.composed =
      overlay s.composed source (jumpSize source call.toAddress) (jump source call.toAddress) := by
    unfold staticRedirect
    rw [pointer]
    exact finalize_composed
  have written : ∀ i < jumpSize source call.toAddress,
      (staticRedirect e object source call.toAddress s).2.composed (source + i) =
        jump source call.toAddress i := by
    rw [composed]
    exact overlay_patch _ _ _ _
  have arrives : jumpTarget (fun i =>
      (staticRedirect e object source call.toAddress s).2.composed (source + i)) source =
        some call.toAddress ↔ InReach source call.toAddress :=
    jumpTarget_jump_iff isSource isTarget written
  refine ⟨fun jumps => arrives.mp jumps.arrives, fun reach => ⟨arrives.mpr reach, ?_⟩⟩
  refine ⟨_, jumpSize_le_bytesToPreserve static, fun p outside => ?_, fun code i lt => ?_⟩
  · rw [composed]
    exact if_neg (by omega)
  · exact if_pos (lt.trans_le (jumpSize_le_bytesToPreserve static))

/-- A jump by one MiB. -/
theorem staticRedirect_arrives_iff_near : (AddCall.static (2 ^ 32 + 2 ^ 20)).JumpWritten
    ⟨[0xf1, 0x00], 1, 1, .sigtrap⟩ (2 ^ 32) (.onePage (2 ^ 32))
    (staticRedirect .reference 0 (2 ^ 32) (2 ^ 32 + 2 ^ 20) (.onePage (2 ^ 32))).2 := by
  obtain ⟨seg, pointer⟩ := composePointer_of_inside Env.reference_succeeds
    (onePage_inside (show 2 ^ 32 + 4096 < 2 ^ 64 by decide))
  have isTarget : (AddCall.static (2 ^ 32 + 2 ^ 20)).toAddress < 2 ^ 64 := by decide
  have reach : InReach (2 ^ 32) (AddCall.static (2 ^ 32 + 2 ^ 20)).toAddress :=
    Or.inl ⟨by decide, by decide⟩
  exact (staticRedirect_arrives_iff (by decide) isTarget rfl pointer).mpr reach

/-- A jump by 2^31 goes 2^32 too low. -/
theorem staticRedirect_misses :
    (staticRedirect .reference 0 (2 ^ 32) (2 ^ 32 + 5 + 2 ^ 31) (.onePage (2 ^ 32))).1 = true ∧
    jumpTarget (fun i => (staticRedirect .reference 0 (2 ^ 32) (2 ^ 32 + 5 + 2 ^ 31)
      (.onePage (2 ^ 32))).2.active (2 ^ 32 + i)) (2 ^ 32) = some (5 + 2 ^ 31) := by
  decide +kernel

/-! ## Failing calls -/

/-- Redirections are off, there is no entry for the address, or an installed jump is to be
replaced by a trap. -/
def AddCall.KeepsEntry (call : AddCall) (s : State) : Prop :=
  ∀ trap, traps s.mode = some trap → ∀ val, s.entries (call.address s) = some val →
    val.type = .madeStatic ∧ call.type trap (call.address s) ≠ .makeStatic

/-- Table and code are the same. -/
structure Unchanged (s s' : State) : Prop where
  entries : s'.entries = s.entries
  composed : s'.composed = s.composed
  active : s'.active = s.active

theorem install_failed {address : Nat} (failed : (call.install e trap address s).1 = false) :
    (call.install e trap address s).2 = s := by
  unfold AddCall.install at failed ⊢
  cases pointer : composePointer e (s.objects call.fromObject) address with
  | none => rfl
  | some seg =>
    rw [pointer] at failed
    cases failed

/-- A failed call of `Redirect::add` leaves table and code alone exactly if it does not begin
with a change to an entry. -/
theorem add_failed_unchanged_iff (failed : (add e call s).1 = false) :
    Unchanged s (add e call s).2 ↔ call.KeepsEntry s := by
  unfold add at failed ⊢
  unfold AddCall.KeepsEntry
  cases configured : traps s.mode with
  | none => exact iff_of_true ⟨rfl, rfl, rfl⟩ nofun
  | some trap =>
    rw [configured] at failed
    simp only at failed ⊢
    cases found : s.entries (call.address s) with
    | none =>
      rw [found] at failed
      rw [install_failed failed]
      exact iff_of_true ⟨rfl, rfl, rfl⟩ nofun
    | some val =>
      simp only [found, Option.some_inj, forall_eq'] at failed ⊢
      by_cases static : val.type = .madeStatic
      · rw [if_pos static] at failed ⊢
        by_cases type : call.type trap (call.address s) = .makeStatic
        · rw [if_pos type] at failed ⊢
          by_cases same : val.toAddress = call.toAddress
          · rw [if_pos same] at failed
            cases failed
          · rw [if_neg same]
            -- the entry has the new target, whatever the jump came to
            refine iff_of_false (fun unchanged => same ?_) fun keeps => keeps.2 type
            have entry := congrFun unchanged.entries (call.address s)
            rw [staticRedirect_entries, found] at entry
            simp only [State.insert, if_true, Option.some_inj] at entry
            rw [← entry]
        · rw [if_neg type] at failed ⊢
          rw [install_failed failed]
          exact iff_of_true ⟨rfl, rfl, rfl⟩ ⟨static, type⟩
      · rw [if_neg static] at failed ⊢
        by_cases same : call.matchesEntry trap (call.address s) val = true
        · rw [if_pos same] at failed
          cases failed
        · rw [if_neg same] at failed ⊢
          rw [install_failed failed]
          refine iff_of_false (fun unchanged => ?_) fun keeps => static keeps.1
          have entry := congrFun unchanged.entries (call.address s)
          rw [found] at entry
          simp [State.erase] at entry

/-- No compositing buffer can be had. -/
def Env.exhausted : Env := ⟨fun _ => .unavailable, fun _ => true, fun _ => true⟩

/-- The first redirection of an address fails without effect. -/
theorem add_failed_unchanged_iff_first : (add .exhausted (.static 0) (.onePage (2 ^ 32))).1 = false ∧
    Unchanged (.onePage (2 ^ 32)) (add .exhausted (.static 0) (.onePage (2 ^ 32))).2 := by
  have failed : (add .exhausted (.static 0) (.onePage (2 ^ 32))).1 = false := by decide +kernel
  have keeps : (AddCall.static 0).KeepsEntry (.onePage (2 ^ 32)) := by
    intro trap configured val found
    cases found
  exact ⟨failed, (add_failed_unchanged_iff failed).mpr keeps⟩

/-- A redirection to one MiB behind the page. -/
def redirectedPage : State := (add .reference (.static (2 ^ 32 + 2 ^ 20)) (.onePage (2 ^ 32))).2

/-- A second redirection of an address that fails takes the entry of the first one away, whose
trap instruction stays in the code. -/
theorem add_failed_erases :
    (redirectedPage.entries (2 ^ 32)).map RedirectionEntry.toAddress = some (2 ^ 32 + 2 ^ 20) ∧
    (add .exhausted (.static 0) redirectedPage).1 = false ∧
    ((add .exhausted (.static 0) redirectedPage).2.entries (2 ^ 32)).isNone = true ∧
    (add .exhausted (.static 0) redirectedPage).2.active (2 ^ 32) = 0xf1 := by
  decide +kernel

/-! ## Absolute addresses -/

/-- A call of `Redirect::add` that has succeeded is found by `is_set`. -/
theorem isSet_of_added {trap : Trap} (configured : traps s.mode = some trap)
    (added : (add e call s).1) :
    isSet (call.address s) (add e call s).2 = some call.toAddress := by
  have entry : ∃ val, (add e call s).2.entries (call.address s) = some val ∧
      val.toAddress = call.toAddress ∧ (add e call s).2.mode = s.mode := by
    cases add_inv configured (Prod.ext added rfl : add e call s = (true, (add e call s).2)) with
    | configured val found target same state =>
      rw [state]
      exact ⟨val, found, target, rfl⟩
    | retargeted val found static type entries code =>
      rw [entries]
      exact ⟨_, if_pos rfl, rfl, code.mode⟩
    | installed replaced inside entries code =>
      rw [entries]
      exact ⟨_, if_pos rfl, rfl, code.mode⟩
  obtain ⟨val, found, target, mode⟩ := entry
  have enabled : s.mode ≠ .disabled := by
    intro disabled
    rw [disabled] at configured
    cases configured
  unfold isSet
  rw [mode, if_neg enabled, found, Option.map_some, target]

/-- The form of `Redirect::add` for an object and an address relative to its base. -/
def AddCall.within (object source target fromSize : Nat) (makeStatic finalize : Bool) (s : State) :
    AddCall :=
  ⟨object, subWord source (s.objects object).base, target, fromSize, makeStatic, finalize⟩

/-- The forms for an address and for a symbol do what the form for the object does, and `is_set`
finds what they have set. -/
structure SameAddress (lookup : List LoadedFile) (s : State) (object source : Nat) : Prop where
  address : ∀ (e : Env) (target fromSize : Nat) (makeStatic finalize : Bool),
    addAddress e lookup source target fromSize makeStatic finalize s =
      add e (.within object source target fromSize makeStatic finalize s) s
  symbol : ∀ (e : Env) (symbol : CodeSymbol) (target : Nat) (makeStatic finalize : Bool),
    symbol.valid = true → symbol.object = object → symbol.pointer = source →
    addSymbol e symbol target makeStatic finalize s =
      add e (.within object source target symbol.size makeStatic finalize s) s
  symbols : ∀ (e : Env) (symbol target : CodeSymbol) (makeStatic finalize : Bool),
    symbol.valid = true → symbol.object = object → symbol.pointer = source →
    target.valid = true →
    addSymbols e symbol target makeStatic finalize s =
      add e (.within object source target.pointer symbol.size makeStatic finalize s) s
  isSet : ∀ (e : Env) (target fromSize : Nat) (makeStatic finalize : Bool),
    (addAddress e lookup source target fromSize makeStatic finalize s).1 = true →
    Redirect.isSet source (addAddress e lookup source target fromSize makeStatic finalize s).2 =
      some target

section Address

variable {lookup : List LoadedFile} {object source target fromSize : Nat} {makeStatic finalize : Bool}

theorem within_address (isSource : source < 2 ^ 64) (isBase : (s.objects object).base < 2 ^ 64) :
    (AddCall.within object source target fromSize makeStatic finalize s).address s = source := by
  unfold AddCall.within AddCall.address subWord
  dsimp only
  omega

/-- An address or symbol of an object without a base is redirected as by the form for objects. -/
theorem within_of_base_zero (isSource : source < 2 ^ 64) (noBase : (s.objects object).base = 0) :
    AddCall.within object source target fromSize makeStatic finalize s =
      ⟨object, source, target, fromSize, makeStatic, finalize⟩ := by
  unfold AddCall.within subWord
  rw [noBase, Nat.sub_zero, Nat.add_mod_right, Nat.mod_eq_of_lt isSource]

theorem addAddress_of_resolved (enabled : s.mode ≠ .disabled)
    (resolved : resolveObject lookup s source namespaceBase = some object) :
    addAddress e lookup source target fromSize makeStatic finalize s =
      add e ⟨object, source, target, fromSize, makeStatic, finalize⟩ s := by
  unfold addAddress
  rw [if_neg enabled, resolved]

/-- Without redirections every form fails. -/
theorem add_unconfigured (off : traps s.mode = none) : add e call s = (false, s) := by
  unfold add
  rw [off]

theorem addAddress_unconfigured (off : traps s.mode = none) :
    addAddress e lookup source target fromSize makeStatic finalize s = (false, s) := by
  unfold addAddress
  split
  · rfl
  · cases resolveObject lookup s source namespaceBase with
    | none => rfl
    | some object => exact add_unconfigured off

/-- A trap for a new target at an address inside of a segment. -/
theorem add_within_dynamic (configured : traps s.mode = some trap) (isSource : source < 2 ^ 64)
    (isBase : (s.objects object).base < 2 ^ 64)
    (inside : ∃ seg ∈ (s.objects object).memoryMap, seg.contains source)
    (changed : ∀ val, s.entries source = some val → val.toAddress ≠ target) :
    (add .reference (.within object source target 0 false false s) s).1 ∧
    ((add .reference (.within object source target 0 false false s) s).2.entries source).map
      (fun val => (val.fromObject, val.toAddress)) = some (object, target) := by
  have address : (AddCall.within object source target 0 false false s).address s = source :=
    within_address isSource isBase
  obtain ⟨seg, pointer⟩ := composePointer_of_inside Env.reference_succeeds inside
  have installs : ∀ s1 : State, s1.objects = s.objects →
      ((AddCall.within object source target 0 false false s).install .reference trap source s1).1 =
        true ∧
      (((AddCall.within object source target 0 false false s).install .reference trap source
        s1).2.entries source).map (fun val => (val.fromObject, val.toAddress)) =
          some (object, target) := by
    intro s1 objects
    unfold AddCall.install
    rw [objects, show (AddCall.within object source target 0 false false s).fromObject = object
      from rfl, pointer]
    simp [AddCall.within, AddCall.entry, State.insert, State.store]
  unfold add
  rw [configured, address]
  cases found : s.entries source with
  | none => simpa only [found] using installs s rfl
  | some val =>
    have other : (AddCall.within object source target 0 false false s).matchesEntry trap source
        val = false := by
      exact decide_eq_false fun same => changed val found same.2.1
    simp only [found, other]
    by_cases static : val.type = .madeStatic
    · rw [if_pos static]
      exact installs s rfl
    · rw [if_neg static]
      exact installs (s.erase source) rfl

theorem sameAddress_unconfigured (off : traps s.mode = none) :
    SameAddress lookup s object source where
  address e target fromSize makeStatic finalize := by
    rw [addAddress_unconfigured off, add_unconfigured off]
  symbol e symbol target makeStatic finalize valid _ _ := by
    unfold addSymbol
    rw [if_pos valid, add_unconfigured off, add_unconfigured off]
  symbols e symbol target makeStatic finalize valid _ _ isValid := by
    unfold addSymbols
    rw [valid, isValid, add_unconfigured off]
    exact (add_unconfigured off).symm
  isSet e target fromSize makeStatic finalize added := by
    rw [addAddress_unconfigured off] at added
    cases added

theorem sameAddress_of_base_zero (configured : traps s.mode = some trap)
    (isSource : source < 2 ^ 64) (noBase : (s.objects object).base = 0)
    (resolved : resolveObject lookup s source namespaceBase = some object) :
    SameAddress lookup s object source := by
  have enabled : s.mode ≠ .disabled := by
    intro disabled
    rw [disabled] at configured
    cases configured
  refine ⟨?_, ?_, ?_, ?_⟩
  · intro e target fromSize makeStatic finalize
    rw [addAddress_of_resolved enabled resolved, within_of_base_zero isSource noBase]
  · rintro e symbol target makeStatic finalize valid rfl rfl
    rw [within_of_base_zero isSource noBase]
    exact if_pos valid
  · rintro e symbol target makeStatic finalize valid rfl rfl isValid
    rw [within_of_base_zero isSource noBase]
    exact if_pos (by rw [valid, isValid]; rfl)
  · intro e target fromSize makeStatic finalize added
    rw [addAddress_of_resolved enabled resolved] at added ⊢
    have isSet := isSet_of_added configured added
    unfold AddCall.address at isSet
    rwa [noBase, Nat.add_zero, Nat.mod_eq_of_lt isSource] at isSet

/-- A successful trap for a new target is entered for the object of the call. -/
theorem add_dynamic_object (configured : traps s.mode = some trap) (dynamic : call.makeStatic = false)
    (changed : ∀ val, s.entries (call.address s) = some val → val.toAddress ≠ call.toAddress)
    (added : (add e call s).1) :
    ((add e call s).2.entries (call.address s)).map RedirectionEntry.fromObject =
      some call.fromObject := by
  cases add_inv configured (Prod.ext added rfl : add e call s = (true, (add e call s).2)) with
  | configured val found target same state => exact absurd target (changed val found)
  | retargeted val found static type entries code =>
    unfold AddCall.type at type
    rw [dynamic] at type
    simp at type
  | installed replaced inside entries code =>
    rw [entries]
    simp [State.insert, AddCall.entry]

/-- The forms for addresses and symbols mean the address they are given exactly if its object has
no base address and is the one that `resolve_object` finds. -/
theorem forms_agree_iff (words : ∀ o, (s.objects o).base < 2 ^ 64) (isSource : source < 2 ^ 64)
    (inside : ∃ seg ∈ (s.objects object).memoryMap, seg.contains source = true) :
    SameAddress lookup s object source ↔ traps s.mode = none ∨
      resolveObject lookup s source namespaceBase = some object ∧ (s.objects object).base = 0 := by
  cases configured : traps s.mode with
  | none => exact iff_of_true (sameAddress_unconfigured configured) (Or.inl rfl)
  | some trap =>
    constructor
    · intro same
      -- a target that the address does not have yet
      obtain ⟨target, changed⟩ : ∃ target, ∀ val, s.entries source = some val →
          val.toAddress ≠ target := by
        cases s.entries source with
        | none => exact ⟨0, nofun⟩
        | some val =>
          refine ⟨val.toAddress + 1, fun other isVal => ?_⟩
          cases isVal
          omega
      obtain ⟨added, entry⟩ := add_within_dynamic configured isSource (words object) inside changed
      have both := same.address .reference target 0 false false
      rw [← both] at added entry
      have enabled : s.mode ≠ .disabled := by
        intro disabled
        rw [disabled] at configured
        cases configured
      cases resolved : resolveObject lookup s source namespaceBase with
      | none =>
        unfold addAddress at added
        rw [if_neg enabled, resolved] at added
        cases added
      | some other =>
        rw [addAddress_of_resolved enabled resolved] at added entry
        have here : (AddCall.mk other source target 0 false false).address s = source := by
          by_contra elsewhere
          rw [add_others (Ne.symm elsewhere)] at entry
          obtain ⟨val, found, isEntry⟩ := Option.map_eq_some_iff.mp entry
          exact changed val found (congrArg Prod.snd isEntry)
        have noBase : (s.objects other).base = 0 := by
          have word := words other
          have sum : (source + (s.objects other).base) % 2 ^ 64 = source := here
          omega
        have owner := add_dynamic_object configured rfl (by rwa [here]) added
        rw [here] at owner
        obtain ⟨val, found, isEntry⟩ := Option.map_eq_some_iff.mp entry
        rw [found, Option.map_some, Option.some_inj] at owner
        have isObject : other = object := owner.symm.trans (congrArg Prod.fst isEntry)
        rw [← isObject]
        exact Or.inr ⟨rfl, noBase⟩
    · rintro (off | ⟨resolved, noBase⟩)
      · cases off
      · exact sameAddress_of_base_zero configured isSource noBase resolved

end Address

/-- A page of a binary without a base address. -/
theorem forms_agree_iff_fixed : SameAddress [⟨0, [0]⟩] (.onePage 0) 0 8 := by
  refine (forms_agree_iff (fun o => ?_) (by decide) ?_).mpr (Or.inr ⟨?_, rfl⟩)
  · exact (by decide : 0 < 2 ^ 64)
  · exact ⟨_, List.mem_singleton_self _, by decide⟩
  · decide

/-- An address in a page of a library: the form for the object redirects it, the one for the
address fails. -/
theorem forms_disagree :
    (add .reference (.within 0 (2 ^ 32 + 8) (2 ^ 33) 0 false false (.onePage (2 ^ 32)))
      (.onePage (2 ^ 32))).1 = true ∧
    resolveObject [⟨0, [0]⟩] (.onePage (2 ^ 32)) (2 ^ 32 + 8) namespaceBase = some 0 ∧
    (addAddress .reference [⟨0, [0]⟩] (2 ^ 32 + 8) (2 ^ 33) 0 false false
      (.onePage (2 ^ 32))).1 = false := by
  decide +kernel

end Luci.Redirect
