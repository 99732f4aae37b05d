import Luci.RedirectSync
import Luci.Proofs.RedirectTable

/-!
# Installing jumps for entries of the table

Between its two sections the signal handler holds a reference to an entry that is not
protected by the lock. If `Redirect::remove` or `Redirect::add` erases the entry in between, the
handler installs a jump for an entry that is not in the table. If no entry is erased while a
handler holds a reference to it, then the reference always points to the entry of the trap
address, and so does every jump that is installed.
-/

namespace Luci.Redirect

open Relation

variable {e : Env} {call : AddCall} {signal : Signal} {finalize : Bool} {tasks : List Nat}
  {helper : Option Nat} {reference : Reference} {p rip target tid : Nat} {new : RedirectionEntry}

/-- A cell is in use for an address and holds an entry. -/
def Shared.Holds (s : Shared) (place address : Nat) (entry : RedirectionEntry) : Prop :=
  s.cells[place]? = some ⟨true, address, entry⟩

/-- A cell is in use for an address. -/
def Shared.Occupied (s : Shared) (place address : Nat) : Prop := ∃ entry, s.Holds place address entry

/-- An address has one cell at most. -/
def Shared.Keyed (s : Shared) : Prop :=
  ∀ place place' address, s.Occupied place address → s.Occupied place' address → place = place'

section Cells

variable {s : Shared} {place address : Nat} {entry : RedirectionEntry}

theorem find_eq_some (keyed : s.Keyed) :
    s.find address = some place ↔ s.Occupied place address := by
  constructor
  · intro found
    obtain ⟨bound, isKey, -⟩ := List.findIdx?_eq_some_iff_getElem.mp found
    rw [Bool.and_eq_true, decide_eq_true_eq] at isKey
    refine ⟨s.cells[place].entry, (List.getElem?_eq_getElem bound).trans ?_⟩
    rw [← isKey.1, ← isKey.2]
  · rintro ⟨entry, holds⟩
    obtain ⟨bound, isCell⟩ := List.getElem?_eq_some_iff.mp holds
    refine List.findIdx?_eq_some_iff_getElem.mpr ⟨bound, by simp [isCell], ?_⟩
    intro j before isKey
    rw [Bool.and_eq_true, decide_eq_true_eq] at isKey
    have holds' : s.Holds j address s.cells[j].entry := by
      refine (List.getElem?_eq_getElem (before.trans bound)).trans ?_
      rw [← isKey.1, ← isKey.2]
    have same := keyed j place address ⟨_, holds'⟩ ⟨entry, holds⟩
    omega

theorem find_eq_none (keyed : s.Keyed) :
    s.find address = none ↔ ∀ place, ¬ s.Occupied place address := by
  constructor
  · intro absent place occupied
    rw [(find_eq_some keyed).mpr occupied] at absent
    cases absent
  · intro absent
    cases found : s.find address with
    | none => rfl
    | some place => exact absurd ((find_eq_some keyed).mp found) (absent place)

theorem Shared.Holds.entryAt (holds : s.Holds place address entry) :
    s.entryAt place = some entry := by
  unfold Shared.entryAt
  rw [holds]
  rfl

theorem view_entries (keyed : s.Keyed) :
    s.view.entries address = some entry ↔ ∃ place, s.Holds place address entry := by
  show (s.find address).bind s.entryAt = some entry ↔ _
  rw [Option.bind_eq_some_iff]
  constructor
  · rintro ⟨place, found, isEntry⟩
    obtain ⟨entry', holds⟩ := (find_eq_some keyed).mp found
    cases holds.entryAt.symm.trans isEntry
    exact ⟨place, holds⟩
  · rintro ⟨place, holds⟩
    exact ⟨place, (find_eq_some keyed).mpr ⟨entry, holds⟩, holds.entryAt⟩

theorem holds_setEntry :
    (s.setEntry p new).Holds place address entry ↔
      if place = p then s.Occupied place address ∧ entry = new
      else s.Holds place address entry := by
  unfold Shared.Occupied Shared.Holds Shared.setEntry
  simp only [List.getElem?_modify]
  by_cases same : place = p
  · subst same
    simp only [if_true]
    cases isCell : s.cells[place]? with
    | none => simp
    | some cell =>
      obtain ⟨inUse, a, old⟩ := cell
      simp only [Option.map_eq_map, Option.map_some, Option.some.injEq, Cell.mk.injEq]
      constructor
      · rintro ⟨rfl, rfl, rfl⟩
        exact ⟨⟨old, rfl, rfl, rfl⟩, rfl⟩
      · rintro ⟨⟨_, rfl, rfl, -⟩, rfl⟩
        exact ⟨rfl, rfl, rfl⟩
  · simp [same, Ne.symm same]

theorem holds_release :
    (s.release p).Holds place address entry ↔ s.Holds place address entry ∧ place ≠ p := by
  unfold Shared.Holds Shared.release
  by_cases same : p = place
  · cases s.cells[place]? <;> simp [same]
  · simp [same, Ne.symm same]

theorem holds_allocate (s : Shared) (p a : Nat) (new : RedirectionEntry) :
    ∃ fresh, (∀ b, ¬ s.Occupied fresh b) ∧ ∀ place address entry,
      (s.allocate p a new).Holds place address entry ↔
        s.Holds place address entry ∨ place = fresh ∧ address = a ∧ entry = new := by
  unfold Shared.allocate
  by_cases unused : (s.cells[p]?.any fun cell => !cell.inUse)
  · rw [if_pos unused]
    cases isCell : s.cells[p]? with
    | none => simp [isCell] at unused
    | some cell =>
      have notInUse : cell.inUse = false := by simpa [isCell] using unused
      have bound : p < s.cells.length := (List.getElem?_eq_some_iff.mp isCell).1
      have free : ∀ b x, ¬ s.Holds p b x := by
        intro b x holds
        cases isCell.symm.trans holds
        cases notInUse
      refine ⟨p, fun b ⟨x, holds⟩ => free b x holds, fun place address entry => ?_⟩
      by_cases same : place = p
      · subst same
        have isNew : (s.cells.set place ⟨true, a, new⟩)[place]? = some ⟨true, a, new⟩ :=
          List.getElem?_set_self bound
        unfold Shared.Holds
        rw [isNew]
        constructor
        · rintro ⟨⟩
          exact .inr ⟨rfl, rfl, rfl⟩
        · rintro (holds | ⟨-, rfl, rfl⟩)
          · exact absurd holds (free address entry)
          · rfl
      · unfold Shared.Holds
        rw [List.getElem?_set_ne (Ne.symm same)]
        simp [same]
  · rw [if_neg unused]
    have outside : s.cells[s.cells.length]? = none := List.getElem?_eq_none le_rfl
    refine ⟨s.cells.length, ?_, fun place address entry => ?_⟩
    · rintro b ⟨x, holds⟩
      cases outside.symm.trans holds
    · by_cases same : place = s.cells.length
      · subst same
        unfold Shared.Holds
        rw [List.getElem?_concat_length, outside]
        constructor
        · rintro ⟨⟩
          exact .inr ⟨rfl, rfl, rfl⟩
        · rintro (⟨⟨⟩⟩ | ⟨-, rfl, rfl⟩)
          rfl
      · unfold Shared.Holds
        by_cases before : place < s.cells.length
        · rw [List.getElem?_append_left before]
          simp [same]
        · have beyond : s.cells[place]? = none := List.getElem?_eq_none (Nat.le_of_not_lt before)
          have beyond' : (s.cells ++ [⟨true, a, new⟩])[place]? = none := by
            apply List.getElem?_eq_none
            simp only [List.length_append, List.length_singleton]
            omega
          rw [beyond, beyond']
          simp [same]

theorem occupied_setEntry :
    (s.setEntry p new).Occupied place address ↔ s.Occupied place address := by
  unfold Shared.Occupied
  simp only [holds_setEntry]
  by_cases same : place = p
  · simp [same, Shared.Occupied]
  · simp [same]

theorem occupied_release :
    (s.release p).Occupied place address ↔ s.Occupied place address ∧ place ≠ p := by
  unfold Shared.Occupied
  simp only [holds_release, exists_and_right]

theorem occupied_allocate (s : Shared) (p a : Nat) (new : RedirectionEntry) :
    ∃ fresh, (∀ b, ¬ s.Occupied fresh b) ∧ ∀ place address,
      (s.allocate p a new).Occupied place address ↔
        s.Occupied place address ∨ place = fresh ∧ address = a := by
  obtain ⟨fresh, free, holds⟩ := holds_allocate s p a new
  refine ⟨fresh, free, fun place address => ?_⟩
  unfold Shared.Occupied
  simp only [holds]
  constructor
  · rintro ⟨entry, before | ⟨rfl, rfl, rfl⟩⟩
    · exact .inl ⟨entry, before⟩
    · exact .inr ⟨rfl, rfl⟩
  · rintro (⟨entry, before⟩ | ⟨rfl, rfl⟩)
    · exact ⟨entry, .inl before⟩
    · exact ⟨new, .inr ⟨rfl, rfl, rfl⟩⟩

theorem Shared.Keyed.setEntry (keyed : s.Keyed) : (s.setEntry p new).Keyed :=
  fun q q' a first second =>
    keyed q q' a (occupied_setEntry.mp first) (occupied_setEntry.mp second)

theorem Shared.Keyed.release (keyed : s.Keyed) : (s.release p).Keyed :=
  fun q q' a first second =>
    keyed q q' a (occupied_release.mp first).1 (occupied_release.mp second).1

theorem Shared.Keyed.allocate (keyed : s.Keyed) (absent : ∀ q, ¬ s.Occupied q address) :
    (s.allocate p address new).Keyed := by
  obtain ⟨fresh, -, occupied⟩ := occupied_allocate s p address new
  intro q q' a first second
  rcases (occupied q a).mp first with first | ⟨rfl, rfl⟩
  · rcases (occupied q' a).mp second with second | ⟨-, same⟩
    · exact keyed q q' a first second
    · rw [same] at first
      exact absurd first (absent q)
  · rcases (occupied q' a).mp second with second | ⟨rfl, -⟩
    · exact absurd second (absent q')
    · rfl

theorem Shared.Keyed.absent (keyed : s.Keyed) (occupied : s.Occupied p address) (q : Nat) :
    ¬ (s.release p).Occupied q address := by
  intro still
  obtain ⟨still, different⟩ := occupied_release.mp still
  exact different (keyed q p address still occupied)

end Cells

/-! ## Steps -/

/-- Addresses have one cell each, and the references of handlers point to the cells of their
addresses. -/
structure Shared.Sound (s : Shared) : Prop where
  keyed : s.Keyed
  held : ∀ tid reference, s.handlers tid = some reference →
    s.Occupied reference.place reference.address

/-- No handler holds a reference to the entry of the address. -/
def Shared.Unheld (s : Shared) (address : Nat) : Prop :=
  ∀ tid reference, s.handlers tid = some reference → reference.address ≠ address

/-- A step that erases no entry a handler holds a reference to. -/
def Undisturbed (s s' : Shared) : Prop :=
  ∃ action, syncStep s action = some s' ∧
    match action with
    | .trap _ _ _ => True
    | .promote _ _ _ _ => True
    | .add _ call _ => call.erases s.view = true → s.Unheld (call.address s.view)
    | .remove _ address _ => s.Unheld address

section Steps

variable {s s' : Shared} {address place : Nat} {entry : RedirectionEntry}

theorem Shared.Sound.code (sound : s.Sound) (code : State) : Shared.Sound { s with code := code } :=
  ⟨sound.keyed, sound.held⟩

theorem Shared.Sound.hold_none (sound : s.Sound) (tid : Nat) : (s.hold tid none).Sound := by
  refine ⟨sound.keyed, fun t reference isHeld => ?_⟩
  unfold Shared.hold at isHeld
  dsimp only at isHeld
  split at isHeld
  · cases isHeld
  · exact sound.held t reference isHeld

theorem Shared.Sound.setEntry (sound : s.Sound) : (s.setEntry place entry).Sound :=
  ⟨sound.keyed.setEntry, fun t reference isHeld =>
    occupied_setEntry.mpr (sound.held t reference isHeld)⟩

theorem Shared.Sound.release (sound : s.Sound) (occupied : s.Occupied place address)
    (unheld : s.Unheld address) : (s.release place).Sound := by
  refine ⟨sound.keyed.release, fun t reference isHeld => ?_⟩
  refine occupied_release.mpr ⟨sound.held t reference isHeld, fun same => ?_⟩
  obtain ⟨entry, holds⟩ := sound.held t reference isHeld
  obtain ⟨entry', holds'⟩ := occupied
  rw [same] at holds
  cases holds.symm.trans holds'
  exact unheld t reference isHeld rfl

theorem Shared.Sound.allocate (sound : s.Sound) (absent : ∀ p, ¬ s.Occupied p address) :
    (s.allocate place address entry).Sound := by
  obtain ⟨fresh, -, occupied⟩ := occupied_allocate s place address entry
  refine ⟨sound.keyed.allocate absent, fun t reference isHeld => ?_⟩
  have handlers : (s.allocate place address entry).handlers = s.handlers := by
    unfold Shared.allocate
    split <;> rfl
  rw [handlers] at isHeld
  exact (occupied _ _).mpr (.inl (sound.held t reference isHeld))

theorem install_entries {trap : Trap} {a : Nat} {s : State} :
    (call.install e trap a s).2.entries a = s.entries a ∨
      ((call.install e trap a s).2.entries a).isSome := by
  unfold AddCall.install
  split
  · exact .inl rfl
  · split
    · simp [State.store, State.insert]
    · simp [State.store, State.insert]

theorem add_entries {s : State} (kept : call.erases s = false)
    (present : (s.entries (call.address s)).isSome) :
    ((add e call s).2.entries (call.address s)).isSome := by
  have installed : ∀ trap, ((call.install e trap (call.address s) s).2.entries
      (call.address s)).isSome := by
    intro trap
    rcases install_entries with same | isSome
    · rw [same]
      exact present
    · exact isSome
  unfold AddCall.erases at kept
  unfold add
  cases isTrap : traps s.mode with
  | none => exact present
  | some trap =>
    obtain ⟨val, isVal⟩ := Option.isSome_iff_exists.mp present
    rw [isTrap, isVal] at kept
    dsimp only at kept ⊢
    rw [isVal]
    dsimp only
    by_cases made : val.type = .madeStatic
    · rw [if_pos made]
      split
      · split
        · exact present
        · rw [staticRedirect_entries]
          simp [State.insert]
      · exact installed trap
    · rw [if_neg made]
      have isSame : call.matchesEntry trap (call.address s) val := by
        simpa [made] using kept
      rw [if_pos isSame]
      exact present

theorem Shared.Sound.addSection (sound : s.Sound)
    (undisturbed : call.erases s.view → s.Unheld (call.address s.view)) :
    (Redirect.addSection e call place s).Sound := by
  have sound' := sound.code (add e call s.view).2
  unfold Redirect.addSection
  dsimp only
  cases found : s.find (call.address s.view) with
  | none =>
    have absent := (find_eq_none sound.keyed).mp found
    cases (add e call s.view).2.entries (call.address s.view) with
    | none => exact sound'
    | some entry => exact sound'.allocate absent
  | some old =>
    have occupied := (find_eq_some sound.keyed).mp found
    cases after : (add e call s.view).2.entries (call.address s.view) with
    | none =>
      refine sound'.release occupied (undisturbed ?_)
      by_contra kept
      have present : (s.view.entries (call.address s.view)).isSome := by
        obtain ⟨entry, holds⟩ := occupied
        rw [(view_entries sound.keyed).mpr ⟨old, holds⟩]
        rfl
      have isSome := add_entries (e := e) (Bool.eq_false_iff.mpr kept) present
      rw [after] at isSome
      cases isSome
    | some entry =>
      dsimp only
      by_cases erases : call.erases s.view
      · rw [if_pos erases]
        exact (sound'.release occupied (undisturbed erases)).allocate (sound'.keyed.absent occupied)
      · rw [if_neg erases]
        exact sound'.setEntry

theorem Shared.Sound.removeSection (sound : s.Sound) (unheld : s.Unheld address) :
    (Redirect.removeSection e address finalize s).Sound := by
  have sound' := sound.code (remove e address finalize s.view).2
  unfold Redirect.removeSection
  dsimp only
  cases found : s.find address with
  | none => exact sound'
  | some old =>
    cases (remove e address finalize s.view).2.entries address with
    | none => exact sound'.release ((find_eq_some sound.keyed).mp found) unheld
    | some entry => exact sound'

/-- The reference that the read section keeps points to the entry of the trap address. -/
theorem trapSection_occupied (keyed : s.Keyed)
    (kept : trapSection signal rip tid s = some reference) :
    s.Occupied reference.place reference.address := by
  unfold trapSection at kept
  split at kept
  · cases kept
  · dsimp only at kept
    split at kept
    · cases kept
    · split at kept
      · cases kept
      · split at kept
        · cases kept
        · rename_i place found
          split at kept
          · cases kept
          · split at kept
            · cases kept
              exact (find_eq_some keyed).mp found
            · cases kept

theorem Shared.Sound.promoteSection (sound : s.Sound) :
    (Redirect.promoteSection e tid tasks helper reference s).2.Sound := by
  unfold Redirect.promoteSection
  split
  · exact sound
  · dsimp only
    split
    · split
      · exact (sound.setEntry.code _).setEntry
      · exact sound.setEntry.code _
    · exact sound.setEntry

theorem Shared.Sound.step (sound : s.Sound) (taken : Undisturbed s s') : s'.Sound := by
  obtain ⟨action, taken, undisturbed⟩ := taken
  cases action with
  | trap signal rip tid =>
    obtain ⟨-, taken⟩ := Option.ite_none_right_eq_some.mp taken
    cases taken
    refine ⟨sound.keyed, fun t reference isHeld => ?_⟩
    unfold Shared.hold at isHeld
    dsimp only at isHeld
    split at isHeld
    · exact trapSection_occupied sound.keyed isHeld
    · exact sound.held t reference isHeld
  | promote e tid tasks helper =>
    obtain ⟨reference, -, rfl⟩ := Option.map_eq_some_iff.mp taken
    exact sound.promoteSection.hold_none tid
  | add e call place =>
    cases taken
    exact sound.addSection undisturbed
  | remove e address finalize =>
    cases taken
    exact sound.removeSection undisturbed

/-- A jump is installed for the entry of its address: that entry is in the table, it is the one
that is marked, and the jump goes to its target. -/
def InstallsOwn (s s' : Shared) (address target : Nat) : Prop :=
  ∃ place entry, s.find address = some place ∧ s.entryAt place = some entry ∧
    target = entry.toAddress ∧ s'.find address = some place ∧
    (s'.entryAt place).map RedirectionEntry.type = some .madeStatic

theorem entryAt_setEntry (s : Shared) (entry : RedirectionEntry) :
    (s.setEntry place entry).entryAt place = (s.entryAt place).map fun _ => entry := by
  unfold Shared.entryAt Shared.setEntry
  simp only [List.getElem?_modify]
  cases s.cells[place]? <;> rfl

theorem promoteSection_inv
    (installs : promoteSection e tid tasks helper reference s = (some (address, target), s')) :
    address = reference.address ∧ ∃ entry, s.entryAt reference.place = some entry ∧
      target = entry.toAddress ∧
      (s'.entryAt reference.place).map RedirectionEntry.type = some .madeStatic ∧
      ∀ p a, s'.Occupied p a ↔ s.Occupied p a := by
  unfold promoteSection at installs
  cases isEntry : s.entryAt reference.place with
  | none =>
    rw [isEntry] at installs
    cases installs
  | some entry =>
    rw [isEntry] at installs
    dsimp only at installs
    split at installs
    · split at installs
      · cases installs
        refine ⟨rfl, entry, rfl, rfl, ?_, fun p a => ?_⟩
        · rw [entryAt_setEntry]
          show Option.map _ (Option.map _ ((s.setEntry _ _).entryAt _)) = _
          rw [entryAt_setEntry, isEntry]
          rfl
        · exact occupied_setEntry.trans occupied_setEntry
      · cases installs
    · cases installs

theorem sound_of_run {s0 : Shared} (keyed : s0.Keyed) (idle : ∀ tid, s0.handlers tid = none)
    (run : ReflTransGen Undisturbed s0 s) : s.Sound := by
  induction run with
  | refl =>
    refine ⟨keyed, fun tid reference isHeld => ?_⟩
    rw [idle tid] at isHeld
    cases isHeld
  | tail _ taken ih => exact ih.step taken

/-- In every run in which no entry is erased while a handler holds a reference to it, every jump
is installed for the entry of its address. -/
theorem undisturbed_installs_own {s₀ : Shared} (keyed : s₀.Keyed)
    (idle : ∀ tid, s₀.handlers tid = none) (run : ReflTransGen Undisturbed s₀ s) {e : Env}
    {tid target : Nat} {tasks : List Nat} {helper : Option Nat} {reference : Reference}
    (held : s.handlers tid = some reference)
    (installs : promoteSection e tid tasks helper reference s = (some (address, target), s')) :
    InstallsOwn s s' address target := by
  have sound := sound_of_run keyed idle run
  obtain ⟨rfl, entry, isEntry, isTarget, marked, occupied⟩ := promoteSection_inv installs
  have own := sound.held tid reference held
  have keyed' : s'.Keyed := fun p p' a first second =>
    sound.keyed p p' a ((occupied p a).mp first) ((occupied p' a).mp second)
  exact ⟨reference.place, entry, (find_eq_some sound.keyed).mpr own, isEntry, isTarget,
    (find_eq_some keyed').mpr ((occupied _ _).mpr own), marked⟩

end Steps

/-! ## An entry that is removed too early -/

/-- A page of code without redirections. -/
def Shared.onePage (base : Nat) : Shared := ⟨.onePage base, [], fun _ => none⟩

theorem onePage_keyed (base : Nat) : (Shared.onePage base).Keyed := by
  rintro place place' address ⟨entry, holds⟩
  cases holds

/-- Redirect the start of the page; the only task traps there. -/
def trapped : List SyncAction :=
  [.add .reference (.static (2 ^ 32 + 2 ^ 20)) 0, .trap .sigtrap (2 ^ 32 + 1) 7]

/-- Then the redirection is removed. -/
def trappedThenRemoved : List SyncAction := trapped ++ [.remove .reference (2 ^ 32) true]

/-- The redirection is removed while the handler is between its sections; the handler then
installs a jump, but the table has no entry for the address. -/
theorem removed_entry_installed : ∃ s reference s',
    trappedThenRemoved.foldlM syncStep (.onePage (2 ^ 32)) = some s ∧
    s.handlers 7 = some reference ∧
    promoteSection .reference 7 [7] none reference s =
      (some (2 ^ 32, 2 ^ 32 + 2 ^ 20), s') ∧
    s.find (2 ^ 32) = none ∧ ¬ InstallsOwn s s' (2 ^ 32) (2 ^ 32 + 2 ^ 20) := by
  have observed : (trappedThenRemoved.foldlM syncStep (.onePage (2 ^ 32))).map
      (fun s => (s.handlers 7, s.find (2 ^ 32),
        (promoteSection .reference 7 [7] none ⟨2 ^ 32, 0⟩ s).1)) =
      some (some ⟨2 ^ 32, 0⟩, none, some (2 ^ 32, 2 ^ 32 + 2 ^ 20)) := by
    decide +kernel
  obtain ⟨s, ran, facts⟩ := Option.map_eq_some_iff.mp observed
  simp only [Prod.mk.injEq] at facts
  obtain ⟨held, absent, installs⟩ := facts
  refine ⟨s, ⟨2 ^ 32, 0⟩, _, ran, held, Prod.ext installs rfl, absent, ?_⟩
  rintro ⟨place, entry, found, -⟩
  rw [absent] at found
  cases found

/-- Without the removal the jump is installed for the entry. -/
theorem undisturbed_installs_own_static : ∃ s reference s',
    ReflTransGen Undisturbed (.onePage (2 ^ 32)) s ∧ s.handlers 7 = some reference ∧
    promoteSection .reference 7 [7] none reference s =
      (some (2 ^ 32, 2 ^ 32 + 2 ^ 20), s') ∧
    InstallsOwn s s' (2 ^ 32) (2 ^ 32 + 2 ^ 20) := by
  have observed : (trapped.foldlM syncStep (.onePage (2 ^ 32))).map (fun s => (s.handlers 7,
        (promoteSection .reference 7 [7] none ⟨2 ^ 32, 0⟩ s).1)) =
      some (some ⟨2 ^ 32, 0⟩, some (2 ^ 32, 2 ^ 32 + 2 ^ 20)) := by
    decide +kernel
  obtain ⟨s, ran, facts⟩ := Option.map_eq_some_iff.mp observed
  simp only [Prod.mk.injEq] at facts
  obtain ⟨held, installs⟩ := facts
  unfold trapped at ran
  rw [List.foldlM_cons] at ran
  obtain ⟨s1, added, ran⟩ := Option.bind_eq_some_iff.mp ran
  rw [List.foldlM_cons] at ran
  obtain ⟨s2, taken, ran⟩ := Option.bind_eq_some_iff.mp ran
  cases ran
  have first : Undisturbed (.onePage (2 ^ 32)) s1 :=
    ⟨_, added, fun _ tid reference isHeld => by cases isHeld⟩
  have second : Undisturbed s1 s := ⟨_, taken, trivial⟩
  have run := (ReflTransGen.single first).tail second
  have installs' : promoteSection .reference 7 [7] none ⟨2 ^ 32, 0⟩ s =
      (some (2 ^ 32, 2 ^ 32 + 2 ^ 20), (promoteSection .reference 7 [7] none ⟨2 ^ 32, 0⟩ s).2) :=
    Prod.ext installs rfl
  exact ⟨s, ⟨2 ^ 32, 0⟩, _, run, held, installs',
    undisturbed_installs_own (onePage_keyed (2 ^ 32)) (fun _ => rfl) run held installs'⟩

end Luci.Redirect
