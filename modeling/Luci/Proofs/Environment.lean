import Luci.Process
import Mathlib.Data.List.Perm.Basic

/-!
# The order of the environment

glibc stops at the first environment entry without a name, so `Loader::run` (`src/loader.cpp`)
moves the entries that were consumed, which are empty strings by then, behind all others. It does
so in place, with an index that walks up and one that walks down. The proof is about the entries
alone; what lies behind them in memory is added afterwards.
-/

namespace Luci

variable {isEmpty : Nat → Bool} {entries entries' tail : List Nat} {curr envc index fuel : Nat}

/-! ## Memory behind the entries -/

theorem emptyEntry_append {empty : Bool} (read : emptyEntry isEmpty entries index = some empty) :
    emptyEntry isEmpty (entries ++ tail) index = some empty := by
  unfold emptyEntry at read ⊢
  cases found : entries[index]? with
  | none =>
    rw [found] at read
    cases read
  | some entry =>
    have inside : index < entries.length := (List.getElem?_eq_some_iff.mp found).1
    rw [List.getElem?_append_left inside, found]
    rwa [found] at read

theorem skipEmpty_append (skip : skipEmpty isEmpty entries curr envc = some index) :
    skipEmpty isEmpty (entries ++ tail) curr envc = some index := by
  induction envc with
  | zero => cases skip
  | succ envc ih =>
    unfold skipEmpty at skip ⊢
    cases read : emptyEntry isEmpty entries envc with
    | none =>
      rw [read] at skip
      cases skip
    | some empty =>
      rw [read] at skip
      rw [emptyEntry_append read]
      dsimp only at skip ⊢
      by_cases further : empty ∧ curr < envc
      · rw [if_pos further] at skip ⊢
        exact ih skip
      · rw [if_neg further] at skip ⊢
        exact skip

theorem swapEntries_append (swap : swapEntries entries curr envc = some entries') :
    swapEntries (entries ++ tail) curr envc = some (entries' ++ tail) := by
  unfold swapEntries at swap ⊢
  cases first : entries[envc]? with
  | none =>
    rw [first] at swap
    cases swap
  | some tmp =>
    cases second : entries[curr]? with
    | none =>
      rw [first, second] at swap
      cases swap
    | some entry =>
      rw [first, second] at swap
      cases swap
      have inside : envc < entries.length := (List.getElem?_eq_some_iff.mp first).1
      have inside' : curr < entries.length := (List.getElem?_eq_some_iff.mp second).1
      have moved : curr < (entries.set envc entry).length := by
        rwa [List.length_set]
      rw [List.getElem?_append_left inside, List.getElem?_append_left inside', first, second]
      dsimp only
      rw [List.set_append_left envc entry inside, List.set_append_left curr tmp moved]

/-- What the loop does with the entries it does in front of any other memory. -/
theorem reorderFrom_append (run : reorderFrom isEmpty fuel curr envc entries = some entries') :
    reorderFrom isEmpty fuel curr envc (entries ++ tail) = some (entries' ++ tail) := by
  induction fuel generalizing curr envc entries with
  | zero =>
    unfold reorderFrom at run ⊢
    by_cases more : curr < envc
    · rw [if_pos more] at run
      cases run
    · rw [if_neg more] at run ⊢
      cases run
      rfl
  | succ fuel ih =>
    unfold reorderFrom at run ⊢
    by_cases more : curr < envc
    · rw [if_pos more] at run ⊢
      cases read : emptyEntry isEmpty entries curr with
      | none =>
        rw [read] at run
        cases run
      | some empty =>
        rw [read] at run
        rw [emptyEntry_append read]
        cases empty with
        | false => exact ih run
        | true =>
          cases skip : skipEmpty isEmpty entries curr envc with
          | none =>
            rw [skip] at run
            cases run
          | some last =>
            rw [skip] at run
            rw [skipEmpty_append skip]
            dsimp only at run ⊢
            cases swap : swapEntries entries curr last with
            | none =>
              rw [swap] at run
              cases run
            | some swapped =>
              rw [swap] at run
              rw [swapEntries_append swap]
              exact ih run
    · rw [if_neg more] at run ⊢
      cases run
      rfl

/-! ## The two indices -/

theorem emptyEntry_inside (isEmpty : Nat → Bool) (nonzero : ∀ entry ∈ entries, entry ≠ 0)
    (inside : index < entries.length) :
    emptyEntry isEmpty entries index = some (isEmpty entries[index]) := by
  unfold emptyEntry
  rw [List.getElem?_eq_getElem inside]
  exact if_neg (nonzero _ (List.getElem_mem inside))

/-- The index that walks down stops at an entry that is not empty, or meets the other one. -/
theorem skipEmpty_spec (nonzero : ∀ entry ∈ entries, entry ≠ 0) (le : envc ≤ entries.length)
    (less : curr < envc) :
    ∃ last, skipEmpty isEmpty entries curr envc = some last ∧ curr ≤ last ∧ last < envc ∧
      (∀ i, last < i → i < envc → emptyEntry isEmpty entries i = some true) ∧
      (last = curr ∨ emptyEntry isEmpty entries last = some false) := by
  induction envc with
  | zero => omega
  | succ envc ih =>
    have read := emptyEntry_inside isEmpty nonzero (Nat.lt_of_succ_le le)
    unfold skipEmpty
    rw [read]
    dsimp only
    by_cases further : isEmpty entries[envc] ∧ curr < envc
    · rw [if_pos further]
      obtain ⟨last, skip, low, high, skipped, stop⟩ := ih (by omega) further.2
      refine ⟨last, skip, low, by omega, ?_, stop⟩
      intro i above below
      by_cases isLast : i = envc
      · rw [isLast, read, further.1]
      · exact skipped i above (by omega)
    · rw [if_neg further]
      refine ⟨envc, rfl, by omega, by omega, by omega, ?_⟩
      by_cases met : envc = curr
      · exact Or.inl met
      · have full : ¬ isEmpty entries[envc] := fun empty => further ⟨empty, by omega⟩
        rw [read, Bool.not_eq_true _ |>.mp full]
        exact Or.inr rfl

theorem swapEntries_spec (isEmpty : Nat → Bool) (first : curr < entries.length)
    (second : envc < entries.length) :
    ∃ entries', swapEntries entries curr envc = some entries' ∧ entries'.Perm entries ∧
      ∀ i, emptyEntry isEmpty entries' i = emptyEntry isEmpty entries
        (if i = curr then envc else if i = envc then curr else i) := by
  refine ⟨(entries.set envc entries[curr]).set curr entries[envc], ?_, ?_, ?_⟩
  · unfold swapEntries
    rw [List.getElem?_eq_getElem first, List.getElem?_eq_getElem second]
  · exact List.set_set_perm second first
  · intro i
    unfold emptyEntry
    have read : ((entries.set envc entries[curr]).set curr entries[envc])[i]? =
        entries[if i = curr then envc else if i = envc then curr else i]? := by
      by_cases isCurr : i = curr
      · rw [if_pos isCurr, isCurr, List.getElem?_set_self (by rwa [List.length_set]),
          List.getElem?_eq_getElem second]
      · rw [if_neg isCurr, List.getElem?_set_ne (Ne.symm isCurr)]
        by_cases isLast : i = envc
        · rw [if_pos isLast, isLast, List.getElem?_set_self second,
            List.getElem?_eq_getElem first]
        · rw [if_neg isLast, List.getElem?_set_ne (Ne.symm isLast)]
    rw [read]

/-- Below `curr` no entry is empty, from `envc` on all are. -/
structure Sifted (isEmpty : Nat → Bool) (entries : List Nat) (curr envc : Nat) : Prop where
  nonzero : ∀ entry ∈ entries, entry ≠ 0
  le : envc ≤ entries.length
  front : ∀ i, i < curr → i < envc → emptyEntry isEmpty entries i = some false
  back : ∀ i, envc ≤ i → i < entries.length → emptyEntry isEmpty entries i = some true

section Sifted

variable (sifted : Sifted isEmpty entries curr envc)

include sifted

theorem Sifted.next (full : emptyEntry isEmpty entries curr = some false) :
    Sifted isEmpty entries (curr + 1) envc := by
  refine ⟨sifted.nonzero, sifted.le, ?_, sifted.back⟩
  intro i below inside
  by_cases isCurr : i = curr
  · rw [isCurr, full]
  · exact sifted.front i (by omega) inside

/-- An empty entry is exchanged with the last one that is not empty. -/
theorem Sifted.exchange (less : curr < envc) (empty : emptyEntry isEmpty entries curr = some true) :
    ∃ last entries', skipEmpty isEmpty entries curr envc = some last ∧
      swapEntries entries curr last = some entries' ∧ entries'.Perm entries ∧ last < envc ∧
      Sifted isEmpty entries' (curr + 1) last := by
  have le := sifted.le
  obtain ⟨last, skip, low, high, skipped, stop⟩ := skipEmpty_spec sifted.nonzero le less
  have inside : last < entries.length := by omega
  obtain ⟨entries', swap, perm, moved⟩ :=
    swapEntries_spec isEmpty (low.trans_lt inside) inside
  have size := perm.length_eq
  refine ⟨last, entries', skip, swap, perm, high, ?_⟩
  constructor
  · intro entry member
    exact sifted.nonzero entry (perm.mem_iff.mp member)
  · omega
  · intro i below isFront
    rw [moved]
    by_cases isCurr : i = curr
    · rw [if_pos isCurr]
      exact stop.resolve_left (by omega)
    · rw [if_neg isCurr, if_neg (by omega)]
      exact sifted.front i (by omega) (by omega)
  · intro i above isBack
    rw [moved]
    by_cases isLast : i = last
    · by_cases isCurr : i = curr
      · rw [if_pos isCurr, ← isLast, isCurr, empty]
      · rw [if_neg isCurr, if_pos isLast, empty]
    · rw [if_neg (by omega), if_neg isLast]
      by_cases skippedOver : i < envc
      · exact skipped i (by omega) skippedOver
      · exact sifted.back i (by omega) (by omega)

theorem Sifted.sorted (done : envc ≤ curr) :
    entries.Pairwise (fun p q => isEmpty p → isEmpty q) := by
  rw [List.pairwise_iff_getElem]
  intro i j inside inside' before empty
  have first := emptyEntry_inside isEmpty sifted.nonzero inside
  have second := emptyEntry_inside isEmpty sifted.nonzero inside'
  have isBack : envc ≤ i := by
    by_contra isFront
    have full := sifted.front i (by omega) (by omega)
    rw [first, empty] at full
    cases full
  have last := sifted.back j (by omega) inside'
  rw [second] at last
  exact Option.some.inj last

/-- The loop comes to an end within as many iterations as there are entries between the
indices. -/
theorem reorderFrom_spec (enough : envc ≤ curr + fuel) :
    ∃ entries', reorderFrom isEmpty fuel curr envc entries = some entries' ∧
      entries'.Perm entries ∧
      entries'.Pairwise (fun p q => isEmpty p → isEmpty q) := by
  induction fuel generalizing curr envc entries with
  | zero =>
    refine ⟨entries, ?_, .refl _, sifted.sorted enough⟩
    exact if_neg (by omega)
  | succ fuel ih =>
    unfold reorderFrom
    by_cases more : curr < envc
    · rw [if_pos more]
      have le := sifted.le
      have read := emptyEntry_inside isEmpty sifted.nonzero (more.trans_le le)
      cases empty : isEmpty entries[curr] with
      | false =>
        rw [empty] at read
        rw [read]
        exact ih (sifted.next read) (by omega)
      | true =>
        rw [empty] at read
        rw [read]
        obtain ⟨last, swapped, skip, swap, perm, high, sifted'⟩ := sifted.exchange more read
        obtain ⟨entries', run, perm', sorted⟩ := ih sifted' (by omega)
        rw [skip]
        dsimp only
        rw [swap]
        exact ⟨entries', run, perm'.trans perm, sorted⟩
    · rw [if_neg more]
      exact ⟨entries, rfl, .refl _, sifted.sorted (by omega)⟩

end Sifted

theorem countEntries_append (nonzero : ∀ entry ∈ entries, entry ≠ 0) :
    countEntries (entries ++ 0 :: tail) = some entries.length := by
  induction entries with
  | nil => rfl
  | cons entry entries ih =>
    obtain ⟨isNonzero, others⟩ := List.forall_mem_cons.mp nonzero
    rw [List.cons_append, countEntries, if_neg isNonzero, ih others]
    rfl

/-- After the reordering the entries are the old ones with all empty ones at the end. Memory from
the terminator on is neither changed nor, since it may be anything, needed. -/
theorem reorderEnvironment_sifts (isEmpty : Nat → Bool) (nonzero : ∀ entry ∈ entries, entry ≠ 0) :
    ∃ entries', entries'.Perm entries ∧
      entries'.Pairwise (fun p q => isEmpty p = true → isEmpty q = true) ∧
      ∀ tail, reorderEnvironment isEmpty (entries ++ 0 :: tail) = some (entries' ++ 0 :: tail) := by
  have start : Sifted isEmpty entries 0 entries.length :=
    ⟨nonzero, le_refl _, fun i below => absurd below i.not_lt_zero, by omega⟩
  obtain ⟨entries', run, perm, sorted⟩ :=
    reorderFrom_spec start (Nat.zero_add _).symm.le
  refine ⟨entries', perm, sorted, fun tail => ?_⟩
  unfold reorderEnvironment
  rw [countEntries_append nonzero]
  exact reorderFrom_append run

/-- Of four entries the first and the third are empty. -/
theorem reorderEnvironment_sifts_four : ∃ entries', entries'.Perm [1, 2, 3, 4] ∧
    reorderEnvironment (fun entry => entry % 2 == 1) [1, 2, 3, 4, 0] = some (entries' ++ [0]) := by
  have nonzero : ∀ entry ∈ [1, 2, 3, 4], entry ≠ 0 := by decide
  obtain ⟨entries', perm, -, run⟩ :=
    reorderEnvironment_sifts (fun entry => entry % 2 == 1) nonzero
  exact ⟨entries', perm, run []⟩

end Luci
