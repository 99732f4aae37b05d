import Mathlib.Data.Nat.ModEq

/-!
# Ranges of addresses

Rounding to a multiple, words of 64 bits, and ranges given by their start and
length: when two of them are apart, and when a range is covered by one of a
list. An allocator that returns a range apart from all live ones keeps it apart
from everything the live ones cover.
-/

namespace Luci

variable {q q' r : Range} {live : List Range}

/-- `Math::align_up`. -/
def alignUp (value alignment : Nat) : Nat :=
  if alignment = 0 then value else (value + alignment - 1) / alignment * alignment

/-- A machine word from an integer. -/
def wordOfInt (value : Int) : Nat := (value % (2 ^ 64 : Int)).toNat

/-- An address and a signed displacement. -/
def displaced (address disp32 : Nat) : Nat :=
  if disp32 < 2 ^ 31 then (address + disp32) % 2 ^ 64
  else (address + (2 ^ 64 - 2 ^ 32) + disp32) % 2 ^ 64

/-! ## Rounding -/

theorem le_alignUp (value alignment : Nat) : value ≤ alignUp value alignment := by
  unfold alignUp
  by_cases zero : alignment = 0
  · rw [if_pos zero]
  · rw [if_neg zero]
    have positive : 0 < alignment := Nat.pos_of_ne_zero zero
    have division := Nat.div_add_mod (value + alignment - 1) alignment
    have rest := Nat.mod_lt (value + alignment - 1) positive
    rw [Nat.mul_comm] at division
    omega

theorem alignUp_lt {alignment : Nat} (positive : 0 < alignment) (value : Nat) :
    alignUp value alignment < value + alignment := by
  unfold alignUp
  rw [if_neg (by omega)]
  have bound := Nat.div_mul_le_self (value + alignment - 1) alignment
  omega

theorem dvd_alignUp (value alignment : Nat) (nonzero : alignment ≠ 0) :
    alignment ∣ alignUp value alignment := by
  unfold alignUp
  rw [if_neg nonzero]
  exact Nat.dvd_mul_left alignment _

/-! ## Words -/

theorem wordOfInt_add_ne {value : Int} {delta : Nat} (positive : 0 < delta)
    (small : delta < 2 ^ 64) : wordOfInt (value + delta) ≠ wordOfInt value := by
  unfold wordOfInt
  omega

/-! ## Ranges -/

/-- A range of addresses. -/
structure Range where
  start : Nat
  size : Nat
  deriving DecidableEq, Repr

namespace Range

/-- The first address behind the range. -/
def stop (r : Range) : Nat := r.start + r.size

/-- No address is in both ranges. -/
def Apart (r q : Range) : Prop := r.stop ≤ q.start ∨ q.stop ≤ r.start

instance (r q : Range) : Decidable (r.Apart q) := inferInstanceAs (Decidable (_ ∨ _))

/-- The range `r` is a part of `q`. -/
def Within (r q : Range) : Prop := q.start ≤ r.start ∧ r.stop ≤ q.stop

theorem Apart.symm (apart : r.Apart q) : q.Apart r := Or.symm apart

theorem Apart.within {r q r' q' : Range} (apart : r.Apart q) (first : r'.Within r)
    (second : q'.Within q) : r'.Apart q' := by
  obtain ⟨lower, upper⟩ := first
  obtain ⟨lower', upper'⟩ := second
  rcases apart with before | behind
  · exact Or.inl (by omega)
  · exact Or.inr (by omega)

/-- The range is part of a range of the list. -/
def Covered (r : Range) (live : List Range) : Prop := ∃ q ∈ live, r.Within q

theorem Covered.mono {live live' : List Range} (covered : r.Covered live)
    (more : ∀ q ∈ live, q ∈ live') : r.Covered live' := by
  obtain ⟨q, member, within⟩ := covered
  exact ⟨q, more q member, within⟩

theorem Covered.within (covered : q.Covered live) (part : r.Within q) : r.Covered live := by
  obtain ⟨p, member, within⟩ := covered
  exact ⟨p, member, Nat.le_trans within.1 part.1, Nat.le_trans part.2 within.2⟩

theorem Covered.head (within : r.Within q) (live : List Range) : r.Covered (q :: live) :=
  ⟨q, List.mem_cons_self, within⟩

/-- A range apart from all live ranges is apart from what they cover. -/
theorem Covered.apart (covered : r.Covered live) (fresh : ∀ p ∈ live, q.Apart p)
    (part : q'.Within q) : q'.Apart r := by
  obtain ⟨p, member, within⟩ := covered
  exact (fresh p member).within part within

theorem Within.refl (r : Range) : r.Within r := ⟨le_rfl, le_rfl⟩

theorem not_apart_self (positive : 0 < r.size) : ¬ r.Apart r := by
  unfold Apart stop
  omega

end Range
end Luci
