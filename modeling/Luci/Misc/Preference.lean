import Mathlib.Data.List.Basic

/-!
# Search for the first strong candidate, else the first one

A search goes through a sequence of places. A place may hold a candidate; a
strong candidate ends the search, a weak one is kept as the best result so far
unless there is one already. `pick` states the result without the loop, `scan`
is the loop with its accumulator, and `scan_eq` relates them.
-/

namespace Luci.Preference

variable {β γ : Type} (find : γ → Option β) (strong : β → Bool)

/-- The first strong candidate of a sequence of places, otherwise the first. -/
def pick (l : List γ) : Option β :=
  ((l.filterMap find).find? strong).or (l.filterMap find).head?

/-- Consider one candidate: the flag tells whether the search is over. -/
def consider (best candidate : Option β) : Bool × Option β :=
  match candidate with
  | none => (false, best)
  | some b => if strong b || best.isNone then (strong b, some b) else (false, best)

/-- Consider the candidates of a sequence of places until the search is over. -/
def scan : Option β → List γ → Bool × Option β
  | best, [] => (false, best)
  | best, c :: l =>
    match consider strong best (find c) with
    | (true, result) => (true, result)
    | (false, result) => scan result l

variable {find strong}

/-- The loop against its specification: it ends early exactly when a strong
candidate exists, and otherwise keeps the best result it started with. -/
theorem scan_eq (l : List γ) : ∀ best : Option β, (∀ b, best = some b → strong b = false) →
    scan find strong best l =
      (match (l.filterMap find).find? strong with
       | some b => (true, some b)
       | none => (false, best.or (l.filterMap find).head?)) := by
  induction l with
  | nil => intro best _; simp [scan]
  | cons c l ih =>
    intro best weak
    unfold scan consider
    cases found : find c with
    | none => simp [found, ih best weak]
    | some b =>
      cases isStrong : strong b with
      | true => simp [found, isStrong]
      | false =>
        cases best with
        | none =>
          have weakB : ∀ b', some b = some b' → strong b' = false := by
            rintro b' ⟨⟩
            exact isStrong
          simp [found, isStrong, ih (some b) weakB]
        | some b0 => simp [found, isStrong, ih (some b0) weak]

/-- A search that starts without a result finds what `pick` says. -/
theorem scan_none (l : List γ) : (scan find strong none l).2 = pick find strong l := by
  rw [scan_eq l none (by simp), pick]
  cases (l.filterMap find).find? strong <;> simp

theorem scan_cons (best : Option β) (c : γ) (l : List γ) :
    scan find strong best (c :: l) =
      (match consider strong best (find c) with
       | (true, result) => (true, result)
       | (false, result) => scan find strong result l) := rfl

theorem consider_ends (strong : β → Bool) (best candidate : Option β) :
    (consider strong best candidate).1 ↔ ∃ b, candidate = some b ∧ strong b := by
  unfold consider
  cases candidate with
  | none => simp
  | some b =>
    by_cases isStrong : strong b
    · simp [isStrong]
    · cases best <;> simp [isStrong]

theorem consider_isSome (strong : β → Bool) (best candidate : Option β) :
    (consider strong best candidate).2.isSome ↔ best.isSome ∨ candidate.isSome := by
  unfold consider
  cases candidate with
  | none => simp
  | some b =>
    by_cases isStrong : strong b
    · simp [isStrong]
    · cases best <;> simp [isStrong]

/-- The search is over before the end of the places exactly if there is a strong candidate. -/
theorem scan_ends (find : γ → Option β) (strong : β → Bool) (best : Option β) (l : List γ) :
    (scan find strong best l).1 ↔ ∃ c ∈ l, ∃ b, find c = some b ∧ strong b := by
  induction l generalizing best with
  | nil => simp [scan]
  | cons c l ih =>
    have considered := consider_ends strong best (find c)
    rw [scan_cons]
    rcases isResult : consider strong best (find c) with ⟨_ | _, result⟩
    · rw [isResult] at considered
      simpa [ih] using fun b found isStrong => absurd (considered.mpr ⟨b, found, isStrong⟩) (by simp)
    · rw [isResult] at considered
      simpa using .inl (considered.mp rfl)

/-- The search has a result exactly if it started with one or some place has a candidate. -/
theorem scan_isSome (find : γ → Option β) (strong : β → Bool) (best : Option β) (l : List γ) :
    (scan find strong best l).2.isSome ↔ best.isSome ∨ ∃ c ∈ l, (find c).isSome := by
  induction l generalizing best with
  | nil => simp [scan]
  | cons c l ih =>
    have considered := consider_isSome strong best (find c)
    have ends := consider_ends strong best (find c)
    rw [scan_cons]
    rcases isResult : consider strong best (find c) with ⟨_ | _, result⟩
    · rw [isResult] at considered
      simp only [ih, considered, List.mem_cons, exists_eq_or_imp, or_assoc]
    · rw [isResult] at considered ends
      obtain ⟨b, found, -⟩ := ends.mp rfl
      simp [considered, found]

/-- Going on with the next sequence unless the search is over is searching the
concatenation. -/
theorem scan_append (best : Option β) (l m : List γ) :
    scan find strong best (l ++ m) =
      (match scan find strong best l with
       | (true, result) => (true, result)
       | (false, result) => scan find strong result m) := by
  induction l generalizing best with
  | nil => rfl
  | cons c l ih =>
    rw [List.cons_append, scan_cons, scan_cons]
    rcases consider strong best (find c) with ⟨_ | _, result⟩
    · exact ih result
    · rfl

theorem pick_append (l m : List γ) :
    pick find strong (l ++ m) =
      ((l.filterMap find).find? strong).or
        (((m.filterMap find).find? strong).or
          ((l.filterMap find).head?.or (m.filterMap find).head?)) := by
  rw [pick, List.filterMap_append, List.find?_append, List.head?_append, Option.or_assoc]

/-- Choosing among the objects of some places is choosing among the places. -/
theorem pick_filterMap {δ : Type} (g : δ → Option γ) (l : List δ) :
    pick find strong (l.filterMap g) = pick (fun d => (g d).bind find) strong l := by
  rw [pick, pick, List.filterMap_filterMap]

section Skip

variable {front middle : List γ} {keep : γ → Bool}
  (seen : ∀ c ∈ middle, keep c = false → c ∈ front)
include seen

/-- Without a strong candidate in front, what is skipped has no strong candidate. -/
private theorem find_skip (noStrong : (front.filterMap find).find? strong = none) :
    ((middle.filter keep).filterMap find).find? strong =
      (middle.filterMap find).find? strong := by
  induction middle with
  | nil => rfl
  | cons c middle ih =>
    have rest := ih fun d member => seen d (by simp [member])
    cases keeps : keep c with
    | true => cases found : find c <;> simp [keeps, found, List.find?_cons, rest]
    | false =>
      rw [List.filter_cons_of_neg (by simp [keeps]), rest]
      cases found : find c with
      | none => simp [found]
      | some b =>
        have member : b ∈ front.filterMap find :=
          List.mem_filterMap.mpr ⟨c, seen c (by simp) keeps, found⟩
        have weak := List.find?_eq_none.mp noStrong b member
        simp [found, weak]

/-- Without any candidate in front, what is skipped has no candidate. -/
private theorem head_skip (noneFound : front.filterMap find = []) :
    ((middle.filter keep).filterMap find).head? = (middle.filterMap find).head? := by
  induction middle with
  | nil => rfl
  | cons c middle ih =>
    have rest := ih fun d member => seen d (by simp [member])
    cases keeps : keep c with
    | true =>
      rw [List.filter_cons_of_pos keeps]
      cases found : find c with
      | none => rw [List.filterMap_cons_none found, List.filterMap_cons_none found, rest]
      | some b => rw [List.filterMap_cons_some found, List.filterMap_cons_some found]; rfl
    | false =>
      have absent : find c = none :=
        List.filterMap_eq_nil_iff.mp noneFound c (seen c (by simp) keeps)
      rw [List.filter_cons_of_neg (by simp [keeps]), List.filterMap_cons_none absent, rest]

/-- Places that occur earlier in the sequence may be left out later on. -/
theorem pick_skip (back : List γ) :
    pick find strong (front ++ (middle.filter keep ++ back)) =
      pick find strong (front ++ (middle ++ back)) := by
  rw [pick_append, pick_append]
  cases noStrong : (front.filterMap find).find? strong with
  | some b => rfl
  | none =>
    rw [List.filterMap_append, List.filterMap_append, List.find?_append, List.find?_append,
      find_skip seen noStrong, List.head?_append, List.head?_append]
    cases candidates : front.filterMap find with
    | nil => rw [head_skip seen candidates]
    | cons b rest => rfl

end Skip

/-- A place that has been searched first need not be searched again at the end. -/
theorem pick_again (c : γ) (l : List γ) :
    pick find strong (c :: (l ++ [c])) = pick find strong (c :: l) := by
  have seen : ∀ d ∈ [c], (fun _ : γ => false) d = false → d ∈ c :: l := by simp
  have skipped : pick find strong (c :: l ++ ([c].filter (fun _ => false) ++ [])) =
      pick find strong (c :: l ++ ([c] ++ [])) := pick_skip seen []
  simpa using skipped.symm

/-- A sequence that starts with a place may leave out later what occurred before and
need not come back to the place. -/
theorem pick_skip_again {first : γ} {front middle : List γ} {keep : γ → Bool}
    (seen : ∀ c ∈ middle, keep c = false → c ∈ first :: front) :
    pick find strong ([first] ++ (front ++ middle.filter keep)) =
      pick find strong ([first] ++ (front ++ (middle ++ [first]))) := by
  calc pick find strong ([first] ++ (front ++ middle.filter keep))
    _ = pick find strong (first :: front ++ (middle.filter keep ++ [])) := by simp
    _ = pick find strong (first :: front ++ (middle ++ [])) := pick_skip seen []
    _ = pick find strong (first :: (front ++ middle)) := by simp
    _ = pick find strong (first :: (front ++ middle ++ [first])) := (pick_again first _).symm
    _ = pick find strong ([first] ++ (front ++ (middle ++ [first]))) := by simp

/-- The choice avoids the candidates with property `own` exactly when each of these
is outranked by one without: a strong one by an earlier strong one, a weak one by
an earlier one or by a strong one anywhere. -/
theorem pick_avoids_iff {own : β → Prop} (l : List γ) :
    (∀ b, pick find strong l = some b → ¬ own b) ↔
      ∀ front b back, l.filterMap find = front ++ b :: back → own b →
        if strong b then ∃ c ∈ front, strong c ∧ ¬ own c
        else (∃ c ∈ front, ¬ own c) ∨ ∃ c ∈ l.filterMap find, strong c ∧ ¬ own c := by
  unfold pick
  generalize l.filterMap find = candidates
  constructor
  · intro avoids front b back split isOwn
    cases found : candidates.find? strong with
    | some c =>
      have foreign : ¬ own c := avoids c (by rw [found, Option.some_or])
      have member := List.mem_of_find?_eq_some found
      have isStrong := List.find?_some found
      by_cases strongB : strong b
      · rw [if_pos strongB]
        rw [split] at found
        cases inFront : front.find? strong with
        | some d =>
          obtain rfl : d = c := by simpa [inFront] using found
          exact ⟨d, List.mem_of_find?_eq_some inFront, isStrong, foreign⟩
        | none =>
          obtain rfl : b = c := by simpa [inFront, strongB] using found
          exact absurd isOwn foreign
      · rw [if_neg strongB]
        exact .inr ⟨c, member, isStrong, foreign⟩
    | none =>
      have weak := List.find?_eq_none.mp found
      rw [if_neg (weak b (by simp [split]))]
      cases front with
      | nil =>
        have foreign : ¬ own b := avoids b (by rw [found, split]; rfl)
        exact absurd isOwn foreign
      | cons c front =>
        have foreign : ¬ own c := avoids c (by rw [found, split]; rfl)
        exact .inl ⟨c, by simp, foreign⟩
  · intro outranked b chosen isOwn
    cases found : candidates.find? strong with
    | some c =>
      obtain rfl : c = b := by simpa [found] using chosen
      obtain ⟨strongC, front, back, split, weak⟩ := List.find?_eq_some_iff_append.mp found
      have outranks := outranked front c back split isOwn
      rw [if_pos strongC] at outranks
      obtain ⟨d, member, strongD, -⟩ := outranks
      have weakD := weak d member
      rw [strongD] at weakD
      cases weakD
    | none =>
      have weak := List.find?_eq_none.mp found
      rw [found, Option.none_or, List.head?_eq_some_iff] at chosen
      obtain ⟨back, split⟩ := chosen
      have outranks := outranked [] b back (by rw [split]; rfl) isOwn
      rw [if_neg (weak b (by simp [split]))] at outranks
      rcases outranks with ⟨c, member, -⟩ | ⟨c, member, strongC, -⟩
      · simp at member
      · exact weak c member strongC

end Luci.Preference
