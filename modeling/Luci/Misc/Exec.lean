import Mathlib.Logic.Basic
import Mathlib.Order.Defs.Unbundled

/-!
# Programs over a mutable state that may abort

`Exec σ α` is the embedding used for imperative code: a program reads and
replaces a state of type `σ` and either returns a value or aborts. An abort
stands for every end of the run that is no return: a failed assertion, a
dereferenced null or dangling pointer, or the fuel of a recursion running out.

The file gives the inversion rules of the primitives and two relations with
their rules. `Keeps R x` says that every returning run of `x` relates the state
before to the state after by `R`; it is used with preorders, for frame
conditions, and its rules are tagged for `grind`. Two programs are compared by
`Refines x y`: where `x` returns, `y` returns the same. Loops over lists are
`forEach` and `allOf`.
-/

namespace Luci

/-- A program over states `σ`; `none` is an aborted run. -/
abbrev Exec (σ α : Type) := StateT σ Option α

namespace Exec

variable {σ α β : Type}

/-- The run ends here without returning. -/
def abort : Exec σ α := fun _ => none

/-- Continue with the value of `o`, abort when there is none. -/
def orAbort : Option α → Exec σ α
  | some a => pure a
  | none => abort

/-- An assertion of the source. -/
def require (p : Bool) : Exec σ Unit := if p then pure () else abort

/-- Run `x` only under a condition. -/
def onlyIf (p : Bool) (x : Exec σ Unit) : Exec σ Unit := if p then x else pure ()

/-- A loop that runs `f` on every element. -/
def forEach (f : α → Exec σ Unit) : List α → Exec σ Unit
  | [] => pure ()
  | a :: l => do
    f a
    forEach f l

/-- A loop that stops with `false` at the first element on which `f` fails. -/
def allOf (f : α → Exec σ Bool) : List α → Exec σ Bool
  | [] => pure true
  | a :: l => do
    if ← f a then allOf f l else pure false

/-- A loop that runs `f` on every element and collects whether all succeeded. -/
def eachOf (f : α → Exec σ Bool) : List α → Exec σ Bool
  | [] => pure true
  | a :: l => do
    let ok ← f a
    let rest ← eachOf f l
    return ok && rest

/-- A loop that stops at the first element for which `f` finds something. -/
def firstOf (f : α → Exec σ (Option β)) : List α → Exec σ (Option β)
  | [] => pure none
  | a :: l => do
    match ← f a with
    | some b => return some b
    | none => firstOf f l

/-! ## Inversion -/

theorem bind_apply (x : Exec σ α) (f : α → Exec σ β) (s : σ) :
    (x >>= f) s = (x s).bind (fun p => f p.1 p.2) := rfl

/-- A returning run of a sequence splits into the runs of its parts. -/
theorem bind_inv {x : Exec σ α} {f : α → Exec σ β} {s : σ} {r : β × σ}
    (run : (x >>= f) s = some r) : ∃ a s1, x s = some (a, s1) ∧ f a s1 = some r := by
  obtain ⟨⟨a, s1⟩, first, rest⟩ := Option.bind_eq_some_iff.mp run
  exact ⟨a, s1, first, rest⟩

theorem bind_of_eq {x : Exec σ α} {f : α → Exec σ β} {s s1 : σ} {a : α}
    (first : x s = some (a, s1)) : (x >>= f) s = f a s1 := by
  rw [bind_apply, first, Option.bind_some]

@[simp] theorem pure_apply (a : α) (s : σ) : (pure a : Exec σ α) s = some (a, s) := rfl

@[simp] theorem get_apply (s : σ) : (get : Exec σ σ) s = some (s, s) := rfl

@[simp] theorem modify_apply (f : σ → σ) (s : σ) :
    (modify f : Exec σ PUnit) s = some (⟨⟩, f s) := rfl

theorem pure_inv {a b : α} {s s' : σ} (run : (pure a : Exec σ α) s = some (b, s')) :
    b = a ∧ s' = s := by
  cases run
  exact ⟨rfl, rfl⟩

theorem get_inv {a s s' : σ} (run : (get : Exec σ σ) s = some (a, s')) : a = s ∧ s' = s := by
  cases run
  exact ⟨rfl, rfl⟩

theorem modify_inv {f : σ → σ} {u : PUnit} {s s' : σ}
    (run : (modify f : Exec σ PUnit) s = some (u, s')) : s' = f s := by
  cases run
  rfl

theorem orAbort_inv {o : Option α} {a : α} {s s' : σ}
    (run : (orAbort o : Exec σ α) s = some (a, s')) : o = some a ∧ s' = s := by
  cases o with
  | none => cases run
  | some b =>
    cases run
    exact ⟨rfl, rfl⟩

theorem require_inv {p : Bool} {u : Unit} {s s' : σ}
    (run : (require p : Exec σ Unit) s = some (u, s')) : p ∧ s' = s := by
  cases p with
  | false => cases run
  | true =>
    cases run
    exact ⟨rfl, rfl⟩

theorem orAbort_bind_inv {o : Option α} {f : α → Exec σ β} {s : σ} {r : β × σ}
    (run : (orAbort o >>= f) s = some r) : ∃ a, o = some a ∧ f a s = some r := by
  obtain ⟨a, s1, first, rest⟩ := bind_inv run
  obtain ⟨found, same⟩ := orAbort_inv first
  rw [same] at rest
  exact ⟨a, found, rest⟩

theorem require_bind_inv {p : Bool} {f : Unit → Exec σ β} {s : σ} {r : β × σ}
    (run : (require p >>= f) s = some r) : p ∧ f () s = some r := by
  obtain ⟨u, s1, first, rest⟩ := bind_inv run
  obtain ⟨holds, same⟩ := require_inv first
  rw [same] at rest
  exact ⟨holds, rest⟩

@[simp] theorem orAbort_some (a : α) : (orAbort (some a) : Exec σ α) = pure a := rfl

@[simp] theorem require_true : (require true : Exec σ Unit) = pure () := rfl

theorem ite_apply (p : Prop) [Decidable p] (x y : Exec σ α) (s : σ) :
    (if p then x else y) s = if p then x s else y s := by
  split <;> rfl

theorem firstOf_map {γ : Type} (f : α → Exec σ (Option β)) (g : γ → α) (l : List γ) :
    firstOf f (l.map g) = firstOf (fun c => f (g c)) l := by
  induction l with
  | nil => rfl
  | cons c l ih =>
    rw [List.map_cons, firstOf, firstOf, ih]

theorem firstOf_singleton (f : α → Exec σ (Option β)) (a : α) : firstOf f [a] = f a := by
  funext s
  rw [firstOf, bind_apply]
  cases f a s with
  | none => rfl
  | some r =>
    obtain ⟨found, s1⟩ := r
    cases found <;> rfl

/-! ## Frame conditions -/

/-- Every returning run of `x` leads from a state to an `R`-related one. -/
def Keeps (R : σ → σ → Prop) (x : Exec σ α) : Prop :=
  ∀ s a s', x s = some (a, s') → R s s'

theorem Keeps.mono {R R' : σ → σ → Prop} {x : Exec σ α} (keeps : Keeps R x)
    (weaker : ∀ s s', R s s' → R' s s') : Keeps R' x :=
  fun s a s' run => weaker s s' (keeps s a s' run)

section Keeps

variable {R : σ → σ → Prop} [IsPreorder σ R]

@[grind ←] theorem keeps_pure (a : α) : Keeps R (pure a) := by
  rintro s b s' ⟨⟩
  exact refl_of R s

@[grind ←] theorem keeps_get : Keeps R (get : Exec σ σ) := by
  rintro s b s' ⟨⟩
  exact refl_of R s

omit [IsPreorder σ R] in
@[grind ←] theorem keeps_abort : Keeps R (abort : Exec σ α) := by
  rintro s b s' ⟨⟩

@[grind ←] theorem keeps_orAbort (o : Option α) : Keeps R (orAbort o) := by
  intro s a s' run
  rw [(orAbort_inv run).2]
  exact refl_of R s

@[grind ←] theorem keeps_require (p : Bool) : Keeps R (require p) := by
  intro s a s' run
  rw [(require_inv run).2]
  exact refl_of R s

omit [IsPreorder σ R] in
@[grind ←] theorem keeps_modify {f : σ → σ} (step : ∀ s, R s (f s)) : Keeps R (modify f) := by
  rintro s b s' ⟨⟩
  exact step s

@[grind ←] theorem keeps_bind {x : Exec σ α} {f : α → Exec σ β} (first : Keeps R x)
    (rest : ∀ a, Keeps R (f a)) : Keeps R (x >>= f) := by
  intro s b s' run
  obtain ⟨a, s1, run1, run2⟩ := bind_inv run
  exact trans_of R (first s a s1 run1) (rest a s1 b s' run2)

/-- The rest of a sequence may use how its argument was computed. -/
theorem keeps_bind_of {x : Exec σ α} {f : α → Exec σ β} (first : Keeps R x)
    (rest : ∀ a s s1, x s = some (a, s1) → Keeps R (f a)) : Keeps R (x >>= f) := by
  intro s b s' run
  obtain ⟨a, s1, run1, run2⟩ := bind_inv run
  exact trans_of R (first s a s1 run1) (rest a s s1 run1 s1 b s' run2)

@[grind ←] theorem keeps_map {f : α → β} {x : Exec σ α} (first : Keeps R x) : Keeps R (f <$> x) := by
  exact keeps_bind first fun a => keeps_pure (f a)

omit [IsPreorder σ R] in
theorem keeps_ite {p : Prop} [Decidable p] {x y : Exec σ α} (yes : p → Keeps R x)
    (no : ¬ p → Keeps R y) : Keeps R (if p then x else y) := by
  split
  · exact yes ‹_›
  · exact no ‹_›

@[grind ←] theorem keeps_onlyIf {p : Bool} {x : Exec σ Unit} (yes : p → Keeps R x) :
    Keeps R (onlyIf p x) :=
  keeps_ite yes fun _ => keeps_pure ()

@[grind ←] theorem keeps_forEach {f : α → Exec σ Unit} (l : List α) (each : ∀ a ∈ l, Keeps R (f a)) :
    Keeps R (forEach f l) := by
  induction l with
  | nil => exact keeps_pure ()
  | cons a l ih =>
    refine keeps_bind (each a (by simp)) fun _ => ih fun b member => each b (by simp [member])

@[grind ←] theorem keeps_allOf {f : α → Exec σ Bool} (l : List α) (each : ∀ a ∈ l, Keeps R (f a)) :
    Keeps R (allOf f l) := by
  induction l with
  | nil => exact keeps_pure true
  | cons a l ih =>
    refine keeps_bind (each a (by simp)) fun ok => ?_
    cases ok with
    | true => exact ih fun b member => each b (by simp [member])
    | false => exact keeps_pure false

@[grind ←] theorem keeps_eachOf {f : α → Exec σ Bool} (l : List α) (each : ∀ a ∈ l, Keeps R (f a)) :
    Keeps R (eachOf f l) := by
  induction l with
  | nil => exact keeps_pure true
  | cons a l ih =>
    refine keeps_bind (each a (by simp)) fun ok => ?_
    refine keeps_bind (ih fun b member => each b (by simp [member])) fun rest => ?_
    exact keeps_pure _

@[grind ←] theorem keeps_firstOf {f : α → Exec σ (Option β)} (l : List α)
    (each : ∀ a ∈ l, Keeps R (f a)) : Keeps R (firstOf f l) := by
  induction l with
  | nil => exact keeps_pure none
  | cons a l ih =>
    refine keeps_bind (each a (by simp)) fun found => ?_
    cases found with
    | none => exact ih fun b member => each b (by simp [member])
    | some b => exact keeps_pure (some b)

/-- A search that finds something does so with the first call that returns a value. -/
theorem firstOf_inv {f : α → Exec σ (Option β)} {l : List α} (each : ∀ a ∈ l, Keeps R (f a))
    {s s' : σ} {b : β} (run : firstOf f l s = some (some b, s')) :
    ∃ a ∈ l, ∃ s1, R s s1 ∧ f a s1 = some (some b, s') := by
  induction l generalizing s with
  | nil => cases run
  | cons a l ih =>
    obtain ⟨found, s1, first, rest⟩ := bind_inv run
    cases found with
    | some c =>
      cases rest
      exact ⟨a, by simp, s, refl_of R s, first⟩
    | none =>
      obtain ⟨c, member, s2, between, last⟩ := ih (fun c member => each c (by simp [member])) rest
      have reached : R s s1 := each a (by simp) s none s1 first
      exact ⟨c, by simp [member], s2, trans_of R reached between, last⟩

theorem keeps_foldlM {f : β → α → Exec σ β} (l : List α) (each : ∀ b a, Keeps R (f b a)) :
    ∀ b, Keeps R (l.foldlM f b) := by
  induction l with
  | nil => intro b; exact keeps_pure b
  | cons a l ih =>
    intro b
    exact keeps_bind (each b a) ih

end Keeps

/-! ## Refinement -/

/-- Where `x` returns, `y` returns the same. -/
def Refines (x y : Exec σ α) : Prop := ∀ s r, x s = some r → y s = some r

theorem Refines.refl (x : Exec σ α) : Refines x x := fun _ _ run => run

theorem refines_bind {x y : Exec σ α} {f g : α → Exec σ β} (first : Refines x y)
    (rest : ∀ a, Refines (f a) (g a)) : Refines (x >>= f) (y >>= g) := by
  intro s r run
  obtain ⟨a, s1, run1, run2⟩ := bind_inv run
  rw [bind_of_eq (first s _ run1)]
  exact rest a s1 r run2

theorem refines_ite {p : Prop} [Decidable p] {x x' y y' : Exec σ α} (yes : Refines x y)
    (no : Refines x' y') : Refines (if p then x else x') (if p then y else y') := by
  split
  · exact yes
  · exact no

theorem refines_eachOf {f g : α → Exec σ Bool} (each : ∀ a, Refines (f a) (g a)) (l : List α) :
    Refines (eachOf f l) (eachOf g l) := by
  induction l with
  | nil => exact .refl _
  | cons a l ih => exact refines_bind (each a) fun ok => refines_bind ih fun rest => .refl _

theorem refines_firstOf {f g : α → Exec σ (Option β)} (each : ∀ a, Refines (f a) (g a))
    (l : List α) : Refines (firstOf f l) (firstOf g l) := by
  induction l with
  | nil => exact .refl _
  | cons a l ih =>
    refine refines_bind (each a) fun found => ?_
    cases found with
    | none => exact ih
    | some b => exact .refl _

/-! ## Loops over a range -/

/-- A property that every step of a loop over `0, …, n - 1` carries on. -/
theorem foldlM_range {P : Nat → β → Prop} {f : β → Nat → Option β}
    (step : ∀ k b b', P k b → f b k = some b' → P (k + 1) b') {n : Nat} {b b' : β} (before : P 0 b)
    (run : (List.range n).foldlM f b = some b') : P n b' := by
  induction n generalizing b' with
  | zero =>
    cases run
    exact before
  | succ n ih =>
    rw [List.range_succ, List.foldlM_append] at run
    obtain ⟨b1, first, last⟩ := Option.bind_eq_some_iff.mp run
    obtain ⟨b2, second, same⟩ := Option.bind_eq_some_iff.mp last
    cases same
    exact step n b1 b' (ih first) second

end Exec
end Luci
