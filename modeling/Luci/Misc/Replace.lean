import Mathlib.Data.List.Infix
import Mathlib.Data.List.Count

/-!
# Replacing all occurrences of a token

A text is a list over any alphabet. Occurrences are replaced from left to right, and the search
goes on behind the token that was found, so the value is not searched. An element that is not
part of the token separates the text: the parts before and after it are replaced independently.
-/

namespace Luci

variable {α : Type} [DecidableEq α] {token value text : List α}

/-- Replace all occurrences of the token in what remains after the next `skip` elements, which
belong to the occurrence that was found last. -/
def replaceFrom (token value : List α) : Nat → List α → List α
  | _, [] => []
  | skip + 1, _ :: text => replaceFrom token value skip text
  | 0, x :: text =>
    if token <+: x :: text then value ++ replaceFrom token value (token.length - 1) text
    else x :: replaceFrom token value 0 text

/-- The text with all occurrences of the token replaced by the value. -/
def replaceAll (token value text : List α) : List α := replaceFrom token value 0 text

theorem replaceFrom_eq (skip : Nat) (text : List α) :
    replaceFrom token value skip text = replaceAll token value (text.drop skip) := by
  induction text generalizing skip with
  | nil =>
    cases skip <;> rfl
  | cons x text ih =>
    cases skip with
    | zero => rfl
    | succ skip => exact ih skip

theorem replaceAll_token (nonempty : token ≠ []) (rest : List α) :
    replaceAll token value (token ++ rest) = value ++ replaceAll token value rest := by
  cases token with
  | nil => exact absurd rfl nonempty
  | cons x token =>
    have starts : x :: token <+: x :: (token ++ rest) := List.prefix_append (x :: token) rest
    unfold replaceAll
    rw [List.cons_append, replaceFrom, if_pos starts, replaceFrom_eq, List.length_cons,
      Nat.add_sub_cancel, List.drop_left]
    rfl

theorem replaceAll_cons {x : α} (differs : ¬ token <+: x :: text) :
    replaceAll token value (x :: text) = x :: replaceAll token value text := by
  unfold replaceAll
  rw [replaceFrom, if_neg differs]

/-- A text is empty, starts with the token, or starts with something else. -/
theorem replace_induction {motive : List α → Prop} (nonempty : token ≠ []) (nil : motive [])
    (found : ∀ rest, motive rest → motive (token ++ rest))
    (next : ∀ x rest, ¬ token <+: x :: rest → motive rest → motive (x :: rest)) (text : List α) :
    motive text := by
  induction length : text.length using Nat.strong_induction_on generalizing text with
  | _ n ih =>
    cases text with
    | nil => exact nil
    | cons x text =>
      by_cases starts : token <+: x :: text
      · obtain ⟨rest, split⟩ := starts
        have shorter : rest.length < n := by
          have sizes := congrArg List.length split
          have positive := List.length_pos_of_ne_nil nonempty
          rw [List.length_append] at sizes
          omega
        rw [← split]
        exact found rest (ih _ shorter rest rfl)
      · rw [List.length_cons] at length
        exact next x text starts (ih _ (by omega) text rfl)

theorem replaceAll_of_absent (nonempty : token ≠ []) (absent : ¬ token <:+: text) :
    replaceAll token value text = text := by
  induction text using replace_induction nonempty with
  | nil => rfl
  | found rest ih => exact absurd (List.prefix_append token rest).isInfix absent
  | next x rest differs ih =>
    rw [replaceAll_cons differs, ih fun inside => absent (List.infix_cons inside)]

/-! ## Separators -/

omit [DecidableEq α] in
theorem not_prefix_append {sep : α} (absent : sep ∉ token) {a b : List α}
    (differs : ¬ token <+: a) : ¬ token <+: a ++ sep :: b := by
  intro starts
  by_cases short : token.length ≤ a.length
  · exact differs (List.prefix_of_prefix_length_le starts (List.prefix_append a _) short)
  · have size : (a ++ [sep]).length ≤ token.length := by
      rw [List.length_append, List.length_singleton]
      omega
    have before : a ++ [sep] <+: a ++ sep :: b :=
      ⟨b, by rw [List.append_assoc, List.singleton_append]⟩
    have start := List.prefix_of_prefix_length_le before starts size
    exact absent (start.subset (List.mem_append_right a (List.mem_singleton_self sep)))

/-- The parts of a text around a separator are replaced independently. -/
theorem replaceAll_append {sep : α} (nonempty : token ≠ []) (absent : sep ∉ token)
    (a b : List α) :
    replaceAll token value (a ++ sep :: b) =
      replaceAll token value a ++ sep :: replaceAll token value b := by
  induction a using replace_induction nonempty with
  | nil =>
    have differs : ¬ token <+: [] ++ sep :: b :=
      not_prefix_append absent fun starts => nonempty (List.prefix_nil.mp starts)
    exact replaceAll_cons differs
  | found rest ih =>
    rw [List.append_assoc, replaceAll_token nonempty, replaceAll_token nonempty, ih,
      List.append_assoc]
  | next x rest differs ih =>
    have differs' : ¬ token <+: x :: rest ++ sep :: b := not_prefix_append absent differs
    rw [List.cons_append] at differs' ⊢
    rw [replaceAll_cons differs', replaceAll_cons differs, ih, List.cons_append]

/-! ## Counting -/

theorem count_le_replaceAll {x : α} (nonempty : token ≠ []) (absent : x ∉ token)
    (value text : List α) :
    text.count x ≤ (replaceAll token value text).count x := by
  induction text using replace_induction nonempty with
  | nil => exact le_refl _
  | found rest ih =>
    rw [replaceAll_token nonempty, List.count_append, List.count_append,
      List.count_eq_zero_of_not_mem absent]
    omega
  | next y rest differs ih =>
    rw [replaceAll_cons differs, List.count_cons, List.count_cons]
    omega

theorem count_replaceAll {x : α} (nonempty : token ≠ []) (absent : x ∉ token)
    (absent' : x ∉ value) (text : List α) :
    (replaceAll token value text).count x = text.count x := by
  induction text using replace_induction nonempty with
  | nil => rfl
  | found rest ih =>
    rw [replaceAll_token nonempty, List.count_append, List.count_append, ih,
      List.count_eq_zero_of_not_mem absent, List.count_eq_zero_of_not_mem absent']
  | next y rest differs ih => rw [replaceAll_cons differs, List.count_cons, List.count_cons, ih]

/-- If the token occurs, what is only in the value gets more. -/
theorem count_lt_replaceAll {x : α} (nonempty : token ≠ []) (absent : x ∉ token)
    (member : x ∈ value) (occurs : token <:+: text) :
    text.count x < (replaceAll token value text).count x := by
  induction text using replace_induction nonempty with
  | nil => exact absurd (List.infix_nil.mp occurs) nonempty
  | found rest ih =>
    have less := count_le_replaceAll nonempty absent value rest
    have positive := List.count_pos_iff.mpr member
    rw [replaceAll_token nonempty, List.count_append, List.count_append,
      List.count_eq_zero_of_not_mem absent]
    omega
  | next y rest differs ih =>
    have inside : token <:+: rest := (List.infix_cons_iff.mp occurs).resolve_left differs
    have less := ih inside
    rw [replaceAll_cons differs, List.count_cons, List.count_cons]
    omega

/-! ## Several tokens -/

/-- Replace one token after the other, each by its own value. -/
def replaceEach (tokens : List (List α × List α)) (text : List α) : List α :=
  tokens.foldl (fun text entry => replaceAll entry.1 entry.2 text) text

variable {tokens : List (List α × List α)}

theorem replaceEach_cons (entry : List α × List α) :
    replaceEach (entry :: tokens) text = replaceEach tokens (replaceAll entry.1 entry.2 text) := rfl

theorem replaceEach_append {sep : α} (nonempty : ∀ entry ∈ tokens, entry.1 ≠ [])
    (absent : ∀ entry ∈ tokens, sep ∉ entry.1) (a b : List α) :
    replaceEach tokens (a ++ sep :: b) = replaceEach tokens a ++ sep :: replaceEach tokens b := by
  induction tokens generalizing a b with
  | nil => rfl
  | cons entry tokens ih =>
    obtain ⟨isNonempty, nonempty⟩ := List.forall_mem_cons.mp nonempty
    obtain ⟨isAbsent, absent⟩ := List.forall_mem_cons.mp absent
    rw [replaceEach_cons, replaceEach_cons, replaceEach_cons, replaceAll_append isNonempty isAbsent,
      ih nonempty absent]

/-- A text that lacks an element of every token stays as it is. -/
theorem replaceEach_of_not_mem {x : α} (member : ∀ entry ∈ tokens, x ∈ entry.1)
    (absent : x ∉ text) : replaceEach tokens text = text := by
  induction tokens with
  | nil => rfl
  | cons entry tokens ih =>
    obtain ⟨isMember, member⟩ := List.forall_mem_cons.mp member
    have differs : ¬ entry.1 <:+: text := fun inside => absent (inside.subset isMember)
    rw [replaceEach_cons, replaceAll_of_absent (List.ne_nil_of_mem isMember) differs, ih member]

theorem count_le_replaceEach {x : α} (nonempty : ∀ entry ∈ tokens, entry.1 ≠ [])
    (absent : ∀ entry ∈ tokens, x ∉ entry.1) (text : List α) :
    text.count x ≤ (replaceEach tokens text).count x := by
  induction tokens generalizing text with
  | nil => exact le_refl _
  | cons entry tokens ih =>
    obtain ⟨isNonempty, nonempty⟩ := List.forall_mem_cons.mp nonempty
    obtain ⟨isAbsent, absent⟩ := List.forall_mem_cons.mp absent
    exact (count_le_replaceAll isNonempty isAbsent entry.2 text).trans (ih nonempty absent _)

theorem count_replaceEach {x : α} (nonempty : ∀ entry ∈ tokens, entry.1 ≠ [])
    (absent : ∀ entry ∈ tokens, x ∉ entry.1 ∧ x ∉ entry.2) (text : List α) :
    (replaceEach tokens text).count x = text.count x := by
  induction tokens generalizing text with
  | nil => rfl
  | cons entry tokens ih =>
    obtain ⟨isNonempty, nonempty⟩ := List.forall_mem_cons.mp nonempty
    obtain ⟨isAbsent, absent⟩ := List.forall_mem_cons.mp absent
    rw [replaceEach_cons, ih nonempty absent, count_replaceAll isNonempty isAbsent.1 isAbsent.2]

end Luci
