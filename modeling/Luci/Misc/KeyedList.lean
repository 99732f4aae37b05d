import Mathlib.Data.List.Basic
import Mathlib.Data.List.Forall2
import Mathlib.Data.List.Nodup

/-!
# Ordered lists of records that are addressed by a key

An intrusive linked list whose nodes are referenced by pointer is a list of
records with a key: dereferencing a pointer is `lookup`, a write through it is
`update`, and an iterator into the list is the key of the element it stands
before. A key that no element has is a dangling pointer.
-/

namespace Luci.KeyedList

variable {α κ : Type} [DecidableEq κ] (key : α → κ)

/-- The first element with key `k`. -/
def lookup (l : List α) (k : κ) : Option α := l.find? fun a => decide (key a = k)

/-- Replace every element with key `k`. -/
def update (k : κ) (f : α → α) (l : List α) : List α :=
  l.map fun a => if key a = k then f a else a

/-- Insert `b` in front of the element with key `k`, if there is one. -/
def insertBefore (k : κ) (b : α) : List α → Option (List α)
  | [] => none
  | a :: l => if key a = k then some (b :: a :: l) else (insertBefore k b l).map (a :: ·)

variable {key}

@[simp] theorem lookup_nil (k : κ) : lookup key [] k = none := rfl

theorem lookup_cons (a : α) (l : List α) (k : κ) :
    lookup key (a :: l) k = if key a = k then some a else lookup key l k := by
  unfold lookup
  by_cases same : key a = k <;> simp [same]

theorem key_of_lookup {l : List α} {k : κ} {a : α} (found : lookup key l k = some a) :
    key a = k := by
  simpa using List.find?_some found

theorem mem_of_lookup {l : List α} {k : κ} {a : α} (found : lookup key l k = some a) : a ∈ l :=
  List.mem_of_find?_eq_some found

theorem lookup_eq_none_iff {l : List α} {k : κ} : lookup key l k = none ↔ k ∉ l.map key := by
  simp [lookup]

theorem lookup_isSome_iff {l : List α} {k : κ} :
    (∃ a, lookup key l k = some a) ↔ k ∈ l.map key := by
  rw [← not_iff_not, ← @lookup_eq_none_iff _ _ _ key, Option.eq_none_iff_forall_ne_some]
  simp

theorem lookup_of_mem {l : List α} (distinct : (l.map key).Nodup) {a : α} (member : a ∈ l) :
    lookup key l (key a) = some a := by
  induction l with
  | nil => simp at member
  | cons b l ih =>
    rw [lookup_cons]
    rw [List.map_cons, List.nodup_cons] at distinct
    rcases List.mem_cons.mp member with rfl | member
    · simp
    · have different : key b ≠ key a := fun same =>
        distinct.1 (same ▸ List.mem_map_of_mem member)
      rw [if_neg different]
      exact ih distinct.2 member

theorem lookup_map {g : α → α} (keep : ∀ a, key (g a) = key a) (l : List α) (k : κ) :
    lookup key (l.map g) k = (lookup key l k).map g := by
  induction l with
  | nil => rfl
  | cons a l ih =>
    rw [List.map_cons, lookup_cons, lookup_cons, keep, ih]
    split <;> rfl

theorem lookup_append (l m : List α) (k : κ) :
    lookup key (l ++ m) k = (lookup key l k).or (lookup key m k) := by
  simp [lookup]

theorem lookup_append_of_some {l : List α} (m : List α) {k : κ} {a : α}
    (found : lookup key l k = some a) : lookup key (l ++ m) k = some a := by
  rw [lookup_append, found, Option.some_or]

/-- Lists that agree element by element, keys included, have related elements at each key. -/
theorem lookup_of_forall₂ {R : α → α → Prop} (keys : ∀ a b, R a b → key b = key a) {l m : List α}
    (all : List.Forall₂ R l m) {k : κ} {a : α} (found : lookup key l k = some a) :
    ∃ b, lookup key m k = some b ∧ R a b := by
  induction all with
  | nil => cases found
  | @cons c d _ _ first rest ih =>
    rw [lookup_cons] at found
    rw [lookup_cons, keys c d first]
    by_cases same : key c = k
    · rw [if_pos same] at found ⊢
      cases found
      exact ⟨d, rfl, first⟩
    · rw [if_neg same] at found ⊢
      exact ih found

/-- Association lists: what is removed is not what is looked up. -/
theorem lookup_filter_ne {β : Type} {a b : κ} (different : a ≠ b) (l : List (κ × β)) :
    (l.filter fun entry => entry.1 ≠ b).lookup a = l.lookup a := by
  have unequal : (a == b) = false := beq_eq_false_iff_ne.mpr different
  induction l with
  | nil => rfl
  | cons entry l ih =>
    by_cases same : entry.1 = b
    · rw [List.filter_cons_of_neg (by simp [same]), ih, List.lookup_cons, same, unequal]
    · rw [List.filter_cons_of_pos (by simp [same]), List.lookup_cons, List.lookup_cons, ih]

@[simp] theorem update_nil (k : κ) (f : α → α) : update key k f [] = [] := rfl

theorem update_cons (k : κ) (f : α → α) (a : α) (l : List α) :
    update key k f (a :: l) = (if key a = k then f a else a) :: update key k f l := rfl

@[simp] theorem update_append (k : κ) (f : α → α) (l m : List α) :
    update key k f (l ++ m) = update key k f l ++ update key k f m :=
  List.map_append

theorem update_id (k : κ) (l : List α) : update key k (fun a => a) l = l := by
  simp [update]

theorem update_of_not_mem {k : κ} (f : α → α) {l : List α} (absent : k ∉ l.map key) :
    update key k f l = l := by
  induction l with
  | nil => rfl
  | cons a l ih =>
    simp only [List.map_cons, List.mem_cons, not_or] at absent
    rw [update_cons, if_neg (Ne.symm absent.1), ih absent.2]

/-- An update is not seen by a function that does not tell its results apart. -/
theorem map_update {β : Type} {f : α → α} {g : α → β} (same : ∀ a, g (f a) = g a) (k : κ)
    (l : List α) : (update key k f l).map g = l.map g := by
  rw [update, List.map_map]
  refine List.map_congr_left fun a _ => ?_
  rw [Function.comp_apply]
  split
  · exact same a
  · rfl

section KeepsKey

variable {f g : α → α} (keep : ∀ a, key (f a) = key a)
include keep

theorem keys_update (k : κ) (l : List α) : (update key k f l).map key = l.map key :=
  map_update keep k l

theorem lookup_update_same (k : κ) (l : List α) :
    lookup key (update key k f l) k = (lookup key l k).map f := by
  induction l with
  | nil => rfl
  | cons a l ih =>
    rw [update_cons, lookup_cons, lookup_cons]
    by_cases same : key a = k
    · simp [same, keep]
    · simp [same, ih]

theorem lookup_update_ne {k k' : κ} (different : k' ≠ k) (l : List α) :
    lookup key (update key k f l) k' = lookup key l k' := by
  induction l with
  | nil => rfl
  | cons a l ih =>
    rw [update_cons, lookup_cons, lookup_cons, ih]
    by_cases same : key a = k
    · simp [same, keep, Ne.symm different]
    · simp [same]

theorem update_update (k : κ) (l : List α) :
    update key k g (update key k f l) = update key k (fun a => g (f a)) l := by
  induction l with
  | nil => rfl
  | cons a l ih =>
    rw [update_cons, update_cons, update_cons, ih]
    by_cases same : key a = k
    · simp [same, keep]
    · simp [same]

end KeepsKey

/-- The element an iterator stands before is in the list exactly when an
insertion through it succeeds; the list keeps its order around the new element. -/
theorem insertBefore_eq_some {k : κ} {b : α} {l l' : List α}
    (inserted : insertBefore key k b l = some l') :
    ∃ front a back, l = front ++ a :: back ∧ key a = k ∧ l' = front ++ b :: a :: back := by
  induction l generalizing l' with
  | nil => simp [insertBefore] at inserted
  | cons c l ih =>
    unfold insertBefore at inserted
    by_cases same : key c = k
    · rw [if_pos same] at inserted
      obtain rfl := Option.some.inj inserted
      exact ⟨[], c, l, rfl, same, rfl⟩
    · rw [if_neg same, Option.map_eq_some_iff] at inserted
      obtain ⟨tail, tailInserted, rfl⟩ := inserted
      obtain ⟨front, a, back, rfl, found, rfl⟩ := ih tailInserted
      exact ⟨c :: front, a, back, rfl, found, rfl⟩

/-- The new element separates the elements before the iterator from the others. -/
theorem insertBefore_split {k : κ} {b : α} {l l' : List α}
    (inserted : insertBefore key k b l = some l') :
    l' = l.takeWhile (fun a => key a ≠ k) ++ b :: l.dropWhile (fun a => key a ≠ k) := by
  induction l generalizing l' with
  | nil => simp [insertBefore] at inserted
  | cons c l ih =>
    unfold insertBefore at inserted
    by_cases same : key c = k
    · rw [if_pos same] at inserted
      simp [same, ← Option.some.inj inserted]
    · rw [if_neg same, Option.map_eq_some_iff] at inserted
      obtain ⟨tail, tailInserted, rfl⟩ := inserted
      simp [same, ih tailInserted]

end Luci.KeyedList
