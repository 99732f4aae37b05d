import Mathlib.Data.Finset.Card
import Mathlib.Data.Finset.Dedup
import Mathlib.Logic.Relation

/-!
# Depth-first search that marks a node before it visits its successors

The search survives cycles because a node is marked on entry; a node is
finished (appended to `order`) after all its successors have been visited.
`Extends` collects what one call adds to the trace. Its `edges` field is the
stack argument: a successor that is not finished earlier and was not marked
before the call lies on the stack, hence reaches back to the node. On a node
that lies on no cycle the finishing order is therefore the dependency order
(`Extends.before`).
-/

namespace Luci.Dfs

variable {α : Type}

/-- The marked nodes and, in the order of finishing, the finished ones. -/
structure Trace (α : Type) where
  marked : List α
  order : List α

/-- Reachability along successors. -/
abbrev Reach (succ : α → List α) : α → α → Prop := Relation.ReflTransGen fun a b => b ∈ succ a

/-- Nonempty paths along successors; a node lies on a cycle when it has a path
to itself. -/
abbrev Path (succ : α → List α) : α → α → Prop := Relation.TransGen fun a b => b ∈ succ a

/-- What a search adds to a trace: the finished nodes `new`, in order. -/
structure Extends (succ : α → List α) (t t' : Trace α) (new : List α) : Prop where
  order : t'.order = t.order ++ new
  marked : ∀ x, x ∈ t'.marked ↔ x ∈ t.marked ∨ x ∈ new
  nodup : new.Nodup
  fresh : ∀ x ∈ new, x ∉ t.marked
  edges : ∀ xs b ys, new = xs ++ b :: ys → ∀ c ∈ succ b,
    c ∈ t.marked ∨ c ∈ xs ∨ (c ∈ new ∧ Reach succ c b)

variable {succ : α → List α}

theorem Extends.rfl (t : Trace α) : Extends succ t t [] where
  order := by simp
  marked := by simp
  nodup := List.nodup_nil
  fresh := by simp
  edges := by simp

theorem Extends.trans {t t1 t2 : Trace α} {new1 new2 : List α} (first : Extends succ t t1 new1)
    (second : Extends succ t1 t2 new2) : Extends succ t t2 (new1 ++ new2) where
  order := by rw [second.order, first.order, List.append_assoc]
  marked x := by rw [second.marked, first.marked, List.mem_append, or_assoc]
  nodup := by
    refine List.nodup_append.mpr ⟨first.nodup, second.nodup, ?_⟩
    rintro x inFirst y inSecond rfl
    exact second.fresh x inSecond ((first.marked x).mpr (.inr inFirst))
  fresh x member := by
    rcases List.mem_append.mp member with member | member
    · exact first.fresh x member
    · exact fun before => second.fresh x member ((first.marked x).mpr (.inl before))
  edges xs b ys split c edge := by
    -- `b` is finished by the first or by the second search
    rcases List.append_eq_append_iff.mp split with ⟨zs, rfl, rfl⟩ | ⟨zs, rfl, tail⟩
    · rcases second.edges zs b ys (by rfl) c edge with before | earlier | ⟨member, back⟩
      · rcases (first.marked c).mp before with before | earlier
        · exact .inl before
        · exact .inr (.inl (List.mem_append_left _ earlier))
      · exact .inr (.inl (List.mem_append_right _ earlier))
      · exact .inr (.inr ⟨List.mem_append_right _ member, back⟩)
    · cases zs with
      | nil =>
        rw [List.nil_append] at tail
        rcases second.edges [] b ys (by rw [List.nil_append, tail]) c edge with
          before | earlier | ⟨member, back⟩
        · rcases (first.marked c).mp before with before | earlier
          · exact .inl before
          · exact .inr (.inl (by simpa using earlier))
        · simp at earlier
        · exact .inr (.inr ⟨List.mem_append_right _ member, back⟩)
      | cons z zs =>
        obtain ⟨rfl, rfl⟩ : b = z ∧ ys = zs ++ new2 := by simpa using tail
        rcases first.edges xs b zs (by rfl) c edge with before | earlier | ⟨member, back⟩
        · exact .inl before
        · exact .inr (.inl earlier)
        · exact .inr (.inr ⟨List.mem_append_left _ member, back⟩)

/-- Finishing `a` after its successors: the only unfinished node the successors
may still point to is `a` itself, which reaches all of them. -/
theorem Extends.finish {t t' : Trace α} {new : List α} {a : α} (unmarked : a ∉ t.marked)
    (below : Extends succ ⟨a :: t.marked, t.order⟩ t' new)
    (reached : ∀ x ∈ new, Reach succ a x) (all : ∀ c ∈ succ a, c ∈ t'.marked) :
    Extends succ t ⟨t'.marked, t'.order ++ [a]⟩ (new ++ [a]) where
  order := by simp [below.order]
  marked x := by
    rw [below.marked, List.mem_append, List.mem_singleton, List.mem_cons]
    tauto
  nodup := by
    refine List.nodup_append.mpr ⟨below.nodup, by simp, ?_⟩
    rintro x member y last rfl
    obtain rfl := List.mem_singleton.mp last
    exact below.fresh x member (by simp)
  fresh x member := by
    rcases List.mem_append.mp member with member | last
    · exact fun before => below.fresh x member (by simp [before])
    · rwa [List.mem_singleton.mp last]
  edges xs b ys split c edge := by
    rcases List.append_eq_append_iff.mp split with ⟨zs, rfl, last⟩ | ⟨zs, rfl, tail⟩
    · obtain ⟨rfl, rfl⟩ : zs = [] ∧ a = b := by
        cases zs with
        | nil => exact ⟨by rfl, by simpa using (List.cons.inj last).1⟩
        | cons z zs => simp at last
      rcases (below.marked c).mp (all c edge) with before | earlier
      · rcases List.mem_cons.mp before with rfl | before
        · exact .inr (.inr ⟨by simp, .refl⟩)
        · exact .inl before
      · exact .inr (.inl (by simpa using earlier))
    · cases zs with
      | nil =>
        obtain ⟨rfl, rfl⟩ : b = a ∧ ys = [] := by simpa using tail
        rcases (below.marked c).mp (all c edge) with before | earlier
        · rcases List.mem_cons.mp before with rfl | before
          · exact .inr (.inr ⟨by simp, .refl⟩)
          · exact .inl before
        · exact .inr (.inl (by simpa using earlier))
      | cons z zs =>
        obtain ⟨rfl, rfl⟩ : b = z ∧ ys = zs ++ [a] := by simpa using tail
        rcases below.edges xs b zs (by rfl) c edge with before | earlier | ⟨member, back⟩
        · rcases List.mem_cons.mp before with rfl | before
          · exact .inr (.inr ⟨by simp, reached b (by simp)⟩)
          · exact .inl before
        · exact .inr (.inl earlier)
        · exact .inr (.inr ⟨List.mem_append_left _ member, back⟩)

/-- A successor that was not marked beforehand is finished before a node that
lies on no cycle. -/
theorem Extends.edge_before {t t' : Trace α} {new : List α} (ext : Extends succ t t' new)
    {a c : α} (edge : c ∈ succ a) (acyclic : ¬ Path succ a a) (unmarked : c ∉ t.marked)
    {xs ys : List α} (split : new = xs ++ a :: ys) : c ∈ xs := by
  rcases ext.edges xs a ys split c edge with before | earlier | ⟨-, back⟩
  · exact absurd before unmarked
  · exact earlier
  · exact absurd (Relation.TransGen.head' edge back) acyclic

/-- Everything a node depends on is finished before the node, if nothing it
depends on, nor the node itself, lies on a cycle or was marked beforehand. -/
theorem Extends.before {t t' : Trace α} {new : List α} (ext : Extends succ t t' new) {a d : α}
    (path : Path succ a d) (acyclic : ∀ b, Reach succ a b → ¬ Path succ b b)
    (unmarked : ∀ b, Reach succ a b → b ∉ t.marked) {xs ys : List α}
    (split : new = xs ++ a :: ys) : d ∈ xs := by
  -- along the path, each node is finished before the one that points to it
  induction path using Relation.TransGen.head_induction_on generalizing xs ys with
  | single edge =>
    exact ext.edge_before edge (acyclic _ .refl) (unmarked _ (.single edge)) split
  | @head b c edge path ih =>
    have earlier : c ∈ xs :=
      ext.edge_before edge (acyclic b .refl) (unmarked c (.single edge)) split
    obtain ⟨front, back, inner⟩ := List.append_of_mem earlier
    have splitC : new = front ++ c :: (back ++ b :: ys) := by simp [split, inner]
    have inFront : d ∈ front :=
      ih (fun e reach => acyclic e (.head edge reach))
        (fun e reach => unmarked e (.head edge reach)) splitC
    simp [inner, inFront]

/-- A search over a list of roots, given what the search from one node does. -/
theorem foldlM_extends {f : Trace α → α → Option (Trace α)}
    (one : ∀ t a t', f t a = some t' →
      ∃ new, Extends succ t t' new ∧ a ∈ t'.marked ∧ ∀ x ∈ new, Reach succ a x)
    (roots : List α) {t t' : Trace α} (run : roots.foldlM f t = some t') :
    ∃ new, Extends succ t t' new ∧ (∀ a ∈ roots, a ∈ t'.marked) ∧
      ∀ x ∈ new, ∃ a ∈ roots, Reach succ a x := by
  induction roots generalizing t with
  | nil =>
    obtain rfl : t = t' := by simpa using run
    exact ⟨[], .rfl t, by simp, by simp⟩
  | cons a roots ih =>
    obtain ⟨t1, visited, rest⟩ := Option.bind_eq_some_iff.mp run
    obtain ⟨new1, first, root, reach1⟩ := one t a t1 visited
    obtain ⟨new2, second, others, reach2⟩ := ih rest
    refine ⟨new1 ++ new2, first.trans second, ?_, ?_⟩
    · intro b member
      rcases List.mem_cons.mp member with rfl | member
      · exact (second.marked b).mpr (.inl root)
      · exact others b member
    · intro x member
      rcases List.mem_append.mp member with member | member
      · exact ⟨a, by simp, reach1 x member⟩
      · obtain ⟨b, root, reach⟩ := reach2 x member
        exact ⟨b, by simp [root], reach⟩

variable [DecidableEq α]

/-- Visit one node. Fuel bounds the depth of the recursion. -/
def visit (succ : α → List α) : Nat → Trace α → α → Option (Trace α)
  | 0, _, _ => none
  | n + 1, t, a =>
    if a ∈ t.marked then some t
    else
      ((succ a).foldlM (visit succ n) ⟨a :: t.marked, t.order⟩).map fun t' =>
        ⟨t'.marked, t'.order ++ [a]⟩

theorem visit_extends (n : Nat) : ∀ (t : Trace α) (a : α) (t' : Trace α),
    visit succ n t a = some t' →
      ∃ new, Extends succ t t' new ∧ a ∈ t'.marked ∧ ∀ x ∈ new, Reach succ a x := by
  induction n with
  | zero => intro t a t' run; simp [visit] at run
  | succ n ih =>
    intro t a t' run
    unfold visit at run
    by_cases marked : a ∈ t.marked
    · rw [if_pos marked] at run
      obtain rfl := Option.some.inj run
      exact ⟨[], .rfl t, marked, by simp⟩
    · rw [if_neg marked, Option.map_eq_some_iff] at run
      obtain ⟨t1, below, rfl⟩ := run
      obtain ⟨new, extends1, all, reach⟩ := foldlM_extends ih (succ a) below
      have reached : ∀ x ∈ new, Reach succ a x := by
        intro x member
        obtain ⟨c, edge, path⟩ := reach x member
        exact .head edge path
      refine ⟨new ++ [a], extends1.finish marked reached all, ?_, ?_⟩
      · exact (extends1.marked a).mpr (.inl (by simp))
      · intro x member
        rcases List.mem_append.mp member with member | last
        · exact reached x member
        · rw [List.mem_singleton.mp last]

theorem search_extends {n : Nat} {roots : List α} {t t' : Trace α}
    (run : roots.foldlM (visit succ n) t = some t') :
    ∃ new, Extends succ t t' new ∧ (∀ a ∈ roots, a ∈ t'.marked) ∧
      ∀ x ∈ new, ∃ a ∈ roots, Reach succ a x :=
  foldlM_extends (visit_extends n) roots run

/-- Fuel above the number of unmarked nodes is enough, in a finite graph. -/
theorem visit_terminates (nodes : Finset α) (closed : ∀ x ∈ nodes, ∀ c ∈ succ x, c ∈ nodes)
    (n : Nat) : ∀ (t : Trace α) (a : α), a ∈ nodes →
      (nodes \ t.marked.toFinset).card < n → ∃ t', visit succ n t a = some t' := by
  induction n with
  | zero => intro t a _ few; omega
  | succ n ih =>
    intro t a member few
    unfold visit
    by_cases marked : a ∈ t.marked
    · exact ⟨t, if_pos marked⟩
    · rw [if_neg marked]
      have fewer : (nodes \ (a :: t.marked).toFinset).card < n := by
        have smaller : nodes \ (a :: t.marked).toFinset ⊂ nodes \ t.marked.toFinset := by
          refine Finset.ssubset_iff_of_subset ?_ |>.mpr ⟨a, by simp [member, marked], by simp⟩
          intro x
          simp +contextual
        have := Finset.card_lt_card smaller
        omega
      -- the marks only grow along the successors, so the same fuel serves all of them
      have loop : ∀ (l : List α) (t1 : Trace α), (∀ c ∈ l, c ∈ nodes) →
          (nodes \ t1.marked.toFinset).card < n → ∃ t', l.foldlM (visit succ n) t1 = some t' := by
        intro l
        induction l with
        | nil => intro t1 _ _; exact ⟨t1, by simp⟩
        | cons c l ihl =>
          intro t1 inside enough
          obtain ⟨t2, visited⟩ := ih t1 c (inside c (by simp)) enough
          obtain ⟨new, ext, -, -⟩ := visit_extends n t1 c t2 visited
          have shrinks : nodes \ t2.marked.toFinset ⊆ nodes \ t1.marked.toFinset := by
            intro x
            simp only [Finset.mem_sdiff, List.mem_toFinset, ext.marked x]
            tauto
          obtain ⟨t3, rest⟩ := ihl t2 (fun d inL => inside d (by simp [inL]))
            (lt_of_le_of_lt (Finset.card_le_card shrinks) enough)
          exact ⟨t3, by rw [List.foldlM_cons, visited]; exact rest⟩
      obtain ⟨t', below⟩ := loop (succ a) ⟨a :: t.marked, t.order⟩ (closed a member) fewer
      exact ⟨_, by rw [below]; exact rfl⟩

/-- The search over all roots terminates with the same fuel. -/
theorem search_terminates (nodes : Finset α) (closed : ∀ x ∈ nodes, ∀ c ∈ succ x, c ∈ nodes)
    {n : Nat} (enough : nodes.card < n) (roots : List α) (inside : ∀ a ∈ roots, a ∈ nodes)
    (t : Trace α) : ∃ t', roots.foldlM (visit succ n) t = some t' := by
  induction roots generalizing t with
  | nil => exact ⟨t, by simp⟩
  | cons a roots ih =>
    have few : (nodes \ t.marked.toFinset).card < n :=
      lt_of_le_of_lt (Finset.card_le_card Finset.sdiff_subset) enough
    obtain ⟨t1, visited⟩ := visit_terminates nodes closed n t a (inside a (by simp)) few
    obtain ⟨t2, rest⟩ := ih (fun b member => inside b (by simp [member])) t1
    exact ⟨t2, by rw [List.foldlM_cons, visited]; exact rest⟩

end Luci.Dfs
