import Luci.Proofs.Frame

/-!
# The effect of a relocation

`ObjectDynamic::relocate` either leaves the bound symbols alone or binds the relocation
to the symbol that the lookup finds; it fails only if there is none. The lookup depends
on nothing that relocating changes.
-/

namespace Luci

open Exec

/-! ## Symbol lookup in states with the same identities -/

section Congruence

variable {e : Env} {s s' : Loader}

theorem searchDependencies_congr (same : s'.lookup = s.lookup) (q : Query) (deps : List Nat) :
    ∀ best, searchDependencies e s' q best deps = searchDependencies e s q best deps := by
  induction deps with
  | nil => intro best; rfl
  | cons dep deps ih =>
    intro best
    unfold searchDependencies
    rw [Loader.identity_congr same]
    simp only [ih]

theorem resolveSymbol_congr (same : s'.lookup = s.lookup) (q : Query) :
    s'.resolveSymbol e q = s.resolveSymbol e q := by
  unfold Loader.resolveSymbol searchFirst searchObject
  simp only [same, Loader.current_congr same, searchDependencies_congr same]

end Congruence

/-- The query of `ObjectRelocatable::relocate` (`src/object/relocatable.cpp:515-516`). -/
def ObjectIdentity.externalQuery (e : Env) (i : ObjectIdentity) (reloc : Relocation)
    (needed : Symbol) : Query :=
  ⟨needed.name, Version.ofName e.libs none, i.ns, some i.id,
    if e.libs.isCopy reloc then .exceptObject
    else if i.flags.bindDeep then .objectFirst else .default⟩

section Cases

variable {e : Env} {s s' : Loader} {r : ObjectRef} {reloc : Relocation} {fix fatal : Bool}
  {value : Nat}

theorem relocateSymbol_cases {o : Object} {i : ObjectIdentity}
    {seg : Option (Nat × MemorySegment)} {key : Option (Nat × Nat)}
    (run : relocateSymbol e o i seg key reloc fix s = some ((value, fatal), s')) :
    ∃ sym query, o.neededSymbol e i reloc = some (sym, query) ∧
      ((∃ symbol, s.resolveSymbol e query = some (some symbol) ∧ fatal = false ∧
          Quiet (s.insertRelocation o.uid reloc symbol) s') ∨
        (s.resolveSymbol e query = some none ∧ fatal = decide (sym.bind ≠ .stbWeak) ∧ s' = s)) := by
  unfold relocateSymbol at run
  rw [bind_of_eq (get_apply s)] at run
  obtain ⟨⟨sym, query⟩, needed, run⟩ := orAbort_bind_inv run
  obtain ⟨found, resolved, run⟩ := orAbort_bind_inv run
  refine ⟨sym, query, needed, ?_⟩
  cases found with
  | none =>
    obtain ⟨same, rfl⟩ := pure_inv run
    cases same
    exact .inr ⟨resolved, rfl, rfl⟩
  | some symbol =>
    obtain ⟨_, s1, inserted, run⟩ := bind_inv run
    obtain rfl := modify_inv inserted
    have quiet : Keeps Quiet (do
        let symobj ← getObject symbol.object
        let symfile ← getIdentity symbol.object.file
        let value := e.libs.valueExternal reloc o.globalOffsetTable o.base symbol.symbol
          symobj.base 0 symfile.tlsModuleId symfile.tlsOffset
        applyValue e o seg key reloc fix symbol.symbol.size value
        return (value, false)) := by
      refine keeps_bind (frame_getObject _) fun symobj => ?_
      refine keeps_bind (frame_getIdentity _) fun symfile => ?_
      exact keeps_bind (frame_applyValue (quiet_writesMap o.uid) _ _ _ _ _ _) fun _ => keeps_pure _
    refine .inl ⟨symbol, resolved, ?_, quiet _ _ _ run⟩
    obtain ⟨symobj, -, run⟩ := getObject_bind_inv run
    obtain ⟨symfile, -, run⟩ := getIdentity_bind_inv run
    obtain ⟨_, s2, -, run⟩ := bind_inv run
    obtain ⟨same, -⟩ := pure_inv run
    cases same
    rfl

/-- What `relocate` can do: with the option to check the target it may skip the relocation. -/
theorem relocate_cases (run : relocate e r reloc fix s = some ((value, fatal), s')) :
    ∃ o i, s.object r = some o ∧ s.identity r.file = some i ∧
      ((e.config.checkRelocationContent = true ∧ fatal = false) ∨
        (reloc.symbolIndex = 0 ∧ fatal = false) ∨
        (reloc.symbolIndex ≠ 0 ∧ ∃ s₁ sym query, s₁.lookup = s.lookup ∧
          o.neededSymbol e i reloc = some (sym, query) ∧
          ((∃ symbol, s₁.resolveSymbol e query = some (some symbol) ∧ fatal = false ∧
              Quiet (s₁.insertRelocation o.uid reloc symbol) s') ∨
            (s₁.resolveSymbol e query = some none ∧ fatal = decide (sym.bind ≠ .stbWeak) ∧
              s' = s₁)))) := by
  unfold relocate at run
  rw [bind_of_eq (get_apply s)] at run
  obtain ⟨o, object, run⟩ := getObject_bind_inv run
  obtain ⟨i, identity, run⟩ := getIdentity_bind_inv run
  refine ⟨o, i, object, identity, ?_⟩
  obtain ⟨changed, s₁, looked, run⟩ := bind_inv run
  have quiet : Quiet s s₁ := frame_changedContent _ _ _ _ _ _ looked
  cases changed with
  | some cached =>
    obtain ⟨same, -⟩ := pure_inv run
    cases same
    refine .inl ⟨?_, rfl⟩
    by_contra unchecked
    have noKey : ∀ address seg, datarelKey e s o address seg = none := by
      simp [datarelKey, Bool.eq_false_iff.mpr unchecked]
    rw [noKey] at looked
    cases looked
  | none =>
    dsimp only at run
    split at run
    · obtain ⟨_, s2, -, run⟩ := bind_inv run
      obtain ⟨same, -⟩ := pure_inv run
      cases same
      exact .inr (.inl ⟨‹_›, rfl⟩)
    · obtain ⟨sym, query, outcome⟩ := relocateSymbol_cases run
      exact .inr (.inr ⟨‹_›, s₁, sym, query, quiet.lookup, outcome⟩)

end Cases

end Luci
