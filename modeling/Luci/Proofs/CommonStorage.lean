import Luci.Proofs.RelocatableTables

/-!
# Sharing of tentative definitions

`preprepare` binds a tentative definition to the first symbol of the same name, type and size in
the lists of the loaded objects. These are the lists that updates use: they also have the local
symbols of an object, those of other namespaces are searched as well, and a symbol that was
bound is put on the list of the object it was bound for, with a value that counts from the base
of another object.
-/

namespace Luci

open Exec

/-! ## What a tentative definition is bound to -/

/-- The loop of `preprepare` binds the symbol behind `pre` to a definition, whose value it adds to
a base. -/
structure Object.Binds (e : Env) (s : Loader) (o : Object) (pre : List Symbol) (sym : Symbol)
    (entry : Symbol × ObjectRef) (base : Nat) : Prop where
  notYet : o.preprepared = false
  table : ∃ post, o.elf.symbolTable = pre ++ sym :: post
  tentative : sym.tentative = true
  found : ∃ c s₁, pre.foldlM (prepareCommon e o) ⟨[], o.symbols, 0, 0⟩ s = some (c, s₁) ∧
    findCommon o.uid c.symbols sym s₁.lookup = some (some (entry.1, entry.2, base))

/-- The entry of a list that is a definition of a tentative symbol. -/
def matchingEntry (symbols : List (Symbol × ObjectRef)) (sym : Symbol) : Option (Symbol × ObjectRef) :=
  ((symbols.find? fun entry => entry.1.name = sym.name).filter fun entry => !entry.1.undefined).filter
    fun entry => entry.1.type = sym.type && entry.1.size = sym.size

section Search

variable {e : Env} {o : Object} {c c' : Common} {s s' s₁ : Loader} {sym : Symbol} {syms : List Symbol}
  {own : Nat} {symbols symbols' : List (Symbol × ObjectRef)}

theorem Symbol.Matches.binding_eq {x y : Symbol} (same : x.Matches y) :
    s.binding own symbols x = s.binding own symbols y := by
  unfold Loader.binding ObjectIdentity.definition
  rw [same.name, same.type, same.size]

/-- The own list decides about the definition in the own identity, and about no other. -/
theorem definition_cases (file : ObjectIdentity) :
    (file.definition own symbols sym = matchingEntry symbols sym ∧
        file.definition own symbols' sym = matchingEntry symbols' sym) ∨
      file.definition own symbols sym = file.definition own symbols' sym := by
  unfold ObjectIdentity.definition
  cases file.current with
  | none => exact .inr rfl
  | some current =>
    rw [Option.bind_some, Option.bind_some]
    by_cases isOwn : current.uid = own
    · rw [if_pos isOwn, if_pos isOwn]
      cases current.kind with
      | relocatable => exact .inl ⟨rfl, rfl⟩
      | _ => exact .inr rfl
    · rw [if_neg isOwn, if_neg isOwn]
      exact .inr rfl

theorem binding_congr (same : matchingEntry symbols sym = matchingEntry symbols' sym) :
    s.binding own symbols sym = s.binding own symbols' sym := by
  unfold Loader.binding
  congr 1
  funext file
  rcases definition_cases file with ⟨first, second⟩ | equal
  · rw [first, second, same]
  · rw [equal]

/-- An entry that the own list did not have may come first now. -/
theorem binding_of_new {x entry : Symbol × ObjectRef} {file : ObjectIdentity}
    (isNew : matchingEntry symbols sym = some x) (none : matchingEntry symbols' sym = none)
    (bound : s.binding own symbols sym = some (file, entry)) :
    entry = x ∨ s.binding own symbols' sym = some (file, entry) := by
  obtain ⟨before, f, after, split, found, unfound⟩ := List.findSome?_eq_some_iff.mp bound
  obtain ⟨entry', isEntry, same⟩ := Option.map_eq_some_iff.mp found
  cases same
  rcases @definition_cases sym own symbols symbols' file with ⟨first, -⟩ | equal
  · exact .inl (Option.some.inj (isEntry.symm.trans (first.trans isNew)))
  · refine .inr (List.findSome?_eq_some_iff.mpr ⟨before, file, after, split, ?_, ?_⟩)
    · rw [← equal, isEntry]
      rfl
    · intro f member
      have absent := Option.map_eq_none_iff.mp (unfound f member)
      rcases @definition_cases sym own symbols symbols' f with ⟨-, second⟩ | equal
      · rw [second, none]
        rfl
      · rw [← equal, absent]
        rfl

/-- In the loop a definition is the one there was, or comes from a symbol of the same name, type
and size that has been reached before. -/
theorem Common.Extends.matching (whole : c.Extends o.symbols syms) (sym : Symbol) :
    matchingEntry c.symbols sym = matchingEntry o.symbols sym ∨
      matchingEntry o.symbols sym = none ∧ ∃ x ∈ c.symbols, matchingEntry c.symbols sym = some x ∧
        x ∉ o.symbols ∧ ∃ y ∈ syms, y.tentative ∧ y.Matches sym := by
  unfold matchingEntry
  cases before : o.symbols.find? fun entry => entry.1.name = sym.name with
  | some x => exact .inl (by rw [whole.kept _ x before])
  | none =>
    cases isNew : ((c.symbols.find? fun entry => entry.1.name = sym.name).filter fun entry =>
      !entry.1.undefined).filter fun entry => entry.1.type = sym.type && entry.1.size = sym.size with
    | none => exact .inl rfl
    | some x =>
      obtain ⟨found, same⟩ := Option.filter_eq_some_iff.mp isNew
      have first := (Option.filter_eq_some_iff.mp found).1
      have named : x.1.name = sym.name := by simpa using List.find?_some first
      have absent : x ∉ o.symbols := by
        intro member
        exact List.find?_eq_none.mp before x member (by simpa using named)
      have member := List.mem_of_find?_eq_some first
      obtain ⟨-, y, inTable, tentative, matching⟩ := (whole.recorded x member).resolve_left absent
      rw [Bool.and_eq_true, decide_eq_true_iff, decide_eq_true_iff] at same
      refine .inr ⟨rfl, x, member, rfl, absent, y, inTable, tentative, ?_⟩
      exact matching.trans ⟨named, same.1, same.2⟩

end Search

/-! ## Private symbols -/

/-- A definition that the other objects of a namespace may use. -/
def Loader.Shareable (s : Loader) (ns : Nat) (entry : Symbol × ObjectRef) : Prop :=
  entry.1.bind ≠ .stbLocal ∧ ∃ j, s.identity entry.2.file = some j ∧ j.ns = ns

/-- `preprepare` binds the tentative definitions of an object to its own symbols, and to symbols of
other objects that may be used in its namespace. -/
def Object.SparesPrivate (e : Env) (s : Loader) (o : Object) (ns : Nat) : Prop :=
  ∀ pre sym entry base, o.Binds e s pre sym entry base → entry.2 = o.ref ∨ s.Shareable ns entry

section Private

variable {e : Env} {r : ObjectRef} {o : Object} {i : ObjectIdentity} {s s' s₁ : Loader} {sym : Symbol}
  {c c' : Common} {syms : List Symbol} {fine : Symbol × ObjectRef → Prop}

theorem Common.Extends.bound_fine (whole : c.Extends o.symbols syms)
    (added : ∀ x ∈ c.symbols, x ∉ o.symbols → fine x) {file : ObjectIdentity}
    {entry : Symbol × ObjectRef}
    (first : ∀ file entry, s.binding o.uid o.symbols sym = some (file, entry) → fine entry)
    (bound : s.binding o.uid c.symbols sym = some (file, entry)) : fine entry := by
  rcases whole.matching sym with same | ⟨none, x, member, isNew, absent, -⟩
  · rw [binding_congr same] at bound
    exact first file entry bound
  · rcases binding_of_new isNew none bound with rfl | before
    · exact added _ member absent
    · exact first file entry before

/-- What the loop puts on the list is its own, or was the first definition before. -/
theorem added_loop (own : ∀ x, fine (x, o.ref)) {rest : List Symbol}
    (first : ∀ sym ∈ rest, sym.tentative → ∀ file entry,
      s.binding o.uid o.symbols sym = some (file, entry) → fine entry)
    (started : c.Started e s s₁) (whole : c.Extends o.symbols syms)
    (added : ∀ x ∈ c.symbols, x ∉ o.symbols → fine x)
    (run : rest.foldlM (prepareCommon e o) c s₁ = some (c', s')) :
    ∀ x ∈ c'.symbols, x ∉ o.symbols → fine x := by
  induction rest generalizing c s₁ syms with
  | nil =>
    obtain ⟨rfl, -⟩ := pure_inv run
    exact added
  | cons sym rest ih =>
    obtain ⟨c1, s2, step, run⟩ := bind_inv run
    refine ih (fun sym member => first sym (List.mem_cons_of_mem _ member)) (started.step step)
      (whole.step step) ?_ run
    cases tentative : sym.tentative with
    | false =>
      obtain ⟨rfl, -⟩ := prepareCommon_other tentative step
      exact added
    | true =>
      obtain ⟨found, placed, searched, -, outcome⟩ := prepareCommon_tentative tentative step
      rw [started.lookup] at searched
      have isFound := findCommon_eq searched
      cases bound : s.binding o.uid c.symbols sym with
      | none =>
        rw [bound] at isFound
        subst isFound
        obtain ⟨-, -, -, list⟩ := outcome
        rw [list]
        intro x member absent
        rcases mem_insertSymbol member with old | rfl
        · exact added x old absent
        · exact own placed
      | some b =>
        rw [bound] at isFound
        subst isFound
        obtain ⟨-, list, -, -⟩ := outcome
        rw [list]
        intro x member absent
        rcases mem_insertSymbol member with old | rfl
        · exact added x old absent
        · exact whole.bound_fine added (first sym List.mem_cons_self tentative) bound

theorem Common.Extends.reached {pre : List Symbol}
    (reached : pre.foldlM (prepareCommon e o) ⟨[], o.symbols, 0, 0⟩ s = some (c, s₁)) :
    c.Extends o.symbols pre ∧ c.Started e s s₁ :=
  ⟨(Common.Extends.start o.symbols).loop reached, Common.Started.loop (.inl ⟨rfl, rfl⟩) reached⟩

/-- No private symbol is captured exactly if, for each tentative definition, the first symbol of
its name, type and size in the lists before the call is one of the object, or not local and in
its namespace. -/
theorem sparesPrivate_iff (isObject : s.object r = some o) (ns : Nat)
    (run : preprepareRelocatable e r s = some ((), s')) :
    o.SparesPrivate e s ns ↔ o.preprepared = true ∨
      ∀ sym ∈ o.elf.symbolTable, sym.tentative = true → ∀ file entry,
        s.binding o.uid o.symbols sym = some (file, entry) →
          entry.2 = o.ref ∨ s.Shareable ns entry := by
  constructor
  · intro spares
    cases notYet : o.preprepared with
    | true => exact Or.inl rfl
    | false =>
      refine Or.inr fun sym member tentative file entry bound => ?_
      obtain ⟨c2, s2, loop, -⟩ := preprepareRelocatable_inv isObject notYet run
      -- the first symbol of this name, type and size that the loop reaches
      cases isFirst : o.elf.symbolTable.find? fun x =>
          x.tentative && (x.name = sym.name && x.type = sym.type && x.size = sym.size) with
      | none => exact absurd (List.find?_eq_none.mp isFirst sym member) (by simp [tentative])
      | some x =>
        obtain ⟨isX, pre, post, table, others⟩ := List.find?_eq_some_iff_append.mp isFirst
        simp only [Bool.and_eq_true, decide_eq_true_eq] at isX
        have same : x.Matches sym := ⟨isX.2.1.1, isX.2.1.2, isX.2.2⟩
        rw [table, List.foldlM_append] at loop
        obtain ⟨c, s₁, reached, loop⟩ := bind_inv loop
        obtain ⟨c1, s3, step, -⟩ := bind_inv loop
        obtain ⟨whole, started⟩ := Common.Extends.reached reached
        obtain ⟨found, -, searched, -⟩ := prepareCommon_tentative isX.1 step
        have isBound : s₁.binding o.uid c.symbols x = some (file, entry) := by
          rcases whole.matching x with equal | ⟨-, -, -, -, -, y, inPre, isTentative, sameKey⟩
          · unfold Loader.binding at bound ⊢
            rw [started.lookup]
            exact (binding_congr equal).trans (same.binding_eq.trans bound)
          · have other := others y inPre
            have key := sameKey.trans same
            simp [isTentative, key.name, key.type, key.size] at other
        rw [findCommon_eq searched, isBound] at searched
        exact spares pre x entry file.base ⟨notYet, ⟨post, table⟩, isX.1, c, s₁, reached, searched⟩
  · rintro (already | first) pre sym entry base binds
    · cases binds.notYet.symm.trans already
    · obtain ⟨post, table⟩ := binds.table
      obtain ⟨c, s₁, reached, searched⟩ := binds.found
      obtain ⟨whole, started⟩ := Common.Extends.reached reached
      rw [started.lookup] at searched
      obtain ⟨⟨file, found⟩, bound, same⟩ := Option.map_eq_some_iff.mp (findCommon_eq searched).symm
      obtain rfl : found = entry :=
        Prod.ext (congrArg (fun x => x.1) same) (congrArg (fun x => x.2.1) same)
      have firstOf : ∀ x ∈ pre ++ sym :: post, x.tentative = true → ∀ file entry,
          s.binding o.uid o.symbols x = some (file, entry) →
            entry.2 = o.ref ∨ s.Shareable ns entry := table ▸ first
      have added : ∀ x ∈ c.symbols, x ∉ o.symbols → x.2 = o.ref ∨ s.Shareable ns x := added_loop
        (fun _ => Or.inl rfl) (fun x member => firstOf x (List.mem_append_left _ member))
        (Or.inl ⟨rfl, rfl⟩) (.start o.symbols) (fun x member absent => absurd member absent) reached
      exact whole.bound_fine added (firstOf sym (by simp) binds.tentative) bound

end Private

/-! ### Three variables -/

/-- `static int x = …;` -/
def Symbol.staticX : Symbol := { Symbol.definedX with bind := .stbLocal }

/-- `x.o` with `int x;` has been loaded, and `y.o` with another symbol into a namespace. -/
def besidesX (x : Symbol) (ns : Nat) : Loader :=
  { Loader.initial with
    lookup := [{ ObjectIdentity.global 1 "y.o" [{ definingX with symbols := [(x, ⟨1, 10⟩)] }] with
        base := 0x600000
        ns := ns },
      { ObjectIdentity.global 0 "x.o" [declaresX 12 .commonX] with base := 0x700000 }]
    nextLibraryAddress := 0x800000 }

/-- The addresses in the symbol table of `x.o` after `preprepare`. -/
def preparedX (s : Loader) : Option (List Nat) := do
  let (_, s) ← preprepareRelocatable Env.noFiles ⟨0, 12⟩ s
  let o ← s.object ⟨0, 12⟩
  some (o.elf.symbolTable.map o.symbolAddress)

/-- A variable of another object that is not static is shared. -/
theorem sparesPrivate_iff_global :
    (declaresX 12 .commonX).SparesPrivate Env.noFiles (besidesX .definedX 0) 0 ∧
      preparedX (besidesX .definedX 0) = some [0x600010] := by
  have run : preprepareRelocatable Env.noFiles ⟨0, 12⟩ (besidesX .definedX 0) = some ((),
      (preprepareRelocatable Env.noFiles ⟨0, 12⟩ (besidesX .definedX 0) |>.get (by decide +kernel)).2) :=
    rfl
  refine ⟨(sparesPrivate_iff rfl 0 run).mpr (Or.inr ?_), by decide +kernel⟩
  intro sym member _ file entry bound
  obtain rfl := List.mem_singleton.mp member
  cases bound
  exact Or.inr ⟨by decide, _, rfl, rfl⟩

/-- A static variable of another object is shared, and so is one of another namespace. -/
theorem static_captured :
    (¬ (declaresX 12 .commonX).SparesPrivate Env.noFiles (besidesX .staticX 0) 0 ∧
      preparedX (besidesX .staticX 0) = some [0x600010]) ∧
    ¬ (declaresX 12 .commonX).SparesPrivate Env.noFiles (besidesX .definedX 1) 0 ∧
      preparedX (besidesX .definedX 1) = some [0x600010] := by
  refine ⟨⟨fun spares => ?_, by decide +kernel⟩, fun spares => ?_, by decide +kernel⟩
  · rcases spares [] .commonX (.staticX, ⟨1, 10⟩) 0x600000 ⟨rfl, ⟨[], rfl⟩, rfl, _, _, rfl, rfl⟩ with
      own | ⟨binding, -⟩
    · cases own
    · exact binding rfl
  · rcases spares [] .commonX (.definedX, ⟨1, 10⟩) 0x600000 ⟨rfl, ⟨[], rfl⟩, rfl, _, _, rfl, rfl⟩ with
      own | ⟨-, j, found, ns⟩
    · cases own
    · cases found
      cases ns

end Luci
