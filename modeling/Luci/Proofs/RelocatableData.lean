import Luci.Proofs.RelocatableTables
import Luci.Proofs.Preparation
import Luci.Proofs.RejectedLoad
import Mathlib.Data.List.Pairwise

/-!
# Variables of relocatable objects

A new version of a relocatable object takes over the addresses of the writable data of its
predecessor: `adjust_offsets` looks a symbol up by its name in the list of symbols the
predecessor has left, and the first symbol of a name is the only one in that list. So a
variable stays where it is if no other symbol has its name, and the section symbols,
which all have the empty name, fall together.

`Versions` are the versions of a file as `create` makes them.
-/

namespace Luci

open Exec

variable {info : Info} {r : ObjectRef} {type : ElfType} {i : ObjectIdentity}
  {library : LibraryCall} {noted : Symbol × ObjectRef}

/-! ## Creating a version -/

/-- The current version of a file is the object `o` with new tables, which continue those of the
previous version. -/
def Loader.Employs (file : Nat) (o : Object) (previous : Option Object) (s : Loader) : Prop :=
  ∃ v, s.current file = some v ∧ o.SameHead v ∧ v.Continues previous

section Create

variable {e : Env} {file : Nat} {o : Object} {previous : Option Object} {s s' : Loader}

theorem Loader.Employs.current_eq (employs : s.Employs file o previous)
    (same : s'.current file = s.current file) : s'.Employs file o previous := by
  obtain ⟨v, isCurrent, head, continues⟩ := employs
  exact ⟨v, same.trans isCurrent, head, continues⟩

theorem Loader.Employs.quiet (employs : s.Employs file o previous) (quiet : Quiet s s') :
    s'.Employs file o previous :=
  employs.current_eq (by rw [Loader.current_congr quiet.lookup])

theorem Object.SameFile.of_unprepared {v v' : Object} (same : v'.unprepared = v.unprepared) :
    v.SameFile v' := by
  have tables : v'.unprepared.SameFile v' := ⟨⟨rfl, rfl, rfl, rfl, rfl, rfl⟩, rfl⟩
  rw [same] at tables
  exact ⟨⟨tables.ref, tables.kind, tables.base, tables.sections, tables.symbolTable, tables.symbols⟩,
    tables.stored⟩

theorem Loader.Employs.prepares (employs : s.Employs file o previous) (step : Prepares s s') :
    s'.Employs file o previous := by
  obtain ⟨v, isCurrent, head, continues⟩ := employs
  have current := step.current file
  rw [isCurrent] at current
  obtain ⟨v', isCurrent', same⟩ := Option.map_eq_some_iff.mp current
  have tables := Object.SameFile.of_unprepared same
  exact ⟨v', isCurrent', head.trans tables.head, continues.congr tables.toSameTables⟩

theorem Loader.Employs.preprepare (employs : s.Employs file o previous) (own : o.file = file)
    (run : preprepareRelocatable e o.ref s = some ((), s')) : s'.Employs file o previous := by
  obtain ⟨v, isCurrent, head, continues⟩ := employs
  have ownVersion : v.file = file := (congrArg ObjectRef.file head.ref).trans own
  rw [← head.ref] at run
  obtain ⟨v', isCurrent', head', continues'⟩ :=
    preprepareRelocatable_current isCurrent ownVersion continues run
  exact ⟨v', isCurrent', head.trans head', continues'⟩

theorem finishCreate_employs (own : o.file = file) (kind : o.kind = .relocatable)
    (employs : s.Employs file o previous) (run : finishCreate e o type s = some (info, s')) :
    s'.Employs file o previous := by
  obtain ⟨i, -, run⟩ := getIdentity_bind_inv run
  obtain ⟨_, s1, prepared, run⟩ := bind_inv run
  obtain ⟨_, s2, based, run⟩ := bind_inv run
  have employs1 : s1.Employs file o previous := by
    unfold Exec.onlyIf at prepared
    split at prepared
    · unfold prepareUpdate at prepared
      rw [bind_of_eq (get_apply s)] at prepared
      obtain ⟨-, prepared⟩ := require_bind_inv prepared
      obtain ⟨_, s3, version, marked⟩ := bind_inv prepared
      refine Loader.Employs.prepares ?_ (prepares_setStatus _ _ _ _ _ marked)
      unfold Exec.onlyIf at version
      split at version
      · obtain ⟨_, s4, bound, version⟩ := bind_inv version
        obtain ⟨_, s5, common, version⟩ := bind_inv version
        obtain ⟨_, s6, relocated, version⟩ := bind_inv version
        obtain ⟨-, rfl⟩ := pure_inv version
        refine Loader.Employs.prepares ?_ (prepares_prepareObject _ _ _ _ relocated)
        have employs4 : s4.Employs file o previous := by
          refine employs.current_eq ?_
          rw [modify_inv bound]
          exact Loader.current_modifyIdentity (fun _ => rfl) fun _ => rfl
        unfold preprepareObject at common
        rw [kind] at common
        exact employs4.preprepare own common
      · rw [(pure_inv version).2]
        exact employs
    · rw [(pure_inv prepared).2]
      exact employs
  rw [(pure_inv run).2]
  refine employs1.current_eq ?_
  rw [modify_inv based]
  exact Loader.current_modifyIdentity (fun _ => rfl) fun _ => rfl

theorem current_install (identity : s.identity o.file = some i) :
    (s.modifyIdentity o.file (ObjectIdentity.addVersion o)).current o.file = some o ∧
      (s.modifyIdentity o.file (ObjectIdentity.addVersion o)).filePrevious o.ref = i.current := by
  have installed : (s.modifyIdentity o.file (ObjectIdentity.addVersion o)).identity o.file =
      some (i.addVersion o) := by
    rw [Loader.identity_modifyIdentity_same (f := ObjectIdentity.addVersion o) fun _ => rfl,
      identity, Option.map_some]
  refine ⟨?_, ?_⟩
  · rw [Loader.current, installed]
    rfl
  · rw [Loader.filePrevious, show o.ref.file = o.file from rfl, installed, Option.bind_some,
      ObjectIdentity.addVersion, List.dropWhile_cons_of_neg (by simp [Object.ref])]
    rfl

theorem employ_employs (identity : s.identity o.file = some i) (kind : o.kind = .relocatable)
    (empty : o.symbols = []) (run : employ e library o type s = some ((some r, info), s')) :
    s'.Employs o.file o i.current := by
  obtain ⟨_, s1, installed, run⟩ := bind_inv run
  obtain ⟨isCurrent, isPrevious⟩ := current_install identity
  rw [← modify_inv installed] at isCurrent isPrevious
  obtain ⟨failure, s2, preloaded, run⟩ := bind_inv run
  cases failure with
  | some failure =>
    obtain ⟨_, s3, -, run⟩ := bind_inv run
    cases run
  | none =>
    obtain ⟨info', s3, finished, run⟩ := bind_inv run
    rw [(pure_inv run).2]
    refine finishCreate_employs rfl kind ?_ finished
    unfold preloadAndMap at preloaded
    rw [kind] at preloaded
    obtain ⟨loaded, s4, preload, preloaded⟩ := bind_inv preloaded
    cases loaded with
    | false => cases preloaded
    | true =>
      have employs4 : s4.Employs o.file o i.current := by
        rw [← isPrevious]
        exact preloadRelocatable_current isCurrent rfl empty preload
      obtain ⟨_, -, mapped⟩ := getIdentity_bind_inv preloaded
      obtain ⟨o', -, mapped⟩ := getObject_bind_inv mapped
      have quiet : ∀ premapped : Bool, Keeps Quiet (if premapped then pure none else do
          if ← o'.map e then pure none else pure (some Info.failedMapping)) := by
        grind
      exact employs4.quiet (quiet _ _ _ _ mapped)

/-- What a successful `create` for a relocatable file leaves. -/
theorem create_relocatable {op : Opened} (type : op.type = .rel)
    (run : create e library file op s = some ((some r, info), s')) :
    ∃ v, s'.current file = some v ∧ v.file = file ∧ v.kind = .relocatable ∧
      v.Continues (s.current file) ∧ ∀ p, s.current file = some p → v.base = p.base := by
  rw [create_eq] at run
  obtain ⟨i, -, run⟩ := getIdentity_bind_inv run
  split at run
  · cases run
  obtain ⟨made, s1, constructed, run⟩ := bind_inv run
  cases made with
  | none => cases run
  | some o =>
    have isNew := constructObject_new constructed
    have own := isNew.file
    have kind : o.kind = .relocatable := isNew.kind.mpr type
    have current : s1.current file = s.current file := by
      obtain ⟨next, rfl⟩ := isNew.rest
      exact Loader.current_modifyIdentity (by intro; cases o.kind <;> rfl)
        (by intro; cases o.kind <;> rfl)
    obtain ⟨i1, identity1, run⟩ := getIdentity_bind_inv run
    rw [type, if_neg (by simp)] at run
    rw [← own] at identity1
    obtain ⟨v, isCurrent, head, continues⟩ := employ_employs identity1 kind isNew.symbols run
    have isPrevious : i1.current = s.current file := by
      rw [← current, Loader.current, ← own, identity1]
      rfl
    rw [own] at isCurrent
    rw [isPrevious] at continues
    exact ⟨v, isCurrent, (congrArg ObjectRef.file head.ref).trans own, head.kind.trans kind,
      continues, fun p found => head.base.trans (isNew.base kind p found)⟩

end Create

/-! ## Chains of versions -/

/-- The versions of a relocatable file, the newest first, and the state they have led to:
versions are created and prepared, and nothing else touches their tables. -/
inductive Versions (file : Nat) : List Object → Loader → Prop
  | first {e : Env} {library : LibraryCall} {op : Opened} {r : ObjectRef} {info : Info}
      {s s' : Loader} {v : Object} (unloaded : s.current file = none) (type : op.type = .rel)
      (run : create e library file op s = some ((some r, info), s'))
      (isCurrent : s'.current file = some v) : Versions file [v] s'
  | next {e : Env} {library : LibraryCall} {op : Opened} {r : ObjectRef} {info : Info}
      {s s' : Loader} {v p : Object} {older : List Object} (chain : Versions file (p :: older) s)
      (type : op.type = .rel) (run : create e library file op s = some ((some r, info), s'))
      (isCurrent : s'.current file = some v) : Versions file (v :: p :: older) s'
  | prepare {e : Env} {s s' : Loader} {v v' : Object} {older : List Object}
      (chain : Versions file (v :: older) s)
      (run : preprepareRelocatable e v.ref s = some ((), s'))
      (isCurrent : s'.current file = some v') : Versions file (v' :: older) s'
  | other {s s' : Loader} {v v' : Object} {older : List Object}
      (chain : Versions file (v :: older) s) (isCurrent : s'.current file = some v')
      (same : v.SameTables v') : Versions file (v' :: older) s'

/-- Every version continues the one before it, at the same base. -/
def Linked : List Object → Prop
  | [] => True
  | v :: older => v.kind = .relocatable ∧ v.Continues older.head? ∧
      (∀ p, older.head? = some p → v.base = p.base) ∧ Linked older

section Chain

variable {file : Nat} {v v' p : Object} {newer older versions : List Object} {s : Loader}

/-- The newest version changes its tables in a way that continues the previous one. -/
theorem Linked.update (linked : Linked (v :: older)) (kind : v'.kind = v.kind)
    (base : v'.base = v.base) (continues : v'.Continues older.head?) : Linked (v' :: older) :=
  ⟨kind.trans linked.1, continues, fun p first => base.trans (linked.2.2.1 p first), linked.2.2.2⟩

theorem Linked.append (linked : Linked (newer ++ older)) : Linked older := by
  induction newer with
  | nil => exact linked
  | cons _ _ ih => exact ih linked.2.2.2

theorem Versions.linked (chain : Versions file versions s) :
    Linked versions ∧ ∃ v older, versions = v :: older ∧ s.current file = some v ∧
      v.file = file := by
  induction chain with
  | @first _ _ _ _ _ _ _ v unloaded type run isCurrent =>
    obtain ⟨v', isCurrent', own, kind, continues, -⟩ := create_relocatable type run
    cases isCurrent.symm.trans isCurrent'
    rw [unloaded] at continues
    have linked : Linked [v] := ⟨kind, continues, (fun _ first => by cases first), trivial⟩
    exact ⟨linked, v, [], rfl, isCurrent, own⟩
  | next _ type run isCurrent ih =>
    obtain ⟨linked, p', older', same, wasCurrent, -⟩ := ih
    cases same
    obtain ⟨v', isCurrent', own, kind, continues, base⟩ := create_relocatable type run
    cases isCurrent.symm.trans isCurrent'
    rw [wasCurrent] at continues base
    exact ⟨⟨kind, continues, base, linked⟩, _, _, rfl, isCurrent, own⟩
  | prepare _ run isCurrent ih =>
    obtain ⟨linked, v1, older', same, wasCurrent, own⟩ := ih
    cases same
    obtain ⟨v', isCurrent', head, continues⟩ :=
      preprepareRelocatable_current wasCurrent own linked.2.1 run
    cases isCurrent.symm.trans isCurrent'
    exact ⟨linked.update head.kind head.base continues, _, _, rfl, isCurrent,
      (congrArg ObjectRef.file head.ref).trans own⟩
  | other _ isCurrent tables ih =>
    obtain ⟨linked, v1, older', same, wasCurrent, own⟩ := ih
    cases same
    exact ⟨linked.update tables.kind tables.base (linked.2.1.congr tables), _, _, rfl, isCurrent,
      (congrArg ObjectRef.file tables.ref).trans own⟩

end Chain

/-! ## Addresses -/

/-- A symbol in a writable section that is loaded. -/
structure Object.Variable (o : Object) (x : Symbol) : Prop where
  table : o.elf.hasSymbolTable = true
  member : x ∈ o.elf.symbolTable
  inSection : ∃ n sec, x.sectionIndex = .index n ∧ o.elf.sections[n]? = some sec ∧
    sec.placed = true ∧ sec.writeable = true

/-- A symbol with this name that is defined in a section, or tentative. -/
def Symbol.Defines (name : String) (x : Symbol) : Prop :=
  x.name = name ∧ ((∃ n, x.sectionIndex = .index n) ∨ x.tentative = true)

/-- At most one symbol of the table has the name. -/
def Object.Unambiguous (o : Object) (name : String) : Prop :=
  o.elf.symbolTable.Pairwise fun x y => ¬ (x.Defines name ∧ y.Defines name)

section Addresses

variable {file : Nat} {v p : Object} {newer older versions : List Object} {s : Loader}
  {x y : Symbol} {name : String} {previous : Option Object}

theorem Object.Unambiguous.eq (unambiguous : v.Unambiguous name) (first : x ∈ v.elf.symbolTable)
    (second : y ∈ v.elf.symbolTable) (firstNamed : x.Defines name) (secondNamed : y.Defines name) :
    x = y := by
  by_contra different
  have : Std.Symm fun x y : Symbol => ¬ (x.Defines name ∧ y.Defines name) :=
    ⟨fun _ _ holds both => holds both.symm⟩
  exact unambiguous.forall first second different ⟨firstNamed, secondNamed⟩

/-- A variable takes over the address of the symbol it is looked up as. -/
theorem Object.Variable.taken_value (isVariable : v.Variable x) (continues : v.Continues (some p))
    (taken : x.taken (some p) true = some noted) :
    x.value = noted.1.value := by
  obtain ⟨placed, all, carries⟩ := continues isVariable.table
  obtain ⟨n, sec, inSection, isSection, isPlaced, writeable⟩ := isVariable.inSection
  refine carries.followed x isVariable.member n (all n ?_) inSection noted ?_
  · rw [isSection]
    exact isPlaced
  · rwa [Elf.writeable, isSection, show (some sec).any Section.writeable = true from writeable]

/-- A variable is found under its name, if nothing else has this name. -/
theorem Object.Variable.resolved (isVariable : p.Variable y) (kind : p.kind = .relocatable)
    (continues : p.Continues previous) (moves : y.type.moves)
    (unambiguous : p.Unambiguous y.name) :
    ∃ noted, p.resolveInternalSymbol y.name = some noted ∧ y.Matches noted.1 ∧
      y.value = noted.1.value := by
  obtain ⟨placed, all, carries⟩ := continues isVariable.table
  obtain ⟨n, sec, inSection, isSection, isPlaced, -⟩ := isVariable.inSection
  have isPlaced : placed n := by
    apply all n
    rw [isSection]
    exact isPlaced
  have named : y.Defines y.name := ⟨rfl, .inl ⟨n, inSection⟩⟩
  obtain ⟨candidate, isCandidate, candidateNamed⟩ :=
    carries.noted y isVariable.member n isPlaced inSection moves
  cases found : p.symbols.find? fun entry => entry.1.name = y.name with
  | none =>
    have unnamed := List.find?_eq_none.mp found candidate isCandidate
    exact absurd (decide_eq_true candidateNamed) unnamed
  | some noted =>
    have notedNamed : noted.1.name = y.name := by simpa using List.find?_some found
    obtain ⟨defined, source⟩ := carries.recorded noted (List.mem_of_find?_eq_some found)
    have resolved : p.resolveInternalSymbol y.name = some noted := by
      unfold Object.resolveInternalSymbol
      rw [kind]
      rw [found, Option.filter_some, defined]
      rfl
    refine ⟨noted, resolved, ?_⟩
    rcases source with ⟨z, inTable, m, -, isIndex, same, value⟩ | ⟨z, inTable, tentative, sameName⟩
    · have zNamed : z.Defines y.name := ⟨same.name.trans notedNamed, .inl ⟨m, isIndex⟩⟩
      cases unambiguous.eq inTable isVariable.member zNamed named
      exact ⟨same, value⟩
    · have zNamed : z.Defines y.name := ⟨sameName.trans notedNamed, .inr tentative⟩
      cases unambiguous.eq inTable isVariable.member zNamed named
      exact absurd inSection (Symbol.tentative_index tentative n)

/-- A variable that takes over an address has got it from a symbol of the previous version, unless
it has the name of a tentative definition. -/
theorem Object.Variable.source (isVariable : v.Variable x) (continues : v.Continues (some p))
    (previously : p.Continues previous) (hasTable : p.elf.hasSymbolTable)
    (taken : x.taken (some p) true = some noted)
    (plain : ∀ z ∈ p.elf.symbolTable, z.tentative → z.name ≠ x.name) :
    ∃ y ∈ p.elf.symbolTable, x.Matches y ∧ x.value = y.value := by
  obtain ⟨p', isPrevious, inList, -, same⟩ := Symbol.taken_inv taken
  cases isPrevious
  obtain ⟨placed, -, carries⟩ := previously hasTable
  rcases (carries.recorded noted inList).2 with
    ⟨y, inTable, n, -, -, sameNoted, value⟩ | ⟨z, inTable, tentative, name⟩
  · exact ⟨y, inTable, same.trans sameNoted.symm,
      (isVariable.taken_value continues taken).trans value.symm⟩
  · exact absurd (name.trans same.name.symm) (plain z inTable tentative)

/-- In every chain of versions, variables of consecutive versions with the same name, type and
size have one address, if the previous version has no other symbol of this name; and
variables of different names that take over an address of the previous version have
got it from different symbols, unless it is the one of a tentative definition. -/
theorem variables_survive (chain : Versions file versions s)
    (consecutive : versions = newer ++ v :: p :: older) :
    (∀ x y, v.Variable x → p.Variable y → x.Matches y → y.type.moves = true →
      p.Unambiguous y.name → v.symbolAddress x = p.symbolAddress y) ∧
    (∀ x₁ x₂ noted₁ noted₂, v.Variable x₁ → v.Variable x₂ → x₁.name ≠ x₂.name →
      x₁.taken (some p) true = some noted₁ → x₂.taken (some p) true = some noted₂ →
      p.elf.hasSymbolTable = true →
      (∀ z ∈ p.elf.symbolTable, z.tentative = true → z.name ≠ x₁.name ∧ z.name ≠ x₂.name) →
      ∃ y₁ ∈ p.elf.symbolTable, ∃ y₂ ∈ p.elf.symbolTable, y₁ ≠ y₂ ∧
        x₁.Matches y₁ ∧ x₂.Matches y₂ ∧
        v.symbolAddress x₁ = p.symbolAddress y₁ ∧ v.symbolAddress x₂ = p.symbolAddress y₂) := by
  have linked := chain.linked.1
  rw [consecutive] at linked
  obtain ⟨-, continues, sameBase, kind, previously, -, -⟩ := linked.append
  have base : v.base = p.base := sameBase p rfl
  have address : ∀ x y : Symbol, x.value = y.value → v.symbolAddress x = p.symbolAddress y := by
    intro x y value
    rw [Object.symbolAddress, Object.symbolAddress, base, value]
  refine ⟨?_, ?_⟩
  · intro x y isVariable wasVariable same moves unambiguous
    obtain ⟨noted, resolved, sameNoted, value⟩ :=
      wasVariable.resolved kind previously moves unambiguous
    have matching := same.trans sameNoted
    have taken : x.taken (some p) true = some noted := by
      unfold Symbol.taken
      rw [if_pos rfl, Option.bind_some, same.name, resolved, matching.type, matching.size]
      simp
    exact address x y ((isVariable.taken_value continues taken).trans value.symm)
  · intro x₁ x₂ noted₁ noted₂ isVariable1 isVariable2 different taken1 taken2 hasTable plain
    obtain ⟨y₁, inTable1, same1, value1⟩ := isVariable1.source continues previously hasTable taken1
      fun z inTable tentative => (plain z inTable tentative).1
    obtain ⟨y₂, inTable2, same2, value2⟩ := isVariable2.source continues previously hasTable taken2
      fun z inTable tentative => (plain z inTable tentative).2
    refine ⟨y₁, inTable1, y₂, inTable2, ?_, same1, same2, address x₁ y₁ value1, address x₂ y₂ value2⟩
    rintro rfl
    exact different (same1.name.trans same2.name.symm)

end Addresses

/-! ## Two versions -/

/-- A section with variables. -/
def Section.variables (name : String) (type : SectionType) (size : Nat) : Section :=
  ⟨name, type, 0, size, 4, 0, true, true, false, false, []⟩

/-- The first section. -/
def Section.null : Section := ⟨"", .other 0, 0, 0, 0, 0, false, false, false, false, []⟩

/-- The symbol table. -/
def Section.symtab : Section := ⟨".symtab", .symtab, 0, 24, 8, 0, false, false, false, false, []⟩

/-- A section symbol. -/
def Symbol.ofSection (n : Nat) : Symbol := ⟨"", 0, 0, .stbLocal, .sttSection, .stvDefault, .index n⟩

/-- `static int counter;` -/
def Symbol.counter (value : Nat) : Symbol :=
  ⟨"counter", value, 4, .stbLocal, .sttObject, .stvDefault, .index 1⟩

/-- A version of a file with `.data`, `.bss`, `.text` and these symbols. -/
def openedCounters (modificationTime : Nat) (symbols : List Symbol) : Opened :=
  ⟨⟨(modificationTime, 0), 0, none, 0, modificationTime⟩,
    { Elf.empty .rel with
      sections := [.null, .variables ".data" .progbits 8, .variables ".bss" .nobits 4, .text,
        .symtab]
      symbolTable := symbols }, .rel⟩

/-- Create a version of `x.o` with these symbols. -/
def createCounters (modificationTime : Nat) (symbols : List Symbol) :
    LoaderM (Option ObjectRef × Info) :=
  create Env.noFiles (fun _ _ _ _ _ => return none) 0 (openedCounters modificationTime symbols)

/-- The identity of `x.o` has no version yet. -/
def unloadedCounters : Loader := { Loader.initial with lookup := [.global 0 "x.o" []] }

/-- The first version is loaded. -/
def loadedCounter : Loader :=
  ((createCounters 0 [.counter 0] unloadedCounters).map Prod.snd).getD unloadedCounters

/-- The second version is loaded. -/
def reloadedCounter : Loader :=
  ((createCounters 1 [.counter 0] loadedCounter).map Prod.snd).getD loadedCounter

theorem run_eq_of_result {α : Type} {x : Option (α × Loader)} {a : α} (s : Loader)
    (result : x.map Prod.fst = some a) : x = some (a, (x.map Prod.snd).getD s) := by
  obtain ⟨⟨_, s'⟩, rfl, rfl⟩ := Option.map_eq_some_iff.mp result
  rfl

theorem counter_variable {o : Object}
    (tables : (o.elf.symbolTable, o.elf.sections) = ([Symbol.counter 0],
      (openedCounters 0 [.counter 0]).elf.sections)) :
    o.Variable (.counter 0) ∧ o.Unambiguous "counter" := by
  obtain ⟨table, sections⟩ := Prod.mk.inj tables
  refine ⟨⟨?_, ?_, 1, .variables ".data" .progbits 8, rfl, ?_, rfl, rfl⟩, ?_⟩
  · rw [Elf.hasSymbolTable, sections]
    rfl
  · rw [table]
    exact List.mem_singleton_self _
  · rw [sections]
    rfl
  · rw [Object.Unambiguous, table]
    exact List.pairwise_singleton _ _

theorem variables_survive_counter : ∃ s v p, Versions 0 [v, p] s ∧
    v.Variable (.counter 0) ∧ p.Variable (.counter 0) ∧
    v.symbolAddress (.counter 0) = p.symbolAddress (.counter 0) := by
  have first := run_eq_of_result unloadedCounters (a := (some ⟨0, 0⟩, .successLoad))
    (by decide +kernel : (createCounters 0 [.counter 0] unloadedCounters).map Prod.fst = _)
  have second := run_eq_of_result loadedCounter (a := (some ⟨0, 1⟩, .successUpdate))
    (by decide +kernel : (createCounters 1 [.counter 0] loadedCounter).map Prod.fst = _)
  have tables1 : (loadedCounter.current 0).map (fun o => (o.elf.symbolTable, o.elf.sections)) =
      some ([Symbol.counter 0], (openedCounters 0 [.counter 0]).elf.sections) := by decide +kernel
  have tables2 : (reloadedCounter.current 0).map (fun o => (o.elf.symbolTable, o.elf.sections)) =
      some ([Symbol.counter 0], (openedCounters 0 [.counter 0]).elf.sections) := by decide +kernel
  obtain ⟨p, isFirst, tables1⟩ := Option.map_eq_some_iff.mp tables1
  obtain ⟨v, isSecond, tables2⟩ := Option.map_eq_some_iff.mp tables2
  have chain : Versions 0 [v, p] reloadedCounter :=
    .next (.first rfl rfl first isFirst) rfl second isSecond
  obtain ⟨wasVariable, unambiguous⟩ := counter_variable tables1
  have isVariable := (counter_variable tables2).1
  have survive := variables_survive chain (show [v, p] = [] ++ v :: p :: [] from rfl)
  exact ⟨_, v, p, chain, isVariable, wasVariable,
    survive.1 _ _ isVariable wasVariable ⟨rfl, rfl, rfl⟩ rfl unambiguous⟩

/-- The addresses of the symbols of a version. -/
def addresses (r : Option ObjectRef) : LoaderM (Option (List Nat)) := do
  let s ← get
  return (r.bind s.object).map fun o => o.elf.symbolTable.map o.symbolAddress

/-- Load two versions with the symbols of the sections `.data` and `.bss` and two counters. -/
def loadTwiceCounters : LoaderM (Option (List Nat) × Option (List Nat)) := do
  let symbols := [Symbol.ofSection 1, .ofSection 2, .counter 0, .counter 4]
  let (first, _) ← createCounters 0 symbols
  let (second, _) ← createCounters 1 symbols
  return (← addresses first, ← addresses second)

/-- In the second version both sections and both counters are at the address of the first. -/
theorem variables_collide : (loadTwiceCounters unloadedCounters).map Prod.fst =
    some (some [0x400000, 0x401000, 0x400000, 0x400004],
      some [0x400000, 0x400000, 0x400000, 0x400000]) := by
  decide +kernel

end Luci
