import Luci.Proofs.Load
import Luci.Reference

/-!
# Opening files

`Loader::open` appends an identity and, on failure, takes the last one off the list.
Whatever the recursion into the needed libraries does, a call appends as many
identities as opens succeed in it. On failure these need not be the ones that were
opened.
-/

namespace Luci

open Exec KeyedList

variable {type : ElfType} {result : Option ObjectRef} {memory : Option MemoryImage}

variable {e : Env} {id ns : Nat} {B : Set Nat} {a : OpenCall} {s s' : Loader} {flags : Flags}

/-! ## The new identity -/

/-- A new identity was put into the lookup list. -/
structure Emplaced (a : OpenCall) (s : Loader) (i : ObjectIdentity) (s' : Loader) : Prop where
  id : i.id = s.fresh
  versions : i.versions = []
  hook : i.hook = ⟨none, none, none, false⟩
  initialized : i.flags.initialized = a.flags.initialized
  lookup : s.emplace a.priority i = some s'.lookup
  fresh : s'.fresh = s.fresh + 1
  target : s'.target = s.target
  processStarted : s'.processStarted = s.processStarted
  updatePending : s'.updatePending = s.updatePending
  relocations : s'.relocations = s.relocations
  events : s'.events = s.events

theorem adjust_initialized {path : String} {flags flags' : Flags}
    (adjusted : flags.adjust e path = some flags') : flags'.initialized = flags.initialized := by
  unfold Flags.adjust at adjusted
  split at adjusted
  · cases adjusted
    rfl
  · split at adjusted
    · obtain ⟨_, -, adjusted⟩ := Option.bind_eq_some_iff.mp adjusted
      cases adjusted
      rfl
    · cases adjusted
      rfl

theorem emplaceIdentity_made (run : emplaceIdentity e a ns s = some (id, s')) :
    id = s.fresh ∧ ∃ i, Emplaced a s i s' ∧
      ObjectIdentity.construct e s.fresh ns a.flags a.filepath a.altname = some i := by
  obtain ⟨address, s₁, fresh, run⟩ := bind_inv run
  cases fresh
  obtain ⟨i, constructed, run⟩ := orAbort_bind_inv run
  have made := constructed
  obtain ⟨flags, adjusted, isIdentity⟩ := Option.bind_eq_some_iff.mp constructed
  cases isIdentity
  rw [bind_of_eq (get_apply _)] at run
  obtain ⟨lookup, emplaced, run⟩ := orAbort_bind_inv run
  cases run
  exact ⟨rfl, _, ⟨rfl, rfl, rfl, adjust_initialized adjusted, emplaced, rfl, rfl, rfl, rfl, rfl, rfl⟩, made⟩

section Emplaced

variable {a : OpenCall} {s s' : Loader} {i : ObjectIdentity}

section Emplaced

variable (emplaced : Emplaced a s i s')

include emplaced

theorem Emplaced.appended (last : a.priority = false ∨ s.dependencies = none) :
    s'.lookup = s.lookup ++ [i] := by
  have lookup := emplaced.lookup
  unfold Loader.emplace at lookup
  rcases last with off | none
  · rw [off] at lookup
    exact (Option.some.inj lookup).symm
  · rw [none] at lookup
    cases h : a.priority <;> rw [h] at lookup <;> exact (Option.some.inj lookup).symm

theorem Emplaced.inserted (inside : ¬ (a.priority = false ∨ s.dependencies = none)) :
    ∃ front j back, s'.lookup = front ++ i :: j :: back := by
  rw [not_or, Bool.not_eq_false, ← ne_eq, Option.ne_none_iff_exists'] at inside
  obtain ⟨priority, before, dependencies⟩ := inside
  have lookup := emplaced.lookup
  unfold Loader.emplace at lookup
  rw [priority, dependencies] at lookup
  obtain ⟨front, j, back, -, -, inserted⟩ := insertBefore_eq_some lookup
  exact ⟨front, j, back, inserted⟩

theorem Emplaced.mem_iff (j : ObjectIdentity) : j ∈ s'.lookup ↔ j ∈ s.lookup ∨ j = i := by
  have lookup := emplaced.lookup
  unfold Loader.emplace at lookup
  split at lookup
  · obtain ⟨front, k, back, before, -, after⟩ := insertBefore_eq_some lookup
    rw [before, after]
    simp only [List.mem_append, List.mem_cons]
    tauto
  · rw [← Option.some.inj lookup]
    simp

theorem Emplaced.old (old : s.Old) : s'.Old := by
  intro j member
  rw [emplaced.fresh]
  rcases (emplaced.mem_iff j).mp member with before | rfl
  · exact (old j before).trans (Nat.lt_succ_self _)
  · rw [emplaced.id]
    exact Nat.lt_succ_self _

/-- What is found was there before, or it is the new identity. -/
theorem Emplaced.identity_cases {b : Nat} {j : ObjectIdentity} (found : s'.identity b = some j) :
    j = i ∨ s.identity b = some j := by
  have lookup := emplaced.lookup
  unfold Loader.emplace at lookup
  unfold Loader.identity at found ⊢
  split at lookup
  · obtain ⟨front, k, back, before, -, after⟩ := insertBefore_eq_some lookup
    rw [after, lookup_append, lookup_cons i] at found
    rw [before, lookup_append]
    split at found
    · cases inFront : KeyedList.lookup ObjectIdentity.id front b with
      | some a => exact .inr (by simpa [inFront] using found)
      | none => exact .inl (by simpa [inFront, eq_comm] using found)
    · exact .inr found
  · rw [← Option.some.inj lookup, lookup_append, lookup_cons, lookup_nil] at found
    cases inFront : KeyedList.lookup ObjectIdentity.id s.lookup b with
    | some a => exact .inr (by simpa [inFront] using found)
    | none =>
      rw [inFront, Option.none_or] at found
      split at found
      · exact .inl (Option.some.inj found).symm
      · cases found

end Emplaced

theorem Loader.Old.not_mem_fresh (old : s.Old) : s.fresh ∉ s.lookup.map ObjectIdentity.id := by
  intro member
  obtain ⟨j, inLookup, same⟩ := List.mem_map.mp member
  have := old j inLookup
  omega

theorem Emplaced.found (emplaced : Emplaced a s i s') (old : s.Old) :
    s'.identity s.fresh = some i := by
  obtain ⟨j, found⟩ : ∃ j, s'.identity s.fresh = some j := by
    refine Loader.identity_isSome_iff.mpr (List.mem_map.mpr ⟨i, ?_, emplaced.id⟩)
    exact (emplaced.mem_iff i).mpr (.inr rfl)
  have isFresh := Loader.id_of_identity found
  rcases (emplaced.mem_iff j).mp (Loader.mem_of_identity found) with before | rfl
  · have := old j before
    omega
  · exact found

end Emplaced

/-- `pop_back` takes the last identity off the list. -/
theorem popBack_inv {u : Unit} (run : popBack e s = some (u, s')) :
    ∃ s₁, Quiet s s₁ ∧ s.lookup ≠ [] ∧ s' = { s₁ with lookup := s.lookup.dropLast } := by
  unfold popBack at run
  rw [bind_of_eq (get_apply s)] at run
  obtain ⟨last, isLast, run⟩ := orAbort_bind_inv run
  obtain ⟨_, s₁, watched, run⟩ := bind_inv run
  obtain ⟨_, s₂, released, run⟩ := bind_inv run
  have quiet : Quiet s s₂ := by
    refine Quiet.trans (keeps_onlyIf (fun _ => ?_) _ _ _ watched)
      (keeps_forEach _ (fun o _ => quiet_release o) _ _ _ released)
    grind
  cases modify_inv run
  refine ⟨s₂, quiet, ?_, by rw [quiet.lookup]⟩
  intro empty
  rw [empty] at isLast
  cases isLast

theorem identity_of_dropLast {a : Nat} {j : ObjectIdentity} (lookup : s'.lookup = s.lookup.dropLast)
    (isFile : s'.identity a = some j) : s.identity a = some j := by
  unfold Loader.identity at isFile ⊢
  rw [lookup] at isFile
  rcases List.eq_nil_or_concat s.lookup with empty | ⟨front, last, split⟩
  · rw [empty] at isFile
    cases isFile
  · rw [List.concat_eq_append] at split
    rw [split, List.dropLast_concat] at isFile
    rw [split]
    exact lookup_append_of_some [last] isFile

/-- An ELF file is opened by a load of a new identity. If that fails, the last identity is
taken off the list. -/
theorem openElf_inv {openRec : OpenRec} {result : Option Nat}
    (run : openElf e openRec a ns s = some (result, s')) :
    ∃ i s₁ object s₂, emplaceIdentity e a ns s = some (s.fresh, s₁) ∧ Emplaced a s i s₁ ∧
      ObjectIdentity.construct e s.fresh ns a.flags a.filepath a.altname = some i ∧
      load e (libraryCall e openRec) s.fresh a.memory a.type s₁ = some (object, s₂) ∧
      match object with
      | some _ =>
        result = some s.fresh ∧ s' = { s₂ with events := s₂.events ++ [.opened s.fresh] }
      | none => result = none ∧ popBack e s₂ = some ((), s') := by
  obtain ⟨id, s₁, emplace, run⟩ := bind_inv run
  obtain ⟨rfl, i, emplaced, made⟩ := emplaceIdentity_made emplace
  obtain ⟨object, s₂, loaded, run⟩ := bind_inv run
  refine ⟨i, s₁, object, s₂, emplace, emplaced, made, loaded, ?_⟩
  cases object with
  | some r =>
    cases run
    exact ⟨rfl, rfl⟩
  | none =>
    obtain ⟨_, s3, popped, run⟩ := bind_inv run
    cases run
    exact ⟨rfl, popped⟩

/-! ## The parts of an open -/

section Parts

variable {R : Loader → Loader → Prop} [IsPreorder Loader R] {e : Env} {openRec : OpenRec}

/-- What `library` does is to open files with the given flags. -/
theorem keeps_library {priority : Bool} {ns : Option Nat}
    (opens : ∀ a : OpenCall, a.priority = priority → a.flags = flags → Keeps R (openRec a))
    (filename : String) (rpath runpath : List String) (load : Bool) :
    Keeps R (library e openRec filename flags priority rpath runpath ns load) := by
  refine keeps_bind keeps_get fun s => ?_
  cases s.findLibrary ns (basename filename) with
  | some i => exact keeps_pure _
  | none =>
    apply keeps_ite
    · exact fun _ => keeps_pure _
    · intro _
      apply keeps_ite
      · exact fun _ => keeps_firstOf _ fun directory _ => opens _ rfl rfl
      · exact fun _ => opens _ rfl rfl

/-- `open` handles an ELF file, or the entries of a static library. -/
theorem keeps_openFormat
    (namespaces : ∀ (s : Loader) (next : Nat), R s { s with nextNamespace := next })
    (elf : ∀ ns, Keeps R (openElf e openRec a ns))
    (archive : ∀ ns entries, Keeps R (openEntries e openRec a ns none entries)) :
    Keeps R (openStep e openRec a) := by
  have namespaceChosen : Keeps R (chooseNamespace a.ns) := by
    cases a.ns with
    | some ns => exact keeps_pure ns
    | none =>
      rintro s ns s' ⟨⟩
      exact namespaces s _
  unfold openStep
  cases a.format e with
  | none => exact keeps_pure none
  | some format =>
    apply keeps_bind namespaceChosen
    intro ns
    cases format with
    | elf => exact elf ns
    | ar =>
      cases (e.world.file a.filepath).bind File.archive with
      | some entries => exact archive ns entries
      | none => exact keeps_pure none
    | other => exact keeps_pure none

/-- For the entries of a static library, `open` calls itself. -/
theorem keeps_openStep (maps : ∀ size, Keeps R (mapFile e size))
    (namespaces : ∀ (s : Loader) (next : Nat), R s { s with nextNamespace := next })
    (elf : ∀ ns, Keeps R (openElf e openRec a ns))
    (opens : ∀ b : OpenCall, b.priority = a.priority → b.flags = a.flags → Keeps R (openRec b)) :
    Keeps R (openStep e openRec a) := by
  have entriesOpened : ∀ ns entries obj, Keeps R (openEntries e openRec a ns obj entries) := by
    intro ns entries
    induction entries with
    | nil => exact fun obj => keeps_pure obj
    | cons entry entries ih =>
      intro obj
      apply keeps_ite
      · intro _
        apply keeps_bind (maps _)
        intro addr
        exact keeps_bind (opens _ rfl rfl) fun obj => ih obj
      · exact fun _ => ih obj
  exact keeps_openFormat namespaces elf fun ns entries => entriesOpened ns entries none

theorem load_found {library : LibraryCall} {file : Nat} {s s' : Loader}
    (run : load e library file memory type s = some (result, s')) :
    ∃ i, s.identity file = some i := by
  obtain ⟨opened, s1, opening, -⟩ := bind_inv run
  obtain ⟨i, found, -⟩ := getIdentity_bind_inv opening
  exact ⟨i, found⟩

/-- A relation is kept by every open if its steps keep it: a new identity, its load, the end of a
successful open, and the removal of an identity after a failure. -/
theorem keeps_openFile (quietly : ∀ s s', Quiet s s' → R s s')
    (namespaces : ∀ (s : Loader) (next : Nat), R s { s with nextNamespace := next })
    (emplaces : ∀ {a s i s'}, Emplaced a s i s' → R s s')
    (loads : ∀ {n}, (∀ a, Keeps R (openFile e n a)) → ∀ file memory type,
      Keeps R (load e (libraryCall e (openFile e n)) file memory type))
    (opened : ∀ (s : Loader) file, R s { s with events := s.events ++ [.opened file] })
    (pops : ∀ s : Loader, R s { s with lookup := s.lookup.dropLast }) (n : Nat) :
    ∀ a, Keeps R (openFile e n a) := by
  induction n with
  | zero => exact fun _ => keeps_abort
  | succ n ih =>
    intro a
    apply keeps_openStep
    · exact fun size => (frame_mapFile size).mono quietly
    · exact namespaces
    · intro ns s result s' run
      obtain ⟨i, s1, object, s2, -, emplaced, -, loaded, ending⟩ := openElf_inv run
      refine trans_of R (trans_of R (emplaces emplaced) (loads ih _ _ _ _ _ _ loaded)) ?_
      cases object with
      | some r => exact ending.2 ▸ opened s2 s.fresh
      | none =>
        obtain ⟨s4, quiet, -, rfl⟩ := popBack_inv ending.2
        exact trans_of R (quietly s2 s4 quiet) (quiet.lookup ▸ pops s4)
    · exact fun b _ _ => ih b

end Parts

/-! ## What an open adds -/

section Opening

variable {e : Env} {openRec : OpenRec}

/-- The recursive calls that `preload_libraries` makes only append. -/
def OpenRec.Grows (openRec : OpenRec) : Prop :=
  ∀ a : OpenCall, a.priority = false → a.flags.initialized = false → Keeps Luci.Grows (openRec a)

theorem grows_library (grows : openRec.Grows) (idle : flags.initialized = false) (filename : String)
    (rpath runpath : List String) (ns : Option Nat) (load : Bool) :
    Keeps Grows (library e openRec filename flags false rpath runpath ns load) :=
  keeps_library (fun a last same => grows a last (same ▸ idle)) filename rpath runpath load

theorem grows_libraryCall (grows : openRec.Grows) : LibraryCall.Keeps (libraryCall e openRec) Grows :=
  fun lib _ rpath runpath ns idle => grows_library grows idle lib rpath runpath (some ns) true

variable {a : OpenCall} {ns : Nat} {s s₁ s₂ : Loader} {i : ObjectIdentity}

/-- After a failed load of a new identity that was appended. -/
theorem failed_added {u : Nat} {k : ObjectKind} (emplaced : Emplaced a s i s₁) (old : s.Old)
    (idle : a.flags.initialized = false) (appended : s₁.lookup = s.lookup ++ [i])
    (edits : Edits B (ObjectIdentity.Rejected u k) s.fresh s₁ s₂) :
    ∃ (j : ObjectIdentity) (new : List ObjectIdentity) (opened : List Nat),
      s₂.lookup = s.lookup ++ j :: new ∧ Added s.fresh s₂.fresh (j :: new) ∧ j.id = s.fresh ∧
      s₂.events = s.events ++ opened.map Event.opened ∧ new.length = opened.length := by
  obtain ⟨f, new, opened, keep, rejected, lookup, added, events, length⟩ :=
    edits.edited i (emplaced.found old) (emplaced.old old)
  have edited := rejected (by simp [emplaced.versions])
  have versions : (f i).versions = [] :=
    List.forall₂_nil_left_iff.mp (emplaced.versions ▸ edited.versions)
  have isFresh : (f i).id = s.fresh := (keep i).trans emplaced.id
  refine ⟨f i, new, opened, ?_, ?_, isFresh, emplaced.events ▸ events, length⟩
  · rw [lookup, appended, update_append, update_of_not_mem f old.not_mem_fresh, update_cons,
      if_pos emplaced.id, update_nil, List.append_assoc, List.singleton_append]
  · have single : Added s.fresh s₁.fresh [f i] := by
      refine Added.single ?_ ?_ ?_ (edited.initialized.trans (emplaced.initialized.trans idle))
      · rw [ObjectIdentity.addresses, versions, isFresh, emplaced.fresh]
        simp
      · simp [ObjectIdentity.addresses, versions]
      · simp [versions]
    exact single.append added (by rw [emplaced.fresh]; exact Nat.le_succ _) edits.fresh

/-- After a successful load of a new identity that was appended. -/
theorem loaded_added {o : Object} {mid : Loader} (emplaced : Emplaced a s i s₁) (old : s.Old)
    (idle : a.flags.initialized = false) (appended : s₁.lookup = s.lookup ++ [i])
    (isFile : o.file = s.fresh) (used : s₁.fresh ≤ o.uid) (unused : o.uid < mid.fresh)
    (first : Edits B (ObjectIdentity.Edited o.uid o.kind) s.fresh s₁ mid)
    (events : mid.events = s₁.events)
    (second : Edits B (ObjectIdentity.Accepted o) s.fresh mid s₂) :
    ∃ (j : ObjectIdentity) (new : List ObjectIdentity) (opened : List Nat),
      s₂.lookup = s.lookup ++ j :: new ∧ Added s.fresh s₂.fresh (j :: new) ∧
      s₂.events = s.events ++ opened.map Event.opened ∧ new.length = opened.length := by
  obtain ⟨f, new, opened, keep, accepted, lookup, added, events, length⟩ :=
    accepted_lookup (emplaced.found old) (emplaced.old old) first events second
  have isFresh : (f i).id = s.fresh := (keep i).trans emplaced.id
  obtain ⟨v, rest, same, others, versions⟩ := List.forall₂_cons_left_iff.mp accepted.versions
  rw [emplaced.versions, List.forall₂_nil_left_iff] at others
  subst others
  have next := emplaced.fresh
  refine ⟨f i, new, opened, ?_, ?_, emplaced.events ▸ events, length⟩
  · rw [lookup, appended, update_append, update_of_not_mem f old.not_mem_fresh, update_cons,
      if_pos emplaced.id, update_nil, List.append_assoc, List.singleton_append]
  · have single : Added s.fresh mid.fresh [f i] := by
      refine Added.single ?_ ?_ ?_ (accepted.initialized.trans (emplaced.initialized.trans idle))
      · rw [ObjectIdentity.addresses, versions]
        simp only [List.map_cons, List.map_nil, List.mem_cons, List.not_mem_nil, or_false, same.uid]
        omega
      · rw [ObjectIdentity.addresses, versions]
        simp only [List.map_cons, List.map_nil, List.nodup_cons, List.mem_singleton, same.uid,
          List.not_mem_nil, not_false_eq_true, List.nodup_nil, and_true]
        omega
      · rw [versions, isFresh]
        intro w member
        rw [List.mem_singleton.mp member, same.file, isFile]
    exact single.append added (by omega) second.fresh

/-- A load of a new identity that was appended, up to the removal of an identity on failure. -/
theorem grows_loadNew (grows : openRec.Grows) (emplaced : Emplaced a s i s₁)
    (idle : a.flags.initialized = false) (appended : s₁.lookup = s.lookup ++ [i])
    (run : load e (libraryCall e openRec) s.fresh memory type s₁ = some (result, s₂)) :
    s.fresh ≤ s₂.fresh ∧ s₂.target = s.target ∧ s₂.processStarted = s.processStarted ∧
      s₂.updatePending = s.updatePending ∧ (s.Old → s₂.relocations = s.relocations) ∧
      (s.Old → ∃ (j : ObjectIdentity) (new : List ObjectIdentity) (opened : List Nat),
        s₂.lookup = s.lookup ++ j :: new ∧ Added s.fresh s₂.fresh (j :: new) ∧
        s₂.events = s.events ++ opened.map Event.opened ∧ new.length = opened.length) := by
  have none : s.Old → s₁.Binds ∅ s₁.fresh s.fresh := fun old =>
    .inr ⟨emplaced.old old, i, emplaced.found old, emplaced.initialized.trans idle⟩
  have later : s.fresh ≤ s₁.fresh := emplaced.fresh ▸ Nat.le_succ _
  cases result with
  | none =>
    obtain ⟨u, k, -, edits⟩ := load_edits (grows_libraryCall grows) Loader.binds_univ run
    refine ⟨later.trans edits.fresh, edits.target.trans emplaced.target,
      edits.processStarted.trans emplaced.processStarted,
      edits.updatePending.trans emplaced.updatePending, fun old => ?_, fun old => ?_⟩
    · obtain ⟨_, _, -, edits⟩ := load_edits (grows_libraryCall grows) (none old) run
      funext u
      rw [edits.relocations i (emplaced.found old) (emplaced.old old) u (Set.notMem_empty u),
        emplaced.relocations]
    · obtain ⟨j, new, opened, lookup, added, -, events, length⟩ :=
        failed_added emplaced old idle appended edits
      exact ⟨j, new, opened, lookup, added, events, length⟩
  | some r =>
    obtain ⟨o, mid, isFile, -, used, unused, -, events, first, second⟩ :=
      load_edits (grows_libraryCall grows) Loader.binds_univ run
    refine ⟨later.trans (first.fresh.trans second.fresh),
      second.target.trans (first.target.trans emplaced.target),
      second.processStarted.trans (first.processStarted.trans emplaced.processStarted),
      second.updatePending.trans (first.updatePending.trans emplaced.updatePending),
      fun old => ?_, fun old => ?_⟩
    · obtain ⟨o, mid, -, -, -, -, -, -, first, second⟩ :=
        load_edits (grows_libraryCall grows) (none old) run
      obtain ⟨old', i', found', -⟩ := first.next (emplaced.found old) (emplaced.old old)
      funext u
      rw [second.relocations i' found' old' u (Set.notMem_empty u),
        first.relocations i (emplaced.found old) (emplaced.old old) u (Set.notMem_empty u),
        emplaced.relocations]
    · exact loaded_added emplaced old idle appended isFile used unused first events second

theorem grows_openElf (grows : openRec.Grows) (last : a.priority = false)
    (idle : a.flags.initialized = false) : Keeps Grows (openElf e openRec a ns) := by
  intro s result s' run
  obtain ⟨i, s₁, object, s₂, -, emplaced, -, loaded, ending⟩ := openElf_inv run
  obtain ⟨fresh, target, started, pending, relocations, added⟩ :=
    grows_loadNew grows emplaced idle (emplaced.appended (.inl last)) loaded
  cases object with
  | some r =>
    obtain ⟨-, rfl⟩ := ending
    refine ⟨fresh, target, started, pending, relocations, fun old => ?_⟩
    obtain ⟨j, new, opened, lookup, added, events, length⟩ := added old
    refine ⟨j :: new, opened ++ [s.fresh], lookup, added, ?_, by simp [length]⟩
    simp [events]
  | none =>
    obtain ⟨s3, quiet, -, rfl⟩ := popBack_inv ending.2
    refine ⟨fresh.trans quiet.fresh, quiet.target.trans target,
      quiet.processStarted.trans started, quiet.updatePending.trans pending,
      fun old => quiet.relocations.trans (relocations old), fun old => ?_⟩
    obtain ⟨j, new, opened, lookup, added, events, length⟩ := added old
    refine ⟨(j :: new).dropLast, opened, ?_, ?_, quiet.events.trans events, ?_⟩
    · rw [lookup, List.dropLast_append_of_ne_nil (List.cons_ne_nil j new)]
    · exact (added.sublist (List.dropLast_sublist _)).mono le_rfl quiet.fresh
    · rw [List.length_dropLast, List.length_cons, Nat.add_sub_cancel, length]

theorem grows_openStep (grows : openRec.Grows) (last : a.priority = false)
    (idle : a.flags.initialized = false) : Keeps Grows (openStep e openRec a) := by
  apply keeps_openStep
  · exact fun size => grows_of_quiet (frame_mapFile size)
  · exact fun s next => ⟨le_rfl, rfl, rfl, rfl, fun _ => rfl, fun _ =>
      ⟨[], [], by simp, Added.nil _ _, by simp, rfl⟩⟩
  · exact fun ns => grows_openElf grows last idle
  · exact fun b samePriority sameFlags => grows b (samePriority.trans last) (sameFlags ▸ idle)

/-- Every depth of the recursion appends as many identities as opens succeed in it. -/
theorem grows_openFile (n : Nat) : OpenRec.Grows (openFile e n) := by
  induction n with
  | zero => exact fun _ _ _ => keeps_abort
  | succ n ih => exact fun a last idle => grows_openStep ih last idle

theorem openElf_new (run : openElf e openRec a ns s = some (some id, s')) : id = s.fresh := by
  obtain ⟨i, s₁, object, s₂, -, -, -, -, ending⟩ := openElf_inv run
  cases object with
  | none => cases ending.1
  | some r => exact Option.some.inj ending.1

end Opening

end Luci
