import Luci.Proofs.Dependencies

/-!
# A failed open

`Loader::open` appends an identity and, if it cannot be loaded, takes the last one off the list
(`src/loader.cpp:222`). This is the new one exactly if nothing was appended behind it, which is so
if no file has to be opened for the libraries that it needs.
-/

namespace Luci

open Exec KeyedList

/-! ## A failed open -/

/-- The identities of the lookup list. -/
def Loader.ids (s : Loader) : List Nat := s.lookup.map ObjectIdentity.id

/-- An identity `i` and nothing else was removed: what was in the list before the call and
what was opened in it are still there. -/
def OnlyRemoved (i : Nat) (s s' : Loader) : Prop :=
  i ∉ s'.ids ∧ s.ids.Sublist s'.ids ∧
    ∀ d, Event.opened d ∈ s'.events.drop s.events.length → d ∈ s'.ids

theorem mem_dropLast_of_append {front rest : List ObjectIdentity} {i : Nat}
    (member : i ∈ front.map ObjectIdentity.id) (more : rest ≠ []) :
    i ∈ (front ++ rest).dropLast.map ObjectIdentity.id := by
  rw [List.dropLast_append_of_ne_nil more, List.map_append]
  exact List.mem_append_left _ member

/-- A failed open removes exactly the identity that it added if and only if this was put at
the end of the list and no open of a needed library succeeded: `pop_back` takes off the
last identity, whichever this is. -/
theorem onlyRemoved_iff_unopened {e : Env} {n : Nat} {a : OpenCall} {ns i : Nat} {s s₁ s' : Loader}
    (old : s.Old) (emplace : emplaceIdentity e a ns s = some (i, s₁))
    (run : openElf e (openFile e n) a ns s = some (none, s')) :
    OnlyRemoved i s s' ↔
      (a.priority = false ∨ s.dependencies = none) ∧ s'.events = s.events := by
  obtain ⟨j, s₁, object, s₂, emplace', emplaced, -, loaded, ending⟩ := openElf_inv run
  cases emplace.symm.trans emplace'
  cases object with
  | some r => cases ending.1
  | none =>
    obtain ⟨s3, quiet, -, rfl⟩ := popBack_inv ending.2
    obtain ⟨u, k, -, edits⟩ := load_edits (grows_libraryCall (grows_openFile n))
      Loader.binds_univ loaded
    obtain ⟨f, new, opened, keep, -, lookup, -, events, length⟩ :=
      edits.edited j (emplaced.found old) (emplaced.old old)
    have unopened : s3.events = s.events ↔ new = [] := by
      rw [quiet.events, events, emplaced.events, List.append_right_eq_self, List.map_eq_nil_iff,
        ← List.length_eq_zero_iff, ← length, List.length_eq_zero_iff]
    rw [unopened]
    constructor
    · rintro ⟨removed, -, -⟩
      by_contra wrong
      apply removed
      rw [lookup]
      by_cases last : a.priority = false ∨ s.dependencies = none
      · -- something was opened behind the new identity
        refine mem_dropLast_of_append ?_ fun empty => wrong ⟨last, empty⟩
        rw [keys_update keep, emplaced.appended last]
        simp [emplaced.id]
      · -- the new identity was put in front of another one
        obtain ⟨front, k, back, inserted⟩ := emplaced.inserted last
        have shape : update ObjectIdentity.id s.fresh f s₁.lookup ++ new =
            update ObjectIdentity.id s.fresh f (front ++ [j]) ++
              (update ObjectIdentity.id s.fresh f (k :: back) ++ new) := by
          rw [inserted, List.append_cons, update_append, List.append_assoc]
        rw [shape]
        refine mem_dropLast_of_append ?_ (by simp [update_cons])
        rw [keys_update keep]
        simp [emplaced.id]
    · rintro ⟨last, empty⟩
      have restored : s₂.lookup.dropLast = s.lookup := by
        rw [lookup, empty, List.append_nil, emplaced.appended last, update_append,
          update_of_not_mem f old.not_mem_fresh, update_cons, update_nil, List.dropLast_concat]
      refine ⟨?_, ?_, ?_⟩
      · rw [restored]
        exact old.not_mem_fresh
      · show (s.lookup.map ObjectIdentity.id).Sublist (s₂.lookup.dropLast.map ObjectIdentity.id)
        rw [restored]
      · intro d member
        rw [unopened.mpr empty, List.drop_length] at member
        exact absurd member List.not_mem_nil

/-! ## Libraries that need not be opened -/

/-- No file has a path that ends with the name. -/
def Env.Missing (e : Env) (lib : String) : Prop := ∀ front, e.world.file (front ++ lib) = none

/-- No file is opened for a needed library: it is excluded, or there is no such file, or an identity
of this name is in the namespace. -/
def Loader.NeedsNoOpen (e : Env) (s : Loader) (ns : Nat) (lib : String) : Prop :=
  lib ∈ e.libraryExclude ∨ e.Missing lib ∨ ∃ j ∈ s.lookup, j.ns = ns ∧ j.name = basename lib

/-- The libraries that the file to be opened, or the image in memory, needs. -/
def OpenCall.neededLibraries (e : Env) (a : OpenCall) : List String :=
  match a.memory with
  | some m => m.image.elf.neededLibraries
  | none => ((e.world.file (absolutePath e a.filepath)).map fun file =>
      file.image.elf.neededLibraries).getD []

/-- A load of `file` in which nothing has been opened, and nothing will be: what it needs is there
apart from the new identity. -/
structure Loader.Unopened (e : Env) (libs : List String) (ns file : Nat) (events : List Event)
    (s : Loader) : Prop where
  old : s.Old
  found : ∃ i, s.identity file = some i ∧ i.ns = ns
  events : s.events = events
  needs : ∀ lib ∈ libs, lib ∈ e.libraryExclude ∨ e.Missing lib ∨
    ∃ j ∈ s.lookup, j.id ≠ file ∧ j.ns = ns ∧ j.name = basename lib

section Unopened

variable {e : Env} {libs : List String} {ns file n : Nat} {events : List Event} {s s' : Loader}
  {f : ObjectIdentity → ObjectIdentity} {a : OpenCall} {result : Option Nat}

theorem openFile_missing (missing : e.world.file a.filepath = none) (onDisk : a.memory = none)
    (run : openFile e n a s = some (result, s')) : s' = s := by
  cases n with
  | zero => cases run
  | succ n =>
    have noFormat : a.format e = none := by
      unfold OpenCall.format
      rw [onDisk, missing]
    unfold openFile openStep at run
    rw [noFormat] at run
    exact (pure_inv run).2

/-- Nothing happens in the search for a library that does not exist. -/
theorem libraryCall_missing {lib : String} {flags : Flags} {rpath runpath : List String}
    (missing : e.Missing lib)
    (run : libraryCall e (openFile e n) lib flags rpath runpath ns s = some (result, s')) :
    s' = s := by
  unfold libraryCall library at run
  rw [bind_of_eq (get_apply s)] at run
  cases found : s.findLibrary (some ns) (basename lib) with
  | some i =>
    rw [found] at run
    exact (pure_inv run).2
  | none =>
    rw [found] at run
    dsimp only at run
    rw [if_neg (by simp), Exec.ite_apply] at run
    split at run
    · have nothing : Keeps Eq (Exec.firstOf (fun directory => openFile e n
          (.inDirectory lib flags false (some ns) directory))
          (rpath ++ e.libraryPathRuntime ++ runpath ++ e.libraryPathConfig ++
            e.libraryPathDefault)) :=
        keeps_firstOf _ fun directory _ t found t' opened =>
          (openFile_missing (missing (directory ++ "/")) rfl opened).symm
      exact (nothing _ _ _ run).symm
    · refine openFile_missing ?_ rfl run
      rw [← missing "", String.empty_append]

/-- An edit of the new identity alone. -/
theorem Loader.Unopened.edited (unopened : s.Unopened e libs ns file events)
    (keep : ∀ a, (f a).id = a.id) (namespaces : ∀ i, s.identity file = some i → (f i).ns = i.ns)
    (lookup : s'.lookup = update ObjectIdentity.id file f s.lookup) (fresh : s.fresh ≤ s'.fresh)
    (quiet : s'.events = s.events) : s'.Unopened e libs ns file events := by
  obtain ⟨i, found, isNs⟩ := unopened.found
  refine ⟨?_, ⟨f i, ?_, (namespaces i found).trans isNs⟩, quiet.trans unopened.events, ?_⟩
  · exact unopened.old.grown keep (lookup.trans (List.append_nil _).symm) (Added.nil _ _) fresh
  · unfold Loader.identity
    rw [lookup, lookup_update_same keep]
    exact congrArg (Option.map f) found
  · intro lib needed
    refine (unopened.needs lib needed).imp_right (Or.imp_right ?_)
    rintro ⟨j, member, other, matched⟩
    rw [lookup]
    exact ⟨j, List.mem_map.mpr ⟨j, member, if_neg other⟩, other, matched⟩

theorem Loader.Unopened.modified (unopened : s.Unopened e libs ns file events)
    (keep : ∀ a, (f a).id = a.id) (namespaces : ∀ i, (f i).ns = i.ns) :
    (s.modifyIdentity file f).Unopened e libs ns file events :=
  unopened.edited keep (fun i _ => namespaces i) rfl le_rfl rfl

/-- Every step of the load leaves it like this. -/
theorem unopened_rule : LoadInvariant e (libraryCall e (openFile e n)) libs file
    (Loader.Unopened e libs ns file events) where
  old _ unopened := unopened.old
  found _ unopened := unopened.found.imp fun _ both => both.1
  writes s s' writes unopened := by
    obtain ⟨i, found, -⟩ := unopened.found
    obtain ⟨f, keep, same, lookup⟩ := writes.lookup found unopened.old
    refine unopened.edited keep (fun j found' => ?_) lookup writes.edits.fresh writes.events
    cases found.symm.trans found'
    exact same.ns
  installs s o _ _ unopened := unopened.modified (fun _ => rfl) fun _ => rfl
  removes s u unopened := unopened.modified (fun _ => rfl) fun _ => rfl
  calls lib needed notExcluded s i flags rpath runpath result s' _ unopened found called := by
    obtain ⟨i', found', isNs⟩ := unopened.found
    cases found.symm.trans found'
    have same : s' = s := by
      rcases unopened.needs lib needed with excluded | missing | ⟨j, member, -, inNs, isName⟩
      · exact absurd excluded notExcluded
      · exact libraryCall_missing missing called
      · have known : (s.findLibrary (some i.ns) (basename lib)).isSome := by
          unfold Loader.findLibrary
          rw [Option.bind_some, Option.isSome_map, List.find?_isSome]
          exact ⟨j, member, by simp [isNs, inNs, isName]⟩
        unfold libraryCall at called
        rw [library_opened (.inr known)] at called
        cases called
        rfl
    subst same
    refine ⟨unopened, fun d _ r isFile => ?_⟩
    subst isFile
    exact unopened.modified (fun _ => rfl) fun _ => rfl

end Unopened

theorem neededBy_construct {e : Env} {id ns : Nat} {a : OpenCall} {i : ObjectIdentity}
    (made : ObjectIdentity.construct e id ns a.flags a.filepath a.altname = some i) :
    neededBy e i a.memory = a.neededLibraries e := by
  obtain ⟨flags, -, isIdentity⟩ := Option.bind_eq_some_iff.mp made
  cases isIdentity
  unfold neededBy presented OpenCall.neededLibraries
  cases a.memory with
  | some m => rfl
  | none => cases e.world.file (absolutePath e a.filepath) <;> rfl

/-- A failed open removes exactly the identity that it added only if this was put at the end of the
list, and then it does if no file has to be opened for what the new one needs. -/
theorem openElf_cleans {e : Env} {n : Nat} {a : OpenCall} {ns i : Nat} {s s₁ s' : Loader}
    (old : s.Old) (emplace : emplaceIdentity e a ns s = some (i, s₁))
    (run : openElf e (openFile e n) a ns s = some (none, s')) :
    (OnlyRemoved i s s' → a.priority = false ∨ s.dependencies = none) ∧
      ((a.priority = false ∨ s.dependencies = none) →
        (∀ lib ∈ a.neededLibraries e, s.NeedsNoOpen e ns lib) → OnlyRemoved i s s') := by
  have exact_iff := onlyRemoved_iff_unopened old emplace run
  refine ⟨fun removed => (exact_iff.mp removed).1, fun last settled => exact_iff.mpr ⟨last, ?_⟩⟩
  obtain ⟨j, s₁, object, s₂, -, emplaced, made, loaded, ending⟩ := openElf_inv run
  cases object with
  | some r => cases ending.1
  | none =>
    obtain ⟨s3, quiet, -, rfl⟩ := popBack_inv ending.2
    have isNs : j.ns = ns := by
      obtain ⟨flags, -, isIdentity⟩ := Option.bind_eq_some_iff.mp made
      cases isIdentity
      rfl
    have start : s₁.Unopened e (neededBy e j a.memory) ns s.fresh s.events := by
      refine ⟨emplaced.old old, ⟨j, emplaced.found old, isNs⟩, emplaced.events, ?_⟩
      intro lib needed
      rw [neededBy_construct made] at needed
      refine (settled lib needed).imp_right (Or.imp_right ?_)
      rintro ⟨k, member, matched⟩
      refine ⟨k, (emplaced.mem_iff k).mpr (.inl member), ?_, matched⟩
      have := old k member
      omega
    exact quiet.events.trans
      (load_preserves (emplaced.found old) unopened_rule loaded start).events

/-- Three libraries: one needs nothing, one needs a library that is excluded, one that is loaded and
one that does not exist, and one needs the first one and one that does not exist. -/
def needsMissing : Env :=
  Env.reference Config.default fun path =>
    if path = "/lib/liba.so" then some (File.ofElf 0 (Elf.library [] [] []))
    else if path = "/lib/libb.so" then some (File.ofElf 0
      (Elf.library [.needed "libdl.so.2", .needed "libz.so", .needed "libmissing.so"] [] []))
    else if path = "/lib/libc.so" then
      some (File.ofElf 0 (Elf.library [.needed "liba.so", .needed "libmissing.so"] [] []))
    else none

theorem needsMissing_missing : needsMissing.Missing "libmissing.so" := by
  intro front
  have differs : ∀ path : String, ¬ "libmissing.so".toList <:+ path.toList →
      front ++ "libmissing.so" ≠ path := by
    rintro path noSuffix rfl
    exact noSuffix (String.toList_append ▸ List.suffix_append _ _)
  show (if front ++ "libmissing.so" = "/lib/liba.so" then _ else _) = none
  rw [if_neg (differs _ (by decide)), if_neg (differs _ (by decide)), if_neg (differs _ (by decide))]

/-- Two identities, one of them is that of `libz.so`. -/
def loadedZ : Loader :=
  { Loader.initial with lookup := [.global 0 "main" [], .global 1 "libz.so" []], fresh := 2 }

theorem openElf_cleans_libb :
    ∃ s₁ s', emplaceIdentity needsMissing (.inDirectory "libb.so" .zero false (some 0) "/lib") 0
        loadedZ = some (2, s₁) ∧
      openElf needsMissing (openFile needsMissing 1)
        (.inDirectory "libb.so" .zero false (some 0) "/lib") 0 loadedZ = some (none, s') ∧
      OnlyRemoved 2 loadedZ s' := by
  have emplaces : (emplaceIdentity needsMissing
      (.inDirectory "libb.so" .zero false (some 0) "/lib") 0 loadedZ).map Prod.fst = some 2 := by
    decide +kernel
  have opens : (openElf needsMissing (openFile needsMissing 1)
      (.inDirectory "libb.so" .zero false (some 0) "/lib") 0 loadedZ).map Prod.fst = some none := by
    decide +kernel
  obtain ⟨⟨i, s₁⟩, emplace, isTwo⟩ := Option.map_eq_some_iff.mp emplaces
  obtain ⟨⟨r, s'⟩, run, isNone⟩ := Option.map_eq_some_iff.mp opens
  obtain rfl : i = 2 := isTwo
  obtain rfl : r = none := isNone
  refine ⟨s₁, s', emplace, run, ?_⟩
  have old : loadedZ.Old := by
    intro i member
    rcases List.mem_pair.mp member with rfl | rfl <;> decide
  refine (openElf_cleans old emplace run).2 (.inl rfl) fun lib needed => ?_
  rw [show OpenCall.neededLibraries needsMissing (.inDirectory "libb.so" .zero false (some 0) "/lib") =
    ["libdl.so.2", "libz.so", "libmissing.so"] by decide +kernel] at needed
  simp only [List.mem_cons, List.not_mem_nil, or_false] at needed
  rcases needed with rfl | rfl | rfl
  · exact .inl (by decide)
  · exact .inr (.inr ⟨_, List.mem_cons_of_mem _ List.mem_cons_self, rfl, by decide +kernel⟩)
  · exact .inr (.inl needsMissing_missing)

/-- The second needed library is missing. The first one, which was opened as identity 3,
is taken off the list, and the identity 0 that cannot be loaded stays. -/
theorem openLibc_keeps_failed :
    (openFile needsMissing 2 (.inDirectory "libc.so" .zero false (some 0) "/lib") .initial).map
        (fun (r, s) => (r, s.ids, s.events)) = some (none, [0], [.opened 3]) := by
  decide +kernel

end Luci
