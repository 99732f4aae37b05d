import Luci.Proofs.Creation
import Luci.Proofs.IdentityPath
import Luci.Proofs.VersionChain

/-!
# Finding a library by its name

`Loader::library` (`src/loader.cpp:132-159`) looks for an identity with the name and namespace
asked for, and opens files of that name otherwise. A new identity is put in front of the
dependencies or at the end of the lookup list. Its name is the last part of the path or that of
the archive member at first, but the constructor of a dynamic object replaces it by the
`DT_SONAME` of the file.
-/

namespace Luci

open Exec KeyedList

variable {i n : Nat} {op : Opened} {name : String} {r : ObjectRef}

/-! ## The name after a load -/

/-- A name after `DT_SONAME` was looked at, which counts unless it is empty. -/
def takeSoname (name : String) : Option String → String
  | some soname => if soname = "" then name else soname
  | none => name

/-- The name of an identity after the construction of an object. -/
def Elf.rename (elf : Elf) (type : ElfType) (name : String) : String :=
  if elf.dynamic type then takeSoname name elf.getSoname else name

/-- No identity is renamed. -/
abbrev KeepsNames : Loader → Loader → Prop := Along ObjectIdentity.SameName

instance : Framed KeepsNames where
  unused _ _ _ _ _ more := along_of_lookup rfl more
  vm _ _ _ := along_of_lookup rfl (Nat.le_refl _)
  datarelContent _ _ := along_of_lookup rfl (Nat.le_refl _)

instance : FramedEdits KeepsNames where
  edited s file _ keep :=
    along_modifyIdentity s file (fun i => (keep i).1.id) fun i _ => (keep i).2
  registers file := keeps_addTlsModule file
    (fun s _ _ => along_modifyIdentity s file (fun _ => rfl) fun _ _ => ⟨rfl, rfl⟩)
    fun _ _ => along_of_lookup rfl (Nat.le_refl _)

section Load

variable {e : Env} {library : LibraryCall} {file : Nat} {s s' : Loader} {i : ObjectIdentity}

/-- The identity has been renamed at most. -/
structure Renamed (file : Nat) (i : ObjectIdentity) (name : String) (s' : Loader) : Prop where
  renamed : ∃ i', s'.identity file = some i' ∧ i'.ns = i.ns ∧ i'.name = name

theorem Renamed.kept (renamed : Renamed file i name s) (old : s.Old) (step : KeepsNames s s') :
    Renamed file i name s' := by
  obtain ⟨j, found, ns, isName⟩ := renamed.renamed
  obtain ⟨k, found', same⟩ := (step old).2 file j found
  exact ⟨k, found', same.ns.trans ns, same.name.trans isName⟩

theorem Constructed.renames {o : Object} (new : Constructed e file op s s' o)
    (found : s.identity file = some i) (old : s.Old) :
    Renamed file i (op.elf.rename op.type i.name) s' := by
  obtain ⟨-, i', found', rfl⟩ := (new.edits (B := ∅)).next found old
  have dynamic := new.dynamic
  refine ⟨_, found', ?_, ?_⟩
  · cases o.kind <;> rfl
  · unfold Elf.rename takeSoname
    cases kind : o.kind with
    | dynamic =>
      rw [if_pos (dynamic.mp kind)]
      unfold ObjectIdentity.constructed
      cases op.elf.getSoname with
      | none => rfl
      | some soname => by_cases empty : soname = "" <;> simp [empty, Option.filter_some]
    | _ =>
      rw [if_neg (by simp [← dynamic, kind])]
      rfl

theorem Renamed.silent {B : Set Nat} {u : Nat} {k : ObjectKind} (renamed : Renamed file i name s)
    (old : s.Old) (step : Edits B (ObjectIdentity.Silent u k) file s s') :
    Renamed file i name s' := by
  obtain ⟨j, found, ns, isName⟩ := renamed.renamed
  obtain ⟨-, j', found', same⟩ := step.next found old
  exact ⟨j', found', same.ns.trans ns, (congrArg Visible.name same.visible).trans isName⟩

variable (grows : library.Keeps Grows)

include grows

theorem create_renames {info : Info} (found : s.identity file = some i) (old : s.Old)
    (run : create e library file op s = some ((some r, info), s')) :
    s'.Old ∧ Renamed file i (op.elf.rename op.type i.name) s' := by
  have attends : Attends s s' := attends_create grows file op _ _ _ run
  obtain ⟨_, -, run⟩ := getIdentity_bind_inv run
  extract_lets hashed hash at run
  split at run
  · cases run
  · obtain ⟨constructed, s1, construct, run⟩ := bind_inv run
    cases constructed with
    | none => cases run
    | some o =>
      have renamed := (constructObject_new construct).renames found old
      have old1 : s1.Old := by
        have constructs : Attends s s1 := frame_constructObject file _ _ _ _ construct
        exact (constructs old).1
      have rest : Keeps KeepsNames (createObject e library file o op.type) := by
        apply frame_createObject
        · exact fun uid s segments => along_of_lookup rfl le_rfl
        · exact fun uid s reloc sym => along_of_lookup rfl le_rfl
        · exact fun lib flags rpath runpath ns idle =>
            (grows lib flags rpath runpath ns idle).mono fun _ _ step => step.along
        · exact fun v => keeps_modify fun s =>
            along_modifyIdentity s v.file (fun _ => rfl) fun _ _ => ⟨rfl, rfl⟩
        · exact fun v => along_of_quiet (quiet_release v)
      exact ⟨(attends old).1, renamed.kept old1 (rest _ _ _ run)⟩

theorem load_renames {memory : Option MemoryImage} {type : ElfType}
    (found : s.identity file = some i) (old : s.Old)
    (run : load e library file memory type s = some (some r, s')) :
    ∃ image, presented e i memory = some image ∧ Renamed file i
      (image.elf.rename (if type = .none then image.elf.header.type else type) i.name) s' := by
  obtain ⟨opened, s1, opening, run⟩ := bind_inv run
  have quiet : Quiet s s1 := frame_openObject _ _ _ _ _ _ opening
  have found1 : s1.identity file = some i := by rw [Loader.identity_congr quiet.lookup, found]
  cases opened with
  | error failure =>
    obtain ⟨_, s2, hook, run⟩ := bind_inv run
    cases run
  | ok op =>
    obtain ⟨image, isImage, elf, -, isType⟩ := openObject_presented found opening
    obtain ⟨⟨object, info⟩, s2, created, run⟩ := bind_inv run
    obtain ⟨_, s3, after, run⟩ := bind_inv run
    obtain ⟨_, s4, hook, run⟩ := bind_inv run
    cases run
    obtain ⟨old2, renamed⟩ := create_renames grows found1 (quiet.grows.old old) created
    have watched : Edits ∅ (ObjectIdentity.Silent 0 .dynamic) file s2 s3 :=
      silent_afterCreate file _ _ _ _ _ after
    have hooked : Edits ∅ (ObjectIdentity.Silent 0 .dynamic) file s3 s' :=
      silent_initialHook file _ _ _ hook
    refine ⟨image, isImage, ?_⟩
    rw [← isType, ← elf]
    exact renamed.silent old2 (trans_of (Edits ∅ (ObjectIdentity.Silent 0 .dynamic) file) watched hooked)

end Load

/-! ## The place in the lookup list -/

/-- The identities in front of the place where a new one is put. -/
def Loader.front (s : Loader) (priority : Bool) : List ObjectIdentity :=
  match priority, s.dependencies with
  | true, some before => s.lookup.takeWhile fun i => i.id ≠ before
  | _, _ => s.lookup

/-- The content that a call of `open` loads. -/
def OpenCall.image (e : Env) (a : OpenCall) : Option Image :=
  match a.memory with
  | some m => some m.image
  | none => (e.world.file (absolutePath e a.filepath)).map File.image

/-- The name that an identity has after a call of `open` for an ELF file. -/
def OpenCall.newName (e : Env) (a : OpenCall) : String :=
  match a.image e with
  | some image =>
    image.elf.rename (if a.type = .none then image.elf.header.type else a.type)
      (a.altname.getD (basename (absolutePath e a.filepath)))
  | none => a.altname.getD (basename (absolutePath e a.filepath))

section OpenElf

variable {e : Env} {a : OpenCall} {ns id : Nat} {s s' : Loader} {i : ObjectIdentity}

theorem Emplaced.split (emplaced : Emplaced a s i s') :
    ∃ back, s'.lookup = s.front a.priority ++ i :: back ∧
      ∀ j ∈ s.front a.priority ++ back, j ∈ s.lookup := by
  have lookup := emplaced.lookup
  have appended (front : s.front a.priority = s.lookup) (last : s'.lookup = s.lookup ++ [i]) :
      ∃ back, s'.lookup = s.front a.priority ++ i :: back ∧
        ∀ j ∈ s.front a.priority ++ back, j ∈ s.lookup := by
    rw [front]
    exact ⟨[], last, fun j member => by rwa [List.append_nil] at member⟩
  cases priority : a.priority with
  | false =>
    rw [priority] at appended
    exact appended rfl (emplaced.appended (.inl priority))
  | true =>
    rw [priority] at appended lookup
    cases dependencies : s.dependencies with
    | none =>
      apply appended
      · unfold Loader.front
        rw [dependencies]
      · exact emplaced.appended (.inr dependencies)
    | some before =>
      unfold Loader.emplace at lookup
      unfold Loader.front
      rw [dependencies] at lookup ⊢
      refine ⟨_, insertBefore_split lookup, fun j member => ?_⟩
      rwa [List.takeWhile_append_dropWhile] at member

/-- Where the new identity stands after a successful call, and under which name. -/
theorem openElf_placed (old : s.Old) (run : openElf e (openFile e n) a ns s = some (some id, s')) :
    s'.Old ∧ ∃ i' back, s'.lookup = s.front a.priority ++ i' :: back ∧ i'.id = id ∧ i'.ns = ns ∧
      i'.name = a.newName e ∧ ∀ j ∈ s.front a.priority ++ back, j.id ≠ id := by
  obtain ⟨i, s1, object, s2, -, emplaced, made, loaded, ending⟩ := openElf_inv run
  cases object with
  | none => cases ending.1
  | some r =>
    obtain ⟨isFresh, rfl⟩ := ending
    cases isFresh
    obtain ⟨o, mid, isFile, -, used, unused, -, events, first, second⟩ :=
      load_edits (grows_libraryCall (grows_openFile n)) Loader.binds_univ loaded
    obtain ⟨f, new, -, keep, accepted, lookup, added, -, -⟩ :=
      accepted_lookup (emplaced.found old) (emplaced.old old) first events second
    obtain ⟨back, split, inLookup⟩ := emplaced.split
    have apart : ∀ l : List ObjectIdentity, (∀ j ∈ l, j ∈ s.lookup) →
        update ObjectIdentity.id s.fresh f l = l := by
      intro l isOld
      apply update_of_not_mem
      intro member
      obtain ⟨j, inside, isFresh⟩ := List.mem_map.mp member
      exact absurd isFresh (old j (isOld j inside)).ne
    have inFront : ∀ j ∈ s.front a.priority, j ∈ s.lookup := fun j member =>
      inLookup j (List.mem_append_left back member)
    have inBack : ∀ j ∈ back, j ∈ s.lookup := fun j member =>
      inLookup j (List.mem_append_right _ member)
    obtain ⟨path, name, isNs⟩ := construct_named made
    -- the identity that was renamed is the one in the list
    obtain ⟨image, isImage, ⟨j, found, sameNs, isName⟩⟩ := load_renames
      (grows_libraryCall (grows_openFile n)) (emplaced.found old) (emplaced.old old) loaded
    cases found.symm.trans (identity_edited (emplaced.found old) keep lookup)
    have opened : a.image e = some image := by
      unfold presented at *
      rwa [path] at isImage
    have named : (f i).name = a.newName e := by
      unfold OpenCall.newName
      rw [opened, isName, name]
    refine ⟨?_, f i, back ++ new, ?_, (keep i).trans emplaced.id, sameNs.trans isNs, named, ?_⟩
    · obtain ⟨oldMid, _, foundMid, -⟩ := first.next (emplaced.found old) (emplaced.old old)
      exact (second.next foundMid oldMid).1
    · rw [lookup, split, update_append, update_cons, if_pos emplaced.id, apart _ inFront,
        apart _ inBack, List.append_assoc, List.cons_append]
    · intro j member
      rw [← List.append_assoc] at member
      rcases List.mem_append.mp member with isOld | isNew
      · exact (old j (inLookup j isOld)).ne
      · have range := added.id_range j isNew
        have next := emplaced.fresh
        omega

/-- A new identity is found if it has the name and no identity in front of it has. -/
theorem openElf_finds_iff (old : s.Old)
    (run : openElf e (openFile e n) a ns s = some (some id, s')) :
    s'.findLibrary (some ns) name = some id ↔
      a.newName e = name ∧ ∀ j ∈ s.front a.priority, ¬ (j.ns = ns ∧ j.name = name) := by
  obtain ⟨-, i', back, lookup, isId, isNs, isName, others⟩ := openElf_placed old run
  have found : s'.findLibrary (some ns) name =
      ((s.front a.priority ++ i' :: back).find? fun j => ns = j.ns && name = j.name).map
        ObjectIdentity.id := by
    unfold Loader.findLibrary
    rw [lookup]
    rfl
  have matching (j : ObjectIdentity) :
      (decide (ns = j.ns) && decide (name = j.name)) ↔ j.ns = ns ∧ j.name = name := by
    rw [Bool.and_eq_true, decide_eq_true_iff, decide_eq_true_iff]
    exact and_congr eq_comm eq_comm
  rw [found, List.find?_append]
  cases first : (s.front a.priority).find? fun j => ns = j.ns && name = j.name with
  | some j =>
    -- an identity in front of the new one is found
    have isMatch := List.find?_some first
    have member := List.mem_of_find?_eq_some first
    constructor
    · intro same
      exact absurd (Option.some.inj same) (others j (List.mem_append_left back member))
    · intro ⟨_, absent⟩
      exact absurd ((matching j).mp isMatch) (absent j member)
  | none =>
    have absent : ∀ j ∈ s.front a.priority, ¬ (j.ns = ns ∧ j.name = name) := by
      intro j member isMatch
      exact List.find?_eq_none.mp first j member ((matching j).mpr isMatch)
    rw [List.find?_cons]
    by_cases named : a.newName e = name
    · have isMatch := (matching i').mpr ⟨isNs, isName.trans named⟩
      rw [isMatch]
      exact ⟨fun _ => ⟨named, absent⟩, fun _ => congrArg some isId⟩
    · have differs : (decide (ns = i'.ns) && decide (name = i'.name)) = false := by
        rw [Bool.eq_false_iff]
        exact fun isMatch => named (isName.symm.trans ((matching i').mp isMatch).2)
      rw [differs]
      refine ⟨fun same => ?_, fun both => absurd both.1 named⟩
      obtain ⟨j, last, isId'⟩ := Option.map_eq_some_iff.mp same
      have member := List.mem_append_right (s.front a.priority) (List.mem_of_find?_eq_some last)
      exact absurd isId' (others j member)

end OpenElf

/-! ## The call that makes the identity -/

/-- Addresses of identities were handed out before, now as then. -/
def Aged (s s' : Loader) : Prop := s.Old → s'.Old ∧ s.fresh ≤ s'.fresh

instance : IsPreorder Loader Aged where
  refl _ old := ⟨old, le_rfl⟩
  trans _ _ _ first second old :=
    ⟨(second (first old).1).1, (first old).2.trans (second (first old).1).2⟩

theorem Quiet.aged {s s' : Loader} (quiet : Quiet s s') : Aged s s' :=
  fun old => ⟨quiet.grows.old old, quiet.fresh⟩

section LastOpen

variable {e : Env} {a : OpenCall} {ns id : Nat} {s s' : Loader}

theorem aged_openFile (n : Nat) : ∀ a, Keeps Aged (openFile e n a) := by
  apply keeps_openFile
  · exact fun _ _ quiet => quiet.aged
  · exact fun s next old => ⟨old, le_rfl⟩
  · exact fun emplaced old => ⟨emplaced.old old, emplaced.fresh ▸ Nat.le_succ _⟩
  · intro n _ file memory type s result s' run old
    obtain ⟨i, found⟩ := load_found run
    have effect := load_edits (grows_libraryCall (grows_openFile n)) Loader.binds_univ run
    cases result with
    | none =>
      obtain ⟨u, k, -, edits⟩ := effect
      exact ⟨(edits.next found old).1, edits.fresh⟩
    | some r =>
      obtain ⟨o, mid, -, -, -, -, -, -, first, second⟩ := effect
      obtain ⟨oldMid, _, foundMid, -⟩ := first.next found old
      exact ⟨(second.next foundMid oldMid).1, first.fresh.trans second.fresh⟩
  · exact fun s file old => ⟨old, le_rfl⟩
  · exact fun s old => ⟨fun j member => old j (List.dropLast_subset _ member), le_rfl⟩

/-- The last call of `open` for an ELF file, which makes the identity: it opens one of the paths,
or a member of a static library there, in the state `s₀`. -/
structure LastOpen (e : Env) (s : Loader) (paths : List String) (priority : Bool) (ns i : Nat)
    (a : OpenCall) (s₀ s' : Loader) : Prop where
  since : Aged s s₀
  filepath : a.filepath ∈ paths
  priority : a.priority = priority
  opened : ∃ n, openElf e (openFile e n) a ns s₀ = some (some i, s')

theorem LastOpen.earlier {s1 s0 : Loader} {paths paths' : List String} {priority : Bool}
    (last : LastOpen e s1 paths priority ns i a s0 s') (first : Aged s s1) (more : paths ⊆ paths') :
    LastOpen e s paths' priority ns i a s0 s' :=
  ⟨trans_of Aged first last.since, more last.filepath, last.priority, last.opened⟩

/-- The result for a static library is that of its last regular member. -/
theorem openEntries_last (entries : List ArchiveEntry) (obj : Option Nat)
    (run : openEntries e (openFile e n) a ns obj entries s = some (some i, s')) :
    (obj = some i ∧ s' = s) ∨ ∃ (c : OpenCall) (s1 : Loader), Aged s s1 ∧
      c.filepath = a.filepath ∧ c.priority = a.priority ∧ c.ns = some ns ∧
      openFile e n c s1 = some (some i, s') := by
  induction entries generalizing obj s with
  | nil =>
    cases run
    exact .inl ⟨rfl, rfl⟩
  | cons entry entries ih =>
    unfold openEntries at run
    by_cases regular : entry.regular
    · rw [if_pos regular] at run
      obtain ⟨addr, s1, mapped, run⟩ := bind_inv run
      obtain ⟨result, s2, opened, run⟩ := bind_inv run
      have quiet : Quiet s s1 := frame_mapFile _ _ _ _ mapped
      rcases ih result run with ⟨isResult, rfl⟩ | ⟨c, s3, aged, filepath, priority, isNs, last⟩
      · subst isResult
        refine .inr ⟨_, s1, quiet.aged, ?_, ?_, ?_, opened⟩ <;> rfl
      · have both := trans_of Aged quiet.aged (aged_openFile n _ _ _ _ opened)
        exact .inr ⟨c, s3, trans_of Aged both aged, filepath, priority, isNs, last⟩
    · rw [if_neg regular] at run
      exact ih obj run

/-- A call of `open` that returns an identity ends with the call that makes it. -/
theorem openFile_last (run : openFile e n a s = some (some i, s')) :
    ∃ ns b s0, (∀ given, a.ns = some given → ns = given) ∧
      LastOpen e s [a.filepath] a.priority ns i b s0 s' := by
  induction n generalizing a s with
  | zero => cases run
  | succ n ih =>
    unfold openFile openStep at run
    cases isFormat : a.format e with
    | none =>
      rw [isFormat] at run
      cases run
    | some format =>
      rw [isFormat] at run
      obtain ⟨ns, s1, chosen, run⟩ := bind_inv run
      have choice : Aged s s1 ∧ ∀ given, a.ns = some given → ns = given := by
        cases isNs : a.ns <;> rw [isNs] at chosen <;> cases chosen
        · exact ⟨fun old => ⟨old, le_rfl⟩, fun given wrong => by cases wrong⟩
        · exact ⟨refl_of Aged s, fun given same => Option.some.inj same⟩
      cases format with
      | other => cases run
      | elf => exact ⟨ns, a, s1, choice.2, choice.1, List.mem_singleton_self _, rfl, n, run⟩
      | ar =>
        cases isArchive : (e.world.file a.filepath).bind File.archive with
        | none =>
          rw [isArchive] at run
          cases run
        | some entries =>
          rw [isArchive] at run
          rcases openEntries_last entries none run with
            ⟨wrong, -⟩ | ⟨c, s2, aged, filepath, priority, isNs, opened⟩
          · cases wrong
          · obtain ⟨ns', b, s0, same, last⟩ := ih opened
            rw [filepath, priority, same ns isNs] at last
            exact ⟨ns, b, s0, choice.2,
              last.earlier (trans_of Aged choice.1 aged) (List.Subset.refl _)⟩

/-- The files that `library` tries to open. -/
def candidates (e : Env) (filename : String) (rpath runpath : List String) : List String :=
  if filename = basename filename then
    (rpath ++ e.libraryPathRuntime ++ runpath ++ e.libraryPathConfig ++ e.libraryPathDefault).map
      fun directory => directory ++ "/" ++ filename
  else [filename]

variable {filename : String} {flags : Flags} {priority load : Bool} {rpath runpath : List String}
  {n i : Nat}

/-- If `library` does not find the name, it makes the identity it returns. -/
theorem library_last {given : Option Nat} (absent : s.findLibrary given (basename filename) = none)
    (run : library e (openFile e n) filename flags priority rpath runpath given load s =
      some (some i, s')) :
    ∃ ns a s0, (∀ ns', given = some ns' → ns = ns') ∧
      LastOpen e s (candidates e filename rpath runpath) priority ns i a s0 s' := by
  unfold library at run
  unfold candidates
  rw [bind_of_eq (get_apply s), absent] at run
  cases load with
  | false => cases run
  | true =>
    by_cases plain : filename = basename filename
    · rw [if_pos plain] at run ⊢
      obtain ⟨directory, member, s1, aged, opened⟩ :=
        firstOf_inv (R := Aged) (fun directory _ => aged_openFile n _) run
      obtain ⟨ns, a, s0, same, last⟩ := openFile_last opened
      refine ⟨ns, a, s0, same, last.earlier aged (List.cons_subset.mpr ⟨?_, List.nil_subset _⟩)⟩
      exact List.mem_map_of_mem member
    · rw [if_neg plain] at run ⊢
      exact openFile_last run

/-- A second call with the same arguments returns the same identity and leaves the list of
identities alone. -/
def FindsAgain (e : Env) (n : Nat) (filename : String) (flags : Flags) (priority : Bool)
    (rpath runpath : List String) (ns : Nat) (load : Bool) (i : Nat) (s' : Loader) : Prop :=
  ∃ s'', library e (openFile e n) filename flags priority rpath runpath (some ns) load s' =
    some (some i, s'') ∧ s''.lookup = s'.lookup

theorem findsAgain_iff (isOld : i < s'.fresh) (old : s'.Old) :
    FindsAgain e n filename flags priority rpath runpath ns load i s' ↔
      s'.findLibrary (some ns) (basename filename) = some i := by
  cases found : s'.findLibrary (some ns) (basename filename) with
  | some j =>
    have run : library e (openFile e n) filename flags priority rpath runpath (some ns) load s' =
        some (some j, s') := by
      rw [library_opened (.inr (found ▸ rfl)), found]
    constructor
    · intro ⟨s'', again, _⟩
      rw [run] at again
      cases again
      rfl
    · intro same
      exact ⟨s', same ▸ run, rfl⟩
  | none =>
    -- what a new call returns was not there before
    refine ⟨fun ⟨s'', again, _⟩ => ?_, fun wrong => by cases wrong⟩
    obtain ⟨_, a, s0, -, last⟩ := library_last found again
    obtain ⟨m, opened⟩ := last.opened
    have later := (last.since old).2
    have isFresh := openElf_new opened
    omega

/-- What `library` returns is returned by the next call with the same arguments, exactly if it
was found by its name, or if the identity that was made has the name that was asked for and no
identity in front of it has. -/
theorem library_again_iff (old : s.Old)
    (run : library e (openFile e n) filename flags priority rpath runpath (some ns) load s =
      some (some i, s')) :
    FindsAgain e n filename flags priority rpath runpath ns load i s' ↔
      (s.findLibrary (some ns) (basename filename)).isSome ∨
      ∃ a s₀, LastOpen e s (candidates e filename rpath runpath) priority ns i a s₀ s' ∧
        a.newName e = basename filename ∧
        ∀ j ∈ s₀.front priority, ¬ (j.ns = ns ∧ j.name = basename filename) := by
  cases found : s.findLibrary (some ns) (basename filename) with
  | some j =>
    rw [library_opened (Or.inr (found ▸ rfl)), found] at run
    cases run
    refine ⟨fun _ => Or.inl rfl, fun _ => ?_⟩
    refine ⟨s, ?_, rfl⟩
    rw [library_opened (Or.inr (found ▸ rfl)), found]
  | none =>
    obtain ⟨_, a, s₀, same, last⟩ := library_last found run
    cases same ns rfl
    obtain ⟨m, opened⟩ := last.opened
    have old0 := (last.since old).1
    obtain ⟨old', i', back, lookup, isId, -⟩ := openElf_placed old0 opened
    have isOld : i < s'.fresh := by
      rw [← isId]
      apply old'
      rw [lookup]
      exact List.mem_append_right _ List.mem_cons_self
    rw [findsAgain_iff isOld old']
    constructor
    · intro again
      refine Or.inr ⟨a, s₀, last, ?_⟩
      rw [← last.priority]
      exact (openElf_finds_iff old0 opened).mp again
    · rintro (wrong | ⟨b, s1, last', holds⟩)
      · cases wrong
      · obtain ⟨m', opened'⟩ := last'.opened
        rw [← last'.priority] at holds
        exact (openElf_finds_iff (last'.since old).1 opened').mpr holds

end LastOpen

/-! ## Two calls -/

/-- `library("liby.so")` without search paths of the caller. -/
def libraryY (e : Env) : LoaderM (Option Nat) :=
  library e (openFile e 1) "liby.so" Flags.zero false [] [] (some 0) true

/-- The call of `open` that it makes. -/
def callY : OpenCall := .inDirectory "liby.so" Flags.zero false (some 0) "/lib"

/-- The library has no `DT_SONAME`: it is found. -/
theorem library_again_iff_plain : ∃ i s', libraryY needsNothing .initial = some (some i, s') ∧
    FindsAgain needsNothing 1 "liby.so" Flags.zero false [] [] 0 true i s' := by
  have result : (openElf needsNothing (openFile needsNothing 0) callY 0 .initial).map Prod.fst =
      some (some 0) := by decide +kernel
  obtain ⟨⟨_, s'⟩, opened, rfl⟩ := Option.map_eq_some_iff.mp result
  have isFormat : callY.format needsNothing = some .elf := by decide +kernel
  have first : openFile needsNothing 1 callY .initial = some (some 0, s') := by
    unfold openFile openStep
    rw [isFormat]
    exact (bind_of_eq rfl).trans opened
  have plain : "liby.so" = basename "liby.so" := by decide +kernel
  have run : libraryY needsNothing .initial = some (some 0, s') := by
    have absent : Loader.initial.findLibrary (some 0) (basename "liby.so") = none := rfl
    have paths : [] ++ needsNothing.libraryPathRuntime ++ [] ++ needsNothing.libraryPathConfig ++
        needsNothing.libraryPathDefault = ["/lib"] := rfl
    unfold libraryY library
    rw [bind_of_eq (get_apply _), absent]
    dsimp only
    rw [Exec.ite_apply, if_neg (by decide), Exec.ite_apply, if_pos plain, paths]
    unfold firstOf
    exact bind_of_eq first
  have last : LastOpen needsNothing .initial (candidates needsNothing "liby.so" [] []) false 0 0
      callY .initial s' := ⟨refl_of Aged _, by decide +kernel, rfl, 0, opened⟩
  have old : Loader.initial.Old := fun i member => by cases member
  refine ⟨0, s', run, (library_again_iff old run).mpr (Or.inr ⟨callY, .initial, last, ?_, ?_⟩)⟩
  · decide +kernel
  · exact fun j member => by cases member

/-- The file `liby.so` has the `DT_SONAME` `liby.so.1`. -/
def sonameY : Env := fileY (File.ofElf 0 (Elf.library [.soname "liby.so.1"] [] []))

/-- What two calls return, and the identities after them. -/
def twiceY : LoaderM (Option Nat × Option Nat × List Nat) := do
  let first ← libraryY sonameY
  let second ← libraryY sonameY
  let s ← get
  return (first, second, s.lookup.map ObjectIdentity.id)

/-- The second call opens the file again. -/
theorem library_opens_twice : (twiceY .initial).map Prod.fst = some (some 0, some 4, [0, 4]) := by
  decide +kernel

end Luci
