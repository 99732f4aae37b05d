import Luci.Main
import Luci.Proofs.LibraryNames

/-!
# The lookup order at the start

`main` opens the target and then the libraries of the preload list, all with priority: they are
inserted before the first dependency. Dependencies are appended. So the list is in the order
target, what was loaded before, preloaded libraries, dependencies, after `run` has moved the
target to the front.

A library that is loaded already is found by its name and stays where it is. If it was loaded as
a dependency, it is not in front of the others although it is in the preload list.
-/

namespace Luci

open Exec

/-- The addresses of the identities, in the order of the lookup list. -/
def Loader.order (s : Loader) : List Nat := s.lookup.map ObjectIdentity.id

/-! ## Runs in which all loads succeed -/

/-- A call of `open` as the loader sees it, from the identities it has made. -/
def lastMade (openAll : OpenCall → LoaderM (Option (List Nat))) : OpenRec := fun a => do
  let made ← openAll a
  return made.bind List.getLast?

/-- The entries of a static library, all of which can be loaded. -/
def openAllEntries (e : Env) (openAll : OpenCall → LoaderM (Option (List Nat))) (a : OpenCall)
    (ns : Nat) : List ArchiveEntry → LoaderM (List Nat)
  | [] => return []
  | entry :: entries =>
    if entry.regular then do
      let addr ← mapFile e entry.image.size
      let made ← openAll { a with
        ns := some ns
        memory := some ⟨addr.getD 0x1000, entry.image⟩
        type := .none
        altname := some entry.name }
      let made ← orAbort made
      let others ← openAllEntries e openAll a ns entries
      return made ++ others
    else openAllEntries e openAll a ns entries

/-- `Loader::open` in a run in which all loads succeed: a file that exists and cannot be loaded,
here or as a dependency, ends the run. The result are the identities made for the file itself
(the dependencies are not among them), or `none` if there is no such file. -/
def openAll (e : Env) : Nat → OpenCall → LoaderM (Option (List Nat))
  | 0, _ => abort
  | n + 1, a =>
    match a.format e with
    | none => return none
    | some format => do
      let ns ← chooseNamespace a.ns
      match format with
      | .elf => do
        let i ← openElf e (lastMade (openAll e n)) a ns
        let i ← orAbort i
        return some [i]
      | .ar => do
        let entries ← orAbort ((e.world.file a.filepath).bind File.archive)
        let made ← openAllEntries e (openAll e n) a ns entries
        require (!made.isEmpty)
        return some made
      | .other => abort

/-- What became of a library of the preload list. -/
inductive Preloaded where
  | found (i : Nat)
  | opened (made : List Nat)

/-- The result of `Loader::library`. -/
def Preloaded.result : Preloaded → Option Nat
  | .found i => some i
  | .opened made => made.getLast?

/-- The identities that were made. -/
def Preloaded.made : Preloaded → List Nat
  | .found _ => []
  | .opened made => made

/-- The calls of `open` for a library of the preload list. -/
def preloadCalls (e : Env) (defaultFlags : Flags) (lib : String) : List OpenCall :=
  (candidates e lib [] []).map fun path =>
    ⟨path, defaultFlags, true, some namespaceBase, none, .none, none⟩

/-- `Loader::library` for a library of the preload list, in such a run. -/
def libraryAll (e : Env) (n : Nat) (defaultFlags : Flags) (lib : String) : LoaderM Preloaded := do
  let s ← get
  match s.findLibrary (some namespaceBase) (basename lib) with
  | some i => return .found i
  | none => do
    let made ← firstOf (openAll e n) (preloadCalls e defaultFlags lib)
    let made ← orAbort made
    return .opened made

/-- The loop over the preload list in such a run. -/
def preloadSure (e : Env) (n : Nat) (defaultFlags : Flags) : List String → LoaderM (List Preloaded)
  | [] => return []
  | lib :: preload => do
    let loaded ← libraryAll e n defaultFlags lib
    let others ← preloadSure e n defaultFlags preload
    return loaded :: others

/-- The identity of a target binary. -/
def theOnly : Option (List Nat) → Option Nat
  | some [i] => some i
  | _ => none

/-- `main` up to `run` for one target binary, in such a run. -/
def loadSure (e : Env) (n : Nat) (defaultFlags : Flags) (target : OpenCall) (preload : List String) :
    LoaderM (Nat × List Preloaded) := do
  let made ← openAll e n target
  let start ← orAbort (theOnly made)
  let loaded ← preloadSure e n defaultFlags preload
  return (start, loaded)

/-! ## They are runs of the loader -/

variable {lib : String} {a : OpenCall} {n start : Nat} {s s' : Loader} {new : List Nat}
  {loaded : Preloaded} {defaultFlags : Flags}

section Refinement

variable {e : Env} {library library' : LibraryCall} {openRec openRec' : OpenRec}

/-- Where one library call returns, the other returns the same. -/
def LibraryCall.Refines (library library' : LibraryCall) : Prop :=
  ∀ lib flags rpath runpath ns,
    Exec.Refines (library lib flags rpath runpath ns) (library' lib flags rpath runpath ns)

section Refines

variable (calls : library.Refines library')

include calls

theorem refines_preloadLibraries (r : ObjectRef) :
    Refines (preloadLibraries e library r) (preloadLibraries e library' r) := by
  refine refines_bind (.refl _) fun o => refines_bind (.refl _) fun _ => ?_
  refine refines_bind (.refl _) fun i => refines_eachOf (fun lib => ?_) _
  refine refines_ite (.refl _) ?_
  refine refines_bind (.refl _) fun i => refines_bind (.refl _) fun o => ?_
  exact refines_bind (calls _ _ _ _ _) fun dep => .refl _

theorem refines_employ (o : Object) (type : ElfType) :
    Refines (employ e library o type) (employ e library' o type) := by
  refine refines_bind (.refl _) fun _ => refines_bind ?_ fun _ => .refl _
  refine refines_bind ?_ fun ok => .refl _
  cases o.kind with
  | executable => exact .refl _
  | relocatable => exact .refl _
  | dynamic =>
    refine refines_bind (.refl _) fun ok => refines_ite ?_ (.refl _)
    exact refines_preloadLibraries calls o.ref

theorem refines_create (file : Nat) (op : Opened) :
    Refines (create e library file op) (create e library' file op) := by
  refine refines_bind (.refl _) fun i => refines_ite (.refl _) ?_
  refine refines_bind (.refl _) fun constructed => ?_
  cases constructed with
  | none => exact .refl _
  | some o =>
    refine refines_bind (.refl _) fun i => refines_ite ?_ (refines_employ calls o _)
    refine refines_bind (.refl _) fun ok => refines_ite ?_ (.refl _)
    exact refines_employ calls _ _

theorem refines_load (file : Nat) (memory : Option MemoryImage) (type : ElfType) :
    Refines (load e library file memory type) (load e library' file memory type) := by
  refine refines_bind (.refl _) fun opened => ?_
  cases opened with
  | error failure => exact .refl _
  | ok op => exact refines_bind (refines_create calls file op) fun result => .refl _

end Refines

theorem refines_library (opens : ∀ a, Refines (openRec a) (openRec' a)) (filename : String)
    (flags : Flags) (priority : Bool) (rpath runpath : List String) (ns : Option Nat) (load : Bool) :
    Refines (Luci.library e openRec filename flags priority rpath runpath ns load)
      (Luci.library e openRec' filename flags priority rpath runpath ns load) := by
  refine refines_bind (.refl _) fun s => ?_
  cases s.findLibrary ns (basename filename) with
  | some i => exact .refl _
  | none =>
    refine refines_ite (.refl _) (refines_ite ?_ (opens _))
    exact refines_firstOf (fun directory => opens _) _

theorem refines_openElf (opens : ∀ a, Refines (openRec a) (openRec' a)) (a : OpenCall) (ns : Nat) :
    Refines (openElf e openRec a ns) (openElf e openRec' a ns) := by
  refine refines_bind (.refl _) fun i => refines_bind ?_ fun object => .refl _
  refine refines_load (fun lib flags rpath runpath ns => ?_) i a.memory a.type
  exact refines_library opens lib flags false rpath runpath (some ns) true

/-- What `openAll` returns is what `open` returns. -/
def Describes (openAll : OpenCall → LoaderM (Option (List Nat))) (openRec : OpenRec) : Prop :=
  ∀ a s made s', openAll a s = some (made, s') → openRec a s = some (made.bind List.getLast?, s')

theorem Describes.refines {openAll : OpenCall → LoaderM (Option (List Nat))}
    (describes : Describes openAll openRec) (a : OpenCall) :
    Refines (lastMade openAll a) (openRec a) := by
  intro s r run
  obtain ⟨made, s1, opened, run⟩ := bind_inv run
  cases run
  exact describes a s made s1 opened

/-- There is no such file, or it is an ELF file or a static library. -/
theorem openAll_inv {made : Option (List Nat)} (run : openAll e (n + 1) a s = some (made, s')) :
    (a.format e = none ∧ made = none ∧ s' = s) ∨
    ∃ ns s1 all, chooseNamespace a.ns s = some (ns, s1) ∧ made = some all ∧ all ≠ [] ∧
      ((a.format e = some .elf ∧
        ∃ i, all = [i] ∧ openElf e (lastMade (openAll e n)) a ns s1 = some (some i, s')) ∨
      (a.format e = some .ar ∧ ∃ entries, (e.world.file a.filepath).bind File.archive = some entries ∧
        openAllEntries e (openAll e n) a ns entries s1 = some (all, s'))) := by
  unfold openAll at run
  cases isFormat : a.format e with
  | none =>
    rw [isFormat] at run
    cases run
    exact .inl ⟨rfl, rfl, rfl⟩
  | some format =>
    rw [isFormat] at run
    obtain ⟨ns, s1, chosen, run⟩ := bind_inv run
    cases format with
    | elf =>
      obtain ⟨i, s2, opened, run⟩ := bind_inv run
      obtain ⟨i, rfl, run⟩ := orAbort_bind_inv run
      cases run
      exact .inr ⟨ns, s1, [i], chosen, rfl, List.cons_ne_nil i [], .inl ⟨rfl, i, rfl, opened⟩⟩
    | ar =>
      obtain ⟨entries, isArchive, run⟩ := orAbort_bind_inv run
      obtain ⟨all, s2, opened, run⟩ := bind_inv run
      obtain ⟨nonempty, run⟩ := require_bind_inv run
      cases run
      refine .inr ⟨ns, s1, all, chosen, rfl, ?_, .inr ⟨rfl, entries, isArchive, opened⟩⟩
      simpa using nonempty
    | other => cases run

/-- The identities made for an existing file are not none at all. -/
theorem openAll_nonempty {made : List Nat} (run : openAll e n a s = some (some made, s')) :
    made ≠ [] := by
  cases n with
  | zero => cases run
  | succ n =>
    rcases openAll_inv run with ⟨-, wrong, -⟩ | ⟨_, _, all, -, same, nonempty, -⟩
    · cases wrong
    · exact Option.some.inj same ▸ nonempty

theorem openEntries_of_all {ns : Nat} (describes : Describes (openAll e n) openRec)
    (entries : List ArchiveEntry) :
    ∀ {obj : Option Nat} {s s' : Loader} {made : List Nat},
      openAllEntries e (openAll e n) a ns entries s = some (made, s') →
      openEntries e openRec a ns obj entries s = some (made.getLast?.or obj, s') := by
  induction entries with
  | nil =>
    intro obj s s' made run
    cases run
    rfl
  | cons entry entries ih =>
    intro obj s s' made run
    unfold openAllEntries at run
    unfold openEntries
    by_cases regular : entry.regular
    · rw [if_pos regular] at run ⊢
      obtain ⟨addr, s1, copied, run⟩ := bind_inv run
      obtain ⟨first, s2, opened, run⟩ := bind_inv run
      obtain ⟨first, isFirst, run⟩ := orAbort_bind_inv run
      obtain ⟨others, s3, rest, run⟩ := bind_inv run
      cases run
      subst isFirst
      have nonempty := openAll_nonempty opened
      rw [bind_of_eq copied, bind_of_eq (describes _ _ _ _ opened), ih rest]
      rw [List.getLast?_append, Option.bind_some, Option.or_assoc]
      rw [List.getLast?_eq_getLast_of_ne_nil nonempty, Option.some_or]
    · rw [if_neg regular] at run ⊢
      exact ih run

theorem describes_openAll (n : Nat) : Describes (openAll e n) (openFile e n) := by
  induction n with
  | zero =>
    intro a s made s' run
    cases run
  | succ n ih =>
    intro a s made s' run
    unfold openFile openStep
    rcases openAll_inv run with ⟨isFormat, rfl, rfl⟩ | ⟨ns, s1, all, chosen, rfl, -, opens⟩
    · rw [isFormat]
      rfl
    · rcases opens with ⟨isFormat, i, rfl, opened⟩ | ⟨isFormat, entries, isArchive, opened⟩
      · rw [isFormat]
        dsimp only
        rw [bind_of_eq chosen]
        exact refines_openElf ih.refines a ns _ _ opened
      · rw [isFormat]
        dsimp only
        rw [bind_of_eq chosen, isArchive]
        dsimp only
        rw [openEntries_of_all ih entries opened, Option.or_none, Option.bind_some]

theorem firstOf_of_all (calls : List OpenCall) : ∀ {s s' : Loader} {made : List Nat},
    firstOf (openAll e n) calls s = some (some made, s') →
      firstOf (openFile e n) calls s = some (made.getLast?, s') := by
  induction calls with
  | nil =>
    intro s s' made run
    cases run
  | cons a calls ih =>
    intro s s' made run
    obtain ⟨found, s1, opened, run⟩ := bind_inv run
    have isOpened := describes_openAll n a s found s1 opened
    unfold firstOf
    rw [bind_of_eq isOpened]
    cases found with
    | none => exact ih run
    | some first =>
      cases run
      have nonempty := openAll_nonempty opened
      rw [Option.bind_some, List.getLast?_eq_getLast_of_ne_nil nonempty]
      rfl

theorem library_of_all (run : libraryAll e n defaultFlags lib s = some (loaded, s')) :
    Luci.library e (openFile e n) lib defaultFlags true [] [] (some namespaceBase) true s =
      some (loaded.result, s') := by
  unfold libraryAll at run
  unfold Luci.library
  rw [bind_of_eq (get_apply s)] at run ⊢
  cases isFound : s.findLibrary (some namespaceBase) (basename lib) with
  | some i =>
    rw [isFound] at run
    cases run
    rfl
  | none =>
    rw [isFound] at run
    obtain ⟨made, s1, opened, run⟩ := bind_inv run
    obtain ⟨made, rfl, run⟩ := orAbort_bind_inv run
    cases run
    have searched := firstOf_of_all _ opened
    unfold preloadCalls candidates at searched
    by_cases plain : lib = basename lib
    · rw [if_pos plain] at searched ⊢
      rwa [List.map_map, firstOf_map] at searched
    · rw [if_neg plain] at searched ⊢
      rwa [List.map_singleton, firstOf_singleton] at searched

theorem preloadAll_of_sure (preload : List String) :
    ∀ {s s' : Loader} {loaded : List Preloaded},
      preloadSure e n defaultFlags preload s = some (loaded, s') →
      preloadAll e (openFile e n) defaultFlags preload s =
        some (loaded.map Preloaded.result, s') := by
  induction preload with
  | nil =>
    intro s s' loaded run
    cases run
    rfl
  | cons lib preload ih =>
    intro s s' loaded run
    obtain ⟨first, s1, isFirst, run⟩ := bind_inv run
    obtain ⟨others, s2, rest, run⟩ := bind_inv run
    cases run
    unfold preloadAll
    rw [bind_of_eq (library_of_all isFirst), bind_of_eq (ih rest)]
    rfl

theorem loadProgram_of_sure {target : OpenCall} {preload : List String} {loaded : List Preloaded}
    (run : loadSure e n defaultFlags target preload s = some ((start, loaded), s')) :
    loadProgram e (openFile e n) defaultFlags [target] preload s =
      some (some (start, loaded.map Preloaded.result), s') := by
  obtain ⟨made, s1, opened, run⟩ := bind_inv run
  obtain ⟨first, isFirst, run⟩ := orAbort_bind_inv run
  obtain ⟨others, s2, rest, run⟩ := bind_inv run
  cases run
  have isOpened := describes_openAll n target s made s1 opened
  have one : made.bind List.getLast? = some start := by
    unfold theOnly at isFirst
    split at isFirst
    · exact isFirst
    · cases isFirst
  rw [one] at isOpened
  have targets : openTargets (openFile e n) [target] s = some (some [start], s1) := by
    unfold openTargets
    rw [bind_of_eq isOpened]
    rfl
  unfold loadProgram
  rw [bind_of_eq targets]
  dsimp only [List.head?_cons]
  rw [orAbort_some, pure_bind, bind_of_eq (preloadAll_of_sure preload rest)]
  rfl

end Refinement

/-! ## Dependencies are appended -/

/-- New identities were appended; the first dependency is remembered. -/
structure Appended (new : List Nat) (s s' : Loader) : Prop where
  order : s'.order = s.order ++ new
  sorted : new.Pairwise (· < ·)
  lower : ∀ id ∈ new, s.fresh ≤ id
  upper : ∀ id ∈ new, id < s'.fresh
  fresh : s.fresh ≤ s'.fresh
  first : s'.dependencies = s.dependencies.or new.head?

/-- Some identities may have been appended. -/
def Appends (s s' : Loader) : Prop := ∃ new, Appended new s s'

theorem Appended.trans {new new' : List Nat} {s1 s2 s3 : Loader} (first : Appended new s1 s2)
    (second : Appended new' s2 s3) : Appended (new ++ new') s1 s3 where
  order := by rw [second.order, first.order, List.append_assoc]
  sorted := by
    refine List.pairwise_append.mpr ⟨first.sorted, second.sorted, fun id member id' member' => ?_⟩
    exact Nat.lt_of_lt_of_le (first.upper id member) (second.lower id' member')
  lower id member := by
    rcases List.mem_append.mp member with old | recent
    · exact first.lower id old
    · exact Nat.le_trans first.fresh (second.lower id recent)
  upper id member := by
    rcases List.mem_append.mp member with old | recent
    · exact Nat.lt_of_lt_of_le (first.upper id old) second.fresh
    · exact second.upper id recent
  fresh := Nat.le_trans first.fresh second.fresh
  first := by rw [second.first, first.first, Option.or_assoc, List.head?_append]

theorem appends_of_same (order : s'.order = s.order) (first : s'.dependencies = s.dependencies)
    (fresh : s.fresh ≤ s'.fresh) : Appends s s' := by
  refine ⟨[], ⟨?_, List.Pairwise.nil, ?_, ?_, fresh, ?_⟩⟩
  · rw [order, List.append_nil]
  · exact fun id member => nomatch member
  · exact fun id member => nomatch member
  · rw [first, List.head?_nil, Option.or_none]

instance : IsPreorder Loader Appends where
  refl _ := appends_of_same rfl rfl (Nat.le_refl _)
  trans _ _ _ := by
    rintro ⟨new, first⟩ ⟨new', second⟩
    exact ⟨new ++ new', first.trans second⟩

instance : FramedLoad Appends where
  unused _ _ _ _ _ more := appends_of_same rfl rfl more
  vm _ _ _ := appends_of_same rfl rfl (Nat.le_refl _)
  datarelContent _ _ := appends_of_same rfl rfl (Nat.le_refl _)
  identity _ _ _ keep := appends_of_same (Loader.ids_modifyIdentity keep) rfl (Nat.le_refl _)
  tls _ _ := appends_of_same rfl rfl (Nat.le_refl _)

theorem Quiet.appends (quiet : Quiet s s') : Appends s s' :=
  appends_of_same (congrArg (List.map ObjectIdentity.id) quiet.lookup) quiet.dependencies quiet.fresh

section Order

variable {e : Env} {library : LibraryCall} {openRec : OpenRec} {a : OpenCall} {ns i : Nat}
  {s s' : Loader} {m : Nat} {front back : List Nat}

theorem appends_load (calls : ∀ lib flags rpath runpath ns,
      Keeps Appends (library lib flags rpath runpath ns)) (file : Nat)
    (memory : Option MemoryImage) (type : ElfType) :
    Keeps Appends (load e library file memory type) := by
  refine keeps_bind (frame_openObject file memory type) fun opened => ?_
  cases opened with
  | error failure => exact keeps_bind (frame_initialHook file) fun _ => keeps_pure _
  | ok op =>
    refine keeps_bind ?_ fun result => ?_
    · refine frame_create (fun uid s segments => ?_) (fun uid s reloc sym => ?_)
        (fun lib flags rpath runpath ns _ => calls lib flags rpath runpath ns) file op frame_install
        fun o => ?_
      · exact appends_of_same rfl rfl le_rfl
      · exact appends_of_same rfl rfl le_rfl
      · exact (quiet_release o).mono fun _ _ quiet => quiet.appends
    · refine keeps_bind (frame_afterCreate file op.data result.1) fun _ => ?_
      exact keeps_bind (frame_initialHook file) fun _ => keeps_pure _

/-- The list consists of what was opened with priority, and of the dependencies, the first of which
is remembered. The dependencies have been opened since the address `m` was handed out. -/
structure Split (m : Nat) (front back : List Nat) (s : Loader) : Prop where
  order : s.order = front ++ back
  first : s.dependencies = back.head?
  sorted : back.Pairwise (· < ·)
  recent : ∀ id ∈ back, m ≤ id
  start : m ≤ s.fresh
  nodup : (front ++ back).Nodup
  old : ∀ id ∈ front ++ back, id < s.fresh

theorem Split.appended (split : Split m front back s) (appended : Appended new s s') :
    Split m front (back ++ new) s' where
  order := by rw [appended.order, split.order, List.append_assoc]
  first := by rw [appended.first, split.first, List.head?_append]
  sorted := by
    refine List.pairwise_append.mpr ⟨split.sorted, appended.sorted, fun id member id' member' => ?_⟩
    exact Nat.lt_of_lt_of_le (split.old id (List.mem_append_right _ member))
      (appended.lower id' member')
  recent id member := by
    rcases List.mem_append.mp member with old | recent
    · exact split.recent id old
    · exact Nat.le_trans split.start (appended.lower id recent)
  start := Nat.le_trans split.start appended.fresh
  nodup := by
    rw [← List.append_assoc]
    refine List.nodup_append.mpr ⟨split.nodup, ?_, fun id member id' member' same => ?_⟩
    · exact appended.sorted.imp Nat.ne_of_lt
    · have before := split.old id member
      have behind := appended.lower id' member'
      omega
  old id member := by
    rw [← List.append_assoc] at member
    rcases List.mem_append.mp member with old | recent
    · exact Nat.lt_of_lt_of_le (split.old id old) appended.fresh
    · exact appended.upper id recent

theorem emplaceIdentity_order (run : emplaceIdentity e a ns s = some (i, s')) :
    i = s.fresh ∧ s'.fresh = s.fresh + 1 ∧
      s'.dependencies = (if a.priority then s.dependencies else s.dependencies.or (some i)) ∧
      ∃ identity : ObjectIdentity, identity.id = i ∧ s.emplace a.priority identity = some s'.lookup := by
  obtain ⟨rfl, identity, emplaced, -⟩ := emplaceIdentity_made run
  refine ⟨rfl, emplaced.fresh, ?_, identity, emplaced.id, emplaced.lookup⟩
  obtain ⟨address, s1, fresh, run⟩ := bind_inv run
  cases fresh
  obtain ⟨identity, -, run⟩ := orAbort_bind_inv run
  rw [bind_of_eq (get_apply _)] at run
  obtain ⟨lookup, -, run⟩ := orAbort_bind_inv run
  cases run
  cases a.priority with
  | true => rfl
  | false =>
    cases known : s.dependencies with
    | none => simp
    | some d => simp

theorem emplaceIdentity_appends (last : a.priority = false)
    (run : emplaceIdentity e a ns s = some (i, s')) : Appended [i] s s' := by
  obtain ⟨rfl, fresh, dependencies, identity, isId, placed⟩ := emplaceIdentity_order run
  rw [last] at dependencies placed
  refine ⟨?_, List.pairwise_singleton _ _, ?_, ?_, by omega, dependencies⟩
  · have lookup : s.lookup ++ [identity] = s'.lookup := Option.some.inj placed
    rw [Loader.order, ← lookup, List.map_append, List.map_singleton, isId]
    rfl
  · intro id member
    rw [List.mem_singleton.mp member]
  · intro id member
    rw [List.mem_singleton.mp member]
    omega

/-- The remembered dependency separates the two parts. -/
theorem Split.parts {d : Nat} (split : Split m front back s) (known : s.dependencies = some d) :
    s.order.takeWhile (fun id => id ≠ d) = front ∧ s.order.dropWhile (fun id => id ≠ d) = back := by
  have first := split.first
  rw [known] at first
  obtain ⟨rest, rfl⟩ := List.head?_eq_some_iff.mp first.symm
  have others : ∀ id ∈ front, decide (id ≠ d) := by
    intro id member
    rw [decide_eq_true_eq]
    exact (List.nodup_append.mp split.nodup).2.2 id member d List.mem_cons_self
  rw [split.order, List.takeWhile_append_of_pos others, List.dropWhile_append_of_pos others]
  simp

/-- Inserting before the first dependency. -/
theorem Split.emplaced (split : Split m front back s) (priority : a.priority)
    (run : emplaceIdentity e a ns s = some (i, s')) : Split m (front ++ [i]) back s' := by
  obtain ⟨rfl, fresh, dependencies, identity, isId, placed⟩ := emplaceIdentity_order run
  rw [priority] at dependencies placed
  have order : s'.order = front ++ [s.fresh] ++ back := by
    cases known : s.dependencies with
    | none =>
      unfold Loader.emplace at placed
      rw [known] at placed
      have none : back = [] := by rw [← List.head?_eq_none_iff, ← split.first, known]
      have lookup : s.lookup ++ [identity] = s'.lookup := Option.some.inj placed
      have before : s.lookup.map ObjectIdentity.id = front ++ back := split.order
      rw [Loader.order, ← lookup, List.map_append, List.map_singleton, isId, before, none,
        List.append_nil, List.append_nil]
    | some d =>
      unfold Loader.emplace at placed
      rw [known] at placed
      obtain ⟨before, behind⟩ := split.parts known
      rw [Loader.order, List.takeWhile_map] at before
      rw [Loader.order, List.dropWhile_map] at behind
      have inserted := KeyedList.insertBefore_split placed
      rw [Loader.order, inserted, List.map_append, List.map_cons, isId, List.append_assoc]
      congr 1
      exact congrArg _ behind
  have perm : (front ++ [s.fresh] ++ back).Perm (s.fresh :: (front ++ back)) := by
    rw [List.append_assoc]
    exact List.perm_middle
  refine ⟨order, dependencies.trans split.first, split.sorted, split.recent,
    Nat.le_trans split.start (by omega), ?_, fun id member => ?_⟩
  · rw [perm.nodup_iff, List.nodup_cons]
    exact ⟨fun member => Nat.lt_irrefl _ (split.old _ member), split.nodup⟩
  · rcases List.mem_cons.mp (perm.mem_iff.mp member) with rfl | old
    · omega
    · have := split.old id old
      omega

/-- A file that can be loaded: its identity was put into the list, and then dependencies were
appended. -/
theorem openElf_opened
    (nested : ∀ b : OpenCall, b.priority = false → Keeps Appends (openRec b))
    (run : openElf e openRec a ns s = some (some i, s')) :
    ∃ s1, emplaceIdentity e a ns s = some (i, s1) ∧ Appends s1 s' := by
  obtain ⟨_, s1, object, s2, emplace, -, -, loads, ending⟩ := openElf_inv run
  cases object with
  | none => cases ending.1
  | some r =>
    obtain ⟨isFresh, rfl⟩ := ending
    cases isFresh
    refine ⟨s1, emplace, ?_⟩
    have calls : ∀ lib flags rpath runpath ns,
        Keeps Appends (libraryCall e openRec lib flags rpath runpath ns) := by
      intro lib flags rpath runpath ns
      exact keeps_library (fun b last _ => nested b last) lib rpath runpath true
    have loaded : Appends s1 s2 := appends_load calls _ a.memory a.type s1 _ s2 loads
    refine trans_of Appends loaded ?_
    exact appends_of_same rfl rfl le_rfl

theorem appends_chooseNamespace (ns : Option Nat) : Keeps Appends (chooseNamespace ns) := by
  cases ns with
  | some ns => exact keeps_pure ns
  | none =>
    rintro s next s' ⟨⟩
    exact appends_of_same rfl rfl le_rfl

theorem appends_lastMade {openAll : OpenCall → LoaderM (Option (List Nat))}
    (opens : ∀ b : OpenCall, b.priority = false → Keeps Appends (openAll b)) (b : OpenCall)
    (last : b.priority = false) : Keeps Appends (lastMade openAll b) :=
  keeps_bind (opens b last) fun _ => keeps_pure _

theorem appends_openAll (n : Nat) : ∀ a : OpenCall, a.priority = false →
    Keeps Appends (openAll e n a) := by
  induction n with
  | zero => exact fun a _ => keeps_abort
  | succ n ih =>
    intro a last
    unfold openAll
    cases a.format e with
    | none => exact keeps_pure none
    | some format =>
      refine keeps_bind (appends_chooseNamespace _) fun ns => ?_
      cases format with
      | elf =>
        intro s made s' run
        obtain ⟨i, s1, opened, run⟩ := bind_inv run
        obtain ⟨i, rfl, run⟩ := orAbort_bind_inv run
        cases run
        obtain ⟨s1, emplaced, appended⟩ := openElf_opened (appends_lastMade ih) opened
        exact trans_of Appends ⟨[i], emplaceIdentity_appends last emplaced⟩ appended
      | ar =>
        apply keeps_bind (keeps_orAbort (R := Appends) _)
        intro entries
        refine keeps_bind ?_ fun made => ?_
        · induction entries with
          | nil => exact keeps_pure []
          | cons entry entries rest =>
            refine keeps_ite (fun _ => ?_) fun _ => rest
            refine keeps_bind (frame_mapFile _) fun addr => keeps_bind (ih _ last) fun made => ?_
            apply keeps_bind (keeps_orAbort (R := Appends) _)
            intro first
            exact keeps_bind rest fun others => keeps_pure _
        · apply keeps_bind (keeps_require (R := Appends) _)
          exact fun _ => keeps_pure _
      | other => exact keeps_abort

theorem Split.appends (split : Split m front back s) (appends : Appends s s') :
    ∃ new, Split m front (back ++ new) s' := by
  obtain ⟨new, appended⟩ := appends
  exact ⟨new, split.appended appended⟩

/-! ## Files opened with priority are inserted before them -/

/-- What a call with priority does. -/
def Inserts (openAll : OpenCall → LoaderM (Option (List Nat))) : Prop :=
  ∀ (a : OpenCall) (m : Nat) (front back made : List Nat) (s s' : Loader), Split m front back s →
    openAll a s = some (some made, s') → a.priority = true →
    ∃ new, Split m (front ++ made) (back ++ new) s'

theorem Split.openAllEntries {openAll : OpenCall → LoaderM (Option (List Nat))}
    (inserts : Inserts openAll) (priority : a.priority) (entries : List ArchiveEntry) :
    ∀ {front back made : List Nat} {s : Loader}, Split m front back s →
      openAllEntries e openAll a ns entries s = some (made, s') →
      ∃ new, Split m (front ++ made) (back ++ new) s' := by
  induction entries with
  | nil =>
    intro front back made s split run
    cases run
    exact ⟨[], by rwa [List.append_nil, List.append_nil]⟩
  | cons entry entries ih =>
    intro front back made s split run
    unfold Luci.openAllEntries at run
    rw [Exec.ite_apply] at run
    split at run
    · obtain ⟨addr, s1, copied, run⟩ := bind_inv run
      obtain ⟨first, s2, opened, run⟩ := bind_inv run
      obtain ⟨first, isFirst, run⟩ := orAbort_bind_inv run
      obtain ⟨others, s3, rest, run⟩ := bind_inv run
      cases run
      subst isFirst
      obtain ⟨new1, split1⟩ := split.appends (frame_mapFile _ _ _ _ copied)
      obtain ⟨new2, split2⟩ := inserts _ m _ _ _ _ _ split1 opened priority
      obtain ⟨new3, split3⟩ := ih split2 rest
      refine ⟨new1 ++ new2 ++ new3, ?_⟩
      simpa only [List.append_assoc] using split3
    · exact ih split run

theorem inserts_openAll (n : Nat) : Inserts (openAll e n) := by
  induction n with
  | zero =>
    intro a m front back made s s' split run priority
    cases run
  | succ n ih =>
    intro a m front back made s s' split run priority
    rcases openAll_inv run with ⟨-, wrong, -⟩ | ⟨ns, s1, all, chosen, same, -, opens⟩
    · cases wrong
    · cases same
      obtain ⟨new1, split1⟩ := split.appends (appends_chooseNamespace _ _ _ _ chosen)
      rcases opens with ⟨-, i, rfl, opened⟩ | ⟨-, entries, -, opened⟩
      · obtain ⟨s3, emplaced, appended⟩ :=
          openElf_opened (appends_lastMade (appends_openAll n)) opened
        obtain ⟨new2, split2⟩ := (split1.emplaced priority emplaced).appends appended
        exact ⟨new1 ++ new2, by rwa [← List.append_assoc]⟩
      · obtain ⟨new2, split2⟩ := split1.openAllEntries ih priority entries opened
        exact ⟨new1 ++ new2, by rwa [← List.append_assoc]⟩

/-! ## The preload list -/

/-- The identities from the first dependency on. -/
def Loader.dependencyPart (s : Loader) : List Nat :=
  match s.dependencies with
  | none => []
  | some d => s.order.dropWhile fun id => id ≠ d

theorem Split.dependencyPart (split : Split m front back s) : s.dependencyPart = back := by
  unfold Loader.dependencyPart
  cases known : s.dependencies with
  | none =>
    have first := split.first
    rw [known] at first
    exact (List.head?_eq_none_iff.mp first.symm).symm
  | some d => exact (split.parts known).2

/-- Whenever a library of the list is loaded already at its turn, it was not loaded as a
dependency. -/
def Careful (e : Env) (n : Nat) (defaultFlags : Flags) : List String → Loader → Prop
  | [], _ => True
  | lib :: preload, s =>
    (∀ i, s.findLibrary (some namespaceBase) (basename lib) = some i → i ∉ s.dependencyPart) ∧
      ∀ loaded s₁, Luci.library e (openFile e n) lib defaultFlags true [] [] (some namespaceBase)
        true s = some (loaded, s₁) → Careful e n defaultFlags preload s₁

theorem findLibrary_mem {ns : Option Nat} {name : String} (found : s.findLibrary ns name = some i) :
    i ∈ s.order := by
  obtain ⟨ns, -, found⟩ := Option.bind_eq_some_iff.mp found
  obtain ⟨identity, isFound, rfl⟩ := Option.map_eq_some_iff.mp found
  exact List.mem_map_of_mem (List.mem_of_find?_eq_some isFound)

theorem openAll_missing (run : openAll e n a s = some (none, s')) : s' = s := by
  cases n with
  | zero => cases run
  | succ n =>
    rcases openAll_inv run with ⟨-, -, same⟩ | ⟨_, _, _, -, wrong, -⟩
    · exact same
    · cases wrong

theorem firstOf_openAll (calls : List OpenCall) : ∀ {s : Loader} {made : List Nat},
    firstOf (openAll e n) calls s = some (some made, s') →
      ∃ b ∈ calls, openAll e n b s = some (some made, s') := by
  induction calls with
  | nil =>
    intro s made run
    cases run
  | cons b calls ih =>
    intro s made run
    obtain ⟨found, s1, opened, run⟩ := bind_inv run
    cases found with
    | some first =>
      cases run
      exact ⟨b, List.mem_cons_self, opened⟩
    | none =>
      rw [openAll_missing opened] at run
      obtain ⟨c, member, isOpened⟩ := ih run
      exact ⟨c, List.mem_cons_of_mem b member, isOpened⟩

/-- One library of the list: it is found, or inserted behind the ones before it. -/
theorem Split.libraryAll (split : Split m front back s)
    (run : libraryAll e n defaultFlags lib s = some (loaded, s')) :
    (∃ new, Split m (front ++ loaded.made) (back ++ new) s') ∧
      ∀ i, loaded.result = some i → i ∈ loaded.made ∨
        s.findLibrary (some namespaceBase) (basename lib) = some i := by
  unfold Luci.libraryAll at run
  rw [bind_of_eq (get_apply s)] at run
  cases isFound : s.findLibrary (some namespaceBase) (basename lib) with
  | some i =>
    rw [isFound] at run
    cases run
    refine ⟨⟨[], ?_⟩, fun j result => .inr result⟩
    rwa [Preloaded.made, List.append_nil, List.append_nil]
  | none =>
    rw [isFound] at run
    obtain ⟨made, s1, opened, run⟩ := bind_inv run
    obtain ⟨made, rfl, run⟩ := orAbort_bind_inv run
    cases run
    obtain ⟨b, member, isOpened⟩ := firstOf_openAll _ opened
    obtain ⟨path, -, rfl⟩ := List.mem_map.mp member
    exact ⟨inserts_openAll n _ m _ _ _ _ _ split isOpened rfl,
      fun i result => .inl (List.mem_of_getLast? result)⟩

/-- The whole list: what was made for it follows what was there, in the order of the list, and is
in front of all dependencies. -/
theorem Split.preloadSure (preload : List String) :
    ∀ {front back : List Nat} {s : Loader} {loaded : List Preloaded}, Split m front back s →
      preloadSure e n defaultFlags preload s = some (loaded, s') →
      Careful e n defaultFlags preload s →
      (∃ new, Split m (front ++ loaded.flatMap Preloaded.made) (back ++ new) s') ∧
        ∀ o ∈ loaded, ∀ i, o.result = some i → i ∈ front ++ loaded.flatMap Preloaded.made := by
  induction preload with
  | nil =>
    intro front back s loaded split run careful
    cases run
    refine ⟨⟨[], ?_⟩, fun o member => nomatch member⟩
    rwa [List.flatMap_nil, List.append_nil, List.append_nil]
  | cons lib preload ih =>
    intro front back s loaded split run careful
    obtain ⟨first, s1, isFirst, run⟩ := bind_inv run
    obtain ⟨others, s2, rest, run⟩ := bind_inv run
    cases run
    obtain ⟨⟨new1, split1⟩, results⟩ := split.libraryAll isFirst
    obtain ⟨⟨new2, split2⟩, inFront⟩ := ih split1 rest (careful.2 _ _ (library_of_all isFirst))
    rw [List.flatMap_cons, ← List.append_assoc]
    refine ⟨⟨new1 ++ new2, by rwa [← List.append_assoc]⟩, fun o member i result => ?_⟩
    rcases List.mem_cons.mp member with rfl | other
    · apply List.mem_append_left
      rcases results i result with made | found
      · exact List.mem_append_right _ made
      · have inList := findLibrary_mem found
        have unmoved := careful.1 i found
        rw [split.order] at inList
        rw [split.dependencyPart] at unmoved
        rcases List.mem_append.mp inList with before | dependency
        · exact List.mem_append_left _ before
        · exact absurd dependency unmoved
    · exact inFront o other i result

theorem moveFront_order {front rest : List Nat} (order : s.order = front ++ start :: rest)
    (nodup : (front ++ start :: rest).Nodup) :
    (s.moveFront start).order = start :: (front ++ rest) := by
  have different : ∀ id ∈ front ++ rest, id ≠ start := by
    rw [List.perm_middle.nodup_iff, List.nodup_cons] at nodup
    intro id member same
    exact nodup.1 (same ▸ member)
  have others : ∀ l : List Nat, (∀ id ∈ l, id ≠ start) →
      l.filter (fun id => id = start) = [] ∧ l.filter (fun id => id ≠ start) = l := by
    intro l apart
    rw [List.filter_eq_nil_iff, List.filter_eq_self]
    exact ⟨fun id member => by simpa using apart id member,
      fun id member => by simpa using apart id member⟩
  obtain ⟨front1, front2⟩ := others front fun id member => different id (List.mem_append_left _ member)
  obtain ⟨rest1, rest2⟩ := others rest fun id member => different id (List.mem_append_right _ member)
  have moved : (s.moveFront start).order =
      s.order.filter (fun id => id = start) ++ s.order.filter fun id => id ≠ start := by
    unfold Loader.order Loader.moveFront
    rw [List.map_append, List.filter_map, List.filter_map]
    rfl
  rw [moved, order, List.filter_append, List.filter_append, front1, front2,
    List.filter_cons_of_pos (by simp), List.filter_cons_of_neg (by simp), rest1, rest2]
  rfl

end Order

/-- When `run` has moved the target to the front, the list consists of the target, of what was
loaded before, of the libraries of the preload list in their order, and of the dependencies in
the order in which they were opened; every library of the list precedes all dependencies. -/
theorem start_order {e : Env} {n start : Nat} {defaultFlags : Flags} {target : OpenCall}
    {preload : List String} {s s' : Loader} {loaded : List Preloaded}
    (priority : target.priority = true) (fresh : s.dependencies = none) (nodup : s.order.Nodup)
    (old : s.Old)
    (run : loadSure e n defaultFlags target preload s = some ((start, loaded), s'))
    (careful : ∀ made s₁, openFile e n target s = some (made, s₁) →
      Careful e n defaultFlags preload s₁) :
    loadProgram e (openFile e n) defaultFlags [target] preload s =
        some (some (start, loaded.map Preloaded.result), s') ∧
      ∃ deps, (s'.moveFront start).order =
          start :: (s.order ++ loaded.flatMap Preloaded.made ++ deps) ∧
        (s'.moveFront start).order.Nodup ∧ deps.Pairwise (· < ·) ∧ (∀ d ∈ deps, s.fresh ≤ d) ∧
        ∀ o ∈ loaded, ∀ i, o.result = some i → ∀ d ∈ deps,
          [i, d].Sublist (s'.moveFront start).order := by
  refine ⟨loadProgram_of_sure run, ?_⟩
  have initially : Split s.fresh s.order [] s := by
    refine ⟨(List.append_nil _).symm, fresh, .nil, by simp, Nat.le_refl _,
      by rwa [List.append_nil], fun id member => ?_⟩
    rw [List.append_nil] at member
    obtain ⟨i, isIdentity, rfl⟩ := List.mem_map.mp member
    exact old i isIdentity
  obtain ⟨made, s₁, opened, run⟩ := bind_inv run
  obtain ⟨first, isFirst, run⟩ := orAbort_bind_inv run
  obtain ⟨others, s2, rest, run⟩ := bind_inv run
  cases run
  have one : made = some [start] := by
    unfold theOnly at isFirst
    split at isFirst
    · cases isFirst
      rfl
    · cases isFirst
  subst one
  obtain ⟨new1, split1⟩ := inserts_openAll n target _ _ _ _ _ _ initially opened priority
  obtain ⟨⟨new2, split2⟩, inFront⟩ :=
    split1.preloadSure preload rest (careful _ _ (describes_openAll n _ _ _ _ opened))
  have order : s'.order =
      s.order ++ start :: (loaded.flatMap Preloaded.made ++ (new1 ++ new2)) := by
    rw [split2.order]
    simp
  have distinct := split2.nodup
  rw [← split2.order, order] at distinct
  have moved := moveFront_order order distinct
  rw [← List.append_assoc] at moved
  refine ⟨new1 ++ new2, moved, ?_, split2.sorted, split2.recent, fun o member i result d isDep => ?_⟩
  · rw [moved, List.append_assoc]
    exact List.perm_middle.nodup_iff.mp distinct
  · rw [moved]
    have before : i ∈ start :: (s.order ++ loaded.flatMap Preloaded.made) := by
      have inList := inFront o member i result
      rw [List.append_assoc, List.singleton_append, List.mem_append, List.mem_cons] at inList
      rw [List.mem_cons, List.mem_append]
      tauto
    exact (List.singleton_sublist.mpr before).append (List.singleton_sublist.mpr isDep)

/-! ## A library that is also a dependency -/

/-- A program that needs these libraries, and the libraries `liby.so` and `libz.so`. -/
def programNeeds (needed : List String) : Env :=
  Env.reference Config.default fun path =>
    if path = "/bin/x" then some (File.ofElf 0 (Elf.library (needed.map .needed) [] []))
    else if path = "/lib/liby.so" ∨ path = "/lib/libz.so" then
      some (File.ofElf 0 (Elf.library [] [] []))
    else none

/-- `main` for the program, with `libz.so` as the preload list. -/
def startX (needed : List String) : Option ((Nat × List Preloaded) × Loader) :=
  loadSure (programNeeds needed) 3 .zero (targetCall .zero "/bin/x") ["libz.so"] .initial

theorem start_order_preloaded : ∃ start y z s', (s'.moveFront start).order = [start, z, y] ∧
    loadProgram (programNeeds ["liby.so"]) (openFile (programNeeds ["liby.so"]) 3) .zero
      [targetCall .zero "/bin/x"] ["libz.so"] .initial = some (some (start, [some z]), s') := by
  have loads : ((startX ["liby.so"]).map fun r =>
      (r.1.1, r.1.2.map Preloaded.result, (r.2.moveFront r.1.1).order)) =
      some (0, [some 6], [0, 6, 3]) := by decide +kernel
  have careful : ((openFile (programNeeds ["liby.so"]) 3 (targetCall .zero "/bin/x") .initial).map
      fun r => r.2.findLibrary (some namespaceBase) (basename "libz.so")) = some none := by
    decide +kernel
  obtain ⟨⟨⟨start, loaded⟩, s'⟩, run, isResult⟩ := Option.map_eq_some_iff.mp loads
  simp only [Prod.mk.injEq] at isResult
  obtain ⟨rfl, results, order⟩ := isResult
  have old : Loader.initial.Old := by
    intro i member
    cases member
  obtain ⟨runs, -⟩ := start_order rfl rfl (by decide) old run (by
    intro made s1 opened
    rw [opened, Option.map_some, Option.some.injEq] at careful
    refine ⟨fun i found => ?_, fun _ _ _ => trivial⟩
    rw [careful] at found
    cases found)
  rw [results] at runs
  exact ⟨_, _, _, s', order, runs⟩

/-- `libz.so` is in the preload list and needed by the program, behind `liby.so`: it stays behind
`liby.so`, which was loaded only as a dependency. -/
theorem start_order_dependency : ∃ start y z s', (s'.moveFront start).order = [start, y, z] ∧
    (∃ loaded, startX ["liby.so", "libz.so"] = some ((start, loaded), s') ∧
      loaded.map Preloaded.result = [some z] ∧ loaded.flatMap Preloaded.made = []) ∧
    loadProgram (programNeeds ["liby.so", "libz.so"])
      (openFile (programNeeds ["liby.so", "libz.so"]) 3) .zero [targetCall .zero "/bin/x"]
      ["libz.so"] .initial = some (some (start, [some z]), s') := by
  have loads : ((startX ["liby.so", "libz.so"]).map fun r =>
      (r.1.1, r.1.2.map Preloaded.result, r.1.2.flatMap Preloaded.made,
        (r.2.moveFront r.1.1).order)) = some (0, [some 6], [], [0, 3, 6]) := by decide +kernel
  obtain ⟨⟨⟨start, loaded⟩, s'⟩, run, isResult⟩ := Option.map_eq_some_iff.mp loads
  simp only [Prod.mk.injEq] at isResult
  obtain ⟨rfl, results, made, order⟩ := isResult
  have runs := loadProgram_of_sure run
  rw [results] at runs
  exact ⟨_, _, _, s', order, ⟨loaded, run, results, made⟩, runs⟩

end Luci
