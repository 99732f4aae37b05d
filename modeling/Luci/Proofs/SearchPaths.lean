import Luci.Misc.Replace
import Luci.Object.Dynamic
import Luci.Reference

/-!
# Search paths of a library

`DT_RPATH` and `DT_RUNPATH` hold directories separated by colons, in which `$ORIGIN`, `$LIB` and
`$PLATFORM` stand for strings known at run time. `ObjectDynamic::addpath`
(`src/object/dynamic.cpp:74-127`) splits the string, but expands the whole of it for every part
as soon as there is a `$` anywhere, and it finds the directory of the file by cutting as many
characters off the path as the name has, which may be the `DT_SONAME` and not the file name.
-/

namespace Luci

open Exec

variable {p : String} {s : Loader} {i : ObjectIdentity}

/-- What is assumed of the string functions of dlh: they split at every colon, and replace all
occurrences. -/
structure Libs.Strings (libs : Libs) : Prop where
  split : ∀ text, libs.splitInplace text = (text.toList.splitOn ':').map String.ofList
  replace : ∀ text token value, libs.replaceInplace text token value =
    String.ofList (replaceAll token.toList value.toList text.toList)

/-- The tokens and what they stand for, in the order of `addpath`. -/
def pathTokens (origin platform : String) : List (String × String) :=
  [("$ORIGIN", origin), ("$\x7bORIGIN\x7d", origin), ("$LIB", "lib64"),
    ("$\x7bLIB\x7d", "lib64"), ("$PLATFORM", platform), ("$\x7bPLATFORM\x7d", platform)]

/-- The tokens as texts. -/
def charTokens (tokens : List (String × String)) : List (List Char × List Char) :=
  tokens.map fun entry => (entry.1.toList, entry.2.toList)

/-- What a search path is meant to become: every token in it is replaced. -/
def expandPath (origin platform path : String) : String :=
  String.ofList (replaceEach (charTokens (pathTokens origin platform)) path.toList)

/-- A path that does not depend on where the file is. -/
def WithoutOrigin (path : String) : Prop :=
  ¬ "$ORIGIN".toList <:+: path.toList ∧ ¬ "$\x7bORIGIN\x7d".toList <:+: path.toList

variable {e : Env} {origin directory platform base name path : String} {components : List String}

theorem expand_eq (strings : e.libs.Strings) (tokens : List (String × String)) (text : String) :
    tokens.foldl (fun text (token, value) => e.libs.replaceInplace text token value) text =
      String.ofList (replaceEach (charTokens tokens) text.toList) := by
  induction tokens generalizing text with
  | nil => exact String.ofList_toList.symm
  | cons entry tokens ih =>
    rw [List.foldl_cons, ih]
    dsimp only
    rw [strings.replace, String.toList_ofList]
    rfl

theorem charTokens_form : ∀ entry ∈ charTokens (pathTokens origin platform),
    '$' ∈ entry.1 ∧ ':' ∉ entry.1 ∧ '/' ∉ entry.1 := by
  unfold charTokens pathTokens
  simp

theorem charTokens_nonempty : ∀ entry ∈ charTokens (pathTokens origin platform), entry.1 ≠ [] :=
  fun entry member => List.ne_nil_of_mem (charTokens_form entry member).1

theorem expandPath_plain (plain : '$' ∉ path.toList) : expandPath origin platform path = path := by
  unfold expandPath
  rw [replaceEach_of_not_mem (fun entry member => (charTokens_form entry member).1) plain,
    String.ofList_toList]

theorem expandPath_withoutOrigin (without : WithoutOrigin path) (origin' : String) :
    expandPath origin platform path = expandPath origin' platform path := by
  have first (value : List Char) : replaceAll "$ORIGIN".toList value path.toList = path.toList :=
    replaceAll_of_absent (by decide) without.1
  have second (value : List Char) :
      replaceAll "$\x7bORIGIN\x7d".toList value path.toList = path.toList :=
    replaceAll_of_absent (by decide) without.2
  unfold expandPath charTokens pathTokens
  simp only [List.map_cons, replaceEach_cons, first, second]

theorem toList_expandPath_append (origin platform : String) {first rest : String}
    (split : path.toList = first.toList ++ ':' :: rest.toList) :
    (expandPath origin platform path).toList =
      (expandPath origin platform first).toList ++
        ':' :: (expandPath origin platform rest).toList := by
  unfold expandPath
  rw [String.toList_ofList, String.toList_ofList, String.toList_ofList, split,
    replaceEach_append charTokens_nonempty fun entry member => (charTokens_form entry member).2.1]

/-! ## What is cut off the path -/

/-- The origin that `addpath` computes from the lengths of path and name. -/
def ObjectIdentity.cutOrigin (i : ObjectIdentity) : String :=
  String.ofList (i.path.toList.take (i.path.length - i.name.length - 1))

theorem addpath_plain (strings : e.libs.Strings) (plain : '$' ∉ path.toList) :
    addpath e i path s = some ((path.toList.splitOn ':').map String.ofList, s) := by
  unfold addpath
  rw [if_neg plain, strings.split]
  rfl

theorem addpath_dollar (strings : e.libs.Strings) (dollar : '$' ∈ path.toList) :
    addpath e i path s =
      if i.name.length + 1 ≤ i.path.length then
        some (List.replicate (path.toList.splitOn ':').length
          (expandPath i.cutOrigin e.world.platform path), s)
      else none := by
  unfold addpath
  rw [if_pos dollar]
  by_cases fits : i.name.length + 1 ≤ i.path.length
  · rw [if_pos fits, decide_eq_true fits, require_true, pure_bind, strings.split]
    unfold expandPath
    rw [← expand_eq strings, List.map_const', List.length_map]
    rfl
  · rw [if_neg fits, decide_eq_false fits]
    rfl

/-- If name and file name have the same length, the directory is left. -/
theorem cutOrigin_directory (isPath : i.path = directory ++ "/" ++ base)
    (same : i.name.length = base.length) : i.cutOrigin = directory := by
  have size : i.path.length - i.name.length - 1 = directory.toList.length := by
    rw [isPath, String.length_append, String.length_append, String.length_toList]
    have one : "/".length = 1 := rfl
    omega
  unfold ObjectIdentity.cutOrigin
  rw [size, isPath, String.append_assoc, String.toList_append, List.take_left,
    String.ofList_toList]

/-- If the name is shorter, the slash behind the directory is left too. -/
theorem slash_mem_cutOrigin (isPath : i.path = "" ++ "/" ++ base)
    (shorter : i.name.length < base.length) : '/' ∈ i.cutOrigin.toList := by
  have chars : i.path.toList = '/' :: base.toList := by
    rw [isPath, String.toList_append]
    rfl
  have size : i.path.length - i.name.length - 1 = base.length - i.name.length - 1 + 1 := by
    rw [← String.length_toList, chars, List.length_cons, String.length_toList]
    omega
  unfold ObjectIdentity.cutOrigin
  rw [String.toList_ofList, size, chars]
  exact List.mem_cons_self

/-! ## Components -/

theorem splitOn_intercalate (nonempty : components ≠ [])
    (separate : ∀ p ∈ components, ':' ∉ p.toList) :
    (":".intercalate components).toList.splitOn ':' = components.map String.toList := by
  rw [String.toList_intercalate]
  apply List.splitOn_intercalate
  · intro text member
    obtain ⟨p, isComponent, rfl⟩ := List.mem_map.mp member
    exact separate p isComponent
  · exact fun none => nonempty (List.map_eq_nil_iff.mp none)

theorem toList_intercalate_cons (components : List String) (p q : String) :
    (":".intercalate (p :: q :: components)).toList =
      p.toList ++ ':' :: (":".intercalate (q :: components)).toList := by
  simp

theorem infix_intercalate (member : p ∈ components) :
    p.toList <:+: (":".intercalate components).toList := by
  induction components with
  | nil => cases member
  | cons q components ih =>
    cases components with
    | nil =>
      rw [List.mem_singleton.mp member]
      simp
    | cons r components =>
      rw [toList_intercalate_cons]
      rcases List.mem_cons.mp member with rfl | member
      · exact (List.prefix_append _ _).isInfix
      · exact ((ih member).trans (List.suffix_cons _ _).isInfix).trans
          (List.suffix_append _ _).isInfix

theorem dollar_not_mem_intercalate (plain : ∀ p ∈ components, '$' ∉ p.toList) :
    '$' ∉ (":".intercalate components).toList := by
  induction components with
  | nil => simp
  | cons p components ih =>
    obtain ⟨isPlain, plain⟩ := List.forall_mem_cons.mp plain
    cases components with
    | nil => simpa using isPlain
    | cons q components =>
      rw [toList_intercalate_cons, List.mem_append, List.mem_cons]
      rintro (first | isColon | rest)
      · exact isPlain first
      · exact absurd isColon (by decide)
      · exact ih plain rest

/-! ## Slashes -/

/-- For a file in the root directory the expansion adds no slash. -/
theorem count_slash_root (noSlash : '/' ∉ platform.toList) :
    (expandPath "" platform path).toList.count '/' = path.toList.count '/' := by
  unfold expandPath
  rw [String.toList_ofList]
  apply count_replaceEach charTokens_nonempty
  unfold charTokens pathTokens
  simpa using noSlash

theorem charTokens_eq : charTokens (pathTokens origin platform) =
    ("$ORIGIN".toList, origin.toList) :: ("$\x7bORIGIN\x7d".toList, origin.toList) ::
      charTokens ((pathTokens origin platform).drop 2) := rfl

/-- If the origin has a slash and is used, the expansion adds one. -/
theorem count_slash_lt (platform : String) (slash : '/' ∈ origin.toList) (uses : ¬ WithoutOrigin path) :
    path.toList.count '/' < (expandPath origin platform path).toList.count '/' := by
  -- every stage keeps the slashes; one of the first two adds some
  have keeps (tokens : List (List Char × List Char)) (rest : tokens <:+
      charTokens (pathTokens origin platform)) (text : List Char) :
      text.count '/' ≤ (replaceEach tokens text).count '/' :=
    count_le_replaceEach (fun entry member => charTokens_nonempty entry (rest.subset member))
      (fun entry member => (charTokens_form entry (rest.subset member)).2.2) text
  unfold expandPath
  rw [String.toList_ofList]
  rw [charTokens_eq] at keeps ⊢
  rw [replaceEach_cons]
  by_cases first : "$ORIGIN".toList <:+: path.toList
  · have more := count_lt_replaceAll (by decide) (by decide) slash first
    apply more.trans_le
    apply keeps
    exact List.suffix_cons _ _
  · have second : "$\x7bORIGIN\x7d".toList <:+: path.toList := by
      by_contra absent
      exact uses ⟨first, absent⟩
    have more := count_lt_replaceAll (by decide) (by decide) slash second
    rw [replaceAll_of_absent (by decide) first]
    apply more.trans_le
    apply keeps
    exact (List.suffix_cons _ _).trans (List.suffix_cons _ _)

/-! ## One entry for each component -/

/-- For an object of a file in this directory one entry is added for each component, namely the
component with its tokens replaced. -/
def AddsIn (e : Env) (directory : String) (i : ObjectIdentity) (components : List String) : Prop :=
  ∀ s : Loader, addpath e i (":".intercalate components) s =
    some (components.map (expandPath directory e.world.platform), s)

/-- So it is for an object of this name in a file of this base name, in any directory. -/
def AddsComponents (e : Env) (base name : String) (components : List String) : Prop :=
  ∀ (directory : String) (i : ObjectIdentity), i.path = directory ++ "/" ++ base → i.name = name →
    AddsIn e directory i components

theorem addsIn_plain (strings : e.libs.Strings) (nonempty : components ≠ [])
    (separate : ∀ p ∈ components, ':' ∉ p.toList) (plain : ∀ p ∈ components, '$' ∉ p.toList) :
    AddsIn e directory i components := by
  intro s
  have same : components.map (expandPath directory e.world.platform) = components.map id :=
    List.map_congr_left fun p member => expandPath_plain (plain p member)
  have back : String.ofList ∘ String.toList = id := funext fun p => String.ofList_toList
  rw [addpath_plain strings (dollar_not_mem_intercalate plain),
    splitOn_intercalate nonempty separate, List.map_map, back, same]

theorem addsIn_single (strings : e.libs.Strings) (separate : ':' ∉ path.toList)
    (isPath : i.path = directory ++ "/" ++ base)
    (origin : i.name.length = base.length ∨
      i.name.length + 1 ≤ i.path.length ∧ WithoutOrigin path) :
    AddsIn e directory i [path] := by
  by_cases dollar : '$' ∈ path.toList
  · intro s
    have fits : i.name.length + 1 ≤ i.path.length := by
      rcases origin with same | ⟨fits, -⟩
      · rw [isPath, String.length_append, String.length_append]
        have one : "/".length = 1 := rfl
        omega
      · exact fits
    have expanded : expandPath i.cutOrigin e.world.platform path =
        expandPath directory e.world.platform path := by
      rcases origin with same | ⟨-, without⟩
      · rw [cutOrigin_directory isPath same]
      · exact expandPath_withoutOrigin without directory
    have parts : path.toList.splitOn ':' = [path.toList] := by
      have split := splitOn_intercalate (List.cons_ne_nil path [])
        (List.forall_mem_singleton.mpr separate)
      rwa [String.intercalate_singleton] at split
    rw [String.intercalate_singleton, addpath_dollar strings dollar, if_pos fits, parts, expanded]
    rfl
  · exact addsIn_plain strings (List.cons_ne_nil path [])
      (List.forall_mem_singleton.mpr separate) (List.forall_mem_singleton.mpr dollar)

/-- An identity of a file in the root directory. -/
def ObjectIdentity.inRoot (base name : String) : ObjectIdentity :=
  ⟨0, 0, name, "" ++ "/" ++ base, Flags.zero, 0, 0, 0, 0, [], none, ⟨none, none, none, false⟩⟩

/-- For a file in the root directory: what every component has to become. -/
theorem AddsComponents.root (adds : AddsComponents e base name components)
    (strings : e.libs.Strings) (dollar : '$' ∈ (":".intercalate components).toList) :
    name.length ≤ base.length ∧ ∀ p ∈ components,
      expandPath (ObjectIdentity.inRoot base name).cutOrigin e.world.platform
        (":".intercalate components) = expandPath "" e.world.platform p := by
  have run := adds "" (.inRoot base name) rfl rfl .initial
  rw [addpath_dollar strings dollar] at run
  by_cases fits : (ObjectIdentity.inRoot base name).name.length + 1 ≤
      (ObjectIdentity.inRoot base name).path.length
  · rw [if_pos fits] at run
    constructor
    · have size : (ObjectIdentity.inRoot base name).path.length = 0 + 1 + base.length := by
        unfold ObjectIdentity.inRoot
        rw [String.length_append]
        rfl
      change name.length + 1 ≤ _ at fits
      omega
    · have entries := (Prod.mk.inj (Option.some.inj run)).1
      intro p member
      have found := List.mem_map_of_mem (f := expandPath "" e.world.platform) member
      rw [← entries] at found
      exact (List.eq_of_mem_replicate found).symm
  · rw [if_neg fits] at run
    cases run

/-- The whole string is not what its first component is to become. -/
theorem expandPath_intercalate_ne {p q : String} (noSlash : '/' ∉ platform.toList)
    (le : name.length ≤ base.length) :
    expandPath (ObjectIdentity.inRoot base name).cutOrigin platform
      (":".intercalate (p :: q :: components)) ≠ expandPath "" platform p := by
  intro same
  have split := toList_expandPath_append (ObjectIdentity.inRoot base name).cutOrigin platform
    (toList_intercalate_cons components p q)
  rw [same] at split
  by_cases agree : expandPath (ObjectIdentity.inRoot base name).cutOrigin platform p =
      expandPath "" platform p
  · -- the string is longer
    have sizes := congrArg List.length split
    rw [agree, List.length_append, List.length_cons] at sizes
    omega
  · -- the origin is used, and has a slash
    have uses : ¬ WithoutOrigin p := fun without => agree (expandPath_withoutOrigin without _)
    have shorter : name.length < base.length := by
      refine lt_of_le_of_ne le fun equal => agree ?_
      rw [cutOrigin_directory rfl equal]
    have slash := slash_mem_cutOrigin (i := .inRoot base name) rfl shorter
    have more := count_slash_lt platform slash uses
    have counts := congrArg (List.count '/') split
    rw [count_slash_root noSlash, List.count_append] at counts
    omega

/-- The reference libraries with string functions that split and replace. -/
def Libs.splitting : Libs :=
  { Libs.reference with
    splitInplace := fun text => (text.toList.splitOn ':').map String.ofList
    replaceInplace := fun text token value =>
      String.ofList (replaceAll token.toList value.toList text.toList) }

/-- The reference surroundings with them. -/
def Env.splitting : Env := { Env.noFiles with libs := .splitting }

theorem Env.splitting_strings : Env.splitting.libs.Strings := ⟨fun _ => rfl, fun _ _ _ => rfl⟩

end Luci
