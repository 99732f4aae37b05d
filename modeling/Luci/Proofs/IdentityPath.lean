import Luci.Object.Identity
import Luci.Reference

/-!
# Paths of identities

The constructor of `ObjectIdentity` (`src/object/identity.cpp:271-292`) resolves the directory of
a path and appends the file name. Before that it asks whether the file name exists, but without
the directory, so that the answer is about the working directory; if there is no such file, the
path stays as it was given.
-/

namespace Luci

/-! ## The parts of a path -/

theorem dropWhile_slash {text : List Char} (slash : '/' ∈ text) :
    text.dropWhile (· ≠ '/') = '/' :: (text.dropWhile (· ≠ '/')).drop 1 := by
  induction text with
  | nil => cases slash
  | cons c text ih =>
    by_cases isSlash : c = '/'
    · simp [isSlash]
    · have inside : '/' ∈ text := (List.mem_cons.mp slash).resolve_left (Ne.symm isSlash)
      have skip : (c :: text).dropWhile (· ≠ '/') = text.dropWhile (· ≠ '/') := by
        simp [isSlash]
      rw [skip]
      exact ih inside

/-- A path with a slash is its directory, a slash and the file name. -/
theorem path_eq {path directory : String} (isDirectory : dirname path = some directory) :
    path = directory ++ "/" ++ basename path := by
  unfold dirname at isDirectory
  by_cases slash : '/' ∈ path.toList
  · rw [if_pos slash] at isDirectory
    obtain rfl := Option.some.inj isDirectory
    have whole : path.toList.reverse.takeWhile (· ≠ '/') ++
        path.toList.reverse.dropWhile (· ≠ '/') = path.toList.reverse :=
      List.takeWhile_append_dropWhile
    have back := congrArg List.reverse whole
    rw [List.reverse_append, List.reverse_reverse, dropWhile_slash (List.mem_reverse.mpr slash),
      List.reverse_cons] at back
    apply String.toList_injective
    unfold basename
    simp only [String.toList_append, String.toList_ofList]
    exact back.symm
  · rw [if_neg slash] at isDirectory
    cases isDirectory

theorem copyString_eq {text : String} {max : Nat} (fits : text.length ≤ max) :
    copyString text max = text := by
  unfold copyString
  rw [List.take_of_length_le (by rwa [String.length_toList]), String.ofList_toList]

theorem length_copyString (text : String) (max : Nat) :
    (copyString text max).length = min max text.length := by
  unfold copyString
  rw [String.length_ofList, List.length_take, String.length_toList]

/-! ## The directory -/

/-- What is assumed of dlh and the kernel: the path of an existing file is shorter than
`PATH_MAX`, and `File::absolute` finds the absolute form of its directory if the buffer can hold
it. -/
structure World.Resolves (w : World) (absoluteForm : String → String) : Prop where
  short : ∀ path, (w.file path).isSome → path.length < pathMax
  directory : ∀ path, (w.file path).isSome → dirname path ≠ some "" →
    absoluteForm ((dirname path).getD ".") ≠ "" ∧
    w.absolute ((dirname path).getD ".") =
      if (absoluteForm ((dirname path).getD ".")).length < pathMax then
        some (absoluteForm ((dirname path).getD "."))
      else none

/-- The absolute form of the directory, a slash and the file name; the root directory gives the
slash alone. -/
def expectedPath (absoluteForm : String → String) (path : String) : String :=
  if dirname path = some "" then path
  else absoluteForm ((dirname path).getD ".") ++ "/" ++ basename path

variable {e : Env} {absoluteForm : String → String} {path : String}

/-- A path in the root directory stays as it is, unless the empty string is resolved and the name
exists elsewhere. -/
theorem absolutePath_root (short : path.length < pathMax) (root : dirname path = some "") :
    absolutePath e path = path ↔
      e.world.absolute "" = none ∨ e.world.file (basename path) = none := by
  have same : copyString path pathMax = path := copyString_eq short.le
  unfold absolutePath
  rw [root, Option.getD_some]
  cases resolved : e.world.absolute "" with
  | none => simp only [same, true_or]
  | some directory =>
    cases found : e.world.file (basename path) with
    | none => simp [same]
    | some file =>
      have size : path.length = 1 + (basename path).length := by
        have parts := congrArg String.length (path_eq root)
        rw [String.length_append] at parts
        exact parts
      have differs : (if directory = "" then "" else directory ++ "/") ++
          copyString (basename path)
            (pathMax - (if directory = "" then "" else directory ++ "/").length) ≠ path := by
        intro equal
        have sizes := congrArg String.length equal
        rw [String.length_append, length_copyString] at sizes
        by_cases empty : directory = ""
        · rw [if_pos empty] at sizes
          have none : "".length = 0 := rfl
          omega
        · rw [if_neg empty, String.length_append] at sizes
          have one : "/".length = 1 := rfl
          have positive : directory.length ≠ 0 := fun zero =>
            empty (String.length_eq_zero_iff.mp zero)
          omega
      simp only [reduceCtorEq, or_self, iff_false]
      exact differs

/-- Elsewhere the path gets its absolute form if it has it already, or if there is a file of the
same name in the working directory. -/
theorem absolutePath_directory (resolves : e.world.Resolves absoluteForm)
    (isFile : (e.world.file path).isSome) (below : dirname path ≠ some "") :
    absolutePath e path = expectedPath absoluteForm path ↔
      path = expectedPath absoluteForm path ∨
      (e.world.file (basename path)).isSome ∧
        (expectedPath absoluteForm path).length ≤ pathMax := by
  have short := resolves.short path isFile
  have same : copyString path pathMax = path := copyString_eq short.le
  obtain ⟨nonempty, resolved⟩ := resolves.directory path isFile below
  unfold absolutePath expectedPath
  rw [if_neg below, resolved]
  generalize absoluteForm ((dirname path).getD ".") = directory at nonempty ⊢
  have size : (directory ++ "/" ++ basename path).length =
      directory.length + 1 + (basename path).length := by
    rw [String.length_append, String.length_append]
    rfl
  by_cases fits : directory.length < pathMax
  · rw [if_pos fits]
    dsimp only
    by_cases found : (e.world.file (basename path)).isSome
    · have buffer : (directory ++ "/").length = directory.length + 1 := String.length_append _ _
      rw [if_pos found, if_neg nonempty]
      constructor
      · intro equal
        have sizes := congrArg String.length equal
        rw [String.length_append, length_copyString] at sizes
        exact .inr ⟨found, by omega⟩
      · intro holds
        have total : (directory ++ "/" ++ basename path).length ≤ pathMax := by
          rcases holds with given | ⟨-, total⟩
          · rw [← given]
            exact short.le
          · exact total
        rw [copyString_eq (by omega)]
    · rw [if_neg found, same]
      exact ⟨.inl, fun holds => holds.resolve_right fun other => found other.1⟩
  · rw [if_neg fits]
    rw [same]
    refine ⟨.inl, fun holds => holds.resolve_right fun other => ?_⟩
    omega

theorem construct_named {id ns : Nat} {flags : Flags} {altname : Option String}
    {i : ObjectIdentity} (made : ObjectIdentity.construct e id ns flags path altname = some i) :
    i.path = absolutePath e path ∧ i.name = altname.getD (basename (absolutePath e path)) ∧
      i.ns = ns := by
  obtain ⟨flags', -, result⟩ := Option.bind_eq_some_iff.mp made
  cases result
  exact ⟨rfl, rfl, rfl⟩

/-- The constructor sets the path to the absolute form of the file's directory and the file name,
exactly if the path has that form already, or the working directory has a file of the same name
and the buffer can hold the result; for a file in the root directory, if the empty string is not
resolved, or the working directory has no such file. -/
theorem construct_path_iff (resolves : e.world.Resolves absoluteForm)
    (isFile : (e.world.file path).isSome) {id ns : Nat} {flags : Flags} {altname : Option String}
    {i : ObjectIdentity} (made : ObjectIdentity.construct e id ns flags path altname = some i) :
    i.path = expectedPath absoluteForm path ↔
      if dirname path = some "" then
        e.world.absolute "" = none ∨ e.world.file (basename path) = none
      else
        path = expectedPath absoluteForm path ∨
        (e.world.file (basename path)).isSome ∧
          (expectedPath absoluteForm path).length ≤ pathMax := by
  rw [(construct_named made).1]
  by_cases root : dirname path = some ""
  · have unchanged : expectedPath absoluteForm path = path := if_pos root
    rw [if_pos root, unchanged]
    exact absolutePath_root (resolves.short path isFile) root
  · rw [if_neg root]
    exact absolutePath_directory resolves isFile root

/-- The working directory is `/home`. -/
def underHome (directory : String) : String :=
  if directory = "." then "/home"
  else if directory.toList.head? = some '/' then directory
  else "/home/" ++ directory

/-- A system with a single file, known by this path. -/
def World.single (path : String) : World :=
  { World.reference fun name => if name = path then some (File.ofElf 0 (.empty .dyn)) else none with
    absolute := fun directory => if directory = "" then none else some (underHome directory) }

/-- The default configuration in it. -/
def Env.single (path : String) : Env := { Env.noFiles with world := .single path }

theorem single_resolves (short : path.length < pathMax)
    (form : underHome ((dirname path).getD ".") ≠ "" ∧ (dirname path).getD "." ≠ "" ∧
      (underHome ((dirname path).getD ".")).length < pathMax) :
    (World.single path).Resolves underHome := by
  have isPath (name : String) (isFile : ((World.single path).file name).isSome) : name = path := by
    by_contra other
    have absent : (World.single path).file name = none := if_neg other
    rw [absent] at isFile
    cases isFile
  constructor
  · intro name isFile
    rwa [isPath name isFile]
  · intro name isFile below
    rw [isPath name isFile]
    refine ⟨form.1, ?_⟩
    rw [if_pos form.2.2]
    exact if_neg form.2.1

/-- A file in the working directory, named without a directory. -/
theorem construct_path_iff_plain :
    ∃ i, ObjectIdentity.construct (.single "x.so") 0 0 Flags.zero "x.so" none = some i ∧
      i.path = "/home/x.so" := by
  have resolves : (Env.single "x.so").world.Resolves underHome :=
    single_resolves (by decide) (by decide)
  have isFile : ((Env.single "x.so").world.file "x.so").isSome := by decide
  have made : ObjectIdentity.construct (.single "x.so") 0 0 Flags.zero "x.so" none = some _ := rfl
  exact ⟨_, made, (construct_path_iff resolves isFile made).mpr (by decide)⟩

/-- A file below the working directory keeps its relative path. -/
theorem construct_keeps_relative :
    ((Env.single "lib/x.so").world.file "lib/x.so").isSome ∧
    expectedPath underHome "lib/x.so" = "/home/lib/x.so" ∧
    (ObjectIdentity.construct (.single "lib/x.so") 0 0 Flags.zero "lib/x.so" none).map
      ObjectIdentity.path = some "lib/x.so" := by
  decide +kernel

end Luci
