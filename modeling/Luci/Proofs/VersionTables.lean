import Mathlib.Data.List.Nodup
import Luci.Symbol
import Luci.Reference

/-!
# Version indices

`get_version` and `version_index` search the needed and the defined versions in opposite order.
In a well-formed file every version is found again, since the file name of a needed version makes
`version_index` skip the definitions. Both pass over the base definition, so its index is found
again only if it is `VER_NDX_GLOBAL`.
-/

namespace Luci

variable {libs : Libs} {elf : Elf} {i : Nat}

/-- The needed versions with the entry of their file. -/
def Elf.neededVersions (elf : Elf) : List (VersionNeeded × VersionAuxiliary) :=
  elf.versionNeeded.flatMap fun v => v.auxiliary.map fun aux => (v, aux)

/-- The defined versions. The base definition stands for the file itself. -/
def Elf.definedVersions (elf : Elf) : List VersionDefinition :=
  elf.versionDefinition.filter fun v => !v.base

/-- The indices in the tables, that of the base definition included. -/
def Elf.versionIndices (elf : Elf) : List Nat :=
  elf.neededVersions.map (fun v => v.2.versionIndex) ++
    elf.versionDefinition.map VersionDefinition.versionIndex

/-- The names in the version tables are as a linker writes them. -/
structure Elf.VersionsWellFormed (elf : Elf) : Prop where
  base : elf.versionDefinition ≠ [] → (elf.versionDefinition.filter (·.base)).length = 1
  needed : (elf.neededVersions.map fun v => (v.1.file, v.2.name)).Nodup
  other : ∀ v ∈ elf.neededVersions, ∀ d ∈ elf.versionDefinition, d.base = true → v.1.file ≠ d.name
  defined : (elf.definedVersions.map VersionDefinition.name).Nodup

/-- The indices that stand for a version of their own are different, and the stored hashes are those
of the names. -/
structure Elf.VersionsNumbered (libs : Libs) (elf : Elf) : Prop where
  indices : (elf.versionIndices.filter fun i => 1 < i).Nodup
  neededHash : ∀ v ∈ elf.neededVersions, v.2.hash = libs.elfHash v.2.name
  definedHash : ∀ d ∈ elf.versionDefinition, d.hash = libs.elfHash d.name

theorem find?_eq_of_unique {α : Type} {l : List α} {p : α → Bool} {a : α} (member : a ∈ l)
    (holds : p a) (unique : ∀ b ∈ l, p b → b = a) : l.find? p = some a := by
  obtain ⟨b, found⟩ := Option.isSome_iff_exists.mp (List.find?_isSome.mpr ⟨a, member, holds⟩)
  rw [found, unique b (List.mem_of_find?_eq_some found) (List.find?_some found)]

theorem findSome?_needed (p : VersionAuxiliary → Bool) :
    (elf.versionNeeded.findSome? fun v => (v.auxiliary.find? p).map fun aux => (v, aux)) =
      elf.neededVersions.find? fun v => p v.2 := by
  unfold Elf.neededVersions
  rw [List.find?_flatMap]
  congr 1
  funext v
  rw [List.find?_map]
  rfl

theorem mem_neededVersions {v : VersionNeeded × VersionAuxiliary} :
    v ∈ elf.neededVersions ↔ v.1 ∈ elf.versionNeeded ∧ v.2 ∈ v.1.auxiliary := by
  obtain ⟨v, aux⟩ := v
  simp [Elf.neededVersions]

namespace Elf.VersionsWellFormed

variable (wf : elf.VersionsWellFormed)
include wf

theorem base_unique (some : elf.versionDefinition ≠ []) :
    ∃ d ∈ elf.versionDefinition, d.base ∧
      elf.versionDefinition.find? (·.base) = .some d ∧
      elf.versionDefinition.reverse.find? (·.base) = .some d := by
  obtain ⟨d, only⟩ := List.length_eq_one_iff.mp (wf.base some)
  have mem_iff : ∀ b, b ∈ elf.versionDefinition ∧ b.base ↔ b = d := by
    intro b
    rw [← List.mem_filter, only, List.mem_singleton]
  obtain ⟨member, isBase⟩ := (mem_iff d).mpr rfl
  refine ⟨d, member, isBase, ?_, ?_⟩
  · exact find?_eq_of_unique member isBase fun b inside base => (mem_iff b).mp ⟨inside, base⟩
  · exact find?_eq_of_unique (List.mem_reverse.mpr member) isBase fun b inside base =>
      (mem_iff b).mp ⟨List.mem_reverse.mp inside, base⟩

/-- A needed version is found again: its file is another one, and in that file its name. -/
theorem versionIndex_needed {v : VersionNeeded} {aux : VersionAuxiliary} {weak : Bool}
    (member : (v, aux) ∈ elf.neededVersions) :
    elf.versionIndex ⟨some aux.name, some v.file, aux.hash, libs.elfHash v.file, true, weak⟩ =
      aux.versionIndex := by
  have undefined : (if elf.skipVersionDefinition
        ⟨some aux.name, some v.file, aux.hash, libs.elfHash v.file, true, weak⟩ then none
      else elf.versionDefinition.find? fun d =>
        d.hash = aux.hash && !d.base && d.name = aux.name) = none := by
    by_cases empty : elf.versionDefinition = []
    · simp [empty]
    · obtain ⟨d, inside, isBase, found, -⟩ := wf.base_unique empty
      simp [Elf.skipVersionDefinition, found, (wf.other _ member d inside isBase).symm]
  have same : (elf.versionNeeded.findSome? fun w =>
      if some v.file = none ∨ some v.file = some w.file then
        w.auxiliary.find? fun b => b.hash = aux.hash && b.name = aux.name
      else none) = some aux := by
    obtain ⟨isNeeded, isAuxiliary⟩ := mem_neededVersions.mp member
    cases found : elf.versionNeeded.findSome? _ with
    | none =>
      have absent := List.findSome?_eq_none_iff.mp found v isNeeded
      rw [if_pos (Or.inr rfl), List.find?_eq_none] at absent
      exact absurd (by simp) (absent aux isAuxiliary)
    | some b =>
      obtain ⟨w, inside, isFound⟩ := List.exists_of_findSome?_eq_some found
      by_cases file : v.file = w.file
      · rw [if_pos (Or.inr (congrArg some file))] at isFound
        have matched := List.find?_some isFound
        simp only [Bool.and_eq_true, decide_eq_true_eq] at matched
        have isMember : (w, b) ∈ elf.neededVersions :=
          mem_neededVersions.mpr ⟨inside, List.mem_of_find?_eq_some isFound⟩
        have equal := List.inj_on_of_nodup_map wf.needed isMember member
          (Prod.ext file.symm matched.2)
        rw [(Prod.mk.inj equal).2]
      · rw [if_neg (by simpa using file)] at isFound
        cases isFound
  simp only [Elf.versionIndex, undefined, same]

/-- A defined version is found again in the definitions, which are not skipped. -/
theorem versionIndex_defined {d : VersionDefinition} {weak : Bool}
    (member : d ∈ elf.definedVersions) :
    elf.versionIndex ⟨some d.name, (elf.versionDefinition.reverse.find? (·.base)).map (·.name),
      d.hash, ((elf.versionDefinition.reverse.find? (·.base)).map (·.hash)).getD 0, true, weak⟩ =
      d.versionIndex := by
  obtain ⟨inside, own⟩ := List.mem_filter.mp member
  obtain ⟨base, -, -, first, last⟩ := wf.base_unique (List.ne_nil_of_mem inside)
  have found : (elf.versionDefinition.find? fun v =>
      v.hash = d.hash && !v.base && v.name = d.name) = some d := by
    refine find?_eq_of_unique inside (by simpa using own) fun b isDefinition matched => ?_
    simp only [Bool.and_eq_true, decide_eq_true_eq] at matched
    exact List.inj_on_of_nodup_map wf.defined
      (List.mem_filter.mpr ⟨isDefinition, matched.1.2⟩) member matched.2
  simp [Elf.versionIndex, Elf.skipVersionDefinition, first, last, found]

end Elf.VersionsWellFormed

/-- The index of a version is found again from what `get_version` says about it. -/
theorem versionIndex_getVersion {libs : Libs} {elf : Elf} (wf : elf.VersionsWellFormed)
    (baseIndex : ∀ d ∈ elf.versionDefinition, d.base → d.versionIndex = verNdxGlobal)
    {i : Nat} (occurs : i = verNdxGlobal ∨ i ∈ elf.versionIndices) :
    elf.versionIndex (elf.getVersion libs i) = i := by
  unfold Elf.getVersion
  by_cases global : i = verNdxGlobal
  · rw [global]
    rfl
  · rw [if_neg global, findSome?_needed]
    cases found : elf.neededVersions.find? fun v => decide (v.2.versionIndex = i) with
    | some v =>
      refine (wf.versionIndex_needed (List.mem_of_find?_eq_some found)).trans ?_
      simpa using List.find?_some found
    | none =>
      -- the index is that of a definition
      have defined : ∃ d ∈ elf.definedVersions, d.versionIndex = i := by
        rw [List.find?_eq_none] at found
        rcases List.mem_append.mp (occurs.resolve_left global) with member | member
        · obtain ⟨v, isNeeded, same⟩ := List.mem_map.mp member
          exact absurd (decide_eq_true same) (found v isNeeded)
        · obtain ⟨d, inside, same⟩ := List.mem_map.mp member
          refine ⟨d, List.mem_filter.mpr ⟨inside, ?_⟩, same⟩
          simpa using fun base => global (same.symm.trans (baseIndex d inside base))
      obtain ⟨d, member, same⟩ := defined
      obtain ⟨inside, own⟩ := List.mem_filter.mp member
      have some : (elf.versionDefinition.find? fun v => v.versionIndex = i && !v.base).isSome :=
        List.find?_isSome.mpr ⟨d, inside, by simpa [same] using own⟩
      obtain ⟨b, isFound⟩ := Option.isSome_iff_exists.mp some
      have matched := List.find?_some isFound
      rw [Bool.and_eq_true, decide_eq_true_eq] at matched
      simp only [isFound]
      rw [wf.versionIndex_defined, matched.1]
      exact List.mem_filter.mpr ⟨List.mem_of_find?_eq_some isFound, matched.2⟩

/-- A file that defines a version and needs one of the same name from another file. -/
def Elf.twoVersions : Elf :=
  { Elf.empty .dyn with
    versionNeeded := [⟨"libb.so", [⟨"V1", 2, false, 2⟩]⟩]
    versionDefinition := [⟨true, 7, false, 1, "liba.so"⟩, ⟨false, 2, false, 3, "V1"⟩] }

theorem versionIndex_getVersion_twoVersions :
    Elf.twoVersions.VersionsWellFormed ∧
      ∀ i ∈ Elf.twoVersions.versionIndices,
        Elf.twoVersions.versionIndex (Elf.twoVersions.getVersion .reference i) = i := by
  have wf : Elf.twoVersions.VersionsWellFormed := by
    constructor <;> decide
  exact ⟨wf, fun i occurs => versionIndex_getVersion wf (by decide) (.inr occurs)⟩

/-- A file whose base definition has an index of its own. -/
def Elf.numberedBase : Elf :=
  { Elf.twoVersions with
    versionNeeded := []
    versionDefinition := [⟨true, 7, false, 2, "liba.so"⟩, ⟨false, 2, false, 3, "V1"⟩] }

/-- The index of the base definition is not found again. -/
theorem versionIndex_numberedBase :
    Elf.numberedBase.VersionsWellFormed ∧ Elf.numberedBase.VersionsNumbered .reference ∧
      2 ∈ Elf.numberedBase.versionIndices ∧
      Elf.numberedBase.versionIndex (Elf.numberedBase.getVersion .reference 2) = verNdxGlobal := by
  refine ⟨?_, ?_, by decide, by decide⟩
  · constructor <;> decide
  · constructor <;> decide

end Luci
