import Luci.Dlinfo
import Luci.Reference

/-!
# Size and contents of the search path information

`RTLD_DI_SERINFOSIZE` counts the directories with a number of 32 bits. As long as it can, the
buffer it asks for is the one that `RTLD_DI_SERINFO` fills: the table, and behind it the names.
-/

namespace Luci

open VirtualMemory Serinfo

variable {e : Env} {o : Object} {info lib bufPos cnt size : Nat} {memory : Nat → UInt8}
  {dir : String} {dirs : List String}

/-- The bytes of the names, each with its NUL. -/
def namesSize (dirs : List String) : Nat := (dirs.map fun dir => (cString dir).length + 1).sum

/-- Entry `i` of the table points to a complete copy of the directory at a position. -/
structure EntryAt (memory : Nat → UInt8) (info i pos : Nat) (dir : String) : Prop where
  name : wordOf memory 8 (serpath info i) = info + pos
  flags : wordOf memory 4 (serpath info i + 8) = 0
  copy : ∀ k, k < (cString dir).length + 1 → memory (info + pos + k) = (cString dir).getD k 0

theorem wordOf_outside {bytes : Nat → UInt8} {address a n w : Nat}
    (outside : address + w ≤ a ∨ a + n ≤ address) :
    wordOf (overlay memory a n bytes) w address = wordOf memory w address :=
  wordOf_congr w fun i lt => overlay_outside (by omega)

/-- The memory after one iteration. -/
def fillOne (info lib bufPos : Nat) (dir : String) (memory : Nat → UInt8) : Nat → UInt8 :=
  overlay (overlay (copyCString memory (info + bufPos) dir) (serpath info lib) 8
    (byteOf (info + bufPos))) (serpath info lib + 8) 4 (byteOf 0)

theorem fillOne_outside {x : Nat} (table : x < serpath info lib ∨ serpath info (lib + 1) ≤ x)
    (names : x < info + bufPos ∨ info + bufPos + (cString dir).length + 1 ≤ x) :
    fillOne info lib bufPos dir memory x = memory x := by
  unfold serpath serpathSize at table
  unfold fillOne copyCString serpath serpathSize
  rw [overlay_outside (by omega), overlay_outside (by omega), overlay_outside (by omega)]

theorem fillOne_entry (behind : serpath 0 (lib + 1) ≤ bufPos) (small : info + bufPos < 2 ^ 64) :
    EntryAt (fillOne info lib bufPos dir memory) info lib bufPos dir := by
  unfold serpath serpathSize at behind
  refine ⟨?_, ?_, fun k lt => ?_⟩
  · rw [fillOne, wordOf_outside (by omega), wordOf_overlay_same]
    exact Nat.mod_eq_of_lt small
  · rw [fillOne, wordOf_overlay_same, Nat.zero_mod]
  · unfold fillOne copyCString serpath serpathSize
    rw [overlay_outside (by omega), overlay_outside (by omega)]
    simp [overlay, lt]

theorem fillOne_header (info : Nat) (dir : String) (memory : Nat → UInt8)
    (behind : serpath 0 (lib + 1) ≤ bufPos) :
    dlsCnt (fillOne info lib bufPos dir memory) info = dlsCnt memory info ∧
      dlsSize (fillOne info lib bufPos dir memory) info = dlsSize memory info := by
  unfold serpath sizeof at behind
  constructor
  · refine wordOf_congr 4 fun i lt => fillOne_outside (.inl ?_) (.inl (by omega))
    unfold serpath sizeof
    omega
  · refine wordOf_congr 8 fun i lt => fillOne_outside (.inl ?_) (.inl (by omega))
    unfold serpath sizeof
    omega

theorem EntryAt.congr {memory' : Nat → UInt8} {i pos : Nat} (entry : EntryAt memory info i pos dir)
    (same : ∀ x, serpath info i ≤ x ∧ x < serpath info (i + 1) ∨
      info + pos ≤ x ∧ x < info + pos + (cString dir).length + 1 → memory' x = memory x) :
    EntryAt memory' info i pos dir := by
  refine ⟨?_, ?_, fun k lt => ?_⟩
  · rw [← entry.name]
    refine wordOf_congr 8 fun k lt => same _ (.inl ?_)
    unfold serpath serpathSize
    omega
  · rw [← entry.flags]
    refine wordOf_congr 4 fun k lt => same _ (.inl ?_)
    unfold serpath serpathSize
    omega
  · rw [← entry.copy k lt]
    exact same _ (.inr (by omega))

/-- The loop fills one entry for each directory and writes nowhere else. -/
theorem fillSerinfo_entries (info size cnt : Nat) (limit : info + size ≤ 2 ^ 64)
    (dirs : List String) : ∀ (lib bufPos : Nat) (memory : Nat → UInt8),
    dlsCnt memory info = cnt → dlsSize memory info = size → lib + dirs.length ≤ cnt →
    serpath 0 cnt ≤ bufPos → bufPos + namesSize dirs ≤ size → size < 2 ^ 64 → ∃ memory',
      fillSerinfo info dirs lib bufPos memory = (none, memory') ∧
      (∀ x, (x < serpath info lib ∨ serpath info (lib + dirs.length) ≤ x) →
        (x < info + bufPos ∨ info + bufPos + namesSize dirs ≤ x) → memory' x = memory x) ∧
      ∀ (i : Nat) (lt : i < dirs.length),
        EntryAt memory' info (lib + i) (bufPos + namesSize (dirs.take i)) (dirs.get ⟨i, lt⟩) := by
  induction dirs with
  | nil => exact fun lib bufPos memory _ _ _ _ _ _ => ⟨memory, rfl, fun _ _ _ => rfl, nofun⟩
  | cons dir dirs ih =>
    intro lib bufPos memory isCnt isSize counted behind fits small
    have split : namesSize (dir :: dirs) = (cString dir).length + 1 + namesSize dirs := by
      simp [namesSize]
    rw [List.length_cons] at counted
    have behind1 : serpath 0 (lib + 1) ≤ bufPos := by
      unfold serpath serpathSize at *
      omega
    obtain ⟨sameCnt, sameSize⟩ := fillOne_header info dir memory behind1
    obtain ⟨memory', run, outside, entries⟩ := ih (lib + 1) (bufPos + ((cString dir).length + 1))
      (fillOne info lib bufPos dir memory) (sameCnt.trans isCnt) (sameSize.trans isSize) (by omega)
      (by omega) (by omega) small
    have next : (bufPos + ((cString dir).length + 1)) % 2 ^ 64 =
        bufPos + ((cString dir).length + 1) := Nat.mod_eq_of_lt (by omega)
    refine ⟨memory', ?_, fun x table names => ?_, fun i lt => ?_⟩
    · rw [fillSerinfo, if_neg (by omega), if_neg (by omega), next]
      exact run
    · rw [List.length_cons] at table
      unfold serpath serpathSize at table
      rw [outside x, fillOne_outside]
      · unfold serpath serpathSize
        omega
      · omega
      · unfold serpath serpathSize
        omega
      · omega
    · cases i with
      | zero =>
        have first : EntryAt (fillOne info lib bufPos dir memory) info lib bufPos dir :=
          fillOne_entry behind1 (by omega)
        refine first.congr fun x inside => outside x ?_ (.inl ?_)
        · unfold serpath serpathSize at *
          omega
        · unfold serpath at *
          omega
      | succ i =>
        have entry := entries i (Nat.lt_of_succ_lt_succ lt)
        have position : bufPos + ((cString dir).length + 1) + namesSize (dirs.take i) =
            bufPos + namesSize ((dir :: dirs).take (i + 1)) := by
          simp [namesSize]
          omega
        rw [position, Nat.add_assoc, Nat.add_comm 1 i] at entry
        exact entry

/-! ## Both requests -/

/-- The size of a buffer for the directories. -/
def serinfoSize (dirs : List String) : Nat := serpath 0 dirs.length + namesSize dirs

/-- Where the name of directory `i` is in the buffer. -/
def namePosition (dirs : List String) (i : Nat) : Nat :=
  serpath 0 dirs.length + namesSize (dirs.take i)

theorem count_eq (dirs : List String) : ∀ cnt len : Nat,
    dirs.foldl (fun (cnt, len) dir => (cnt + 1, len + (cString dir).length + 1)) (cnt, len) =
      (cnt + dirs.length, len + namesSize dirs) := by
  induction dirs with
  | nil => exact fun _ _ => rfl
  | cons dir dirs ih =>
    intro cnt len
    rw [List.foldl_cons, ih]
    simp [namesSize]
    omega

/-- The size query writes the number of directories, as far as it fits, and the size. -/
theorem dlinfoSerinfosize_eq (memory : Nat → UInt8) (valid : info ≠ 0) : ∃ sized,
    dlinfoSerinfosize e o info memory = (none, sized) ∧
      dlsCnt sized info = (searchDirectories e o).length % 2 ^ 32 ∧
      dlsSize sized info = serinfoSize (searchDirectories e o) % 2 ^ 64 ∧
      ∀ x, (x < info ∨ info + sizeof ≤ x) → sized x = memory x := by
  unfold dlinfoSerinfosize
  rw [if_neg valid, count_eq]
  refine ⟨_, rfl, ?_, ?_, fun x outside => ?_⟩
  · unfold dlsCnt
    rw [wordOf_outside (by omega), wordOf_overlay_same, Nat.zero_add]
    rfl
  · unfold dlsSize
    rw [wordOf_overlay_same, Nat.zero_add, Nat.zero_add]
    rfl
  · unfold sizeof at outside
    rw [overlay_outside (by omega), overlay_outside (by omega), overlay_outside (by omega)]

theorem namesSize_take (dirs : List String) {i j : Nat} (lt : i < dirs.length) (less : i < j) :
    namesSize (dirs.take i) + (cString (dirs.get ⟨i, lt⟩)).length + 1 ≤
      namesSize (dirs.take j) := by
  have split : dirs.take j = dirs.take i ++ [dirs.get ⟨i, lt⟩] ++ (dirs.take j).drop (i + 1) := by
    conv_lhs => rw [← List.take_append_drop (i + 1) (dirs.take j), List.take_take,
      Nat.min_eq_left less, ← List.take_append_getElem lt]
    rfl
  rw [split]
  simp only [namesSize, List.map_append, List.sum_append, List.map_cons, List.sum_cons]
  omega

/-- The buffer has the directories in search order, each with its own complete name. -/
structure Filled (memory : Nat → UInt8) (info : Nat) (dirs : List String) : Prop where
  cnt : dlsCnt memory info = dirs.length
  entries : ∀ (i : Nat) (lt : i < dirs.length),
    EntryAt memory info i (namePosition dirs i) (dirs.get ⟨i, lt⟩) ∧
      serpath 0 (dlsCnt memory info) ≤ namePosition dirs i ∧
      namePosition dirs i + (cString (dirs.get ⟨i, lt⟩)).length + 1 ≤ dlsSize memory info
  apart : ∀ (i j : Nat) (lt : i < j) (bound : j < dirs.length),
    namePosition dirs i + (cString (dirs.get ⟨i, lt.trans bound⟩)).length + 1 ≤ namePosition dirs j

/-- After the size query a buffer of that size is filled, and nothing else is written, if the
directories can be counted in `dls_cnt` and the buffer ends in the address space. -/
theorem dlinfo_agrees (valid : info ≠ 0) (counted : (searchDirectories e o).length < 2 ^ 32)
    (limit : info + serinfoSize (searchDirectories e o) ≤ 2 ^ 64) : ∃ sized filled,
    dlinfoSerinfosize e o info memory = (none, sized) ∧
      dlinfoSerinfo e o info sized = (none, filled) ∧
      Filled filled info (searchDirectories e o) ∧
      ∀ x, (x < info ∨ info + dlsSize sized info ≤ x) → filled x = memory x := by
  generalize isDirs : searchDirectories e o = dirs at counted limit
  obtain ⟨sized, query, cnt, size, header⟩ := dlinfoSerinfosize_eq memory valid
  rw [isDirs, Nat.mod_eq_of_lt counted] at cnt
  rw [isDirs, Nat.mod_eq_of_lt (by omega)] at size
  obtain ⟨filled, fill, outside, entries⟩ := fillSerinfo_entries info (serinfoSize dirs) dirs.length
    limit dirs 0 (serpath 0 dirs.length) sized cnt size (by omega) (Nat.le_refl _) (Nat.le_refl _)
    (by omega)
  have kept : ∀ x, x < info + sizeof ∨ info + serinfoSize dirs ≤ x → filled x = sized x := by
    intro x place
    unfold serinfoSize at place
    refine outside x ?_ ?_
    · unfold serpath serpathSize at *
      omega
    · unfold serpath at *
      omega
  have keptCnt : dlsCnt filled info = dirs.length := by
    rw [← cnt]
    exact wordOf_congr 4 fun i lt => kept _ (.inl (by unfold sizeof; omega))
  have keptSize : dlsSize filled info = serinfoSize dirs := by
    rw [← size]
    exact wordOf_congr 8 fun i lt => kept _ (.inl (by unfold sizeof; omega))
  refine ⟨sized, filled, query, ?_, ⟨keptCnt, fun i lt => ⟨?_, ?_, ?_⟩, fun i j lt bound => ?_⟩, ?_⟩
  · rw [dlinfoSerinfo, if_neg valid, isDirs, cnt, ← fill, serpath, Nat.zero_add]
  · have entry := entries i lt
    rwa [Nat.zero_add] at entry
  · rw [keptCnt]
    exact Nat.le_add_right _ _
  · have names := namesSize_take dirs lt lt
    rw [List.take_length] at names
    rw [keptSize, serinfoSize, namePosition]
    omega
  · have names := namesSize_take dirs (lt.trans bound) lt
    unfold namePosition
    omega
  · intro x place
    rw [size] at place
    rw [kept x (by omega), header x]
    unfold serinfoSize serpath at place
    omega

/-- Directories that `dls_cnt` cannot count are not written. -/
theorem dlinfoSerinfo_uncounted (valid : info ≠ 0) (nonempty : searchDirectories e o ≠ [])
    (overflow : (searchDirectories e o).length % 2 ^ 32 = 0) : ∃ sized,
    dlinfoSerinfosize e o info memory = (none, sized) ∧ dlinfoSerinfo e o info sized =
      (some "Info buffer too small for number of libraries!", sized) := by
  obtain ⟨sized, query, cnt, -, -⟩ := dlinfoSerinfosize_eq memory valid
  refine ⟨sized, query, ?_⟩
  obtain ⟨dir, dirs, isDirs⟩ := List.exists_cons_of_ne_nil nonempty
  rw [dlinfoSerinfo, if_neg valid, isDirs, fillSerinfo, if_pos (by omega)]

/-- An object with search paths of its own. -/
def Object.searching (rpath runpath : List String) : Object :=
  { Object.construct 1 0 .dynamic (Elf.empty .dyn) Data.none with rpath := rpath, runpath := runpath }

theorem dlinfo_agrees_plain : ∃ sized filled,
    dlinfoSerinfosize Env.noFiles (.searching ["/opt/a", "/opt/b"] ["/usr"]) 0x1000 (fun _ => 0) =
        (none, sized) ∧
      dlinfoSerinfo Env.noFiles (.searching ["/opt/a", "/opt/b"] ["/usr"]) 0x1000 sized =
        (none, filled) ∧
      Filled filled 0x1000 ["/opt/a", "/opt/b", "/usr", "/lib"] := by
  obtain ⟨sized, filled, query, fill, isFilled, -⟩ := @dlinfo_agrees Env.noFiles
    (.searching ["/opt/a", "/opt/b"] ["/usr"]) 0x1000 (fun _ => 0) (by decide) (by decide) (by decide)
  exact ⟨sized, filled, query, fill, isFilled⟩

/-- `DT_RPATH` and the default directory are as many as `dls_cnt` has values. -/
def manyPaths : Object := .searching (List.replicate (2 ^ 32 - 1) "") []

theorem dlinfo_fails : ∃ sized,
    dlinfoSerinfosize Env.noFiles manyPaths 0x1000 (fun _ => 0) = (none, sized) ∧
      dlinfoSerinfo Env.noFiles manyPaths 0x1000 sized =
        (some "Info buffer too small for number of libraries!", sized) := by
  have isDirs : ∀ rpath, searchDirectories Env.noFiles (.searching rpath []) = rpath ++ ["/lib"] := by
    intro rpath
    rw [searchDirectories, show Env.noFiles.libraryPathRuntime = [] from rfl, List.append_nil,
      show (Object.searching rpath []).runpath = [] from rfl, List.append_nil]
    exact congrArg (· ++ ["/lib"]) (List.append_nil rpath)
  refine dlinfoSerinfo_uncounted (by decide) ?_ ?_
  · rw [manyPaths, isDirs]
    exact List.append_ne_nil_of_right_ne_nil _ (List.cons_ne_nil _ _)
  · rw [manyPaths, isDirs, List.length_append, List.length_replicate]
    decide

end Luci
