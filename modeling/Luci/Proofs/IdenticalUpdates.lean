import Luci.Main
import Luci.Proofs.HomogeneousChain

/-!
# Identical updates

`setup` reads the option to skip identical updates only if the configuration has it on already,
which is off by default. So it stays off, neither the time stamps nor the hashes of the versions
are ever compared, and a file can be loaded again and again.
-/

namespace Luci

open Exec

/-- The option has no effect. -/
theorem setup_skipIdentical (opts : Opts) (configFile : ConfigFile) :
    (setup opts configFile).skipIdentical = false := by
  simp only [setup, Config.default, apply_ite Config.skipIdentical, ite_self, Bool.false_eq_true,
    if_false]

/-- The content of a file: its bytes and its size. -/
abbrev Content := (Nat → UInt8) × Nat

def Image.content (image : Image) : Content := (image.elf.bytes, image.size)

def Object.content (o : Object) : Content := (o.elf.bytes, o.data.size)

/-- The contents of the versions of a file, the newest first. -/
def Loader.contents (s : Loader) (file : Nat) : List Content :=
  (s.identity file).elim [] fun i => i.versions.map Object.content

/-- The contents that were accepted in some loads, the newest first. -/
def acceptedContents : List (Content × Bool) → List Content
  | [] => []
  | (content, accepted) :: earlier =>
    if accepted then content :: acceptedContents earlier else acceptedContents earlier

/-- No load has found the content of an earlier version. -/
def NeverRepeats (loads : List (Content × Bool)) : Prop :=
  ∀ later content accepted earlier, loads = later ++ (content, accepted) :: earlier →
    content ∉ acceptedContents earlier

/-- The versions have different contents, and every load of the content of an earlier version was
rejected. -/
structure Loader.SkipsIdentical (s : Loader) (file : Nat) (loads : List (Content × Bool)) : Prop where
  distinct : (s.contents file).Nodup
  rejected : ∀ later content accepted earlier, loads = later ++ (content, accepted) :: earlier →
    content ∈ acceptedContents earlier → accepted = false

/-- The identity of a file and the loads so far, in a loader with this configuration. -/
inductive LoadRun (config : Config) (file : Nat) : Loader → List (Content × Bool) → Prop
  | start {e : Env} {ns : Nat} {flags : Flags} {path : String} {altname : Option String}
      {i : ObjectIdentity} {s : Loader} (configured : e.config = config)
      (unset : flags.skipIdentical = false)
      (constructed : ObjectIdentity.construct e file ns flags path altname = some i)
      (identity : s.identity file = some i) (separate : s.Separate) : LoadRun config file s []
  | load {e : Env} {n : Nat} {i : ObjectIdentity} {memory : Option MemoryImage} {image : Image}
      {result : Option ObjectRef} {s s' : Loader} {loads : List (Content × Bool)}
      (before : LoadRun config file s loads) (configured : e.config = config)
      (identity : s.identity file = some i) (content : presented e i memory = some image)
      (run : loadFrom e n file memory s = some (result, s')) :
      LoadRun config file s' ((image.content, result.isSome) :: loads)
  | other {i : ObjectIdentity} {s s' : Loader} {loads : List (Content × Bool)}
      (before : LoadRun config file s loads) (separate : s'.Separate)
      (identity : s'.identity file = some i) (notes : s'.notes file = s.notes file)
      (mode : ∀ j, s.identity file = some j → i.flags.skipIdentical = j.flags.skipIdentical) :
      LoadRun config file s' loads

section Loads

variable {loads earlier : List (Content × Bool)} {content : Content} {accepted : Bool}

theorem NeverRepeats.nil : NeverRepeats [] := by
  intro later _ _ _ split
  exact absurd split.symm (by simp)

theorem NeverRepeats.cons_iff : NeverRepeats ((content, accepted) :: earlier) ↔
    content ∉ acceptedContents earlier ∧ NeverRepeats earlier := by
  constructor
  · intro never
    refine ⟨never [] content accepted earlier rfl, fun later content' accepted' earlier' split => ?_⟩
    exact never ((content, accepted) :: later) content' accepted' earlier' (by rw [split]; rfl)
  · rintro ⟨isNew, never⟩ later content' accepted' earlier' split
    cases later with
    | nil =>
      obtain ⟨same, rfl⟩ := List.cons.inj split
      obtain ⟨rfl, -⟩ := Prod.mk.inj same
      exact isNew
    | cons _ later => exact never later content' accepted' earlier' (List.cons.inj split).2

theorem NeverRepeats.nodup (never : NeverRepeats loads) : (acceptedContents loads).Nodup := by
  induction loads with
  | nil => exact List.nodup_nil
  | cons first loads ih =>
    obtain ⟨isNew, never⟩ := NeverRepeats.cons_iff.mp never
    unfold acceptedContents
    split
    · exact List.nodup_cons.mpr ⟨isNew, ih never⟩
    · exact ih never

end Loads

section Runs

variable {config : Config} {file : Nat} {s s' : Loader} {loads : List (Content × Bool)}

theorem construct_skipIdentical {e : Env} {ns : Nat} {flags : Flags} {path : String}
    {altname : Option String} {i : ObjectIdentity} (off : e.config.skipIdentical = false)
    (unset : flags.skipIdentical = false)
    (constructed : ObjectIdentity.construct e file ns flags path altname = some i) :
    i.flags.skipIdentical = false ∧ i.versions = [] := by
  obtain ⟨flags', adjusted, made⟩ := Option.bind_eq_some_iff.mp constructed
  cases made
  refine ⟨?_, rfl⟩
  unfold Flags.adjust at adjusted
  by_cases static : (!e.config.dynamicUpdate)
  · rw [if_pos static] at adjusted
    cases adjusted
    exact unset
  rw [if_neg static] at adjusted
  by_cases updatable : flags.updatable
  · rw [if_pos updatable] at adjusted
    obtain ⟨_, -, made⟩ := Option.bind_eq_some_iff.mp adjusted
    cases made
    exact off
  · rw [if_neg updatable] at adjusted
    cases adjusted
    exact unset

theorem contents_of_identity {i : ObjectIdentity} (identity : s.identity file = some i) :
    s.contents file = i.versions.map Object.content := by
  rw [Loader.contents, identity, Option.elim_some]

/-- The content is part of what is noted about a version. -/
theorem contents_eq_notes (s : Loader) (file : Nat) :
    s.contents file = (s.notes file).map fun note => (note.2.2.2.2, note.2.1.size) := by
  unfold Loader.contents Loader.notes
  cases s.identity file with
  | none => rfl
  | some i =>
    rw [Option.elim_some, Option.elim_some, List.map_map]
    rfl

/-- A load puts the content that it finds in front of the chain, or leaves the chain as it is. -/
theorem loadFrom_contents {e : Env} {n : Nat} {i : ObjectIdentity} {memory : Option MemoryImage}
    {image : Image} {result : Option ObjectRef} (separate : s.Separate)
    (identity : s.identity file = some i) (content : presented e i memory = some image)
    (run : loadFrom e n file memory s = some (result, s')) :
    ∃ i', s'.identity file = some i' ∧ i.SameMode i' ∧
      s'.contents file = if result.isSome then image.content :: s.contents file
        else s.contents file := by
  obtain ⟨i', identity', mode, notes⟩ :=
    load_notes (grows_libraryCall (grows_openFile n)) separate identity run
  refine ⟨i', identity', mode, ?_⟩
  rw [contents_eq_notes, contents_eq_notes, notes_of_identity identity, notes_of_identity identity']
  cases result with
  | none => rw [notes, if_neg (by simp)]
  | some r =>
    obtain ⟨op, s1, o, opening, admitted, notes⟩ := notes
    obtain ⟨image', content', elf, size, -⟩ := openObject_presented identity opening
    obtain rfl := Option.some.inj (content.symm.trans content')
    have isContent : (o.elf.bytes, o.data.size) = image.content := by
      rw [admitted.bytes, admitted.data, elf, Image.content, ← size]
    rw [notes, if_pos (by simp), List.map_cons, ← isContent]
    rfl

/-- In every state the option is off for the identity, and its versions have the contents that
were accepted. -/
theorem LoadRun.state (run : LoadRun config file s loads) (off : config.skipIdentical = false) :
    s.Separate ∧ s.contents file = acceptedContents loads ∧
      ∃ i, s.identity file = some i ∧ i.flags.skipIdentical = false := by
  induction run with
  | start configured unset constructed identity separate =>
    obtain ⟨isOff, unloaded⟩ := construct_skipIdentical (configured ▸ off) unset constructed
    refine ⟨separate, ?_, _, identity, isOff⟩
    rw [contents_of_identity identity, unloaded]
    rfl
  | @load e n i memory image result s s' loads before configured identity content run ih =>
    obtain ⟨separate, chain, j, identity', isOff⟩ := ih
    obtain rfl := Option.some.inj (identity.symm.trans identity')
    obtain ⟨i', identity', mode, contents⟩ := loadFrom_contents separate identity content run
    refine ⟨load_separate (grows_openFile n) separate identity run, ?_, i', identity',
      mode.skipIdentical.trans isOff⟩
    rw [contents, chain]
    rfl
  | other before separate identity notes mode ih =>
    obtain ⟨-, chain, j, identity', isOff⟩ := ih
    refine ⟨separate, ?_, _, identity, (mode j identity').trans isOff⟩
    rw [contents_eq_notes, notes, ← contents_eq_notes, chain]

/-- Skipping identical updates, whether or not the user has asked for it: the versions have the
contents that were accepted, and no content is ever compared with theirs. Yet identical versions
are avoided if no load finds the content of an earlier version. -/
theorem identical_skipped {opts : Opts} {configFile : ConfigFile}
    (run : LoadRun (setup opts configFile) file s loads) :
    s.contents file = acceptedContents loads ∧
      (∀ i, s.identity file = some i → ∀ e : Env, (∀ op : Opened, ¬ op.Identical e i) ∧
        ∀ time size, i.sameTime e time size = false) ∧
      (NeverRepeats loads → s.SkipsIdentical file loads) := by
  obtain ⟨-, chain, i, identity, isOff⟩ := run.state (setup_skipIdentical opts configFile)
  refine ⟨chain, ?_, fun never => ⟨chain ▸ never.nodup, ?_⟩⟩
  · intro j identity' e
    obtain rfl := Option.some.inj (identity.symm.trans identity')
    constructor
    · intro op identical
      simp [Opened.Identical, isOff] at identical
    · simp [ObjectIdentity.sameTime, isOff]
  · intro later content accepted earlier split member
    exact absurd member (never later content accepted earlier split)

end Runs

/-! ## The same file twice -/

/-- The options `-u -I`. -/
def skipOpts : Opts := { Opts.default with dynamicUpdate := true, skipIdentical := true }

/-- Nothing is configured. -/
def ConfigFile.empty : ConfigFile := ⟨fun _ => false, fun _ default => default⟩

/-- `liby.so` has this content, and identical updates are to be skipped. -/
def skipsY (elf : Elf) : Env :=
  Env.reference (setup skipOpts .empty) fun path =>
    if path = "/lib/liby.so" then some (File.ofElf 0 elf) else none

/-- A library with this first byte. -/
def Elf.startsWith (byte : UInt8) : Elf :=
  { Elf.library [] [] [] with bytes := fun n => if n = 0 then byte else 0 }

/-- The identity of `liby.so` as it was constructed. -/
def constructedY : Loader :=
  { Loader.initial with
    lookup := (ObjectIdentity.construct (skipsY (.startsWith 1)) 0 0
      { Flags.zero with updatable := true } "/lib/liby.so" none).toList
    fresh := 1 }

/-- Load two contents; which loads are accepted, with which first bytes are versions there, and where
was the second one looked for? -/
def loadContents (first second : UInt8) : LoaderM (Bool × Bool × List UInt8 × Option String) := do
  let one ← loadFrom (skipsY (.startsWith first)) 1 0 none
  let s₁ ← get
  let two ← loadFrom (skipsY (.startsWith second)) 1 0 none
  let s₂ ← get
  return (one.isSome, two.isSome, (s₂.contents 0).map fun content => content.1 0,
    (s₁.identity 0).map ObjectIdentity.path)

theorem presented_skipsY {elf : Elf} {i : ObjectIdentity} (path : i.path = "/lib/liby.so") :
    presented (skipsY elf) i none = some (File.ofElf 0 elf).image := by
  unfold presented skipsY Env.reference World.reference
  dsimp only
  rw [if_pos path, Option.map_some]

/-- Two contents that differ. -/
theorem identical_skipped_different : ∃ (s : Loader) (loads : List (Content × Bool)),
    LoadRun (setup skipOpts .empty) 0 s loads ∧ (s.contents 0).length = 2 ∧ NeverRepeats loads ∧
      s.SkipsIdentical 0 loads := by
  have evaluated : (loadContents 1 2 constructedY).map Prod.fst =
      some (true, true, [2, 1], some "/lib/liby.so") := by decide +kernel
  obtain ⟨⟨facts, s⟩, run, isFacts⟩ := Option.map_eq_some_iff.mp evaluated
  unfold loadContents at run
  obtain ⟨one, s1, first, run⟩ := bind_inv run
  rw [bind_of_eq (get_apply s1)] at run
  obtain ⟨two, s2, second, run⟩ := bind_inv run
  rw [bind_of_eq (get_apply s2)] at run
  obtain ⟨same, -⟩ := pure_inv run
  have facts := same.symm.trans isFacts
  simp only [Prod.mk.injEq] at facts
  obtain ⟨one, two, bytes, path1⟩ := facts
  obtain ⟨i1, identity1, path1⟩ := Option.map_eq_some_iff.mp path1
  have constructed : (ObjectIdentity.construct (skipsY (.startsWith 1)) 0 0
      { Flags.zero with updatable := true } "/lib/liby.so" none).map (fun i => (i.id, i.path)) =
      some (0, "/lib/liby.so") := by decide +kernel
  obtain ⟨i, constructed, facts⟩ := Option.map_eq_some_iff.mp constructed
  obtain ⟨isId, path⟩ := Prod.mk.inj facts
  have lookup : constructedY.lookup = [i] := by
    unfold constructedY
    rw [constructed]
    rfl
  have identity : constructedY.identity 0 = some i := by
    unfold Loader.identity
    rw [lookup, KeyedList.lookup_cons, if_pos isId]
  have separate : constructedY.Separate := by
    refine ⟨by decide +kernel, ?_⟩
    have used : constructedY.addresses.all (fun x => x < constructedY.fresh) = true := by
      decide +kernel
    exact fun x member => of_decide_eq_true (List.all_eq_true.mp used x member)
  have start : LoadRun (setup skipOpts .empty) 0 constructedY [] :=
    .start (e := skipsY (.startsWith 1)) rfl rfl constructed identity separate
  have step := LoadRun.load (e := skipsY (.startsWith 1)) start rfl identity
    (presented_skipsY path) first
  have steps := LoadRun.load (e := skipsY (.startsWith 2)) step rfl identity1
    (presented_skipsY path1) second
  rw [one, two] at steps
  have never : NeverRepeats [((File.ofElf 0 (.startsWith 2)).image.content, true),
      ((File.ofElf 0 (.startsWith 1)).image.content, true)] := by
    refine NeverRepeats.cons_iff.mpr ⟨fun member => ?_,
      NeverRepeats.cons_iff.mpr ⟨List.not_mem_nil, .nil⟩⟩
    have same := congrArg (fun content : Content => content.1 0) (List.mem_singleton.mp member)
    exact absurd same (by decide)
  have count : (s2.contents 0).length = 2 := by
    simpa using congrArg List.length bytes
  exact ⟨s2, _, steps, count, never, (identical_skipped steps).2.2 never⟩

/-- The same content is loaded twice. -/
theorem same_content_twice : SkipRequested skipOpts .empty ∧
    (loadContents 1 1 constructedY).map Prod.fst = some (true, true, [1, 1], some "/lib/liby.so") := by
  refine ⟨.inl rfl, ?_⟩
  decide +kernel

end Luci
