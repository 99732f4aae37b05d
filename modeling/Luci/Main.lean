import Luci.Loader

/-!
# Start of the loader

The options of the command line and of the configuration (`src/main.cpp`), as far as they become
part of the configuration of the loader that the modelled functions read, and the loading of the
program with the libraries of the preload list. The libraries to link statically, which are
loaded after these (`src/main.cpp:501-506`), are left out.
-/

namespace Luci

/-- `struct Opts` (`src/main.cpp:39-83`), the members that `setup` reads for the modelled part of
the configuration. -/
structure Opts where
  relaxPatchCheck : Int
  pie : Bool
  noPie : Bool
  dynamicUpdate : Bool
  dynamicDlUpdate : Bool
  dependencyCheck : Bool
  modificationTime : Bool
  forceUpdate : Bool
  skipIdentical : Bool
  dynamicWeak : Bool
  relocateCheck : Bool
  relocateOutdated : Bool
  linkstatic : Bool
  debug : Bool

/-- The default member initialisers of `Opts`. -/
def Opts.default : Opts :=
  ⟨0, false, false, false, false, false, false, false, false, false, false, false, false, false⟩

/-- `Parser::Config`: the environment and the configuration file. -/
structure ConfigFile where
  /-- `value_or_default<bool>` with the default `false`. -/
  flag : String → Bool
  /-- `value_or_default<int>`: a name and the default. -/
  number : String → Int → Int

/-- The configuration that `setup` builds (`src/main.cpp:166-263`). -/
def setup (opts : Opts) (configFile : ConfigFile) : Config :=
  let config := Config.default
  -- Position dependent
  let config :=
    if (opts.noPie || opts.pie) && !opts.linkstatic then config
    else if opts.pie && opts.noPie then config
    else if opts.noPie then { config with positionIndependent := false }
    else if opts.pie then { config with positionIndependent := true }
    else config
  let config := { config with debugger := opts.debug || configFile.flag "LD_DEBUG" }
  let config := { config with
    dynamicUpdate := opts.dynamicUpdate || configFile.flag "LD_DYNAMIC_UPDATE" }
  let config := if config.dynamicUpdate then { config with
      dynamicDlupdate := opts.dynamicDlUpdate || configFile.flag "LD_DYNAMIC_DLUPDATE" }
    else config
  let config := if config.dynamicUpdate then { config with
      dependencyCheck := opts.dependencyCheck || configFile.flag "LD_DEPENDENCY_CHECK" }
    else config
  let config := if config.dynamicUpdate then { config with
      forceUpdate := opts.forceUpdate || configFile.flag "LD_FORCE_UPDATE" }
    else config
  -- Ignore identical updates
  let config := if config.skipIdentical then { config with
      skipIdentical := opts.skipIdentical || configFile.flag "LD_SKIP_IDENTICAL" }
    else config
  -- Use modification time to detect changes
  let config := { config with
    useMtime := opts.modificationTime || configFile.flag "LD_USE_MTIME" }
  let config := { config with
    dynamicWeak := opts.dynamicWeak || configFile.flag "LD_DYNAMIC_WEAK" }
  let config := if config.dynamicUpdate then { config with
      checkRelocationContent := opts.relocateCheck || configFile.flag "LD_RELOCATE_CHECK" }
    else config
  let config := if config.dynamicUpdate then { config with
      updateOutdatedRelocations := opts.relocateOutdated || configFile.flag "LD_RELOCATE_OUTDATED" }
    else config
  -- Set comparison mode for patchability checks
  let relaxComparison := max opts.relaxPatchCheck
    (configFile.number "LD_RELAX_CHECK" config.relaxComparison)
  { config with relaxComparison := relaxComparison }

/-! ## Loading the program -/

/-- The call of `open` for a file of the command line (`src/main.cpp:479-481`). -/
def targetCall (defaultFlags : Flags) (bin : String) : OpenCall :=
  ⟨bin, { defaultFlags with updatable := true }, true, some namespaceBase, none, .none, none⟩

/-- The loop over the targets (`src/main.cpp:478-490`), which ends the program at the first that
cannot be loaded. -/
def openTargets (openRec : OpenRec) : List OpenCall → LoaderM (Option (List Nat))
  | [] => return some []
  | target :: targets => do
    match ← openRec target with
    | none => return none
    | some o => do
      let others ← openTargets openRec targets
      return others.map fun others => o :: others

/-- The loop over the preload list (`src/main.cpp:493-499`, `553-559`): the results of its
calls. -/
def preloadAll (e : Env) (openRec : OpenRec) (defaultFlags : Flags) :
    List String → LoaderM (List (Option Nat))
  | [] => return []
  | lib :: preload => do
    let loaded ← library e openRec lib defaultFlags true [] [] (some namespaceBase) true
    let others ← preloadAll e openRec defaultFlags preload
    return loaded :: others

/-- The part of `main` between `setup` and `run` (`src/main.cpp:476-499`, `534-559`): the object
to start and the results for the preload list. -/
def loadProgram (e : Env) (openRec : OpenRec) (defaultFlags : Flags) (targets : List OpenCall)
    (preload : List String) : LoaderM (Option (Nat × List (Option Nat))) := do
  match ← openTargets openRec targets with
  | none => return none
  | some opened => do
    let start ← Exec.orAbort opened.head?
    let loaded ← preloadAll e openRec defaultFlags preload
    return some (start, loaded)

/-- The user has asked to skip updates with identical files (`-I` or `LD_SKIP_IDENTICAL`). -/
def SkipRequested (opts : Opts) (configFile : ConfigFile) : Prop :=
  opts.skipIdentical = true ∨ configFile.flag "LD_SKIP_IDENTICAL" = true

end Luci
