import Luci.Proofs.Addresses
import Luci.Proofs.Resolution

/-!
# Function bindings of relocatable objects

`ObjectRelocatable::update` relocates again whatever is bound to a function that is not of the
latest version. `ObjectRelocatable::relocate` then takes the function of the latest version, or, if
that does not have it, the one of the version with the relocation, although the relocation may have
been bound to a version in between.
-/

namespace Luci

open Exec KeyedList

variable {e : Env} {f k : Nat} {ok : Bool} {s : Loader} {r : ObjectRef} {versions : List Object}

/-- The symbol that a version has bound for a relocation. -/
def Loader.bound (s : Loader) (uid : Nat) (reloc : Relocation) : Option VersionedSymbol :=
  (s.relocations uid).lookup reloc

/-- The versions of a file, the oldest one first. -/
def Loader.chain (s : Loader) (file : Nat) : List (ObjectRef × ObjectKind) :=
  ((s.identity file).elim [] fun i => i.versions.map fun o => (o.ref, o.kind)).reverse

/-- The place of an object in the chain of versions of a file. -/
def Loader.versionNumber (s : Loader) (file : Nat) (r : ObjectRef) : Option Nat :=
  (s.chain file).findIdx? fun version => version.1 = r

/-- A version of the file has bound the relocation to the definition in version `k`. -/
def Loader.BoundTo (s : Loader) (file uid : Nat) (reloc : Relocation) (k : Nat) : Prop :=
  ∃ sym, s.bound uid reloc = some sym ∧ s.versionNumber file sym.object = some k

/-- Both objects are versions of the file, and the second is not older than the first. -/
def Loader.NotOlder (s : Loader) (file : Nat) (first second : ObjectRef) : Prop :=
  ∃ j k, s.versionNumber file first = some j ∧ s.versionNumber file second = some k ∧ j ≤ k

/-- The symbol that `ObjectRelocatable::relocate` binds. -/
def Loader.binds (e : Env) (s : Loader) (o : Object) (i : ObjectIdentity) (reloc : Relocation) :
    Option VersionedSymbol :=
  if reloc.symbolIndex = 0 then none
  else (o.elf.symbolTable[reloc.symbolIndex]?).bind fun needed =>
    if needed.undefined then (s.resolveSymbol e (i.externalQuery e reloc needed)).join
    else
      match s.newerFunction o needed with
      | some (_, latest, owner) => some ⟨latest, owner, Version.ofName e.libs none⟩
      | none => some ⟨needed, o.ref, Version.ofName e.libs none⟩

/-- The bound symbol is one that `ObjectRelocatable::update` looks up again. -/
def Loader.outdated (s : Loader) (sym : VersionedSymbol) : Bool :=
  !s.isLatestVersion sym.object && (sym.symbol.type.isFunction || sym.symbol.type = .sttSection)

section Entries

variable {e : Env} {s s' : Loader} {o : Object} {i : ObjectIdentity} {reloc : Relocation}

theorem Loader.bound_insertRelocation (s : Loader) (uid : Nat) (reloc reloc' : Relocation)
    (sym : VersionedSymbol) :
    (s.insertRelocation uid reloc sym).bound uid reloc' =
      if reloc' = reloc then some sym else s.bound uid reloc' := by
  unfold Loader.bound Loader.insertRelocation
  dsimp only
  rw [if_pos rfl, List.lookup_cons]
  by_cases same : reloc' = reloc
  · simp [same]
  · simp only [same, beq_eq_false_iff_ne.mpr same]
    exact lookup_filter_ne same _

theorem Quiet.insertRelocation (quiet : Quiet s s') (uid : Nat) (reloc : Relocation)
    (sym : VersionedSymbol) :
    Quiet (s.insertRelocation uid reloc sym) (s'.insertRelocation uid reloc sym) := by
  have same : (s'.insertRelocation uid reloc sym).relocations =
      (s.insertRelocation uid reloc sym).relocations := by
    unfold Loader.insertRelocation
    rw [quiet.relocations]
  exact ⟨quiet.lookup, quiet.dependencies, quiet.nextNamespace, quiet.target,
    quiet.processStarted, quiet.updatePending, quiet.tls, same, quiet.events, quiet.fresh⟩

theorem Loader.binds_congr (same : s'.lookup = s.lookup) : s'.binds e o i reloc = s.binds e o i reloc := by
  have current := Loader.current_congr same
  unfold Loader.binds Loader.newerFunction Loader.isLatestVersion
  simp only [resolveSymbol_congr same, current]

theorem Loader.outdated_congr (same : s'.lookup = s.lookup) (sym : VersionedSymbol) :
    s'.outdated sym = s.outdated sym := by
  unfold Loader.outdated Loader.isLatestVersion
  rw [Loader.current_congr same]

theorem Resolution.bound_eq {resolution : Resolution}
    (resolved : s.resolution e o i reloc false = some resolution) :
    resolution.bound = s.binds e o i reloc := by
  unfold Loader.binds
  rcases resolution_inv resolved with ⟨zero, rfl⟩ | ⟨needed, nonzero, isNeeded, cases⟩
  · rw [if_pos zero]
    rfl
  · rw [if_neg nonzero, isNeeded, Option.bind_some]
    rcases cases with ⟨isDefined, rfl⟩ | ⟨undefined, found, isFound, cases⟩
    · unfold Loader.definedResolution
      rw [if_neg (by simp), isDefined]
      cases s.newerFunction o needed <;> rfl
    · rw [undefined, isFound]
      cases found with
      | none =>
        rw [cases]
        rfl
      | some sym =>
        obtain ⟨symobj, -, rfl⟩ := cases
        rfl

theorem relocateInRelocatable_binds {result : Nat × Bool} (object : s.object r = some o)
    (identity : s.identity r.file = some i)
    (run : relocateInRelocatable e r reloc false s = some (result, s')) :
    match s.binds e o i reloc with
    | some sym => Quiet (s.insertRelocation o.uid reloc sym) s'
    | none => Quiet s s' := by
  obtain ⟨s1, resolution, relaxed, resolved, run⟩ := relocateInRelocatable_inv object identity run
  have start : Quiet s s1 := frame_relaxGot _ _ _ _ _ relaxed
  have rest := Resolution.perform_quiet run
  unfold Resolution.bind at rest
  rw [Resolution.bound_eq resolved] at rest
  cases binds : s.binds e o i reloc with
  | none =>
    rw [binds] at rest
    exact start.trans rest
  | some sym =>
    rw [binds] at rest
    exact (start.insertRelocation _ _ _).trans rest

end Entries

/-! ## The relocations of one version -/

section Version

variable {e : Env} {s s' : Loader} {o : Object} {i : ObjectIdentity} {r : ObjectRef}
  {reloc : Relocation}

/-- The symbol that an update binds instead of one that is bound already. -/
def Loader.rebinds (e : Env) (s : Loader) (o : Object) (i : ObjectIdentity) (reloc : Relocation)
    (sym : VersionedSymbol) : Option VersionedSymbol :=
  if s.outdated sym then s.binds e o i reloc else none

theorem Loader.rebinds_congr (same : s'.lookup = s.lookup) (sym : VersionedSymbol) :
    s'.rebinds e o i reloc sym = s.rebinds e o i reloc sym := by
  unfold Loader.rebinds
  rw [Loader.outdated_congr same, Loader.binds_congr same]

theorem Quiet.bound (quiet : Quiet s s') (uid : Nat) (reloc : Relocation) :
    s'.bound uid reloc = s.bound uid reloc := by
  unfold Loader.bound
  rw [quiet.relocations]

theorem updateInRelocatable_bound {entry : Relocation × VersionedSymbol}
    (object : s.object r = some o) (identity : s.identity r.file = some i)
    (run : updateInRelocatable e r entry s = some ((), s')) :
    s'.lookup = s.lookup ∧ ∀ reloc, s'.bound r.uid reloc =
      if reloc = entry.1 then (s.rebinds e o i entry.1 entry.2).or (s.bound r.uid reloc)
      else s.bound r.uid reloc := by
  have isUid : o.uid = r.uid := Loader.uid_of_object object
  unfold updateInRelocatable at run
  rw [bind_of_eq (get_apply s), Exec.ite_apply] at run
  change (if s.outdated entry.2 = true then _ else _) = _ at run
  unfold Loader.rebinds
  by_cases outdated : s.outdated entry.2
  · rw [if_pos outdated] at run ⊢
    obtain ⟨result, s1, relocated, run⟩ := bind_inv run
    obtain ⟨-, rfl⟩ := pure_inv run
    have bound := relocateInRelocatable_binds object identity relocated
    cases binds : s.binds e o i entry.1 with
    | none =>
      rw [binds] at bound
      refine ⟨bound.lookup, fun reloc => ?_⟩
      rw [bound.bound, Option.none_or, ite_self]
    | some sym =>
      rw [binds, isUid] at bound
      refine ⟨bound.lookup, fun reloc => ?_⟩
      rw [bound.bound, Loader.bound_insertRelocation, Option.some_or]
  · rw [if_neg outdated] at run ⊢
    obtain ⟨-, rfl⟩ := pure_inv run
    refine ⟨rfl, fun reloc => ?_⟩
    rw [Option.none_or, ite_self]

theorem updateEntries_bound {entries : List (Relocation × VersionedSymbol)}
    (keys : (entries.map Prod.fst).Nodup) :
    ∀ {s : Loader}, s.object r = some o → s.identity r.file = some i →
    forEach (updateInRelocatable e r) entries s = some ((), s') → ∀ reloc,
    s'.bound r.uid reloc =
      ((entries.lookup reloc).bind (s.rebinds e o i reloc)).or (s.bound r.uid reloc) := by
  induction entries with
  | nil =>
    intro s _ _ run reloc
    obtain ⟨-, rfl⟩ := pure_inv run
    rfl
  | cons entry entries ih =>
    intro s object identity run reloc
    rw [List.map_cons, List.nodup_cons] at keys
    obtain ⟨_, s1, updated, rest⟩ := bind_inv run
    obtain ⟨same, bound⟩ := updateInRelocatable_bound object identity updated
    rw [← Loader.object_congr same] at object
    rw [← Loader.identity_congr same] at identity
    rw [ih keys.2 object identity rest reloc, bound reloc, List.lookup_cons]
    by_cases first : reloc = entry.1
    · have absent : entries.lookup reloc = none := by
        rw [List.lookup_eq_none_iff]
        intro other member
        rw [first, bne_iff_ne]
        exact fun equal => keys.1 (equal ▸ List.mem_map_of_mem member)
      rw [absent, if_pos first, first, beq_self_eq_true]
      rfl
    · rw [if_neg first, beq_eq_false_iff_ne.mpr first]
      congr 1
      congr 1
      funext sym
      exact Loader.rebinds_congr same sym

/-- The relocations of a version are a map. -/
def Loader.Keyed (s : Loader) (uid : Nat) : Prop := ((s.relocations uid).map Prod.fst).Nodup

theorem updateRelocatable_bound {sym : VersionedSymbol} (keyed : s.Keyed r.uid)
    (object : s.object r = some o) (identity : s.identity r.file = some i)
    (bound : s.bound r.uid reloc = some sym) (run : updateRelocatable e r s = some (ok, s')) :
    s'.bound r.uid reloc = some ((s.rebinds e o i reloc sym).getD sym) := by
  unfold updateRelocatable at run
  rw [bind_of_eq (get_apply s)] at run
  obtain ⟨_, s1, updated, run⟩ := bind_inv run
  obtain ⟨-, rfl⟩ := pure_inv run
  have isBound : (s.relocations r.uid).lookup reloc = some sym := bound
  rw [updateEntries_bound keyed object identity updated, isBound, bound, Option.bind_some]
  cases s.rebinds e o i reloc sym with
  | none => rfl
  | some _ => rfl

end Version

/-! ## All versions -/

/-- The relocations of a version stay a map. -/
def KeepsKeyed (uid : Nat) (s s' : Loader) : Prop := s.Keyed uid → s'.Keyed uid

instance (uid : Nat) : IsPreorder Loader (KeepsKeyed uid) where
  refl _ keyed := keyed
  trans _ _ _ first second keyed := second (first keyed)

instance (uid : Nat) : Framed (KeepsKeyed uid) where
  unused _ _ _ _ _ _ keyed := keyed
  vm _ _ _ keyed := keyed
  datarelContent _ _ keyed := keyed

theorem keepsKeyed_bindsSymbols (uid u : Nat) : BindsSymbols (KeepsKeyed uid) u := by
  intro s reloc sym keyed
  unfold Loader.Keyed Loader.insertRelocation
  by_cases same : uid = u
  · simp only [if_pos same, List.map_cons, List.nodup_cons]
    constructor
    · simp
    · exact keyed.sublist (List.filter_sublist.map Prod.fst)
  · simp only [if_neg same]
    exact keyed

theorem keepsKeyed_updateObject (uid : Nat) (o : Object) :
    Keeps (KeepsKeyed uid) (updateObject e o) := by
  have writes : WritesMap (KeepsKeyed uid) o.uid := fun _ _ keyed => keyed
  apply frame_updateObject _ (keepsKeyed_bindsSymbols uid o.uid)
  intro reloc fix
  exact frame_relocate writes.keepsCompose (keepsKeyed_bindsSymbols uid o.uid) o.ref rfl reloc fix

/-- The same versions. -/
def SameChains (s s' : Loader) : Prop := ∀ file, s'.chain file = s.chain file

instance : IsPreorder Loader SameChains where
  refl _ _ := rfl
  trans _ _ _ first second file := (second file).trans (first file)

theorem sameChains_of_lookup {s s' : Loader} (same : s'.lookup = s.lookup) : SameChains s s' := by
  intro file
  unfold Loader.chain
  rw [Loader.identity_congr same]

section Update

variable {e : Env} {s s' : Loader} {o : Object} {i : ObjectIdentity} {file uid : Nat}
  {reloc : Relocation} {sym : VersionedSymbol} {ok : Bool}

theorem sameChains_updateIdentity : Keeps SameChains (updateIdentity e file) := by
  apply keeps_updateIdentity
  · exact fun event _ => keeps_modify fun s => sameChains_of_lookup rfl
  · exact fun o => (relocates_updateObject o).mono fun _ _ step => sameChains_of_lookup step.quiet.lookup
  · refine keeps_modify fun s other => ?_
    unfold Loader.chain
    by_cases same : other = file
    · rw [same, Loader.identity_modifyIdentity_same (by intro a; split <;> rfl)]
      cases s.identity file with
      | none => rfl
      | some a =>
        dsimp only [Option.map_some, Option.elim_some]
        split <;> rfl
    · rw [Loader.identity_modifyIdentity_ne (by intro a; split <;> rfl) same]

theorem keepsKeyed_updateIdentity (uid : Nat) : Keeps (KeepsKeyed uid) (updateIdentity e file) :=
  keeps_updateIdentity (fun _ _ => keeps_modify fun _ keyed => keyed) (keepsKeyed_updateObject uid)
    (keeps_modify fun _ keyed => keyed)

/-- The versions that `ObjectIdentity::update` walks through. -/
def ObjectIdentity.walked (i : ObjectIdentity) : List Object :=
  if i.flags.updateOutdated then i.versions else i.versions.take 1

theorem updateVersions_others (absent : uid ∉ versions.map Object.uid)
    (run : eachOf (updateObject e) versions s = some (ok, s')) :
    s'.bound uid reloc = s.bound uid reloc := by
  have others : Keeps (fun s s' : Loader => s'.relocations uid = s.relocations uid)
      (eachOf (updateObject e) versions) := by
    apply keeps_eachOf
    intro o member
    refine (relocates_updateObject o).mono fun _ _ step => step.others uid fun same => ?_
    exact absent (same ▸ List.mem_map_of_mem member)
  unfold Loader.bound
  rw [others _ _ _ run]

theorem updateVersions_bound (distinct : (versions.map Object.uid).Nodup)
    (relocatable : o.kind = .relocatable) :
    ∀ {s : Loader} {ok : Bool}, s.Keyed o.uid → s.object o.ref = some o → s.identity o.file = some i →
    s.bound o.uid reloc = some sym → eachOf (updateObject e) versions s = some (ok, s') →
    o ∈ versions → s'.bound o.uid reloc = some ((s.rebinds e o i reloc sym).getD sym) := by
  induction versions with
  | nil => exact fun _ _ _ _ _ member => absurd member List.not_mem_nil
  | cons v versions ih =>
    intro s ok keyed object identity bound run member
    rw [List.map_cons, List.nodup_cons] at distinct
    obtain ⟨first, s1, updated, run⟩ := bind_inv run
    obtain ⟨others, s2, rest, run⟩ := bind_inv run
    obtain ⟨-, rfl⟩ := pure_inv run
    have same : s1.lookup = s.lookup := (relocates_updateObject v _ _ _ updated).quiet.lookup
    by_cases here : o = v
    · subst here
      rw [updateVersions_others distinct.1 rest]
      unfold updateObject at updated
      rw [relocatable] at updated
      exact updateRelocatable_bound keyed object identity bound updated
    · have member : o ∈ versions := (List.mem_cons.mp member).resolve_left here
      have apart : o.uid ≠ v.uid := fun equal => distinct.1 (equal ▸ List.mem_map_of_mem member)
      have unchanged : s1.bound o.uid reloc = some sym := by
        unfold Loader.bound
        rw [(relocates_updateObject v _ _ _ updated).others o.uid apart]
        exact bound
      rw [← Loader.object_congr same] at object
      rw [← Loader.identity_congr same] at identity
      rw [← Loader.rebinds_congr same]
      exact ih distinct.2 (keepsKeyed_updateObject o.uid v _ _ _ updated keyed) object identity unchanged
        rest member

theorem callSerialize_log (run : callSerialize i s = some ((), s')) :
    s'.lookup = s.lookup ∧ s'.relocations = s.relocations := by
  unfold callSerialize at run
  cases function : i.hook.serialize with
  | none =>
    rw [function] at run
    obtain ⟨-, rfl⟩ := pure_inv run
    exact ⟨rfl, rfl⟩
  | some _ =>
    rw [function] at run
    rw [modify_inv run]
    exact ⟨rfl, rfl⟩

theorem callDeserialize_log (run : callDeserialize i s = some ((), s')) :
    s'.relocations = s.relocations := by
  unfold callDeserialize at run
  cases function : i.hook.deserialize with
  | none =>
    rw [function] at run
    obtain ⟨-, rfl⟩ := pure_inv run
    rfl
  | some _ =>
    rw [function] at run
    rw [modify_inv run]

/-- `ObjectIdentity::update` -/
theorem updateIdentity_bound (keyed : s.Keyed o.uid) (distinct : (i.versions.map Object.uid).Nodup)
    (identity : s.identity file = some i) (isVersion : o ∈ i.versions) (isFile : o.file = file)
    (relocatable : o.kind = .relocatable) (bound : s.bound o.uid reloc = some sym)
    (run : updateIdentity e file s = some (ok, s')) :
    (o ∈ i.walked → s'.bound o.uid reloc = some ((s.rebinds e o i reloc sym).getD sym)) ∧
      (o ∉ i.walked → s'.bound o.uid reloc = some sym) := by
  subst isFile
  obtain ⟨_, found, run⟩ := getIdentity_bind_inv run
  obtain rfl := Option.some.inj (identity.symm.trans found)
  obtain ⟨_, s1, serialized, run⟩ := bind_inv run
  obtain ⟨lookup, relocations⟩ := callSerialize_log serialized
  obtain ⟨success, s2, updated, run⟩ := bind_inv run
  obtain ⟨_, s3, refreshed, run⟩ := bind_inv run
  obtain ⟨i', -, run⟩ := getIdentity_bind_inv run
  obtain ⟨_, s4, deserialized, run⟩ := bind_inv run
  obtain ⟨-, rfl⟩ := pure_inv run
  -- Only the loop binds symbols
  have after : s'.bound o.uid reloc = s2.bound o.uid reloc := by
    unfold Loader.bound
    rw [callDeserialize_log deserialized, modify_inv refreshed]
    rfl
  have before : s1.bound o.uid reloc = some sym := by
    unfold Loader.bound
    rw [relocations]
    exact bound
  have keyed1 : s1.Keyed o.uid := by
    unfold Loader.Keyed
    rw [relocations]
    exact keyed
  have walked : i.walked.Sublist i.versions := by
    unfold ObjectIdentity.walked
    split
    · exact List.Sublist.refl _
    · exact List.take_sublist _ _
  have object : s.object o.ref = some o := by
    unfold Loader.object
    rw [show s.identity o.ref.file = some i from identity]
    exact lookup_of_mem distinct isVersion
  rw [after]
  constructor
  · intro member
    rw [← Loader.rebinds_congr lookup]
    rw [← Loader.object_congr lookup] at object
    rw [← Loader.identity_congr lookup] at identity
    exact updateVersions_bound (distinct.sublist (walked.map _)) relocatable keyed1 object identity
      before updated member
  · intro absent
    have others : o.uid ∉ i.walked.map Object.uid := by
      intro member
      obtain ⟨v, walks, same⟩ := List.mem_map.mp member
      have equal := List.inj_on_of_nodup_map distinct (walked.subset walks) isVersion same
      exact absent (equal ▸ walks)
    rw [updateVersions_others others updated, before]

end Update

/-! ## Whole runs -/

/-- An update of the file does not bind the relocation to an older version than before: it is
bound to the latest version already or not looked up again, or the symbol that is found now is one
of a version that is not older. If the version `o` with the relocation defines the symbol, that is
the function of the latest version with the same type, or `o` itself if there is none. -/
def Loader.Advances (e : Env) (s : Loader) (file : Nat) (o : Object) (i : ObjectIdentity)
    (reloc : Relocation) (sym : VersionedSymbol) : Prop :=
  o ∉ i.walked ∨ s.outdated sym = false ∨ reloc.symbolIndex = 0 ∨
    ∀ needed, o.elf.symbolTable[reloc.symbolIndex]? = some needed →
      if needed.undefined then
        ∀ found, s.resolveSymbol e (i.externalQuery e reloc needed) = some (some found) →
          s.NotOlder file sym.object found.object
      else
        match s.newerFunction o needed with
        | some (_, _, owner) => s.NotOlder file sym.object owner
        | none => s.NotOlder file sym.object o.ref

section Advances

variable {e : Env} {s s' : Loader} {o : Object} {i : ObjectIdentity} {file uid k : Nat}
  {reloc : Relocation} {sym : VersionedSymbol} {ok : Bool}

theorem advances_iff : s.Advances e file o i reloc sym ↔ (o ∈ i.walked →
    ∀ found, s.rebinds e o i reloc sym = some found → s.NotOlder file sym.object found.object) := by
  unfold Loader.Advances Loader.rebinds Loader.binds
  by_cases walked : o ∈ i.walked
  case neg => simp [walked]
  by_cases outdated : s.outdated sym
  case neg => simp [outdated]
  by_cases zero : reloc.symbolIndex = 0
  case pos => simp [zero]
  simp only [walked, outdated, zero, not_true_eq_false, Bool.true_eq_false, false_or, if_false,
    forall_const]
  cases o.elf.symbolTable[reloc.symbolIndex]? with
  | none => simp
  | some needed =>
    simp only [Option.some.injEq, forall_eq', Option.bind_some]
    by_cases undefined : needed.undefined
    · simp only [undefined, if_true, Option.join_eq_some_iff]
    · simp only [undefined]
      cases s.newerFunction o needed with
      | none => simp
      | some newer => simp

/-- One update moves the binding to the same or a later version exactly if it advances. -/
theorem updateIdentity_advances_iff (separate : s.Separate) (keyed : s.Keyed o.uid)
    (identity : s.identity file = some i) (isVersion : o ∈ i.versions) (isFile : o.file = file)
    (relocatable : o.kind = .relocatable) (bound : s.bound o.uid reloc = some sym)
    (number : s.versionNumber file sym.object = some k)
    (run : updateIdentity e file s = some (ok, s')) :
    (∃ k', k ≤ k' ∧ s'.BoundTo file o.uid reloc k') ↔ s.Advances e file o i reloc sym := by
  have distinct : (i.versions.map Object.uid).Nodup :=
    separate.versions (Loader.mem_of_identity identity)
  have same : ∀ r, s'.versionNumber file r = s.versionNumber file r := by
    intro r
    unfold Loader.versionNumber
    rw [sameChains_updateIdentity _ _ _ run file]
  obtain ⟨walks, others⟩ := updateIdentity_bound keyed distinct identity isVersion isFile relocatable
    bound run
  have stays (unchanged : s'.bound o.uid reloc = some sym) :
      ∃ k', k ≤ k' ∧ s'.BoundTo file o.uid reloc k' :=
    ⟨k, le_rfl, sym, unchanged, (same _).trans number⟩
  rw [advances_iff]
  by_cases walked : o ∈ i.walked
  case neg => exact iff_of_true (stays (others walked)) fun member => absurd member walked
  have after := walks walked
  cases rebinds : s.rebinds e o i reloc sym with
  | none =>
    rw [rebinds] at after
    exact iff_of_true (stays after) fun _ found isFound => nomatch isFound
  | some found =>
    rw [rebinds] at after
    constructor
    · rintro ⟨k', more, found', isBound, isNumber⟩ - _ ⟨⟩
      obtain rfl := Option.some.inj (after.symm.trans isBound)
      exact ⟨k, k', number, (same _).symm.trans isNumber, more⟩
    · intro advances
      obtain ⟨j, k', isFirst, isSecond, more⟩ := advances walked found rfl
      obtain rfl := Option.some.inj (number.symm.trans isFirst)
      exact ⟨k', more, found, after, (same _).trans isSecond⟩

end Advances

/-- What happens between two updates of a file: versions are added, and the symbols that were
bound for the others stay. -/
structure Loader.Later (file : Nat) (s s' : Loader) : Prop where
  separate : s'.Separate
  chain : ∃ new, s'.chain file = s.chain file ++ new
  relocations : ∀ version ∈ s.chain file,
    s'.relocations version.1.uid = s.relocations version.1.uid

/-- A step of a run. An update has to advance the binding of a relocation of version `uid`. -/
inductive Loader.AdvancingStep (file uid : Nat) (reloc : Relocation) (s s' : Loader) : Prop
  | load {e : Env} {n f : Nat} {i : ObjectIdentity} {memory : Option MemoryImage}
      {result : Option ObjectRef} (found : s.identity f = some i)
      (run : loadFrom e n f memory s = some (result, s'))
  | update {e : Env} {ok : Bool} (run : updateIdentity e file s = some (ok, s'))
      (advances : ∀ i o sym, s.identity file = some i → o ∈ i.versions → o.uid = uid →
        s.bound uid reloc = some sym → s.Advances e file o i reloc sym)
  | other (later : s.Later file s')

section Runs

variable {e : Env} {s s' : Loader} {i : ObjectIdentity} {file uid : Nat} {reloc : Relocation}

theorem chain_edited {u : Nat} {k : ObjectKind} {l l' : List Object}
    (edited : List.Forall₂ (Object.Edited u k) l l') :
    (l'.map fun o => (o.ref, o.kind)) = l.map fun o => (o.ref, o.kind) := by
  induction edited with
  | nil => rfl
  | @cons o o' _ _ first _ ih =>
    rw [List.map_cons, List.map_cons, ih, Object.ref, Object.ref, first.file, first.uid, first.kind]

/-- A new version is added at the end of the chain, identities are added anywhere. -/
theorem chain_grown (versions : List (ObjectRef × ObjectKind)) {g : ObjectIdentity → ObjectIdentity}
    {new : List ObjectIdentity} (found : s.identity f = some i)
    (isIdentity : ∃ a, s.identity file = some a) (keep : ∀ a, (g a).id = a.id)
    (lookup : s'.lookup = update ObjectIdentity.id f g s.lookup ++ new)
    (added : ((g i).versions.map fun o => (o.ref, o.kind)) =
      versions ++ i.versions.map fun o => (o.ref, o.kind)) :
    ∃ new, s'.chain file = s.chain file ++ new := by
  obtain ⟨a, isIdentity⟩ := isIdentity
  unfold Loader.chain
  by_cases same : file = f
  · subst same
    rw [identity_edited found keep lookup, found]
    refine ⟨versions.reverse, ?_⟩
    rw [Option.elim_some, Option.elim_some, added, List.reverse_append]
  · have unchanged : s'.identity file = s.identity file := by
      rw [isIdentity]
      unfold Loader.identity
      rw [lookup]
      refine lookup_append_of_some new ?_
      rw [lookup_update_ne keep same]
      exact isIdentity
    exact ⟨[], by rw [unchanged, List.append_nil]⟩

theorem Loader.mem_chain {version : ObjectRef × ObjectKind} : version ∈ s.chain file ↔
    ∃ i, s.identity file = some i ∧ ∃ o ∈ i.versions, (o.ref, o.kind) = version := by
  unfold Loader.chain
  cases s.identity file with
  | none => simp
  | some i => simp

/-- A load is nothing but a new version for the versions that are there. -/
theorem loadFrom_later {n f : Nat} {memory : Option MemoryImage} {result : Option ObjectRef}
    (separate : s.Separate) (isIdentity : ∃ a, s.identity file = some a)
    (found : s.identity f = some i) (run : loadFrom e n f memory s = some (result, s')) :
    s.Later file s' := by
  have binds : s.Binds {u | s.fresh ≤ u} s.fresh f := Or.inl fun u new => new
  have loaded := load_edits (grows_libraryCall (grows_openFile n)) binds run
  suffices grown : (∃ new, s'.chain file = s.chain file ++ new) ∧
      ∀ u, u ∉ {u | s.fresh ≤ u} → s'.relocations u = s.relocations u by
    refine ⟨load_separate (grows_openFile n) separate found run, grown.1, ?_⟩
    intro version member
    obtain ⟨a, isIdentity, o, isVersion, rfl⟩ := Loader.mem_chain.mp member
    exact grown.2 o.uid (Nat.not_le.mpr (separate.version_lt isIdentity isVersion))
  cases result with
  | none =>
    obtain ⟨u, k, isNew, edits⟩ := loaded
    obtain ⟨g, new, opened, keep, rejected, lookup, -⟩ := edits.edited i found separate.old
    have apart := separate.absent found isNew
    have same := chain_edited (rejected apart).versions
    exact ⟨chain_grown [] found isIdentity keep lookup same,
      edits.relocations i found separate.old⟩
  | some r =>
    obtain ⟨o, mid, -, -, isNew, known, -, events, first, second⟩ := loaded
    obtain ⟨g, new, opened, keep, accepted, lookup, -⟩ :=
      accepted_lookup found separate.old first events second
    have added := chain_edited accepted.versions
    refine ⟨chain_grown [(o.ref, o.kind)] found isIdentity keep lookup added, ?_⟩
    intro u other
    obtain ⟨old, a, found', -⟩ := first.next found separate.old
    rw [second.relocations a found' old u other, first.relocations i found separate.old u other]

/-- A version of the file whose relocations are a map. -/
structure Loader.Records (file uid : Nat) (s : Loader) : Prop where
  separate : s.Separate
  keyed : s.Keyed uid
  version : (⟨file, uid⟩, .relocatable) ∈ s.chain file

theorem versionNumber_append {new : List (ObjectRef × ObjectKind)}
    (chain : s'.chain file = s.chain file ++ new) (number : s.versionNumber file r = some k) :
    s'.versionNumber file r = some k := by
  unfold Loader.versionNumber at number ⊢
  rw [chain, List.findIdx?_append, number, Option.some_or]

theorem Loader.Later.records (later : s.Later file s') (records : s.Records file uid) :
    s'.Records file uid where
  separate := later.separate
  keyed := by
    unfold Loader.Keyed
    rw [later.relocations _ records.version]
    exact records.keyed
  version := by
    obtain ⟨new, chain⟩ := later.chain
    rw [chain]
    exact List.mem_append_left new records.version

/-- Between updates the relocation stays bound to the same version. -/
theorem Loader.Later.boundTo (later : s.Later file s') (records : s.Records file uid)
    (bound : s.BoundTo file uid reloc k) : s'.BoundTo file uid reloc k := by
  obtain ⟨sym, isBound, number⟩ := bound
  obtain ⟨new, chain⟩ := later.chain
  refine ⟨sym, ?_, versionNumber_append chain number⟩
  unfold Loader.bound
  rw [later.relocations _ records.version]
  exact isBound

theorem Loader.Records.object (records : s.Records file uid) : ∃ i o, s.identity file = some i ∧
    o ∈ i.versions ∧ o.uid = uid ∧ o.file = file ∧ o.kind = .relocatable := by
  obtain ⟨i, identity, o, isVersion, same⟩ := Loader.mem_chain.mp records.version
  obtain ⟨isRef, relocatable⟩ := Prod.mk.inj same
  obtain ⟨isFile, isUid⟩ := ObjectRef.mk.inj isRef
  exact ⟨i, o, identity, isVersion, isUid, isFile, relocatable⟩

theorem updateIdentity_records (records : s.Records file uid)
    (run : updateIdentity e file s = some (ok, s')) : s'.Records file uid where
  separate := (keepsParts_sameAddresses.updateIdentity file _ _ _ run).separate records.separate
  keyed := keepsKeyed_updateIdentity uid _ _ _ run records.keyed
  version := by
    rw [sameChains_updateIdentity _ _ _ run file]
    exact records.version

theorem Loader.AdvancingStep.forward (step : AdvancingStep file uid reloc s s')
    (records : s.Records file uid) (bound : s.BoundTo file uid reloc k) :
    s'.Records file uid ∧ ∃ k', k ≤ k' ∧ s'.BoundTo file uid reloc k' := by
  obtain ⟨i, o, identity, isVersion, rfl, isFile, relocatable⟩ := records.object
  cases step with
  | load found run =>
    have later := loadFrom_later records.separate ⟨i, identity⟩ found run
    exact ⟨later.records records, k, le_rfl, later.boundTo records bound⟩
  | other later => exact ⟨later.records records, k, le_rfl, later.boundTo records bound⟩
  | update run advances =>
    refine ⟨updateIdentity_records records run, ?_⟩
    obtain ⟨sym, isBound, number⟩ := bound
    rw [updateIdentity_advances_iff records.separate records.keyed identity isVersion isFile
      relocatable isBound number run]
    exact advances i o sym identity isVersion rfl isBound

/-- Function bindings of a relocatable object: in every run whose updates advance the binding of
a relocation, it is bound to ever later versions, and the next update keeps this up exactly if it
advances the binding, too. -/
theorem binding_forward_iff {s₀ : Loader} {j : Nat} (records : s₀.Records file uid)
    (bound : s₀.BoundTo file uid reloc j)
    (run : Relation.ReflTransGen (Loader.AdvancingStep file uid reloc) s₀ s) :
    (∃ k, j ≤ k ∧ s.BoundTo file uid reloc k) ∧
      ∀ (e : Env) (i : ObjectIdentity) (o : Object) (sym : VersionedSymbol) (k : Nat) (ok : Bool)
        (s' : Loader), s.identity file = some i → o ∈ i.versions → o.uid = uid →
        s.bound uid reloc = some sym → s.versionNumber file sym.object = some k →
        updateIdentity e file s = some (ok, s') →
        ((∃ k', k ≤ k' ∧ s'.BoundTo file uid reloc k') ↔ s.Advances e file o i reloc sym) := by
  have reached : s.Records file uid ∧ ∃ k, j ≤ k ∧ s.BoundTo file uid reloc k := by
    induction run with
    | refl => exact ⟨records, j, Nat.le_refl j, bound⟩
    | tail _ step ih =>
      obtain ⟨records, k, more, bound⟩ := ih
      obtain ⟨records, k', later, bound⟩ := step.forward records bound
      exact ⟨records, k', more.trans later, bound⟩
  refine ⟨reached.2, ?_⟩
  intro e i o sym k ok s' identity isVersion isUid isBound number updated
  obtain ⟨a, v, identity', isVersion', isUid', isFile, relocatable⟩ := reached.1.object
  obtain rfl := Option.some.inj (identity.symm.trans identity')
  have distinct := reached.1.separate.versions (Loader.mem_of_identity identity)
  obtain rfl := List.inj_on_of_nodup_map distinct isVersion isVersion' (isUid.trans isUid'.symm)
  subst isUid
  exact updateIdentity_advances_iff reached.1.separate reached.1.keyed identity isVersion isFile
    relocatable isBound number updated

end Runs

/-! ## Three versions of a file -/

/-- A file with one function, which its code calls. -/
def Elf.calls (function : String) : Elf :=
  { Elf.empty .rel with
    sections := [⟨"", .other 0, 0, 0, 0, 0, false, false, false, false, []⟩,
      ⟨".text", .progbits, 0, 32, 1, 0, true, false, true, false, []⟩,
      ⟨".rela.text", .rela, 0, 24, 8, 1, false, false, false, false, [⟨8, rX8664Plt32, 1, 0⟩]⟩,
      ⟨".symtab", .symtab, 0, 24, 8, 0, false, false, false, false, []⟩]
    symbolTable := [.null, .function function] }

/-- The file has this content. -/
def callsFunction (modificationTime : Nat) (function : String) : Env :=
  fileY (File.ofElf modificationTime (.calls function))

/-- The call of the first version, which is object 3 of identity 0. -/
def theCall : Relocation := ⟨8, rX8664Plt32, 1, 0⟩

/-- The file is opened, and a second version with the same function is loaded. -/
def loadSecond : LoaderM Bool := do
  let _ ← dlopen (callsFunction 0 "f") 1 (some "liby.so") { Flags.zero with updatable := true }
    (some 0) true
  let _ ← loadFrom (callsFunction 1 "f") 1 0 none
  updateIdentity (callsFunction 1 "f") 0

/-- Load a third version. -/
def loadThird (function : String) : LoaderM (Option ObjectRef) :=
  loadFrom (callsFunction 2 function) 1 0 none

/-- The version to which the call is bound. -/
def Loader.calledVersion (s : Loader) : Option Nat :=
  (s.bound 3 theCall).bind fun sym => s.versionNumber 0 sym.object

/-- The version to which an update binds the call instead. -/
def Loader.nextCalled (e : Env) (s : Loader) : Option Nat := do
  let i ← s.identity 0
  let o ← KeyedList.lookup Object.uid i.versions 3
  let found ← s.rebinds e o i theCall (← s.bound 3 theCall)
  s.versionNumber 0 found.object

/-- What is needed of a state for the call to be recorded. -/
def Loader.recordsCall (s : Loader) : Bool :=
  decide (s.addresses.Nodup) && s.addresses.all (fun x => x < s.fresh) &&
    decide ((s.relocations 3).map Prod.fst).Nodup && (s.chain 0).contains (⟨0, 3⟩, .relocatable)

/-- Update to a third version. Is the call recorded after the second update? To which versions is
it bound before the third version is loaded, then, by the update, and after it? -/
def callThird (function : String) : LoaderM (Bool × List (Option Nat)) := do
  let _ ← loadSecond
  let s₀ ← get
  let _ ← loadThird function
  let s ← get
  let _ ← updateIdentity (callsFunction 2 function) 0
  let s' ← get
  return (s₀.recordsCall, [s₀.calledVersion, s.calledVersion,
    s.nextCalled (callsFunction 2 function), s'.calledVersion])

theorem records_of_recordsCall (recorded : s.recordsCall) : s.Records 0 3 := by
  unfold Loader.recordsCall at recorded
  simp only [Bool.and_eq_true, decide_eq_true_eq, List.all_eq_true, List.contains_iff_mem] at recorded
  obtain ⟨⟨⟨nodup, used⟩, keyed⟩, version⟩ := recorded
  exact ⟨⟨nodup, used⟩, keyed, version⟩

theorem advances_of_nextCalled {k k' : Nat} (separate : s.Separate)
    (called : s.calledVersion = some k) (next : s.nextCalled e = some k') (later : k ≤ k')
    (i : ObjectIdentity) (o : Object) (sym : VersionedSymbol) (identity : s.identity 0 = some i)
    (isVersion : o ∈ i.versions) (isUid : o.uid = 3) (bound : s.bound 3 theCall = some sym) :
    s.Advances e 0 o i theCall sym := by
  have distinct := separate.versions (Loader.mem_of_identity identity)
  have found : KeyedList.lookup Object.uid i.versions 3 = some o :=
    isUid ▸ lookup_of_mem distinct isVersion
  rw [advances_iff]
  intro _ target isTarget
  simp only [Loader.calledVersion, bound] at called
  simp only [Loader.nextCalled, identity, found, bound, isTarget, Option.bind_eq_bind,
    Option.bind_some] at next
  exact ⟨k, k', called, next, later⟩

/-- The third version still has the function. -/
theorem binding_forward_iff_third : ∃ (s₀ s : Loader), s₀.Records 0 3 ∧
    s₀.BoundTo 0 3 theCall 1 ∧
    Relation.ReflTransGen (Loader.AdvancingStep 0 3 theCall) s₀ s ∧
    s.calledVersion = some 2 ∧ ∃ k, 1 ≤ k ∧ s.BoundTo 0 3 theCall k := by
  have evaluated : (callThird "f" Loader.initial).map Prod.fst =
      some (true, [some 1, some 1, some 2, some 2]) := by decide +kernel
  obtain ⟨⟨facts, _⟩, run, isFacts⟩ := Option.map_eq_some_iff.mp evaluated
  unfold callThird at run
  obtain ⟨_, s₀, -, run⟩ := bind_inv run
  rw [bind_of_eq (get_apply s₀)] at run
  obtain ⟨r, s1, loaded, run⟩ := bind_inv run
  rw [bind_of_eq (get_apply s1)] at run
  obtain ⟨ok, s2, updated, run⟩ := bind_inv run
  rw [bind_of_eq (get_apply s2)] at run
  obtain ⟨same, -⟩ := pure_inv run
  rw [same] at isFacts
  simp only [Prod.mk.injEq, List.cons.injEq, and_true] at isFacts
  obtain ⟨recorded, called, called1, next, last⟩ := isFacts
  have records := records_of_recordsCall recorded
  have bound : s₀.BoundTo 0 3 theCall 1 := Option.bind_eq_some_iff.mp called
  obtain ⟨i, _, identity, -⟩ := records.object
  have separate := (loadFrom_later records.separate ⟨i, identity⟩ identity loaded).separate
  have steps : Relation.ReflTransGen (Loader.AdvancingStep 0 3 theCall) s₀ s2 :=
    .tail (.tail .refl (.load identity loaded))
      (.update updated (advances_of_nextCalled separate called1 next (by decide)))
  exact ⟨s₀, s2, records, bound, steps, last, (binding_forward_iff records bound steps).1⟩

/-- The third version has another function instead: the call moves from the second version back
to the first one. -/
theorem call_moves_back :
    (callThird "g" Loader.initial).map Prod.fst =
      some (true, [some 1, some 1, some 0, some 0]) := by
  decide +kernel

end Luci
