import Luci.Helper
import Luci.Proofs.Frame
import Luci.Reference

/-!
# Debounced loading

The work list of the helper thread holds a file exactly if it was reported as modified since it
was last tried to load it, once, with the time one second after the last such report; and a
load takes up exactly those files whose last report is at least one second old.
-/

namespace Luci

open Exec

variable {u : Unit} {file time : Nat} {entry : Nat × Nat} {events : List InotifyEvent}
  {worklist : List (Nat × Nat)}

/-! ## The sorted list -/

/-- The list is sorted, without repetitions. -/
abbrev Ordered (l : List (Nat × Nat)) : Prop := l.Pairwise entryBefore

section Sorted

variable {x y z : Nat × Nat} {l : List (Nat × Nat)}

theorem entryBefore.trans (first : entryBefore x y) (second : entryBefore y z) : entryBefore x z := by
  unfold entryBefore at *
  omega

theorem entryBefore.ne (first : entryBefore x y) : x ≠ y := by
  rintro rfl
  unfold entryBefore at first
  omega

theorem entryBefore_total (different : x ≠ y) : entryBefore x y ∨ entryBefore y x := by
  have apart : x.1 ≠ y.1 ∨ x.2 ≠ y.2 := by
    by_contra same
    push Not at same
    exact different (Prod.ext same.1 same.2)
  unfold entryBefore
  omega

theorem mem_emplaceEntry : y ∈ emplaceEntry x l ↔ y = x ∨ y ∈ l := by
  induction l with
  | nil => simp [emplaceEntry]
  | cons z l ih =>
    unfold emplaceEntry
    split
    · rename_i same
      simp [same]
    · split
      · simp
      · simp only [List.mem_cons]
        tauto

theorem ordered_emplaceEntry (ordered : Ordered l) : Ordered (emplaceEntry x l) := by
  induction l with
  | nil => exact List.pairwise_singleton _ _
  | cons z l ih =>
    obtain ⟨first, rest⟩ := List.pairwise_cons.mp ordered
    unfold emplaceEntry
    split
    · exact ordered
    · rename_i different
      split
      · rename_i isBefore
        refine List.pairwise_cons.mpr ⟨fun y member => ?_, ordered⟩
        rcases List.mem_cons.mp member with rfl | member
        · exact isBefore
        · exact isBefore.trans (first y member)
      · rename_i notBefore
        refine List.pairwise_cons.mpr ⟨fun y member => ?_, ih rest⟩
        rcases mem_emplaceEntry.mp member with rfl | member
        · exact (entryBefore_total different).resolve_left notBefore
        · exact first y member

theorem Ordered.nodup (ordered : Ordered l) : l.Nodup := ordered.imp fun first => first.ne

end Sorted

/-! ## The work list and what is pending -/

/-- When the file was last reported as modified, if that is after the last attempt to load it. -/
def pendingSince (file : Nat) : List Notice → Option Nat
  | [] => none
  | .modified now f :: record => if f = file then some now else pendingSince file record
  | .attempted _ f :: record => if f = file then none else pendingSince file record

/-- The work list holds what is pending, each file once and one second after its last report. -/
structure Debounced (worklist : List (Nat × Nat)) (pending : Nat → Option Nat) : Prop where
  ordered : Ordered worklist
  once : (worklist.map Prod.snd).Nodup
  entries : ∀ time file,
    (time, file) ∈ worklist ↔ ∃ last, pending file = some last ∧ time = last + secondNs

section Worklist

variable {worklist : List (Nat × Nat)} {pending : Nat → Option Nat} {now file : Nat}

theorem debounced_nil : Debounced [] (fun _ => none) :=
  ⟨List.Pairwise.nil, List.nodup_nil, by simp⟩

/-- An ordered list in which every file has one time holds every file once. -/
theorem once_of_entries (ordered : Ordered worklist) (entries : ∀ time file,
    (time, file) ∈ worklist ↔ ∃ last, pending file = some last ∧ time = last + secondNs) :
    (worklist.map Prod.snd).Nodup := by
  refine List.Nodup.map_on ?_ ordered.nodup
  rintro ⟨time, file⟩ first ⟨time', file'⟩ second same
  obtain rfl : file = file' := same
  obtain ⟨last, isLast, rfl⟩ := (entries time file).mp first
  obtain ⟨last', isLast', rfl⟩ := (entries time' file).mp second
  cases isLast.symm.trans isLast'
  rfl

theorem Debounced.find (debounced : Debounced worklist pending) :
    worklist.find? (fun entry => entry.2 = file) =
      (pending file).map fun last => (last + secondNs, file) := by
  cases found : worklist.find? fun entry => entry.2 = file with
  | none =>
    cases isPending : pending file with
    | none => rfl
    | some last =>
      have member := (debounced.entries (last + secondNs) file).mpr ⟨last, isPending, rfl⟩
      have absent := List.find?_eq_none.mp found _ member
      simp at absent
  | some entry =>
    obtain ⟨time, file'⟩ := entry
    have isFile : file' = file := by simpa using List.find?_some found
    subst isFile
    obtain ⟨last, isPending, rfl⟩ := (debounced.entries time file').mp (List.mem_of_find?_eq_some found)
    rw [isPending]
    rfl

/-- A report puts a file on the list or changes its time; it changes nothing about the others. -/
theorem Debounced.mem_renewEntry (debounced : Debounced worklist pending) :
    entry ∈ renewEntry time file worklist ↔
      entry = (time, file) ∨ entry.2 ≠ file ∧ entry ∈ worklist := by
  have others : ∀ {time' : Nat}, (time', file) ∈ worklist → worklist.find? (fun entry => entry.2 = file) =
      some (time', file) := by
    intro time' member
    obtain ⟨last, isPending, rfl⟩ := (debounced.entries time' file).mp member
    rw [debounced.find, isPending, Option.map_some]
  obtain ⟨time', file'⟩ := entry
  unfold renewEntry
  cases found : worklist.find? fun entry => entry.2 = file with
  | none =>
    have absent : (time', file') ∈ worklist → file' ≠ file := by
      rintro member rfl
      cases (others member).symm.trans found
    rw [mem_emplaceEntry]
    tauto
  | some old =>
    have isFile : old.2 = file := by simpa using List.find?_some found
    have member := List.mem_of_find?_eq_some found
    have only : (time', file') ∈ worklist → file' = file → (time', file') = old := by
      rintro member rfl
      exact Option.some.inj ((others member).symm.trans found)
    dsimp only
    split
    · rename_i sameTime
      have isOld : old = (time, file) := Prod.ext sameTime isFile
      rw [isOld] at member only
      constructor
      · intro inList
        by_cases own : file' = file
        · exact .inl (only inList own)
        · exact .inr ⟨own, inList⟩
      · rintro (own | ⟨_, inList⟩)
        · rw [own]
          exact member
        · exact inList
    · rw [mem_emplaceEntry, debounced.ordered.nodup.mem_erase_iff]
      have notOld : file' ≠ file → (time', file') ≠ old := by
        rintro other rfl
        exact other isFile
      tauto

theorem Debounced.renew (debounced : Debounced worklist pending) :
    Debounced (renewEntry (now + secondNs) file worklist)
      (Function.update pending file (some now)) := by
  have ordered : Ordered (renewEntry (now + secondNs) file worklist) := by
    unfold renewEntry
    split
    · split
      · exact debounced.ordered
      · exact ordered_emplaceEntry (debounced.ordered.sublist List.erase_sublist)
    · exact ordered_emplaceEntry debounced.ordered
  have entries : ∀ time file', (time, file') ∈ renewEntry (now + secondNs) file worklist ↔
      ∃ last, Function.update pending file (some now) file' = some last ∧ time = last + secondNs := by
    intro time file'
    rw [debounced.mem_renewEntry]
    by_cases own : file' = file
    · subst own
      simp
    · simp [own, debounced.entries]
  exact ⟨ordered, once_of_entries ordered entries, entries⟩

theorem Debounced.drop (debounced : Debounced ((time, file) :: worklist) pending) :
    Debounced worklist (Function.update pending file none) := by
  have ordered : Ordered worklist := (List.pairwise_cons.mp debounced.ordered).2
  have single : ∀ time', (time', file) ∉ worklist := by
    intro time' member
    exact (List.nodup_cons.mp debounced.once).1 (List.mem_map.mpr ⟨_, member, rfl⟩)
  have entries : ∀ time' file', (time', file') ∈ worklist ↔
      ∃ last, Function.update pending file none file' = some last ∧ time' = last + secondNs := by
    intro time' file'
    by_cases own : file' = file
    · subst own
      simp [single]
    · rw [Function.update_of_ne own, ← debounced.entries]
      simp [own]
  exact ⟨ordered, once_of_entries ordered entries, entries⟩

end Worklist

/-! ## Detection -/

/-- The work list agrees with the record. -/
def Helper.Debounced (h : Helper) : Prop :=
  Luci.Debounced h.worklist fun file => pendingSince file h.record

theorem pendingSince_modified (now file : Nat) (record : List Notice) :
    (fun f => pendingSince f (.modified now file :: record)) =
      Function.update (fun f => pendingSince f record) file (some now) := by
  funext f
  simp [pendingSince, Function.update_apply, eq_comm]

theorem pendingSince_attempted (now file : Nat) (record : List Notice) :
    (fun f => pendingSince f (.attempted now file :: record)) =
      Function.update (fun f => pendingSince f record) file none := by
  funext f
  simp [pendingSince, Function.update_apply, eq_comm]

/-- Several files reported at once. -/
def reported (now : Nat) (files : List Nat) (pending : Nat → Option Nat) (file : Nat) : Option Nat :=
  if file ∈ files then some now else pending file

theorem pendingSince_reported (now : Nat) (files : List Nat) (record : List Notice) :
    (fun file => pendingSince file (files.map (.modified now) ++ record)) =
      reported now files fun file => pendingSince file record := by
  induction files with
  | nil => rfl
  | cons f files ih =>
    rw [List.map_cons, List.cons_append, pendingSince_modified, ih]
    funext file
    by_cases own : file = f
    · simp [reported, own]
    · simp [reported, own]

section Steps

variable {e : Env} {now fuel : Nat} {event : InotifyEvent} {h h' : Helper}

theorem inLoader_inv {α : Type} {x : LoaderM α} {a : α} (run : inLoader x h = some (a, h')) :
    ∃ s, x h.loader = some (a, s) ∧ h' = { h with loader := s } := by
  obtain ⟨⟨b, s⟩, runs, same⟩ := Option.map_eq_some_iff.mp run
  cases same
  exact ⟨s, runs, rfl⟩

/-- Is the event for this file? -/
def Loader.watches (s : Loader) (wd : Option Nat) (file : Nat) : Bool :=
  (s.identity file).any fun i => i.wd = wd

section Detect

variable (overflow : event.queueOverflow = false)

include overflow

theorem detectFile_inv (run : detectFile e now event file h = some (u, h')) :
    (event.ignored ∧ ∃ s, h' = { h with loader := s }) ∨
      (event.ignored = false ∧ h' = if h.loader.watches event.wd file then
        { h with worklist := renewEntry (now + secondNs) file h.worklist } else h) := by
  obtain ⟨i, h1, found, run⟩ := bind_inv run
  obtain ⟨s, isIdentity, rfl⟩ := inLoader_inv found
  obtain ⟨present, rfl⟩ := getIdentity_inv isIdentity
  have watches : h.loader.watches event.wd file = decide (i.wd = event.wd) := by
    unfold Loader.watches
    rw [present]
    rfl
  rw [overflow] at run
  by_cases ours : event.wd = i.wd
  · rw [if_pos ours] at run
    cases ignored : event.ignored with
    | true =>
      rw [ignored] at run
      obtain ⟨ok, h2, watched, run⟩ := bind_inv run
      obtain ⟨s, _, rfl⟩ := inLoader_inv watched
      rw [(pure_inv run).2]
      exact .inl ⟨rfl, s, rfl⟩
    | false =>
      rw [ignored] at run
      rw [modify_inv run, watches, ours]
      simp
  · rw [if_neg ours] at run
    rw [(pure_inv run).2, watches]
    cases ignored : event.ignored with
    | true => exact .inl ⟨rfl, _, rfl⟩
    | false =>
      simp [Ne.symm ours]

theorem detectFiles_ignored (ignored : event.ignored) (files : List Nat)
    (run : forEach (detectFile e now event) files h = some (u, h')) :
    ∃ s, h' = { h with loader := s } := by
  induction files generalizing h with
  | nil =>
    rw [(pure_inv run).2]
    exact ⟨h.loader, rfl⟩
  | cons file files ih =>
    obtain ⟨_, h1, first, rest⟩ := bind_inv run
    rcases detectFile_inv overflow first with ⟨_, s, rfl⟩ | ⟨notIgnored, _⟩
    · obtain ⟨s', rfl⟩ := ih rest
      exact ⟨s', rfl⟩
    · cases ignored.symm.trans notIgnored

/-- A modification renews the entries of the files that watch with the descriptor. -/
theorem detectFiles_modified (notIgnored : event.ignored = false) (files : List Nat)
    {pending : Nat → Option Nat} (debounced : Debounced h.worklist pending)
    (run : forEach (detectFile e now event) files h = some (u, h')) :
    h'.record = h.record ∧ h'.loader = h.loader ∧
      Debounced h'.worklist (reported now (files.filter (h.loader.watches event.wd)) pending) := by
  induction files generalizing h pending with
  | nil =>
    rw [(pure_inv run).2]
    exact ⟨rfl, rfl, debounced⟩
  | cons file files ih =>
    obtain ⟨_, h1, first, rest⟩ := bind_inv run
    rcases detectFile_inv overflow first with ⟨ignored, _⟩ | ⟨_, rfl⟩
    · cases ignored.symm.trans notIgnored
    · cases watches : h.loader.watches event.wd file with
      | false =>
        rw [watches] at rest
        rw [List.filter_cons_of_neg (by simp [watches])]
        exact ih debounced rest
      | true =>
        rw [watches] at rest
        obtain ⟨record, loader, renewed⟩ := ih debounced.renew rest
        refine ⟨record, loader, ?_⟩
        rw [List.filter_cons_of_pos watches]
        convert renewed using 1
        funext f
        by_cases own : f = file
        · simp [reported, own]
        · simp [reported, own]

theorem detectEvent_debounced (debounced : h.Debounced)
    (run : detectEvent e now event h = some (u, h')) : h'.Debounced := by
  obtain ⟨_, run⟩ := require_bind_inv run
  unfold onlyIf at run
  split at run
  · rw [bind_of_eq (modify_apply _ h)] at run
    unfold Helper.note at run
    rw [overflow, if_neg (by simp)] at run
    cases ignored : event.ignored with
    | true =>
      rw [ignored] at run
      obtain ⟨s, rfl⟩ := detectFiles_ignored overflow ignored _ run
      exact debounced
    | false =>
      rw [ignored, if_neg (by simp)] at run
      obtain ⟨record, -, renewed⟩ := detectFiles_modified overflow ignored _ (by exact debounced) run
      unfold Helper.Debounced
      rw [record, pendingSince_reported]
      exact renewed
  · rw [(pure_inv run).2]
    exact debounced

end Detect

theorem filemodificationDetect_debounced (overflow : ∀ event ∈ events, event.queueOverflow = false)
    (debounced : h.Debounced) (run : filemodificationDetect e now events h = some (u, h')) :
    h'.Debounced := by
  induction events generalizing h with
  | nil =>
    rw [(pure_inv run).2]
    exact debounced
  | cons event events ih =>
    obtain ⟨_, h1, first, rest⟩ := bind_inv run
    obtain ⟨isFirst, others⟩ := List.forall_mem_cons.mp overflow
    exact ih others (detectEvent_debounced isFirst debounced first) rest

/-! ## Loading -/

/-- The files of the entries that are due. -/
def dueFiles (now : Nat) (worklist : List (Nat × Nat)) : List Nat :=
  (worklist.takeWhile fun entry => entry.1 ≤ now).map Prod.snd

/-- The due files are loaded in the order of their times and removed from the list. -/
theorem loadDue_inv {updated : Bool} (isList : h.worklist = worklist) (debounced : h.Debounced)
    (run : loadDue e fuel now worklist h = some (updated, h')) :
    h'.Debounced ∧ h'.worklist = worklist.dropWhile (fun entry => entry.1 ≤ now) ∧
      h'.record = ((dueFiles now worklist).map (Notice.attempted now)).reverse ++ h.record ∧
      loadAll e fuel (dueFiles now worklist) h.loader = some (updated, h'.loader) := by
  induction worklist generalizing h updated with
  | nil =>
    cases run
    exact ⟨debounced, isList, rfl, rfl⟩
  | cons entry rest ih =>
    obtain ⟨time, file⟩ := entry
    unfold loadDue at run
    by_cases due : time ≤ now
    · rw [if_pos due, bind_of_eq (modify_apply _ h)] at run
      obtain ⟨first, h1, loads, run⟩ := bind_inv run
      obtain ⟨s, loaded, rfl⟩ := inLoader_inv loads
      rw [bind_of_eq (modify_apply _ _)] at run
      obtain ⟨others, h2, loadsRest, run⟩ := bind_inv run
      obtain ⟨rfl, rfl⟩ := pure_inv run
      have dropped : Helper.Debounced
          ⟨s, rest, h.removed, .attempted now file :: h.record⟩ := by
        unfold Helper.Debounced at debounced ⊢
        rw [isList] at debounced
        rw [pendingSince_attempted]
        exact debounced.drop
      obtain ⟨kept, list, record, loadedRest⟩ := ih rfl dropped loadsRest
      have isDue : dueFiles now ((time, file) :: rest) = file :: dueFiles now rest := by
        simp [dueFiles, due]
      refine ⟨kept, by simpa [due] using list, ?_, ?_⟩
      · rw [record, isDue]
        simp
      · rw [isDue]
        unfold loadAll
        rw [bind_of_eq loaded, bind_of_eq loadedRest]
        rfl
    · rw [if_neg due] at run
      obtain ⟨rfl, rfl⟩ := pure_inv run
      have noneDue : dueFiles now ((time, file) :: rest) = [] := by
        simp [dueFiles, due]
      rw [noneDue]
      exact ⟨debounced, by simp [isList, due], rfl, rfl⟩

theorem mem_takeWhile_due (ordered : Ordered worklist) :
    entry ∈ worklist.takeWhile (fun entry => entry.1 ≤ now) ↔
      entry ∈ worklist ∧ entry.1 ≤ now := by
  induction worklist with
  | nil => simp
  | cons first rest ih =>
    obtain ⟨isFirst, ordered⟩ := List.pairwise_cons.mp ordered
    by_cases due : first.1 ≤ now
    · rw [List.takeWhile_cons_of_pos (by simpa using due), List.mem_cons, List.mem_cons, ih ordered]
      constructor
      · rintro (rfl | ⟨member, isDue⟩)
        · exact ⟨.inl rfl, due⟩
        · exact ⟨.inr member, isDue⟩
      · tauto
    · rw [List.takeWhile_cons_of_neg (by simpa using due)]
      constructor
      · nofun
      · rintro ⟨member, isDue⟩
        rcases List.mem_cons.mp member with rfl | member
        · exact absurd isDue due
        · have := isFirst entry member
          unfold entryBefore at this
          omega

/-- What is due are the files whose last report is at least one second old. -/
theorem Helper.Debounced.mem_dueFiles (debounced : h.Debounced) :
    file ∈ dueFiles now h.worklist ↔
      ∃ last, pendingSince file h.record = some last ∧ last + secondNs ≤ now := by
  unfold dueFiles
  rw [List.mem_map]
  constructor
  · rintro ⟨⟨time, _⟩, member, rfl⟩
    obtain ⟨member, due⟩ := (mem_takeWhile_due debounced.ordered).mp member
    obtain ⟨last, isLast, rfl⟩ := (debounced.entries _ _).mp member
    exact ⟨last, isLast, due⟩
  · rintro ⟨last, isLast, due⟩
    have member := (debounced.entries (last + secondNs) file).mpr ⟨last, isLast, rfl⟩
    exact ⟨_, (mem_takeWhile_due debounced.ordered).mpr ⟨member, due⟩, rfl⟩

theorem Helper.Debounced.nodup_dueFiles (debounced : h.Debounced) :
    (dueFiles now h.worklist).Nodup :=
  debounced.once.sublist ((List.takeWhile_sublist _).map _)

/-- `filemodification_load` at a time is `filemodification_load` for what is due then. -/
theorem filemodificationLoadAt_inv (debounced : h.Debounced)
    (run : filemodificationLoadAt e fuel now h = some (u, h')) :
    h'.Debounced ∧
      h'.record = ((dueFiles now h.worklist).map (Notice.attempted now)).reverse ++ h.record ∧
      filemodificationLoad e fuel (dueFiles now h.worklist) h.loader = some ((), h'.loader) := by
  unfold filemodificationLoadAt at run
  rw [bind_of_eq (get_apply h)] at run
  obtain ⟨updated, h1, loads, run⟩ := bind_inv run
  obtain ⟨kept, -, record, loaded⟩ := loadDue_inv rfl debounced loads
  unfold filemodificationLoad
  rw [bind_of_eq loaded]
  cases updated with
  | false =>
    obtain ⟨_, rfl⟩ := pure_inv run
    exact ⟨kept, record, rfl⟩
  | true =>
    obtain ⟨s, after, rfl⟩ := inLoader_inv (show inLoader (afterLoads e) h1 = some (u, h') from run)
    exact ⟨kept, record, after⟩

theorem helperIteration_inv {e1 e2 : Env} (overflow : ∀ event ∈ events, event.queueOverflow = false)
    (debounced : h.Debounced) (run : helperIteration e1 e2 fuel now events h = some (u, h')) :
    ∃ h1, filemodificationDetect e1 now events h = some ((), h1) ∧ h1.Debounced ∧ h'.Debounced ∧
      h'.record = ((dueFiles now h1.worklist).map (Notice.attempted now)).reverse ++ h1.record ∧
      filemodificationLoad e2 fuel (dueFiles now h1.worklist) h1.loader = some ((), h'.loader) := by
  obtain ⟨_, h1, detects, run⟩ := bind_inv run
  rw [bind_of_eq (get_apply h1)] at run
  have debounced1 := filemodificationDetect_debounced overflow debounced detects
  refine ⟨h1, detects, debounced1, ?_⟩
  unfold onlyIf at run
  split at run
  · exact filemodificationLoadAt_inv debounced1 run
  · rename_i isEmpty
    obtain ⟨_, rfl⟩ := pure_inv run
    have nothing : h'.worklist = [] := by simpa using isEmpty
    rw [nothing]
    exact ⟨debounced1, rfl, rfl⟩

end Steps

/-! ## Whole runs -/

/-- Iterations of the loop at any times, each with any notifications but an overflow of their
queue; between them the loader does anything else. -/
inductive HelperRun : Helper → Prop
  | start (s : Loader) : HelperRun ⟨s, [], [], []⟩
  | iteration {h h' : Helper} {e₁ e₂ : Env} {fuel now : Nat} {events : List InotifyEvent} :
      HelperRun h → (∀ event ∈ events, event.queueOverflow = false) →
      helperIteration e₁ e₂ fuel now events h = some ((), h') → HelperRun h'
  | other {h : Helper} (s : Loader) : HelperRun h → HelperRun { h with loader := s }

theorem HelperRun.debounced {h : Helper} (run : HelperRun h) : h.Debounced := by
  induction run with
  | start s => exact debounced_nil
  | iteration _ overflow iterates ih =>
    obtain ⟨_, _, _, kept, _⟩ := helperIteration_inv overflow ih iterates
    exact kept
  | other s _ ih => exact ih

/-- In every run the work list holds, each once, the files reported since it was last tried to
load them, with the time one second after the last report; and an iteration tries to load, each
once, exactly the files whose last report is at least one second old. -/
theorem helperIteration_loads_due {e₁ e₂ : Env} {fuel now : Nat} {events : List InotifyEvent}
    {h h' : Helper} (run : HelperRun h)
    (overflow : ∀ event ∈ events, event.queueOverflow = false)
    (iterates : helperIteration e₁ e₂ fuel now events h = some ((), h')) :
    ∃ h₁ due, filemodificationDetect e₁ now events h = some ((), h₁) ∧
      (∀ x ∈ [h, h₁, h'], (x.worklist.map Prod.snd).Nodup ∧
        ∀ time file, (time, file) ∈ x.worklist ↔
          ∃ last, pendingSince file x.record = some last ∧ time = last + secondNs) ∧
      filemodificationLoad e₂ fuel due h₁.loader = some ((), h'.loader) ∧
      h'.record = (due.map (Notice.attempted now)).reverse ++ h₁.record ∧ due.Nodup ∧
      ∀ file, file ∈ due ↔
        ∃ last, pendingSince file h₁.record = some last ∧ last + secondNs ≤ now := by
  have debounced := run.debounced
  obtain ⟨h₁, detects, debounced1, debounced', record, loads⟩ :=
    helperIteration_inv overflow debounced iterates
  refine ⟨h₁, dueFiles now h₁.worklist, detects, ?_, loads, record, debounced1.nodup_dueFiles,
    fun file => debounced1.mem_dueFiles⟩
  intro x isState
  simp only [List.mem_cons, List.not_mem_nil, or_false] at isState
  rcases isState with rfl | rfl | rfl
  · exact ⟨debounced.once, debounced.entries⟩
  · exact ⟨debounced1.once, debounced1.entries⟩
  · exact ⟨debounced'.once, debounced'.entries⟩

/-- The library `liby.so`, watched with a descriptor. -/
def watchedY : Loader :=
  { Loader.initial with
    lookup := [{ ObjectIdentity.global 0 "liby.so" [] with
      flags := { Flags.zero with updatable := true }
      wd := some 12 }]
    fresh := 1 }

/-- A notification for a descriptor. -/
def InotifyEvent.change (wd : Nat) : InotifyEvent := ⟨some wd, false, false, false⟩

/-- Reported twice within a second, it is loaded once. -/
theorem helperIteration_loads_due_twice :
    (∀ event ∈ [InotifyEvent.change 12, InotifyEvent.change 12], event.queueOverflow = false) ∧
    ∃ h h', HelperRun h ∧ h.worklist = [(secondNs + 7, 0)] ∧
      helperIteration Env.noFiles Env.noFiles 1 (secondNs + 7) [] h = some ((), h') ∧
      ∃ h₁ due, filemodificationDetect Env.noFiles (secondNs + 7) [] h = some ((), h₁) ∧
        (∀ x ∈ [h, h₁, h'], (x.worklist.map Prod.snd).Nodup ∧
          ∀ time file, (time, file) ∈ x.worklist ↔
            ∃ last, pendingSince file x.record = some last ∧ time = last + secondNs) ∧
        filemodificationLoad Env.noFiles 1 due h₁.loader = some ((), h'.loader) ∧
        h'.record = (due.map (Notice.attempted (secondNs + 7))).reverse ++ h₁.record ∧ due.Nodup ∧
        ∀ file, file ∈ due ↔
          ∃ last, pendingSince file h₁.record = some last ∧ last + secondNs ≤ secondNs + 7 := by
  have overflow : ∀ event ∈ [InotifyEvent.change 12, InotifyEvent.change 12],
      event.queueOverflow = false := by decide
  have first : helperIteration Env.noFiles Env.noFiles 1 3 [.change 12, .change 12]
      ⟨watchedY, [], [], []⟩ =
        some ((), ⟨watchedY, [(3 + secondNs, 0)], [], [.modified 3 0, .modified 3 0]⟩) := rfl
  have second : helperIteration Env.noFiles Env.noFiles 1 7 [.change 12]
      ⟨watchedY, [(3 + secondNs, 0)], [], [.modified 3 0, .modified 3 0]⟩ =
        some ((), ⟨watchedY, [(secondNs + 7, 0)], [],
          [.modified 7 0, .modified 3 0, .modified 3 0]⟩) := rfl
  have third : helperIteration Env.noFiles Env.noFiles 1 (secondNs + 7) []
      ⟨watchedY, [(secondNs + 7, 0)], [], [.modified 7 0, .modified 3 0, .modified 3 0]⟩ =
        some ((), ⟨watchedY, [], [],
          [.attempted (secondNs + 7) 0, .modified 7 0, .modified 3 0, .modified 3 0]⟩) := rfl
  have run := ((HelperRun.start watchedY).iteration overflow first).iteration
    (by decide) second
  exact ⟨overflow, _, _, run, rfl, third, helperIteration_loads_due run (by simp) third⟩

end Luci
