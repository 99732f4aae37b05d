import Luci.Proofs.Watches

/-!
# Overflow of the notification queue

The kernel reports that its queue of notifications was full with an event without a watch
descriptor. The walk of `Loader::filemodification_detect` over the buffer finds every event, and
which files have an entry in the work list afterwards: those that had one, and those whose watch
descriptor is named by an event.
-/

namespace Luci

open Exec

variable {f file time : Nat} {events : List InotifyEvent} {worklist : List (Nat × Nat)}

/-! ## Records in the buffer -/

/-- A little-endian number of `n` bytes. -/
def bytesOfNat : Nat → Nat → List UInt8
  | 0, _ => []
  | n + 1, value => UInt8.ofNat value :: bytesOfNat n (value / 256)

@[simp] theorem length_bytesOfNat (n value : Nat) : (bytesOfNat n value).length = n := by
  induction n generalizing value with
  | zero => rfl
  | succ n ih => simp [bytesOfNat, ih]

theorem natOfBytes_bytesOfNat (n value : Nat) :
    natOfBytes (bytesOfNat n value) = value % 256 ^ n := by
  induction n generalizing value with
  | zero => simp [bytesOfNat, natOfBytes, Nat.mod_one]
  | succ n ih =>
    rw [bytesOfNat, natOfBytes, ih, Nat.pow_succ, Nat.mul_comm (256 ^ n), Nat.mod_mul]
    simp

/-- An event as the kernel writes it to the buffer; a watch descriptor of `none` is -1. -/
structure InotifyRecord where
  wd : Option (Fin (2 ^ 31))
  mask : Fin (2 ^ 32)
  cookie : Fin (2 ^ 32)
  name : List UInt8
  nameFits : name.length < 2 ^ 32

/-- The 32 bits of a watch descriptor. -/
def InotifyRecord.wdWord (r : InotifyRecord) : Nat := (r.wd.map Fin.val).getD (2 ^ 32 - 1)

/-- `struct inotify_event` with the name behind it. -/
def InotifyRecord.encode (r : InotifyRecord) : List UInt8 :=
  bytesOfNat 4 r.wdWord ++ bytesOfNat 4 r.mask ++
    bytesOfNat 4 r.cookie ++ bytesOfNat 4 r.name.length ++ r.name

/-- What is read of a record. -/
def InotifyRecord.event (r : InotifyRecord) : InotifyEvent where
  wd := r.wd.map Fin.val
  isDirectory := r.mask.val &&& inIsdir ≠ 0
  queueOverflow := r.mask.val &&& inQOverflow ≠ 0
  ignored := r.mask.val &&& inIgnored ≠ 0

theorem eventMember_append (front rest : List UInt8) {value : Nat} (fits : value < 2 ^ 32) :
    eventMember (front ++ (bytesOfNat 4 value ++ rest)) front.length = value := by
  unfold eventMember
  rw [List.drop_left, List.take_left' (length_bytesOfNat 4 value), natOfBytes_bytesOfNat]
  exact Nat.mod_eq_of_lt fits

section Record

variable (r : InotifyRecord) (rest : List UInt8)

theorem wdWord_lt : r.wdWord < 2 ^ 32 := by
  unfold InotifyRecord.wdWord
  cases isWd : r.wd with
  | none => decide
  | some wd =>
    simp only [Option.map_some, Option.getD_some]
    omega

theorem eventMember_wd : eventMember (r.encode ++ rest) 0 = r.wdWord := by
  simpa [InotifyRecord.encode] using eventMember_append [] (bytesOfNat 4 r.mask ++
    (bytesOfNat 4 r.cookie ++ (bytesOfNat 4 r.name.length ++ (r.name ++ rest)))) (wdWord_lt r)

theorem eventMember_mask : eventMember (r.encode ++ rest) 4 = r.mask := by
  simpa [InotifyRecord.encode] using eventMember_append (bytesOfNat 4 r.wdWord)
    (bytesOfNat 4 r.cookie ++ (bytesOfNat 4 r.name.length ++ (r.name ++ rest))) r.mask.isLt

theorem eventMember_len : eventMember (r.encode ++ rest) 12 = r.name.length := by
  simpa [InotifyRecord.encode] using eventMember_append
    (bytesOfNat 4 r.wdWord ++ bytesOfNat 4 r.mask ++ bytesOfNat 4 r.cookie) (r.name ++ rest)
    r.nameFits

theorem length_encode : r.encode.length = inotifyEventSize + r.name.length := by
  simp only [InotifyRecord.encode, List.length_append, length_bytesOfNat, inotifyEventSize]

theorem ofBuffer_encode : InotifyEvent.ofBuffer (r.encode ++ rest) = r.event := by
  have wd : (if r.wdWord = 2 ^ 32 - 1 then none else some r.wdWord) = r.wd.map Fin.val := by
    unfold InotifyRecord.wdWord
    cases isWd : r.wd with
    | none => rfl
    | some wd =>
      rw [Option.map_some, Option.getD_some, if_neg (by omega)]
  unfold InotifyEvent.ofBuffer InotifyRecord.event
  rw [eventMember_wd, eventMember_mask, wd]

end Record

/-- The walk over the buffer finds the events of all records. -/
theorem bufferEvents_encode (records : List InotifyRecord) :
    bufferEvents (records.flatMap InotifyRecord.encode) = records.map InotifyRecord.event := by
  induction records with
  | nil =>
    unfold bufferEvents
    rfl
  | cons r records ih =>
    have more : ¬ (r.encode ++ records.flatMap InotifyRecord.encode).isEmpty := by
      rw [List.isEmpty_iff]
      intro empty
      have := congrArg List.length empty
      simp [length_encode, inotifyEventSize] at this
    rw [List.flatMap_cons, bufferEvents, if_neg more, ofBuffer_encode, eventMember_len,
      ← length_encode, List.drop_left, ih, List.map_cons]

/-! ## Entries of the work list -/

/-- The file has an entry in the work list. -/
def Helper.Lists (h : Helper) (file : Nat) : Prop := ∃ time, (time, file) ∈ h.worklist

/-- An event about the file: it has the watch descriptor of the file, and says that it was
modified. -/
structure InotifyEvent.Names (event : InotifyEvent) (s : Loader) (file : Nat) : Prop where
  wd : event.wd.isSome = true
  modified : event.queueOverflow = false ∧ event.ignored = false
  watches : s.watches event.wd file = true

/-- Some event names the file, with the watch descriptor it has by then. -/
inductive Named (e : Env) (now file : Nat) : Helper → List InotifyEvent → Prop
  | here {h : Helper} {event : InotifyEvent} {events : List InotifyEvent}
      (names : event.Names h.loader file) : Named e now file h (event :: events)
  | later {h h₁ : Helper} {event : InotifyEvent} {events : List InotifyEvent}
      (processed : detectEvent e now event h = some ((), h₁))
      (named : Named e now file h₁ events) : Named e now file h (event :: events)

theorem exists_mem_emplaceEntry :
    (∃ t, (t, f) ∈ emplaceEntry (time, file) worklist) ↔ f = file ∨ ∃ t, (t, f) ∈ worklist := by
  constructor
  · rintro ⟨t, member⟩
    rcases mem_emplaceEntry.mp member with isNew | isOld
    · exact .inl (congrArg Prod.snd isNew)
    · exact .inr ⟨t, isOld⟩
  · rintro (rfl | ⟨t, isOld⟩)
    · exact ⟨time, mem_emplaceEntry.mpr (.inl rfl)⟩
    · exact ⟨t, mem_emplaceEntry.mpr (.inr isOld)⟩

/-- Renewing the entry of a file leaves the others their entries. -/
theorem exists_mem_renewEntry :
    (∃ t, (t, f) ∈ renewEntry time file worklist) ↔ f = file ∨ ∃ t, (t, f) ∈ worklist := by
  unfold renewEntry
  cases found : worklist.find? (fun entry => entry.2 = file) with
  | none => exact exists_mem_emplaceEntry
  | some entry =>
    have listed := List.mem_of_find?_eq_some found
    have isFile : entry.2 = file := by simpa using List.find?_some found
    dsimp only
    by_cases same : entry.1 = time
    · rw [if_pos same]
      constructor
      · exact .inr
      · rintro (rfl | before)
        · exact ⟨entry.1, by rw [← isFile]; exact listed⟩
        · exact before
    · rw [if_neg same, exists_mem_emplaceEntry]
      constructor
      · rintro (own | ⟨t, member⟩)
        · exact .inl own
        · exact .inr ⟨t, List.mem_of_mem_erase member⟩
      · rintro (own | ⟨t, member⟩)
        · exact .inl own
        · by_cases own : f = file
          · exact .inl own
          · refine .inr ⟨t, (List.mem_erase_of_ne fun isEntry => own ?_).mpr member⟩
            rw [← isFile, ← isEntry]

section Events

variable {e : Env} {now file : Nat} {event : InotifyEvent} {h h' : Helper} {u : Unit}

/-- Events about modifications list the files that watch with their descriptor. -/
theorem detectFiles_lists (modified : event.queueOverflow = false ∧ event.ignored = false)
    (files : List Nat) (run : forEach (detectFile e now event) files h = some (u, h')) :
    h'.loader = h.loader ∧
      (h'.Lists file ↔ h.Lists file ∨ file ∈ files ∧ h.loader.watches event.wd file) := by
  induction files generalizing h with
  | nil =>
    rw [(pure_inv run).2]
    simp
  | cons first files ih =>
    obtain ⟨_, h1, detected, rest⟩ := bind_inv run
    rcases detectFile_inv modified.1 detected with ⟨ignored, _⟩ | ⟨_, state⟩
    · cases ignored.symm.trans modified.2
    · obtain ⟨loader, lists⟩ := ih rest
      by_cases watches : h.loader.watches event.wd first
      · rw [if_pos watches] at state
        rw [state] at loader lists
        refine ⟨loader, lists.trans ?_⟩
        unfold Helper.Lists
        rw [exists_mem_renewEntry, List.mem_cons]
        constructor
        · rintro ((rfl | before) | ⟨member, watching⟩)
          · exact .inr ⟨.inl rfl, watches⟩
          · exact .inl before
          · exact .inr ⟨.inr member, watching⟩
        · rintro (before | ⟨isFirst | member, watching⟩)
          · exact .inl (.inr before)
          · exact .inl (.inl isFirst)
          · exact .inr ⟨member, watching⟩
      · rw [if_neg watches] at state
        rw [state] at loader lists
        refine ⟨loader, lists.trans ?_⟩
        rw [List.mem_cons]
        constructor
        · rintro (before | ⟨member, watching⟩)
          · exact .inl before
          · exact .inr ⟨.inr member, watching⟩
        · rintro (before | ⟨rfl | member, watching⟩)
          · exact .inl before
          · exact absurd watching watches
          · exact .inr ⟨member, watching⟩

/-- The identities are the same ones. -/
def SameIds (s s' : Loader) : Prop :=
  s'.lookup.map ObjectIdentity.id = s.lookup.map ObjectIdentity.id

instance : FramedLoad SameIds where
  refl _ := rfl
  trans _ _ _ first second := second.trans first
  unused _ _ _ _ _ _ := rfl
  vm _ _ _ := rfl
  datarelContent _ _ := rfl
  identity _ _ _ keep := Loader.ids_modifyIdentity keep
  tls _ _ := rfl

theorem detectFiles_ids (files : List Nat)
    (run : forEach (detectFile e now event) files h = some (u, h')) : SameIds h.loader h'.loader := by
  induction files generalizing h with
  | nil =>
    rw [(pure_inv run).2]
    exact rfl
  | cons first files ih =>
    obtain ⟨_, h1, detected, rest⟩ := bind_inv run
    obtain ⟨-, i, -, ⟨-, ok, watched⟩ | ⟨-, loader⟩⟩ := detectFile_loader detected
    · have same : SameIds h.loader h1.loader := frame_watch first true true _ _ _ watched
      exact trans_of SameIds same (ih rest)
    · have same := ih rest
      rwa [loader] at same

theorem detectEvent_ids (run : detectEvent e now event h = some (u, h')) :
    SameIds h.loader h'.loader := by
  obtain ⟨_, run⟩ := require_bind_inv run
  unfold onlyIf at run
  by_cases isWd : event.wd.isSome
  · rw [if_pos isWd] at run
    have same := detectFiles_ids _ run
    rwa [note_loader] at same
  · rw [if_neg isWd] at run
    rw [(pure_inv run).2]
    exact rfl

theorem filemodificationDetect_ids (run : filemodificationDetect e now events h = some (u, h')) :
    SameIds h.loader h'.loader := by
  induction events generalizing h with
  | nil =>
    rw [(pure_inv run).2]
    exact rfl
  | cons event events ih =>
    obtain ⟨_, h1, first, rest⟩ := bind_inv run
    exact trans_of SameIds (detectEvent_ids first) (ih rest)

/-- An event lists the files it names, and the others only if they have been listed before. The
one for a full queue has no watch descriptor and is skipped. -/
theorem detectEvent_lists (delivered : event.queueOverflow → event.wd = none)
    (loaded : file ∈ h.loader.lookup.map ObjectIdentity.id)
    (run : detectEvent e now event h = some (u, h')) :
    h'.Lists file ↔ h.Lists file ∨ event.Names h.loader file := by
  obtain ⟨_, run⟩ := require_bind_inv run
  unfold onlyIf at run
  by_cases isWd : event.wd.isSome
  · have overflow : event.queueOverflow = false := by
      by_contra overflow
      rw [delivered (by simpa using overflow)] at isWd
      cases isWd
    rw [if_pos isWd] at run
    have worklist : (h.note now event).worklist = h.worklist := by
      unfold Helper.note
      split
      · rfl
      · split <;> rfl
    cases ignored : event.ignored with
    | true =>
      obtain ⟨s, state⟩ := detectFiles_ignored overflow ignored _ run
      have unnamed : ¬ event.Names h.loader file := by
        intro names
        cases ignored.symm.trans names.modified.2
      rw [or_iff_left unnamed, state]
      unfold Helper.Lists
      rw [worklist]
    | false =>
      obtain ⟨-, lists⟩ := detectFiles_lists ⟨overflow, ignored⟩ _ run
      rw [note_loader] at lists
      refine lists.trans (or_congr ?_ ?_)
      · unfold Helper.Lists
        rw [worklist]
      · constructor
        · rintro ⟨-, watches⟩
          exact ⟨isWd, ⟨overflow, ignored⟩, watches⟩
        · intro names
          exact ⟨loaded, names.watches⟩
  · rw [if_neg isWd] at run
    have unnamed : ¬ event.Names h.loader file := fun names => isWd names.wd
    rw [(pure_inv run).2, or_iff_left unnamed]

theorem filemodificationDetect_lists
    (delivered : ∀ event ∈ events, event.queueOverflow → event.wd = none)
    (loaded : file ∈ h.loader.lookup.map ObjectIdentity.id)
    (run : filemodificationDetect e now events h = some (u, h')) :
    h'.Lists file ↔ h.Lists file ∨ Named e now file h events := by
  induction events generalizing h with
  | nil =>
    have unnamed : ¬ Named e now file h [] := nofun
    rw [(pure_inv run).2, or_iff_left unnamed]
  | cons event events ih =>
    obtain ⟨_, h1, first, rest⟩ := bind_inv run
    obtain ⟨isFirst, others⟩ := List.forall_mem_cons.mp delivered
    have loaded1 : file ∈ h1.loader.lookup.map ObjectIdentity.id := by
      rw [detectEvent_ids first]
      exact loaded
    rw [ih others loaded1 rest, detectEvent_lists isFirst loaded first, or_assoc]
    refine or_congr Iff.rfl ?_
    constructor
    · rintro (names | named)
      · exact Named.here names
      · exact Named.later first named
    · intro named
      cases named with
      | here names => exact .inl names
      | later processed named =>
        rw [first] at processed
        cases processed
        exact .inr named

/-- After a buffer in which overflows of the queue are reported without a watch descriptor, every
identity is in the work list exactly if each was there before or is named by another event. -/
theorem overflow_lists_all_iff {records : List InotifyRecord}
    (delivered : ∀ r ∈ records, r.event.queueOverflow = true → r.wd = none)
    (run : filemodificationDetectBuffer e now (records.flatMap InotifyRecord.encode) h =
      some (u, h')) :
    (∀ i ∈ h'.loader.lookup, h'.Lists i.id) ↔
      ∀ i ∈ h.loader.lookup, h.Lists i.id ∨
        Named e now i.id h (records.map InotifyRecord.event) := by
  unfold filemodificationDetectBuffer at run
  rw [bufferEvents_encode] at run
  have skipped : ∀ event ∈ records.map InotifyRecord.event,
      event.queueOverflow = true → event.wd = none := by
    intro event member overflow
    obtain ⟨r, isRecord, rfl⟩ := List.mem_map.mp member
    show r.wd.map Fin.val = none
    rw [delivered r isRecord overflow]
    rfl
  have same := filemodificationDetect_ids run
  constructor
  · intro listed i member
    have isId := List.mem_map_of_mem (f := ObjectIdentity.id) member
    apply (filemodificationDetect_lists skipped isId run).mp
    rw [← same] at isId
    obtain ⟨i', member', isSame⟩ := List.mem_map.mp isId
    rw [← isSame]
    exact listed i' member'
  · intro listed i' member'
    have isId := List.mem_map_of_mem (f := ObjectIdentity.id) member'
    rw [same] at isId
    apply (filemodificationDetect_lists skipped isId run).mpr
    obtain ⟨i, member, isSame⟩ := List.mem_map.mp isId
    rw [← isSame]
    exact listed i member

end Events

/-- The record of a full queue. -/
def InotifyRecord.overflow : InotifyRecord := ⟨none, 0x4000, 0, [], by decide⟩

/-- The record of a modification, with a name of four bytes. -/
def InotifyRecord.modified (wd : Fin (2 ^ 31)) : InotifyRecord :=
  ⟨some wd, 2, 0, [0x79, 0, 0, 0], by decide⟩

/-- A full queue, behind a notification for the only library. -/
theorem overflow_lists_all_iff_named : ∃ h' : Helper,
    filemodificationDetectBuffer Env.noFiles 3
      ([.modified 12, .overflow].flatMap InotifyRecord.encode) ⟨watchedY, [], [], []⟩ =
        some ((), h') ∧ ∀ i ∈ h'.loader.lookup, h'.Lists i.id := by
  have delivered : ∀ r ∈ [InotifyRecord.modified 12, .overflow],
      r.event.queueOverflow = true → r.wd = none := by decide
  have run : filemodificationDetectBuffer Env.noFiles 3
      ([.modified 12, .overflow].flatMap InotifyRecord.encode) ⟨watchedY, [], [], []⟩ =
        some ((), ⟨watchedY, [(3 + secondNs, 0)], [], [.modified 3 0]⟩) := by
    unfold filemodificationDetectBuffer
    rw [bufferEvents_encode]
    rfl
  refine ⟨_, run, (overflow_lists_all_iff delivered run).mpr fun i member => Or.inr ?_⟩
  rw [List.mem_singleton.mp member]
  exact Named.here ⟨rfl, ⟨rfl, rfl⟩, rfl⟩

/-- A full queue alone lists nothing. -/
theorem overflow_lists_nothing :
    InotifyRecord.overflow.event.queueOverflow = true ∧ InotifyRecord.overflow.wd = none ∧
    filemodificationDetectBuffer Env.noFiles 3 ([.overflow].flatMap InotifyRecord.encode)
      ⟨watchedY, [], [], []⟩ = some ((), ⟨watchedY, [], [], []⟩) ∧
    watchedY.lookup.map ObjectIdentity.id = [0] := by
  refine ⟨by decide, rfl, ?_, rfl⟩
  unfold filemodificationDetectBuffer
  rw [bufferEvents_encode]
  rfl

end Luci
