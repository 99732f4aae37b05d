import Luci.Loader

/-!
# The helper thread

The loop of the helper thread (`src/loader_helper.cpp`): it takes notifications about watched
files, notes for one second in a work list what was modified, and then loads it. A file that is
modified again meanwhile is loaded one second after its last modification.

Times are in nanoseconds since the start of the system; their 64 bits last for centuries. The
work list is `dlh`'s ordered set of pairs, here a sorted list. Old versions are not protected
(`config.detect_outdated` is off), so the list of objects to protect stays empty.
-/

namespace Luci

/-- `SECOND_NS`. -/
def secondNs : Nat := 1000000000

/-- The parts of `struct inotify_event` that are read; a watch descriptor of `none` is -1. -/
structure InotifyEvent where
  wd : Option Nat
  /-- `IN_ISDIR`. -/
  isDirectory : Bool
  /-- `IN_Q_OVERFLOW`. -/
  queueOverflow : Bool
  /-- `IN_IGNORED`. -/
  ignored : Bool
  deriving DecidableEq, Repr

/-- What is recorded of the loop: when a watched file was reported as modified, and when it was
tried to load it. -/
inductive Notice where
  | modified (now file : Nat)
  | attempted (now file : Nat)
  deriving DecidableEq, Repr

/-! ## The work list -/

/-- The order of `TreeSet<Pair<unsigned long, ObjectIdentity*>>`. -/
def entryBefore (x y : Nat × Nat) : Prop := x.1 < y.1 ∨ x.1 = y.1 ∧ x.2 < y.2

instance (x y : Nat × Nat) : Decidable (entryBefore x y) :=
  inferInstanceAs (Decidable (_ ∨ _))

/-- `emplace` and `insert`. -/
def emplaceEntry (x : Nat × Nat) : List (Nat × Nat) → List (Nat × Nat)
  | [] => [x]
  | y :: rest =>
    if x = y then y :: rest
    else if entryBefore x y then x :: y :: rest
    else y :: emplaceEntry x rest

/-- A modified file is put in the list, or its time is changed
(`src/loader_helper.cpp:63-78`). -/
def renewEntry (time file : Nat) (worklist : List (Nat × Nat)) : List (Nat × Nat) :=
  match worklist.find? fun entry => entry.2 = file with
  | some entry =>
    if entry.1 = time then worklist
    else emplaceEntry (time, file) (worklist.erase entry)
  | none => emplaceEntry (time, file) worklist

/-! ## The state of the helper thread -/

/-- The loader, `worklist_load`, the watch descriptors that the system has reported as removed,
and the record with its last notice first. -/
structure Helper where
  loader : Loader
  worklist : List (Nat × Nat)
  removed : List Nat
  record : List Notice

/-- A computation of the helper thread. -/
abbrev HelperM (α : Type) := Exec Helper α

/-- A computation of the loader. -/
def inLoader {α : Type} (x : LoaderM α) : HelperM α := fun h =>
  (x h.loader).map fun result => (result.1, { h with loader := result.2 })

/-! ## Notifications -/

/-- The identities that watch with this descriptor. -/
def Loader.watching (s : Loader) (wd : Option Nat) : List Nat :=
  (s.lookup.map ObjectIdentity.id).filter fun file =>
    (s.identity file).any fun i => i.wd = wd

/-- What an event says, for the record. -/
def Helper.note (now : Nat) (event : InotifyEvent) (h : Helper) : Helper :=
  if event.queueOverflow then h
  else if event.ignored then
    { h with removed := event.wd.toList ++ h.removed }
  else
    { h with record := (h.loader.watching event.wd).map (Notice.modified now) ++ h.record }

/-- An event for an identity of the lookup list (`src/loader_helper.cpp:53-81`). -/
def detectFile (e : Env) (now : Nat) (event : InotifyEvent) (file : Nat) : HelperM Unit := do
  let i ← inLoader (getIdentity file)
  if event.queueOverflow then
    modify fun h => { h with worklist := emplaceEntry (now + secondNs, file) h.worklist }
  else if event.wd = i.wd then
    if event.ignored then do
      -- Reinstall watch
      let _ ← inLoader (watch e file true true)
    else modify fun h => { h with worklist := renewEntry (now + secondNs) file h.worklist }
  else pure ()

/-- One event (`src/loader_helper.cpp:42-83`). -/
def detectEvent (e : Env) (now : Nat) (event : InotifyEvent) : HelperM Unit := do
  Exec.require !event.isDirectory
  Exec.onlyIf event.wd.isSome (do
    modify (Helper.note now event)
    let h ← get
    Exec.forEach (detectFile e now event) (h.loader.lookup.map ObjectIdentity.id))

/-- `Loader::filemodification_detect` (`src/loader_helper.cpp:28-85`), given the events in the
buffer. -/
def filemodificationDetect (e : Env) (now : Nat) (events : List InotifyEvent) : HelperM Unit :=
  Exec.forEach (detectEvent e now) events

/-! ## The buffer of notifications -/

/-- `IN_ISDIR`. -/
def inIsdir : Nat := 0x40000000
/-- `IN_Q_OVERFLOW`. -/
def inQOverflow : Nat := 0x4000
/-- `IN_IGNORED`. -/
def inIgnored : Nat := 0x8000

/-- `sizeof(struct inotify_event)`. -/
def inotifyEventSize : Nat := 16

/-- A little-endian number. -/
def natOfBytes : List UInt8 → Nat
  | [] => 0
  | byte :: bytes => byte.toNat + 256 * natOfBytes bytes

/-- A member of 32 bits of the event at the start of the buffer. -/
def eventMember (buf : List UInt8) (offset : Nat) : Nat := natOfBytes ((buf.drop offset).take 4)

/-- The event at the start of the buffer: the members `wd` and `mask`. -/
def InotifyEvent.ofBuffer (buf : List UInt8) : InotifyEvent where
  wd := if eventMember buf 0 = 2 ^ 32 - 1 then none else some (eventMember buf 0)
  isDirectory := eventMember buf 4 &&& inIsdir ≠ 0
  queueOverflow := eventMember buf 4 &&& inQOverflow ≠ 0
  ignored := eventMember buf 4 &&& inIgnored ≠ 0

/-- The walk over the records, `ptr += sizeof(struct inotify_event) + event->len`
(`src/loader_helper.cpp:40-44`). -/
def bufferEvents (buf : List UInt8) : List InotifyEvent :=
  if buf.isEmpty then []
  else InotifyEvent.ofBuffer buf :: bufferEvents (buf.drop (inotifyEventSize + eventMember buf 12))
termination_by buf.length
decreasing_by
  rename_i more
  have := List.length_pos_iff.mpr fun empty => more (List.isEmpty_iff.mpr empty)
  simp only [List.length_drop, inotifyEventSize]
  omega

/-- `Loader::filemodification_detect` (`src/loader_helper.cpp:28-85`) with what `read` has put in
the buffer; that is nothing if it fails. -/
def filemodificationDetectBuffer (e : Env) (now : Nat) (buf : List UInt8) : HelperM Unit :=
  filemodificationDetect e now (bufferEvents buf)

/-! ## Loading -/

/-- The loop of `filemodification_load` (`src/loader_helper.cpp:117-133`) over the sorted work
list; was something updated? -/
def loadDue (e : Env) (fuel now : Nat) : List (Nat × Nat) → HelperM Bool
  | [] => return false
  | (time, file) :: rest =>
    if time ≤ now then do
      modify fun h => { h with record := .attempted now file :: h.record }
      let updated ← inLoader (filemodificationLoadHelper e fuel file)
      modify fun h => { h with worklist := rest }
      let others ← loadDue e fuel now rest
      return updated || others
    else return false

/-- The end of `filemodification_load` if something was updated
(`src/loader_helper.cpp:134-154`). -/
def afterLoads (e : Env) : LoaderM Unit := do
  let s ← get
  -- Check for update hooks
  if s.lookup.any fun i => i.hook.updatePoint then
    modify fun s => { s with updatePending := true }
  else updateLoaded e

/-- `Loader::filemodification_load` (`src/loader_helper.cpp:114-155`). -/
def filemodificationLoadAt (e : Env) (fuel now : Nat) : HelperM Unit := do
  let h ← get
  let updated ← loadDue e fuel now h.worklist
  Exec.onlyIf updated (inLoader (afterLoads e))

/-- An iteration of `Loader::helper_loop` (`src/loader_helper.cpp:305-323`), with the surroundings
of its two parts; there are no events if `poll` has reached its time limit. -/
def helperIteration (e₁ e₂ : Env) (fuel now : Nat) (events : List InotifyEvent) : HelperM Unit := do
  filemodificationDetect e₁ now events
  let h ← get
  Exec.onlyIf (!h.worklist.isEmpty) (filemodificationLoadAt e₂ fuel now)

end Luci
