import Luci.Redirect

/-!
# Redirections and threads

`Redirect::add`, `Redirect::remove` and the sections of the signal handler exclude each other
with `redirection_sync`. The handler looks its entry up as a reader, and if the entry is to be
made static it gives the lock back and takes it again as a writer, holding a reference to the
entry meanwhile (`src/redirect.cpp:183-208`). Each section is one step here, and threads take
their steps in any order.

The table is `dlh`'s hash map: cells that are found by their key as long as they are in use. A
reference is the place of a cell. An erased cell keeps its contents until it is used again, a
new entry gets any cell that is not in use, and no other cell moves.
-/

namespace Luci.Redirect

/-- An element of `redirection_entries`. -/
structure Cell where
  inUse : Bool
  address : Nat
  entry : RedirectionEntry

/-- What a handler holds between its sections: the trap address and the reference to the entry. -/
structure Reference where
  address : Nat
  place : Nat
  deriving DecidableEq, Repr

/-- The code (the member `entries` of which is not used), the table, and the handlers that are
between their sections. -/
structure Shared where
  code : State
  cells : List Cell
  handlers : Nat → Option Reference

namespace Shared

/-- `redirection_entries.find`. -/
def find (s : Shared) (address : Nat) : Option Nat :=
  s.cells.findIdx? fun cell => cell.inUse && cell.address = address

/-- The contents of a cell. -/
def entryAt (s : Shared) (place : Nat) : Option RedirectionEntry := s.cells[place]?.map Cell.entry

/-- The state as one thread sees it in its section. -/
def view (s : Shared) : State :=
  { s.code with entries := fun address => (s.find address).bind s.entryAt }

/-- Write to the entry of a cell. -/
def setEntry (place : Nat) (entry : RedirectionEntry) (s : Shared) : Shared :=
  { s with cells := s.cells.modify place fun cell => { cell with entry := entry } }

/-- `redirection_entries.erase`. -/
def release (place : Nat) (s : Shared) : Shared :=
  { s with cells := s.cells.modify place fun cell => { cell with inUse := false } }

/-- `redirection_entries.insert` of a new key, into the given cell if that is not in use. -/
def allocate (place address : Nat) (entry : RedirectionEntry) (s : Shared) : Shared :=
  if s.cells[place]?.any fun cell => !cell.inUse then
    { s with cells := s.cells.set place ⟨true, address, entry⟩ }
  else { s with cells := s.cells ++ [⟨true, address, entry⟩] }

/-- A handler enters or leaves the gap between its sections. -/
def hold (tid : Nat) (reference : Option Reference) (s : Shared) : Shared :=
  { s with handlers := fun t => if t = tid then reference else s.handlers t }

end Shared

/-- The steps. The place is the one that a new entry gets. -/
inductive SyncAction where
  /-- The signal handler up to the end of its read section. -/
  | trap (signal : Signal) (rip tid : Nat)
  /-- The write section of the signal handler. -/
  | promote (e : Env) (tid : Nat) (tasks : List Nat) (helper : Option Nat)
  | add (e : Env) (call : AddCall) (place : Nat)
  | remove (e : Env) (address : Nat) (finalize : Bool)

/-- The read section (`src/redirect.cpp:165-193`): the reference that is kept if the entry is to
be made static and the task has not been here. -/
def trapSection (signal : Signal) (rip tid : Nat) (s : Shared) : Option Reference :=
  match traps s.code.mode with
  | none => none
  | some trap =>
    let trapAddress := subWord rip trap.offset
    if signal ≠ trap.signal then none
    else if ∃ i < trap.size, s.code.active (trapAddress + i) ≠ trap.instruction i then none
    else
      match s.find trapAddress with
      | none => none
      | some place =>
        match s.entryAt place with
        | none => none
        | some entry =>
          if entry.type = .makeStatic ∧ tid ∉ entry.tids then some ⟨trapAddress, place⟩ else none

/-- `entry.tids.insert(tid)`. -/
def RedirectionEntry.visit (tid : Nat) (entry : RedirectionEntry) : RedirectionEntry :=
  { entry with tids := if tid ∈ entry.tids then entry.tids else tid :: entry.tids }

/-- The write section (`src/redirect.cpp:198-206`) on the entry the reference points to: the jump
that was installed, if any, and the new state. -/
def promoteSection (e : Env) (tid : Nat) (tasks : List Nat) (helper : Option Nat)
    (reference : Reference) (s : Shared) : Option (Nat × Nat) × Shared :=
  match s.entryAt reference.place with
  | none => (none, s)
  | some entry =>
    let entry := entry.visit tid
    let s := s.setEntry reference.place entry
    if allTasks tasks helper entry.tids then
      match staticRedirect e entry.fromObject reference.address entry.toAddress s.code with
      | (true, code) =>
        (some (reference.address, entry.toAddress),
          { s with code := code }.setEntry reference.place { entry with type := .madeStatic })
      | (false, code) => (none, { s with code := code })
    else (none, s)

/-- Does `add` erase the entry it finds (`src/redirect.cpp:293-296`)? -/
def AddCall.erases (call : AddCall) (s : State) : Bool :=
  match traps s.mode, s.entries (call.address s) with
  | some trap, some val =>
    val.type ≠ .madeStatic && !call.matchesEntry trap (call.address s) val
  | _, _ => false

/-- `Redirect::add` as a step. -/
def addSection (e : Env) (call : AddCall) (place : Nat) (s : Shared) : Shared :=
  let address := call.address s.view
  let after := (add e call s.view).2
  let s' := { s with code := after }
  match s.find address, after.entries address with
  | none, none => s'
  | none, some entry => s'.allocate place address entry
  | some old, none => s'.release old
  | some old, some entry =>
    if call.erases s.view then (s'.release old).allocate place address entry
    else s'.setEntry old entry

/-- `Redirect::remove` as a step. -/
def removeSection (e : Env) (address : Nat) (finalize : Bool) (s : Shared) : Shared :=
  let after := (remove e address finalize s.view).2
  let s' := { s with code := after }
  match s.find address, after.entries address with
  | some old, none => s'.release old
  | _, _ => s'

/-- One step; `none` if the thread cannot take it. A handler is not interrupted by another trap
of its thread. -/
def syncStep (s : Shared) : SyncAction → Option Shared
  | .trap signal rip tid =>
    if s.handlers tid = none then some (s.hold tid (trapSection signal rip tid s)) else none
  | .promote e tid tasks helper =>
    (s.handlers tid).map fun reference =>
      ((promoteSection e tid tasks helper reference s).2).hold tid none
  | .add e call place => some (addSection e call place s)
  | .remove e address finalize => some (removeSection e address finalize s)

end Luci.Redirect
