import Luci.Loader

/-!
# Threads at the update point

Application threads call `__luci_update` (`src/loader.cpp:301-323`) while the helper thread
loads modified files (`src/loader_helper.cpp:114-155`). A call tests `update_pending`, takes
the writer's side of `lookup_sync` if it is set, and runs `update()` under the lock; the flag
is not tested again. Each of these is one step here, and the threads take their steps in any
order.
-/

namespace Luci.Threads

/-- Where a thread is in `__luci_update`. -/
inductive Position where
  | outside
  /-- The flag was set; the thread waits for the lock. -/
  | waiting
  /-- The thread holds the lock. -/
  | locked
  deriving DecidableEq, Repr

/-- The owner of `lookup_sync`. -/
inductive Owner where
  | caller (thread : Nat)
  | helper
  deriving DecidableEq, Repr

/-- What is recorded of a run. -/
inductive Entry where
  /-- `update_pending` has changed from false to true. -/
  | raised
  /-- A call of `__luci_update` has returned. -/
  | returned (thread value : Nat)
  deriving DecidableEq, Repr

/-- The loader, the threads, and the record with its last entry first. -/
structure State where
  loader : Loader
  owner : Option Owner
  position : Nat → Position
  record : List Entry

/-- The threads take turns. -/
inductive Action where
  /-- `if (loader->update_pending)`. -/
  | test (thread : Nat)
  /-- `GuardedWriter _{loader->lookup_sync}`. -/
  | lock (thread : Nat)
  /-- `loader->update(); return 1;`. -/
  | update (thread : Nat) (e : Env)
  /-- The helper thread takes the lock in `filemodification_load`. -/
  | lockHelper
  /-- The rest of `filemodification_load`. -/
  | load (e : Env) (fuel : Nat) (due : List Nat)
  /-- A step of the loader that does not touch the flag. -/
  | other (loader : Loader)

/-- A thread goes to another position. -/
def State.move (s : State) (thread : Nat) (position : Position) : State :=
  { s with position := fun t => if t = thread then position else s.position t }

/-- Add to the record. -/
def State.add (s : State) (entry : Entry) : State := { s with record := entry :: s.record }

/-- The state after the helper thread has left `filemodification_load`. -/
def State.loaded (s : State) (loader : Loader) : State :=
  let released := { s with loader := loader, owner := none }
  if !s.loader.updatePending && loader.updatePending then released.add .raised else released

/-- One step; `none` if the thread cannot take it. -/
def step (s : State) : Action → Option State
  | .test thread =>
    if s.position thread = .outside then
      if s.loader.updatePending then some (s.move thread .waiting)
      else some (s.add (.returned thread 0))
    else none
  | .lock thread =>
    if s.position thread = .waiting ∧ s.owner = none then
      some { s.move thread .locked with owner := some (.caller thread) }
    else none
  | .update thread e =>
    if s.position thread = .locked then
      (updateLoaded e s.loader).map fun result =>
        { (s.move thread .outside).add (.returned thread 1) with loader := result.2, owner := none }
    else none
  | .lockHelper => if s.owner = none then some { s with owner := some .helper } else none
  | .load e fuel due =>
    if s.owner = some .helper then
      (filemodificationLoad e fuel due s.loader).map fun result => s.loaded result.2
    else none
  | .other loader =>
    if loader.updatePending = s.loader.updatePending then some { s with loader := loader } else none

/-- No thread is in `__luci_update`. -/
def State.start (loader : Loader) : State := ⟨loader, none, fun _ => .outside, []⟩

/-- Take these steps. -/
def run (s : State) (actions : List Action) : Option State := actions.foldlM step s

end Luci.Threads
