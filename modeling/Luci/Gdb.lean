import Luci.State

/-!
# The list for the debugger

`GDB::refresh` (`src/comp/gdb.cpp`): all versions of all objects in one list, which the debugger
reads instead of the link maps of the identities. `List::insert` of `dlh` inserts a copy before the
iterator and returns the new element.
-/

namespace Luci

/-- A node of `flat_link_map`. The members that are copied from the identity and not read by the
loader again are left out. -/
structure LinkMap where
  /-- The address of the node. -/
  node : Nat
  lAddr : Nat
  lName : String
  /-- The object, by `uid`. -/
  lVersions : Nat
  deriving DecidableEq, Repr

/-- The variables of `src/comp/gdb.cpp`. -/
structure Gdb where
  /-- Is `r_brk` set? -/
  rBrk : Bool
  /-- `r_map`, if it is set. -/
  rMap : Option Nat
  flatLinkMap : List LinkMap
  /-- The next unused address of a node. -/
  fresh : Nat

/-- The node that is inserted for a version (`src/comp/gdb.cpp:31-40`). -/
def newLinkMap (pid node : Nat) (o : ObjectIdentity) (c : Object) : LinkMap where
  node := node
  lAddr := c.base
  lName := match c.data.fd with
    | none => o.path
    | some fd => s!"/proc/{pid}/fd/{fd}"
  lVersions := c.uid

/-- One round of the loop over the versions: the node at the iterator if it belongs to the version,
or a new one in front of it (`src/comp/gdb.cpp:30-43`). The result has the nodes from the iterator
on. -/
def refreshVersion (pid : Nat) (o : ObjectIdentity) (c : Object) (rest : List LinkMap)
    (fresh : Nat) : LinkMap × List LinkMap × Nat :=
  match rest with
  | [] => (newLinkMap pid fresh o c, [], fresh + 1)
  | i :: later =>
    if i.lVersions ≠ c.uid then (newLinkMap pid fresh o c, rest, fresh + 1) else (i, later, fresh)

/-- The loops over the identities and their versions, with the nodes from the iterator on. -/
def refreshFrom (pid : Nat) :
    List (ObjectIdentity × Object) → List LinkMap → Nat → List LinkMap × Nat
  | [], rest, fresh => (rest, fresh)
  | (o, c) :: versions, rest, fresh =>
    let (i, rest, fresh) := refreshVersion pid o c rest fresh
    let (list, fresh) := refreshFrom pid versions rest fresh
    (i :: list, fresh)

/-- All versions, newest first, in the order of `lookup`. -/
def Loader.versions (s : Loader) : List (ObjectIdentity × Object) :=
  s.lookup.flatMap fun o => o.versions.map fun c => (o, c)

/-- `GDB::refresh` (`src/comp/gdb.cpp:25-46`). -/
def Gdb.refresh (g : Gdb) (config : Config) (pid : Nat) (s : Loader) : Gdb :=
  if g.rBrk && config.debugger then
    let (list, fresh) := refreshFrom pid s.versions g.flatLinkMap g.fresh
    { g with flatLinkMap := list, fresh := fresh, rMap := list.head?.map LinkMap.node }
  else g

end Luci
