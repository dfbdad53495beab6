import CallFork.Account

/-!
# Groups

A group is a named list of dial targets that are called together. `GroupTable` holds the
registered groups in ascending order of their names and numbers them in the order they are
created. Numbers are never given out twice, so a group that is removed and created again is a
different group to the calls it has placed.
-/

namespace CallFork

/-- A dial target of a group, and the account it is called from. -/
structure Peer where
  target : String
  account : Account
deriving DecidableEq, Repr

/-- A named group of peers, in the order they were added. -/
structure Group where
  id : GroupId
  name : String
  peers : List Peer
deriving DecidableEq, Repr

namespace Group

/-- Whether a peer with this target is in the group. -/
def hasTarget (group : Group) (target : String) : Bool :=
  group.peers.any fun peer => peer.target = target

/-- The group with one more peer at the end, unless it has that target already. -/
def addPeer (group : Group) (peer : Peer) : Except Error Group :=
  if group.hasTarget peer.target then .error (.duplicateTarget group.name peer.target)
  else .ok { group with peers := group.peers ++ [peer] }

def targets (group : Group) : List String :=
  group.peers.map (·.target)

end Group

/-- The registered groups, and how many numbers have been given out. -/
structure GroupTable where
  groups : List Group := []
  issued : Nat := 0
deriving DecidableEq, Repr

namespace GroupTable

def find? (table : GroupTable) (name : String) : Option Group :=
  table.groups.find? fun group => group.name = name

/-- The group of this name, or the error that there is none. -/
def find (table : GroupTable) (name : String) : Except Error Group :=
  match table.find? name with
  | some group => .ok group
  | none => .error (.groupMissing name)

def isRegistered (table : GroupTable) (id : GroupId) : Bool :=
  table.groups.any fun group => group.id = id

/-- A group put before the first one with a greater name. -/
def insertByName (group : Group) : List Group → List Group
  | [] => [group]
  | first :: rest =>
    if first.name < group.name then first :: insertByName group rest
    else group :: first :: rest

/-- A new empty group of a name that is free. -/
def create (table : GroupTable) (name : String) : Except Error (GroupId × GroupTable) :=
  match table.find? name with
  | some _ => .error (.groupExists name)
  | none =>
    let id := ⟨table.issued + 1⟩
    .ok (id, ⟨insertByName ⟨id, name, []⟩ table.groups, table.issued + 1⟩)

/-- The group of this name, and the table without it. -/
def remove (table : GroupTable) (name : String) : Except Error (Group × GroupTable) :=
  match table.find? name with
  | none => .error (.groupMissing name)
  | some group =>
    .ok (group, { table with groups := table.groups.filter fun other => other.name ≠ name })

/-- The table with one more peer in the group of this name. -/
def addPeer (table : GroupTable) (name : String) (peer : Peer) : Except Error GroupTable := do
  let group ← table.find name
  let grown ← group.addPeer peer
  return { table with
    groups := table.groups.map fun other => if other.name = name then grown else other }

/-- The table without any group; numbers go on from where they were. -/
def clear (table : GroupTable) : GroupTable :=
  { table with groups := [] }

/-- How many groups are registered. -/
def size (table : GroupTable) : Nat :=
  table.groups.length

end GroupTable
end CallFork
