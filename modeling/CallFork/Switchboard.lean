import CallFork.Config
import CallFork.Group
import CallFork.Target

/-!
# The switchboard

All state of parallel calling in one value: the groups, the tracked calls and the pending releases.
This module holds the operations that need no call engine. Each yields an `Outcome`: the result,
the switchboard afterwards, and the effects in the order they happen. An operation that is refused
changes nothing and has no effects.
-/

namespace CallFork

/-- The state of parallel calling, on some turn. -/
structure Switchboard where
  config : Config
  accounts : AccountTable
  groups : GroupTable := {}
  calls : CallTable := {}
  releases : ReleaseTable := {}
  turn : Nat := 0
deriving DecidableEq, Repr

/-- What comes of an operation. -/
structure Outcome (α : Type) where
  result : α
  board : Switchboard
  effects : List Effect

namespace Switchboard

/-- A switchboard without groups or calls, if the configuration is usable. -/
def start (config : Config) (accounts : AccountTable) : Except Error Switchboard := do
  config.validate
  return { config, accounts }

/-- Turns are counted so that a release can tell whether it comes later than it was deferred. -/
def beginTurn (board : Switchboard) : Switchboard :=
  { board with turn := board.turn + 1 }

/-- A refusal: nothing has changed. -/
def refuse {α : Type} (board : Switchboard) (error : Error) : Outcome (Except Error α) :=
  ⟨.error error, board, []⟩

/-! ## Groups -/

/-- Registers an empty group. -/
def createGroup (board : Switchboard) (name : String) : Outcome (Except Error GroupId) :=
  match board.groups.create name with
  | .error error => board.refuse error
  | .ok (id, groups) => ⟨.ok id, { board with groups }, [.publish (.groupCreated name)]⟩

/-- Removes a group and its peers. The calls it has placed stay tracked. -/
def removeGroup (board : Switchboard) (name : String) : Outcome (Except Error Unit) :=
  match board.groups.remove name with
  | .error error => board.refuse error
  | .ok (_, groups) => ⟨.ok (), { board with groups }, [.publish (.groupRemoved name)]⟩

/-- Removes all groups, and says how many there were. -/
def clearGroups (board : Switchboard) : Outcome Nat :=
  let count := board.groups.size
  ⟨count, { board with groups := board.groups.clear }, [.publish (.groupsCleared count)]⟩

def peerFor (board : Switchboard) (address : String) (displayName : Option String) :
    Except Error Peer :=
  match board.accounts.accountFor address with
  | none => .error (.noAccount address)
  | some account => (Target.canonical account address displayName).map (⟨·, account⟩)

/-- Adds a dial target to a group, and says under which dial string. The group has to exist before
the address is looked at. -/
def addPeer (board : Switchboard) (name address : String) (displayName : Option String) :
    Outcome (Except Error String) :=
  match board.groups.find name with
  | .error error => board.refuse error
  | .ok _ =>
    match board.peerFor address displayName with
    | .error error => board.refuse error
    | .ok peer =>
      match board.groups.addPeer name peer with
      | .error error => board.refuse error
      | .ok groups => ⟨.ok peer.target, { board with groups }, []⟩

/-! ## Releases and shutdown -/

/-- Presents a ticket, and tells observers if a call was forgotten. -/
def reclaim (board : Switchboard) (ticket : Ticket) : Outcome (Option Released) :=
  let (delivery, releases) := board.releases.release ticket board.turn
  ⟨delivery.released?, { board with releases },
    delivery.rescheduled ticket ++ (delivery.released?.toList.map fun released =>
      .publish released.event)⟩

/-- Drops all groups, tracked calls and pending releases. -/
def shutdown (board : Switchboard) : Switchboard :=
  { board with
    groups := board.groups.clear
    calls := {}
    releases := board.releases.drain }

end Switchboard
end CallFork
