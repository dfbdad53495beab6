import CallFork.Switchboard

/-!
# The debug dump

A view of the switchboard for operators: the registered groups with their dial targets, the tracked
calls and the pending releases, each list in ascending order. A call whose group is no longer
registered is marked.
-/

namespace CallFork

/-- What the dump says of a group. -/
structure GroupView where
  name : String
  targets : List String
deriving DecidableEq, Repr

/-- What the dump says of a call. -/
structure CallView where
  id : CallId
  group : String
  /-- The group that placed the call is not registered any more. -/
  isOrphaned : Bool
  target : String
  state : CallState
deriving DecidableEq, Repr

/-- A view of groups, tracked calls and pending releases. -/
structure Dump where
  groups : List GroupView
  calls : List CallView
  pending : List CallView
deriving DecidableEq, Repr

namespace GroupView

def lines (view : GroupView) : List String :=
  ("Group: " ++ view.name) :: view.targets.map ("  peer: " ++ ·)

end GroupView

namespace CallView

def line (view : CallView) : String :=
  "  " ++ view.id.text ++ " group " ++ view.group
    ++ (if view.isOrphaned then " (removed)" else "") ++ " peer " ++ view.target

end CallView

namespace Dump

/-- The lines of a dump; pending releases are only mentioned if there are any. -/
def lines (dump : Dump) : List String :=
  "Parallel call groups" :: dump.groups.flatMap (·.lines)
    ++ "" :: "Active calls" :: dump.calls.map (·.line)
    ++ "" :: (if dump.pending.isEmpty then []
      else "Pending release" :: dump.pending.map (·.line) ++ [""])

/-- The text of a dump; every line is ended. -/
def text (dump : Dump) : String :=
  String.join (dump.lines.map (· ++ "\n"))

end Dump

namespace Switchboard

def view (board : Switchboard) (tracked : TrackedCall) : CallView :=
  { id := tracked.id
    group := tracked.groupName
    isOrphaned := !board.groups.isRegistered tracked.groupId
    target := tracked.target
    state := tracked.state }

def dump (board : Switchboard) : Dump :=
  { groups := board.groups.groups.map fun group => ⟨group.name, group.targets⟩
    calls := board.calls.listed.map board.view
    pending := board.releases.listed.map board.view }

end Switchboard
end CallFork
