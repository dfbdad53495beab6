import CallFork.Call
import CallFork.Media

/-!
# Observer events

Everything the switchboard does to groups and calls is published to observers, as one line of text
per event. Each observer has a backlog of limited size: when it falls behind, the oldest events
are lost and the first thing it reads is how many.
-/

namespace CallFork

/-- What an observer is told. -/
inductive Event where
  | groupCreated (name : String)
  | groupRemoved (name : String)
  | groupsCleared (count : Nat)
  /-- A call was placed and is tracked from now on. -/
  | callPlaced (group : String) (id : CallId) (target : String) (media : Media)
  /-- A peer was skipped. -/
  | placementFailed (group target reason : String)
  /-- A call was answered first, and so many siblings were hung up. -/
  | raceWon (group : String) (id : CallId) (superseded : Nat)
  /-- A call is not tracked any more. It is `local` if it lost its race, and the call engine has
  not reported it closed yet. -/
  | callClosed (group : String) (id : CallId) (reason : Option String) (isLocal : Bool)
  /-- What was remembered of a superseded call is forgotten. -/
  | callReleased (id : CallId) (deferredTurn releasedTurn : Nat)
deriving DecidableEq, Repr

namespace Event

def text : Event → String
  | groupCreated name => "group " ++ name ++ " created"
  | groupRemoved name => "group " ++ name ++ " removed"
  | groupsCleared count => toString count ++ " group(s) cleared"
  | callPlaced group id target media =>
    group ++ ": call " ++ id.text ++ " to " ++ target ++ " placed (" ++ media.text ++ ")"
  | placementFailed group target reason =>
    group ++ ": call to " ++ target ++ " failed: " ++ reason
  | raceWon group id superseded =>
    group ++ ": call " ++ id.text ++ " answered first, " ++ toString superseded
      ++ " sibling(s) superseded"
  | callClosed group id reason isLocal =>
    group ++ ": call " ++ id.text ++ " closed"
      ++ (match reason with
          | some reason => " (" ++ reason ++ ")"
          | none => "")
      ++ (if isLocal then " [local]" else "")
  | callReleased id deferredTurn releasedTurn =>
    "call " ++ id.text ++ " released on turn " ++ toString releasedTurn
      ++ " (deferred on turn " ++ toString deferredTurn ++ ")"

/-- The call that an event names, if it names one. -/
def callId? : Event → Option CallId
  | callPlaced _ id _ _ => some id
  | raceWon _ id _ => some id
  | callClosed _ id _ _ => some id
  | callReleased id _ _ => some id
  | groupCreated _ | groupRemoved _ | groupsCleared _ | placementFailed _ _ _ => none

end Event

/-! ## Backlogs -/

/-- The least power of two that is at least `n`, counting up from `size`. -/
def powerFrom (size n : Nat) : Nat → Nat
  | 0 => size
  | doublings + 1 => if n ≤ size then size else powerFrom (2 * size) n doublings

/-- How many events a backlog of a requested capacity holds: at least one, rounded up to a power
of two. -/
def backlogSize (capacity : Nat) : Nat :=
  powerFrom 1 capacity capacity

/-- What an observer finds when it reads: how many events it has lost, and the others in order. -/
structure Backlog where
  lost : Nat
  events : List Event
deriving DecidableEq, Repr

namespace Backlog

/-- The backlog after these events have been published since the last reading. -/
def ofEvents (capacity : Nat) (published : List Event) : Backlog :=
  let lost := published.length - backlogSize capacity
  ⟨lost, published.drop lost⟩

def lines (backlog : Backlog) : List String :=
  (if backlog.lost = 0 then [] else ["lagged " ++ toString backlog.lost])
    ++ backlog.events.map Event.text

end Backlog
end CallFork
