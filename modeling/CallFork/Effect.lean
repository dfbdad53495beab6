import CallFork.Engine
import CallFork.Event

/-!
# Effects

An operation of the switchboard yields its result, the new state, and the list of its effects in
the order they happen. Effects are data: what is published to observers, what the engine was asked
and how it answered, what is posted to the switchboard's own mailbox, and the warnings written to
the log.
-/

namespace CallFork

/-- The number of a deferred release. -/
structure Ticket where
  number : Nat
deriving DecidableEq, Repr

/-- Something that went wrong and does not stop an operation. -/
inductive Warning where
  /-- A peer was not called. -/
  | peerSkipped (group target : String) (cause : Error)
  /-- The engine gave a new call the identifier of a tracked one. -/
  | idReused (id : CallId)
  /-- That new call could not be hung up. -/
  | untrackedHangupFailed (id : CallId) (cause : EngineError)
  /-- A call of a group could not be hung up. -/
  | groupHangupFailed (id : CallId) (group : String) (cause : EngineError)
  /-- A call that lost its race could not be hung up. -/
  | supersedeHangupFailed (id : CallId) (cause : EngineError)
  /-- A call was answered after it had lost its race. -/
  | lateAnswer (id : CallId)
  /-- A deferred release could not be posted. -/
  | releaseUnposted (ticket : Ticket)
deriving DecidableEq, Repr

namespace Warning

def text : Warning → String
  | peerSkipped group target cause =>
    "Group " ++ group ++ ": skipping peer " ++ target ++ ": " ++ cause.message
  | idReused id =>
    "Call engine reused live call-id " ++ id.text ++ ", hanging up the new call"
  | untrackedHangupFailed id cause =>
    "Hangup of untracked call " ++ id.text ++ " failed: " ++ cause.message
  | groupHangupFailed id group cause =>
    "Hangup of call " ++ id.text ++ " in group " ++ group ++ " failed: " ++ cause.message
  | supersedeHangupFailed id cause =>
    "Hangup of superseded call " ++ id.text ++ " failed: " ++ cause.message
  | lateAnswer id => "Late answer from superseded call " ++ id.text ++ ", ignored"
  | releaseUnposted ticket =>
    "Release loop is gone, ReleaseTicket(" ++ toString ticket.number
      ++ ") stays pending until shutdown"

end Warning

/-- One thing that an operation does besides changing the switchboard. -/
inductive Effect where
  /-- Observers are told of an event. -/
  | publish (event : Event)
  /-- The engine is asked to place a call, and answers. -/
  | place (request : PlaceRequest) (answer : Except EngineError CallHandle)
  /-- The engine is asked to hang up a call, and may fail. -/
  | hangup (request : HangupRequest) (failure : Option EngineError)
  /-- The engine posts an event of its own. -/
  | post (event : CallEvent)
  /-- A deferred release is posted for a later turn. -/
  | schedule (ticket : Ticket)
  /-- A warning is logged. -/
  | warn (warning : Warning)

namespace Effect

/-- The published event, if the effect is one. -/
def event? : Effect → Option Event
  | publish event => some event
  | _ => none

/-- The placement, if the effect is one that succeeded. -/
def placement? : Effect → Option (PlaceRequest × CallHandle)
  | place request (.ok call) => some (request, call)
  | _ => none

/-- The requested hangup, if the effect is one. -/
def hangup? : Effect → Option HangupRequest
  | hangup request _ => some request
  | _ => none

/-- The scheduled release, if the effect is one. -/
def ticket? : Effect → Option Ticket
  | schedule ticket => some ticket
  | _ => none

/-- The warning, if the effect is one. -/
def warning? : Effect → Option Warning
  | warn warning => some warning
  | _ => none

def events (effects : List Effect) : List Event := effects.filterMap event?

def placements (effects : List Effect) : List (PlaceRequest × CallHandle) :=
  effects.filterMap placement?

def hangups (effects : List Effect) : List HangupRequest := effects.filterMap hangup?

def tickets (effects : List Effect) : List Ticket := effects.filterMap ticket?

def warnings (effects : List Effect) : List Warning := effects.filterMap warning?

end Effect
end CallFork
