/-!
# Calls

What the outside world and the switchboard say to each other about one call: its identifier, the
handle under which the call engine knows it, and the state changes the engine reports.
-/

namespace CallFork

/-- The identifier of a call for its whole lifetime, given out by the call engine. -/
structure CallId where
  text : String
deriving DecidableEq, Repr

namespace CallId

/-- Call identifiers are listed in the order of their texts, code point by code point. -/
def le (a b : CallId) : Bool := a.text ≤ b.text

end CallId

/-- The number of a group. A group that is created again under an old name gets a new number. -/
structure GroupId where
  number : Nat
deriving DecidableEq, Repr

namespace GroupId

def text (id : GroupId) : String := "#" ++ toString id.number

end GroupId

/-- The call engine's handle for a call it has placed. -/
structure CallHandle where
  id : CallId
  peer : String
deriving DecidableEq, Repr

namespace CallHandle

/-- The identifier, with the remote address in parentheses. -/
def text (call : CallHandle) : String :=
  call.id.text ++ " (" ++ call.peer ++ ")"

end CallHandle

/-- A state change of a call, reported by the call engine. -/
inductive CallEvent where
  /-- The peer's phone rings; nothing follows from it. -/
  | progress (id : CallId)
  | established (id : CallId)
  | closed (id : CallId) (reason : Option String)
deriving DecidableEq, Repr

namespace CallEvent

def callId : CallEvent → CallId
  | progress id => id
  | established id => id
  | closed id _ => id

end CallEvent
end CallFork
