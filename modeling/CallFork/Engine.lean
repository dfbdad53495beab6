import CallFork.Account
import CallFork.Media

/-!
# Call engines

The switchboard does not dial. It asks a call engine to place calls and to hang them up, and learns
of what becomes of them from the events that the engine posts. An engine is any pair of functions
on a state of its own: its answers may depend on all it has been asked before, it may refuse any
request, and it may give out any identifier.
-/

namespace CallFork

/-- How calls are hung up: a status code, 0 leaving the choice to the engine, and a reason. -/
structure HangupPolicy where
  statusCode : Nat := 0
  reason : Option String := none
deriving DecidableEq, Repr

/-- A call that the engine is asked to place. -/
structure PlaceRequest where
  account : Account
  target : String
  media : Media
deriving DecidableEq, Repr

/-- A call that the engine is asked to hang up. -/
structure HangupRequest where
  call : CallHandle
  policy : HangupPolicy
deriving DecidableEq, Repr

/-- What comes back from an engine: its answer, the events it posts meanwhile, and its new
state. -/
structure Reply (σ α : Type) where
  answer : α
  posted : List CallEvent
  engine : σ

/-- A call engine with states in `σ`. -/
structure Engine (σ : Type) where
  place : PlaceRequest → σ → Reply σ (Except EngineError CallHandle)
  hangup : HangupRequest → σ → Reply σ (Option EngineError)

end CallFork
