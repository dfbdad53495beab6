import CallFork.Engine

/-!
# A scripted call engine

An engine whose refusals and identifiers are laid down in advance, call by call. It shows how a
switchboard copes with an engine that fails hangups or gives out an identifier twice.
-/

namespace CallFork

/-- What the scripted engine will do. -/
structure EngineScript where
  /-- How many identifiers of its own the engine has given out. -/
  issued : Nat := 0
  /-- Identifiers for the next placements, before any of its own. -/
  nextIds : List CallId := []
  /-- The targets it refuses, the latest entry for a target first. -/
  refusals : List (String × EngineError) := []
  /-- The calls it fails to hang up, the latest entry for a call first. -/
  hangupFailures : List (CallId × EngineError) := []
deriving DecidableEq, Repr

namespace EngineScript

/-- A request to place a call. A refusal uses up no identifier. -/
def place (request : PlaceRequest) (script : EngineScript) :
    Reply EngineScript (Except EngineError CallHandle) :=
  match script.refusals.lookup request.target with
  | some cause => ⟨.error cause, [], script⟩
  | none =>
    match script.nextIds with
    | id :: rest => ⟨.ok ⟨id, request.target⟩, [], { script with nextIds := rest }⟩
    | [] =>
      let number := script.issued + 1
      ⟨.ok ⟨⟨"call-" ++ toString number⟩, request.target⟩, [], { script with issued := number }⟩

def hangup (request : HangupRequest) (script : EngineScript) :
    Reply EngineScript (Option EngineError) :=
  ⟨script.hangupFailures.lookup request.call.id, [], script⟩

def engine : Engine EngineScript := ⟨place, hangup⟩

end EngineScript
end CallFork
