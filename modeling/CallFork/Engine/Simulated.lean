import CallFork.Engine

/-!
# A simulated call engine

An engine without a network, for the shell and for trying things out. It gives out `call-1`,
`call-2`, … in the order of the placements, unless it is told to give every call the same
identifier; it refuses the targets it is told to refuse; and it remembers what it was asked. With
`autoClose` a call that is hung up is reported closed, for the reason given.
-/

namespace CallFork

/-- A call that the simulated engine has placed. -/
structure SimulatedCall where
  id : CallId
  request : PlaceRequest
deriving DecidableEq, Repr

/-- What the simulated engine remembers and how it is set up. -/
structure Simulation where
  fixedId : Option CallId := none
  refusedTargets : List String := []
  autoClose : Bool := false
  placed : List SimulatedCall := []
  hangups : List HangupRequest := []
deriving DecidableEq, Repr

namespace Simulation

/-- The identifier of the call placed as the `number`th. -/
def callId (number : Nat) : CallId := ⟨"call-" ++ toString number⟩

def nextId (simulation : Simulation) : CallId :=
  simulation.fixedId.getD (callId (simulation.placed.length + 1))

def place (request : PlaceRequest) (simulation : Simulation) :
    Reply Simulation (Except EngineError CallHandle) :=
  if request.target ∈ simulation.refusedTargets then
    ⟨.error (.unreachable (request.target ++ " is not reachable")), [], simulation⟩
  else
    let id := simulation.nextId
    ⟨.ok ⟨id, request.target⟩, [],
      { simulation with placed := simulation.placed ++ [⟨id, request⟩] }⟩

/-- A request to hang up a call; it never fails. -/
def hangup (request : HangupRequest) (simulation : Simulation) :
    Reply Simulation (Option EngineError) :=
  ⟨none, if simulation.autoClose then [.closed request.call.id request.policy.reason] else [],
    { simulation with hangups := simulation.hangups ++ [request] }⟩

def engine : Engine Simulation := ⟨place, hangup⟩

/-- How often a call was asked to be hung up. -/
def hangupsOf (simulation : Simulation) (id : CallId) : Nat :=
  simulation.hangups.countP fun request => request.call.id = id

end Simulation
end CallFork
