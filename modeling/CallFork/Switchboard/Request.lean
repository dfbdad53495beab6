import CallFork.Switchboard.Dump
import CallFork.Switchboard.FanOut
import CallFork.Switchboard.Race

/-!
# Requests and runs

What can happen to a switchboard, as data. A `Request` comes from an operator and is answered; an
`Operation` is a request, an event of the call engine, a ticket that comes back, the start of a new
turn, or a shutdown. `Switchboard.perform` carries out one operation and `Switchboard.run` a list of
them, so that a history of a switchboard is a list of operations.
-/

namespace CallFork

/-- What an operator may ask for. -/
inductive Request where
  | createGroup (name : String)
  | removeGroup (name : String)
  | clearGroups
  | addPeer (group address : String) (displayName : Option String)
  | startCall (group : String) (media : Media)
  | hangupGroup (name : String)
  | dump
deriving DecidableEq, Repr

/-- How a request that was not refused is answered. -/
inductive Answer where
  | created (group : String) (id : GroupId)
  | removed (group : String)
  | cleared (count : Nat)
  | added (group target : String)
  | started (report : FanOutReport)
  | hungUp (group : String) (count : Nat)
  | dumped (dump : Dump)
  | shutDown
deriving DecidableEq, Repr

namespace Outcome

/-- The outcome with its result put in other words. -/
def map {α β : Type} (f : α → β) (outcome : Outcome α) : Outcome β :=
  ⟨f outcome.result, outcome.board, outcome.effects⟩

end Outcome

namespace Switchboard

variable {σ : Type}

def handleRequest (engine : Engine σ) (board : Switchboard) (request : Request) (state : σ) :
    Outcome (Except Error Answer) × σ :=
  match request with
  | .createGroup name => ((board.createGroup name).map (·.map (.created name)), state)
  | .removeGroup name => ((board.removeGroup name).map (·.map fun _ => .removed name), state)
  | .clearGroups => (board.clearGroups.map fun count => .ok (.cleared count), state)
  | .addPeer group address displayName =>
    ((board.addPeer group address displayName).map (·.map (.added group)), state)
  | .startCall group media =>
    let (outcome, state) := board.startCall engine group media state
    (outcome.map (·.map .started), state)
  | .hangupGroup name =>
    let (outcome, state) := board.hangupGroup engine name state
    (outcome.map (·.map (.hungUp name)), state)
  | .dump => (⟨.ok (.dumped board.dump), board, []⟩, state)

/-- Something that can happen to a switchboard. -/
inductive Operation where
  | beginTurn
  | request (request : Request)
  | event (event : CallEvent)
  | reclaim (ticket : Ticket)
  /-- Everything is dropped; the switchboard can be used again. -/
  | shutdown
deriving DecidableEq, Repr

/-- What is reported of an operation. -/
inductive Report where
  | turn (number : Nat)
  | answer (answer : Except Error Answer)
  | resolution (resolution : Option Resolution)
  | released (released : Option Released)
  | dropped

def perform (engine : Engine σ) (board : Switchboard) (operation : Operation) (state : σ) :
    Outcome Report × σ :=
  match operation with
  | .beginTurn => (⟨.turn board.beginTurn.turn, board.beginTurn, []⟩, state)
  | .request request =>
    let (outcome, state) := board.handleRequest engine request state
    (outcome.map .answer, state)
  | .event event =>
    let (outcome, state) := board.handleEvent engine event state
    (outcome.map .resolution, state)
  | .reclaim ticket => ((board.reclaim ticket).map .released, state)
  | .shutdown => (⟨.dropped, board.shutdown, []⟩, state)

/-- Carries out operations one after the other; the outcomes are in the same order. -/
def run (engine : Engine σ) (board : Switchboard) :
    List Operation → σ → List (Outcome Report) × Switchboard × σ
  | [], state => ([], board, state)
  | operation :: rest, state =>
    let (outcome, state) := board.perform engine operation state
    let (outcomes, board, state) := outcome.board.run engine rest state
    (outcome :: outcomes, board, state)

end Switchboard
end CallFork
