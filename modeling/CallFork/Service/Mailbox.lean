import CallFork.Switchboard.Request

/-!
# The mailbox

Everything that can occupy the switchboard travels through one mailbox, first in, first out:
requests of operators, events of the call engine, and tickets of deferred releases. Taking a
message out starts a new turn, and what a turn posts goes to the end. A shutdown is a cut: nothing
behind it is handled, and whoever waits behind it is told that the service has stopped.

An operator who sends a request waits for the reply in a numbered slot.
-/

namespace CallFork

/-- What can lie in the mailbox. -/
inductive Message where
  | request (request : Request) (slot : Nat)
  | shutdown (slot : Nat)
  | event (event : CallEvent)
  | reclaim (ticket : Ticket)
deriving DecidableEq, Repr

namespace Message

/-- The slot of the operator who waits for the message to be handled. -/
def slot? : Message → Option Nat
  | request _ slot => some slot
  | shutdown slot => some slot
  | event _ | reclaim _ => none

/-- The message that an effect puts into the mailbox, if it does. -/
def ofEffect? : Effect → Option Message
  | .post posted => some (.event posted)
  | .schedule ticket => some (.reclaim ticket)
  | .publish _ | .place _ _ | .hangup _ _ | .warn _ => none

end Message

/-- A switchboard with its call engine and its mailbox. -/
structure Service (σ : Type) where
  board : Switchboard
  engine : σ
  mailbox : List Message := []
  /-- Whether messages are still handled. -/
  isRunning : Bool := true
  /-- Whether anyone is left who can send messages. -/
  isConnected : Bool := true
  nextSlot : Nat := 0

/-- What a turn brings about: replies to operators, and effects. -/
structure TurnLog where
  replies : List (Nat × Except Error Answer) := []
  effects : List Effect := []

namespace Service

variable {σ : Type}

/-! ## Sending -/

/-- A service over an idle engine, if the configuration is usable. -/
def start (config : Config) (accounts : AccountTable) (engine : σ) : Except Error (Service σ) := do
  return { board := ← Switchboard.start config accounts, engine }

/-- The service with one more message at the end of the mailbox. -/
def send (service : Service σ) (message : Message) : Except Error (Service σ) :=
  if service.isRunning then .ok { service with mailbox := service.mailbox ++ [message] }
  else .error .stopped

def post (service : Service σ) (event : CallEvent) : Except Error (Service σ) :=
  service.send (.event event)

/-- Sends a request or a shutdown, and says in which slot the reply will be. -/
def submit (service : Service σ) (message : Nat → Message) : Except Error (Nat × Service σ) := do
  let sent ← service.send (message service.nextSlot)
  return (service.nextSlot, { sent with nextSlot := service.nextSlot + 1 })

/-- The service after the last client has gone. -/
def disconnect (service : Service σ) : Service σ :=
  { service with isConnected := false }

/-! ## Turns -/

/-- The service after its end: everything is dropped. -/
def close (service : Service σ) : Service σ :=
  { service with board := service.board.shutdown, mailbox := [], isRunning := false }

/-- What a turn leaves behind: the new switchboard and engine, and the messages it has posted. They
only get into the mailbox while someone is connected. -/
def absorb {α : Type} (service : Service σ) (outcome : Outcome α) (engine : σ) : Service σ :=
  { service with
    board := outcome.board
    engine
    mailbox := service.mailbox
      ++ if service.isConnected then outcome.effects.filterMap Message.ofEffect? else [] }

/-- The effects of a turn as they turn out. -/
def settled (service : Service σ) (effects : List Effect) : List Effect :=
  effects.map (Effect.withLoop service.isConnected)

/-- Handles a message that was taken out of the mailbox. -/
def handle (engine : Engine σ) (service : Service σ) : Message → TurnLog × Service σ
  | .request request slot =>
    let (outcome, state) := service.board.handleRequest engine request service.engine
    (⟨[(slot, outcome.result)], service.settled outcome.effects⟩, service.absorb outcome state)
  | .event event =>
    let (outcome, state) := service.board.handleEvent engine event service.engine
    (⟨[], service.settled outcome.effects⟩, service.absorb outcome state)
  | .reclaim ticket =>
    let outcome := service.board.reclaim ticket
    (⟨[], service.settled outcome.effects⟩, service.absorb outcome service.engine)
  | .shutdown slot =>
    -- whoever waits behind the shutdown is told so
    let dropped := service.mailbox.filterMap Message.slot?
    (⟨(slot, .ok .shutDown) :: dropped.map fun waiting => (waiting, .error .stopped), []⟩,
      service.close)

/-- Takes a message out of the mailbox and handles it on a new turn. There is no turn if the service
has stopped or waits for messages; if nobody is left to send any, it ends. -/
def turn? (engine : Engine σ) (service : Service σ) : Option (TurnLog × Service σ) :=
  if !service.isRunning then none
  else
    match service.mailbox with
    | [] => if service.isConnected then none else some ({}, service.close)
    | message :: rest =>
      some ({ service with board := service.board.beginTurn, mailbox := rest }.handle
        engine message)

end Service
end CallFork
