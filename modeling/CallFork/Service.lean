import CallFork.Command
import CallFork.Service.Settle

/-!
# Using the service

The service as its clients see it: a request is sent, the mailbox is run until it is empty, and the
reply is the one in the client's slot. `Service.runLine` does this for the command on a line of text.
-/

namespace CallFork

/-- What a client gets, the effects up to the moment the mailbox is empty, and the service then. -/
structure Served (σ α : Type) where
  result : α
  effects : List Effect
  service : Service σ

/-- What an operator reads after a command, and whether it was carried out. -/
structure CommandOutcome where
  success : Bool
  message : String
deriving DecidableEq, Repr

namespace Command

/-- What the operator reads when a command was answered. -/
def outcome (command : Command) : Except Error Answer → CommandOutcome
  | .ok answer => ⟨true, answer.summary⟩
  | .error error => ⟨false, complaint command.verb.word error⟩

end Command

namespace Service

variable {σ : Type}

/-- Runs the mailbox until it is empty. -/
def idle (engine : Engine σ) (service : Service σ) : Served σ Unit :=
  let (logs, settled) := service.settle engine
  ⟨(), logs.flatMap (·.effects), settled⟩

/-- Sends a message that is replied to, and runs the mailbox until it is empty. -/
def ask (engine : Engine σ) (service : Service σ) (message : Nat → Message) :
    Served σ (Except Error Answer) :=
  match service.submit message with
  | .error error => ⟨.error error, [], service⟩
  | .ok (slot, sent) =>
    let (logs, settled) := sent.settle engine
    let reply := (logs.flatMap (·.replies)).lookup slot
    ⟨reply.getD (.error .stopped), logs.flatMap (·.effects), settled⟩

def serve (engine : Engine σ) (service : Service σ) (request : Request) :
    Served σ (Except Error Answer) :=
  service.ask engine (.request request)

/-- Ends the service once everything in the mailbox is handled. -/
def shutdown (engine : Engine σ) (service : Service σ) : Served σ (Except Error Answer) :=
  service.ask engine .shutdown

/-- The media directions of commands that name none. -/
def defaults (service : Service σ) : Media :=
  service.board.config.media

def runLine (engine : Engine σ) (service : Service σ) (line : String) : Served σ CommandOutcome :=
  match Command.parse line with
  | .error error =>
    let idle := service.idle engine
    ⟨⟨false, Command.complaint "parcall" error⟩, idle.effects, idle.service⟩
  | .ok command =>
    let served := service.serve engine (command.request service.defaults)
    ⟨command.outcome served.result, served.effects, served.service⟩

end Service
end CallFork
