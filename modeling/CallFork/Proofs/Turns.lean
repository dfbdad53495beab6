import CallFork.Proofs.History
import CallFork.Service.Mailbox

/-! # Turns of a service

A session is a run of the service: clients send messages, the service takes them out one by one, and
at some point the last client may go. `Session` holds of the turns so far, each with the service as
the turn met it, and of the service they led to. While a turn is going on clients go on sending, so
a message gets in anywhere among what has come since the turn began, but behind all that was waiting
before.

Between its turns the board of a service is a switchboard in a run of its own (`Session.reach`), so
whatever holds of every run of a switchboard holds of the board of a service.
-/

namespace CallFork

namespace Message

def ticket? : Message → Option Ticket
  | reclaim ticket => some ticket
  | request _ _ | shutdown _ | event _ => none

/-- What the switchboard has to do about a message. -/
def operation : Message → Switchboard.Operation
  | request asked _ => .request asked
  | shutdown _ => .shutdown
  | event reported => .event reported
  | reclaim ticket => .reclaim ticket

theorem tickets_posted (effects : List Effect) :
    (effects.filterMap ofEffect?).filterMap ticket? = Effect.tickets effects := by
  unfold Effect.tickets
  rw [List.filterMap_filterMap]
  congr 1
  funext effect
  cases effect <;> rfl

end Message

/-- A turn, as it met the service, and what it brought about. -/
structure Turn (σ : Type) where
  before : Service σ
  log : TurnLog

namespace Turn

variable {σ : Type}

/-- The message that was taken out of the mailbox; there is none at the very end. -/
def message? (turn : Turn σ) : Option Message := turn.before.mailbox.head?

def number (turn : Turn σ) : Nat := turn.before.board.turn + 1

/-- How many messages were waiting behind the one that was taken out last. -/
def waiting (turns : List (Turn σ)) : Nat :=
  match turns.getLast? with
  | some turn => turn.before.mailbox.length - 1
  | none => 0

end Turn

variable {σ : Type}

/-- A client's message may get into the mailbox here. It is no ticket, and what was waiting when the
last turn began is ahead of it. -/
structure Message.Arrives (message : Message) (turns : List (Turn σ)) (service : Service σ)
    (ahead behind : List Message) : Prop where
  running : service.isRunning = true
  client : message.ticket? = none
  mailbox : service.mailbox = ahead ++ behind
  since : Turn.waiting turns ≤ ahead.length

/-- The service with a message between those ahead of it and those behind it. -/
def Service.receive (service : Service σ) (ahead : List Message) (message : Message)
    (behind : List Message) (nextSlot : Nat) : Service σ :=
  { service with mailbox := ahead ++ message :: behind, nextSlot }

/-- The turns and the service of a session. -/
inductive Session (engine : Engine σ) : List (Turn σ) → Service σ → Prop where
  | start {config : Config} {accounts : AccountTable} {state : σ} {service : Service σ}
      (started : Service.start config accounts state = .ok service) : Session engine [] service
  | send {turns : List (Turn σ)} {service : Service σ} {message : Message}
      {ahead behind : List Message} (before : Session engine turns service)
      (arrives : message.Arrives turns service ahead behind) (nextSlot : Nat) :
      Session engine turns (service.receive ahead message behind nextSlot)
  | disconnect {turns : List (Turn σ)} {service : Service σ}
      (before : Session engine turns service) : Session engine turns service.disconnect
  | turn {turns : List (Turn σ)} {service next : Service σ} {log : TurnLog}
      (before : Session engine turns service)
      (turned : service.turn? engine = some (log, next)) :
      Session engine (turns ++ [⟨service, log⟩]) next

/-! ## One turn -/

namespace Service

variable {engine : Engine σ} {service next : Service σ} {log : TurnLog}

theorem start_eq {config : Config} {accounts : AccountTable} {state : σ}
    (started : start config accounts state = .ok service) :
    ∃ board, Switchboard.start config accounts = .ok board ∧
      service = { board, engine := state } := by
  unfold start at started
  cases made : Switchboard.start config accounts with
  | error error =>
    rw [made] at started
    cases started
  | ok board =>
    rw [made] at started
    exact ⟨board, rfl, (Except.ok.inj started).symm⟩

/-- A turn handles the first message, or ends a service that nobody can send messages to. -/
theorem turn?_cases (turned : service.turn? engine = some (log, next)) :
    service.isRunning = true ∧
      (service.mailbox = [] ∧ service.isConnected = false ∧ log = {} ∧ next = service.close ∨
        ∃ message rest, service.mailbox = message :: rest ∧
          { service with board := service.board.beginTurn, mailbox := rest }.handle engine message
            = (log, next)) := by
  unfold turn? at turned
  cases running : service.isRunning with
  | false => simp [running] at turned
  | true =>
    refine ⟨rfl, ?_⟩
    simp only [running, Bool.not_true, Bool.false_eq_true, if_false] at turned
    cases waiting : service.mailbox with
    | nil =>
      simp only [waiting] at turned
      split at turned
      · cases turned
      · rename_i gone
        simp only [Option.some.injEq, Prod.mk.injEq] at turned
        obtain ⟨rfl, rfl⟩ := turned
        exact .inl ⟨rfl, by simpa using gone, rfl, rfl⟩
    | cons message rest =>
      simp only [waiting, Option.some.injEq] at turned
      exact .inr ⟨message, rest, rfl, by simpa only [running] using turned⟩

theorem handle_board (engine : Engine σ) (service : Service σ) (message : Message) :
    (service.handle engine message).2.board
      = (service.board.perform engine message.operation service.engine).1.board := by
  cases message <;> rfl

theorem handle_engine (engine : Engine σ) (service : Service σ) (message : Message) :
    (service.handle engine message).2.engine
      = (service.board.perform engine message.operation service.engine).2 := by
  cases message <;> rfl

/-- Unless a message is a shutdown, what the operation posts gets into the mailbox of a service that
someone is connected to, and the service goes on. -/
theorem handle_of_running (engine : Engine σ) (service : Service σ) {message : Message}
    (running : message.operation ≠ .shutdown) :
    (service.handle engine message).2.mailbox = service.mailbox
        ++ (if service.isConnected then
          (service.board.perform engine message.operation service.engine).1.effects.filterMap
            Message.ofEffect? else []) ∧
      (service.handle engine message).2.isRunning = service.isRunning ∧
      (service.handle engine message).1.effects = service.settled
        (service.board.perform engine message.operation service.engine).1.effects := by
  cases message with
  | shutdown slot => exact absurd rfl running
  | request request slot => exact ⟨rfl, rfl, rfl⟩
  | event event => exact ⟨rfl, rfl, rfl⟩
  | reclaim ticket => exact ⟨rfl, rfl, rfl⟩

theorem handle_isConnected (engine : Engine σ) (service : Service σ) (message : Message) :
    (service.handle engine message).2.isConnected = service.isConnected := by
  cases message <;> rfl

theorem settled_of_connected (connected : service.isConnected = true) (effects : List Effect) :
    service.settled effects = effects := by
  unfold settled
  rw [connected]
  refine (List.map_congr_left ?_).trans (List.map_id effects)
  intro effect _
  cases effect <;> rfl

/-- What a turn comes to while someone is connected, unless it handles a shutdown. -/
theorem handled_eq (connected : service.isConnected = true) {message : Message}
    {rest : List Message} (running : message.operation ≠ .shutdown)
    (handled : { service with board := service.board.beginTurn, mailbox := rest }.handle engine
      message = (log, next)) :
    next = { service with
        board := (service.board.beginTurn.perform engine message.operation
          service.engine).1.board
        engine := (service.board.beginTurn.perform engine message.operation service.engine).2
        mailbox := rest ++ (service.board.beginTurn.perform engine message.operation
          service.engine).1.effects.filterMap Message.ofEffect? } ∧
      log.effects
        = (service.board.beginTurn.perform engine message.operation service.engine).1.effects := by
  cases message with
  | shutdown slot => exact absurd rfl running
  | request | event | reclaim =>
    simp only [handle, Prod.mk.injEq] at handled
    obtain ⟨rfl, rfl⟩ := handled
    refine ⟨?_, settled_of_connected connected _⟩
    simp only [absorb, connected, if_true]
    rfl

theorem turn?_isConnected (turned : service.turn? engine = some (log, next)) :
    next.isConnected = service.isConnected := by
  rcases (turn?_cases turned).2 with ⟨_, _, _, rfl⟩ | ⟨message, rest, _, handled⟩
  · rfl
  · have same := handle_isConnected engine
      { service with board := service.board.beginTurn, mailbox := rest } message
    rw [handled] at same
    exact same

/-- Takes so many turns, or fewer if the service has stopped or waits for messages. -/
def takeTurns (engine : Engine σ) : Nat → Service σ → List (Turn σ) × Service σ
  | 0, service => ([], service)
  | more + 1, service =>
    match service.turn? engine with
    | none => ([], service)
    | some (log, next) =>
      let (turns, last) := takeTurns engine more next
      (⟨service, log⟩ :: turns, last)

/-- What is kept by each turn is kept by any number of them. -/
theorem takeTurns_induction {motive : List (Turn σ) → Service σ → Prop}
    (turn : ∀ {turns : List (Turn σ)} {service next : Service σ} {log : TurnLog},
      motive turns service → service.turn? engine = some (log, next) →
      motive (turns ++ [⟨service, log⟩]) next)
    {turns : List (Turn σ)} (holds : motive turns service) (count : Nat) :
    motive (turns ++ (service.takeTurns engine count).1) (service.takeTurns engine count).2 := by
  induction count generalizing turns service with
  | zero =>
    rw [takeTurns, List.append_nil]
    exact holds
  | succ count inductionHypothesis =>
    simp only [takeTurns]
    cases turned : service.turn? engine with
    | none =>
      rw [List.append_nil]
      exact holds
    | some taken =>
      have more := inductionHypothesis (turn holds turned)
      rw [List.append_assoc] at more
      exact more

/-- What is kept when a client's message gets in at the end is kept by any number of them, as long
as no turn is taken. -/
theorem sendEach_induction {turns : List (Turn σ)} {motive : Service σ → Prop}
    (send : ∀ {service : Service σ} {message : Message}, motive service →
      message.Arrives turns service service.mailbox [] →
      motive { service with mailbox := service.mailbox ++ [message] })
    (holds : motive service) (running : service.isRunning = true)
    (since : Turn.waiting turns ≤ service.mailbox.length) (messages : List Message)
    (clients : ∀ message ∈ messages, message.ticket? = none) :
    motive { service with mailbox := service.mailbox ++ messages } := by
  induction messages generalizing service with
  | nil =>
    rw [List.append_nil]
    exact holds
  | cons message rest inductionHypothesis =>
    rw [List.forall_mem_cons] at clients
    have sent := send holds ⟨running, clients.1, (List.append_nil _).symm, since⟩
    have later : Turn.waiting turns ≤ (service.mailbox ++ [message]).length := by
      rw [List.length_append]
      exact Nat.le_add_right_of_le since
    have more := inductionHypothesis sent running later clients.2
    rw [List.append_assoc] at more
    exact more

end Service

/-! ## Along a session -/

namespace Session

variable {engine : Engine σ} {turns : List (Turn σ)} {service : Service σ}

/-- The board of a service is a switchboard in some run over the same engine. -/
theorem reach (session : Session engine turns service) :
    ∃ steps, Reach engine steps service.board service.engine := by
  induction session with
  | start started =>
    obtain ⟨board, made, rfl⟩ := Service.start_eq started
    exact ⟨[], .start made _⟩
  | send _ _ _ inductionHypothesis => exact inductionHypothesis
  | disconnect _ inductionHypothesis => exact inductionHypothesis
  | @turn turns service next log _ turned inductionHypothesis =>
    obtain ⟨steps, reached⟩ := inductionHypothesis
    rcases (Service.turn?_cases turned).2 with ⟨_, _, _, rfl⟩ | ⟨message, rest, _, handled⟩
    · -- the end of the service drops everything on the board
      exact ⟨_, reached.step .shutdown⟩
    · -- a turn is begun, and then the message is an operation of its own
      have board := Service.handle_board engine
        { service with board := service.board.beginTurn, mailbox := rest } message
      have state := Service.handle_engine engine
        { service with board := service.board.beginTurn, mailbox := rest } message
      rw [handled] at board state
      rw [board, state]
      exact ⟨_, (reached.step .beginTurn).step message.operation⟩

/-- A session that has a turn somewhere was a session before that turn. -/
theorem split {earlier later : List (Turn σ)} {turn : Turn σ}
    (session : Session engine (earlier ++ turn :: later) service) :
    Session engine earlier turn.before ∧
      (∃ next, turn.before.turn? engine = some (turn.log, next)) ∧
      (service.isConnected = true → turn.before.isConnected = true) := by
  generalize whole : earlier ++ turn :: later = turns at session
  induction session generalizing later with
  | start => simp at whole
  | send _ _ _ inductionHypothesis => exact inductionHypothesis whole
  | disconnect _ inductionHypothesis =>
    obtain ⟨before, turned, _⟩ := inductionHypothesis whole
    exact ⟨before, turned, fun connected => nomatch connected⟩
  | @turn turns service next log before turned inductionHypothesis =>
    have kept := Service.turn?_isConnected turned
    rcases List.eq_nil_or_concat later with rfl | ⟨rest, last, rfl⟩
    · -- the session ends with the turn
      obtain ⟨rfl, same⟩ := List.append_inj' whole rfl
      rw [List.singleton_inj] at same
      subst same
      exact ⟨before, ⟨next, turned⟩, fun connected => kept ▸ connected⟩
    · rw [List.concat_eq_append, ← List.cons_append, ← List.append_assoc] at whole
      obtain ⟨begun, took, connected⟩ := inductionHypothesis (List.append_inj' whole rfl).1
      exact ⟨begun, took, fun present => connected (kept ▸ present)⟩

/-- A service that has stopped keeps nothing. -/
theorem empty_of_stopped (session : Session engine turns service)
    (stopped : service.isRunning = false) :
    service.board.calls = {} ∧ service.board.groups.groups = [] := by
  induction session with
  | start started =>
    obtain ⟨board, made, rfl⟩ := Service.start_eq started
    cases stopped
  | send _ arrives => cases arrives.running.symm.trans stopped
  | disconnect _ inductionHypothesis => exact inductionHypothesis stopped
  | @turn turns service next log _ turned =>
    obtain ⟨running, ⟨_, _, _, rfl⟩ | ⟨message, rest, _, handled⟩⟩ := Service.turn?_cases turned
    · exact ⟨rfl, rfl⟩
    · cases message with
      | shutdown slot =>
        obtain ⟨_, rfl⟩ := Prod.mk.inj handled
        exact ⟨rfl, rfl⟩
      | request | event | reclaim =>
        obtain ⟨_, rfl⟩ := Prod.mk.inj handled
        simp [Service.absorb, running] at stopped

/-- A service that still runs has never handled a shutdown. -/
theorem never_shutdown (session : Session engine turns service)
    (running : service.isRunning = true) :
    ∀ turn ∈ turns, ∀ slot, turn.message? ≠ some (.shutdown slot) := by
  induction session with
  | start => simp
  | send _ _ _ inductionHypothesis => exact inductionHypothesis running
  | disconnect _ inductionHypothesis => exact inductionHypothesis running
  | @turn turns service next log _ turned inductionHypothesis =>
    obtain ⟨before, ⟨_, _, _, rfl⟩ | ⟨message, rest, waiting, handled⟩⟩ :=
      Service.turn?_cases turned
    · cases running
    · intro turn member slot taken
      rcases List.mem_append.1 member with old | new
      · exact inductionHypothesis before turn old slot taken
      · obtain rfl := List.mem_singleton.1 new
        simp only [Turn.message?, waiting, List.head?_cons, Option.some.injEq] at taken
        subst taken
        -- a shutdown ends the service
        obtain ⟨_, rfl⟩ := Prod.mk.inj handled
        cases running

theorem turned (session : Session engine turns service) :
    ∀ turn ∈ turns, ∃ next, turn.before.turn? engine = some (turn.log, next) := by
  intro turn member
  obtain ⟨earlier, later, rfl⟩ := List.append_of_mem member
  exact session.split.2.1

theorem extend (session : Session engine turns service) (count : Nat) :
    Session engine (turns ++ (service.takeTurns engine count).1)
      (service.takeTurns engine count).2 :=
  Service.takeTurns_induction Session.turn session count

theorem sendEach (session : Session engine turns service) (running : service.isRunning = true)
    (since : Turn.waiting turns ≤ service.mailbox.length) (messages : List Message)
    (clients : ∀ message ∈ messages, message.ticket? = none) :
    Session engine turns { service with mailbox := service.mailbox ++ messages } :=
  Service.sendEach_induction (fun before arrives => before.send arrives _) session running since
    messages clients

/-- Clients send some messages to a new service, and then it takes turns. -/
theorem begun {config : Config} {accounts : AccountTable} {state : σ} {first : Service σ}
    (started : Service.start config accounts state = .ok first) (messages : List Message)
    (clients : ∀ message ∈ messages, message.ticket? = none) (count : Nat) :
    Session engine ({ first with mailbox := messages }.takeTurns engine count).1
      ({ first with mailbox := messages }.takeTurns engine count).2 := by
  have sent : Session engine [] { first with mailbox := messages } := by
    obtain ⟨board, _, rfl⟩ := Service.start_eq started
    exact (start started).sendEach rfl (Nat.le_refl 0) messages clients
  exact sent.extend count

end Session
end CallFork
