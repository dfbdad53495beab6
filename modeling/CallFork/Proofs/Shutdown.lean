import CallFork.Proofs.Turns
import CallFork.Service

/-! # Shutdown as a cut

A shutdown cuts the mailbox of a service in two. What lies ahead of it is handled message by
message; what lies behind it is dropped, and whoever waits there is told that the service has
stopped. The service also ends when all clients are gone and its mailbox is empty. Either way
nothing is left on the board.

`Traffic` is a session (`Traffic.session`) in which clients are counted and the mailbox has a
memory. Clients are the handles that requests come from and the sinks that events come from. The
memory is the list of all messages that were ever in the mailbox, in the order in which they would
be taken out. The last client may go while a turn is going on, as it never does in a session; then
some of the tickets of that turn are posted and the others are lost.

The proof goes along the traffic (`Traffic.progress`): as long as the service runs, the memory is
what has been handled followed by the mailbox, and the turn that ends the service is the last one.
-/

namespace CallFork

namespace Message

/-- Taking out a message begins a turn, and then the message is an operation of its own. -/
def operations (message : Message) : List Switchboard.Operation :=
  [.beginTurn, message.operation]

end Message

variable {σ : Type}

namespace Turn

/-- The messages that the turn has put into the mailbox. -/
def posted (turn : Turn σ) : List Message :=
  if turn.before.isConnected then turn.log.effects.filterMap Message.ofEffect? else []

/-- The turn handles a shutdown, or there is nothing left to handle. -/
def IsLast (turn : Turn σ) : Prop :=
  turn.message? = none ∨ ∃ slot, turn.message? = some (.shutdown slot)

/-- The turn was carried out to its end. If the last client went meanwhile, no ticket was posted
from then on. -/
def Complete (engine : Engine σ) (turn : Turn σ) : Prop :=
  ∃ early late next,
    turn.before.turn? engine = some (⟨turn.log.replies, early ++ late⟩, next) ∧
    turn.log.effects = early ++ late.map (Effect.withLoop false)

end Turn

namespace Service

/-- The service has ended: nothing is left, and no message will be handled any more. -/
structure Ended (engine : Engine σ) (service : Service σ) : Prop where
  stopped : service.isRunning = false
  mailbox : service.mailbox = []
  groups : service.board.groups.groups = []
  calls : service.board.calls.calls = []
  releases : service.board.releases.pending = []
  turns : service.turn? engine = none
  sends : ∀ message, service.send message = .error .stopped
  posts : ∀ event, service.post event = .error .stopped
  asks : ∀ message, service.ask engine message = ⟨.error .stopped, [], service⟩

variable {engine : Engine σ} {service next : Service σ} {log : TurnLog} {message : Message}
  {rest : List Message}

/-! ## One turn -/

theorem handle_of_turn? (turned : service.turn? engine = some (log, next))
    (waiting : service.mailbox = message :: rest) :
    { service with board := service.board.beginTurn, mailbox := rest }.handle engine message
      = (log, next) := by
  obtain ⟨_, ⟨empty, _⟩ | ⟨first, others, same, handled⟩⟩ := turn?_cases turned
  · rw [empty] at waiting
    cases waiting
  · rw [waiting] at same
    obtain ⟨rfl, rfl⟩ := List.cons.inj same
    exact handled

theorem goes_on (turned : service.turn? engine = some (log, next))
    (waiting : service.mailbox = message :: rest) (other : message.operation ≠ .shutdown) :
    next.isRunning = true ∧ next.mailbox = rest ++ Turn.posted ⟨service, log⟩ := by
  have handled := handle_of_turn? turned waiting
  obtain ⟨mailbox, running, effects⟩ := handle_of_running engine
    { service with board := service.board.beginTurn, mailbox := rest } other
  rw [handled] at mailbox running effects
  refine ⟨running.trans (turn?_cases turned).1, mailbox.trans ?_⟩
  simp only [Turn.posted]
  split
  · rename_i connected
    rw [effects, settled_of_connected (by exact connected)]
  · rfl

theorem shuts_down {slot : Nat} (turned : service.turn? engine = some (log, next))
    (waiting : service.mailbox = .shutdown slot :: rest) :
    log = ⟨(slot, .ok .shutDown) :: (rest.filterMap Message.slot?).map fun dropped =>
        (dropped, .error .stopped), []⟩ ∧
      next = { service with board := service.board.beginTurn }.close := by
  obtain ⟨rfl, rfl⟩ := Prod.mk.inj (handle_of_turn? turned waiting)
  exact ⟨rfl, rfl⟩

/-! ## The end of a service -/

theorem ended_of_stopped (stopped : service.isRunning = false) (empty : service.mailbox = [])
    (groups : service.board.groups.groups = []) (calls : service.board.calls.calls = [])
    (releases : service.board.releases.pending = []) : service.Ended engine where
  stopped := stopped
  mailbox := empty
  groups := groups
  calls := calls
  releases := releases
  turns := by simp [turn?, stopped]
  sends message := by simp [send, stopped]
  posts event := by simp [post, send, stopped]
  asks message := by simp [ask, submit, send, stopped, bind, Except.bind]

theorem Ended.disconnect (ended : service.Ended engine) : service.disconnect.Ended engine :=
  ended_of_stopped ended.stopped ended.mailbox ended.groups ended.calls ended.releases

theorem stopped_of_disconnected (engine : Engine σ) {count : Nat}
    (gone : service.isConnected = false) (enough : service.mailbox.length < count) :
    (service.takeTurns engine count).2.isRunning = false := by
  induction count generalizing service with
  | zero => cases enough
  | succ count inductionHypothesis =>
    simp only [takeTurns]
    cases turned : service.turn? engine with
    | none =>
      unfold turn? at turned
      cases running : service.isRunning with
      | false => rfl
      | true => cases waiting : service.mailbox <;> simp [running, waiting, gone] at turned
    | some taken =>
      obtain ⟨log, next⟩ := taken
      have left : next.isConnected = false := (turn?_isConnected turned).trans gone
      cases waiting : service.mailbox with
      | nil =>
        obtain ⟨_, ⟨_, _, _, rfl⟩ | ⟨message, rest, some, _⟩⟩ := turn?_cases turned
        · cases count <;> rfl
        · rw [waiting] at some
          cases some
      | cons message rest =>
        rw [waiting, List.length_cons] at enough
        refine inductionHypothesis left (Nat.lt_of_le_of_lt ?_ (Nat.lt_of_succ_lt_succ enough))
        -- nothing gets into the mailbox any more
        by_cases last : message.operation = .shutdown
        · cases message with
          | shutdown slot =>
            obtain ⟨_, rfl⟩ := shuts_down turned waiting
            exact Nat.zero_le _
          | request | event | reclaim => cases last
        · rw [(goes_on turned waiting last).2]
          simp [Turn.posted, gone]

end Service

/-- What clients and engine may do to a service, with the number of clients, all messages that were
ever in the mailbox, and the turns so far. -/
inductive Traffic (engine : Engine σ) (first : Service σ) :
    Nat → List Message → List (Turn σ) → Service σ → Prop where
  | start {config : Config} {accounts : AccountTable} {state : σ}
      (started : Service.start config accounts state = .ok first) :
      Traffic engine first 1 [] [] first
  /-- Handles and sinks are cloned or dropped, and one is left. -/
  | share {clients : Nat} {queue : List Message} {turns : List (Turn σ)} {service : Service σ}
      (before : Traffic engine first (clients + 1) queue turns service) (others : Nat) :
      Traffic engine first (others + 1) queue turns service
  | send {clients : Nat} {past ahead behind : List Message} {turns : List (Turn σ)}
      {service : Service σ} {message : Message}
      (before : Traffic engine first (clients + 1) (past ++ (ahead ++ behind)) turns service)
      (arrives : message.Arrives turns service ahead behind) (nextSlot : Nat) :
      Traffic engine first (clients + 1) (past ++ (ahead ++ message :: behind)) turns
        (service.receive ahead message behind nextSlot)
  | leave {queue : List Message} {turns : List (Turn σ)} {service : Service σ}
      (before : Traffic engine first 1 queue turns service) :
      Traffic engine first 0 queue turns service.disconnect
  /-- The last client goes while a turn is going on. What the turn has not posted by then are
  tickets, and they get lost. -/
  | leaveAmid {queue kept : List Message} {turns : List (Turn σ)} {turn : Turn σ}
      {early late : List Effect} {service : Service σ}
      (before : Traffic engine first 1 (queue ++ late.filterMap Message.ofEffect?)
        (turns ++ [turn]) service)
      (running : service.isRunning = true) (amid : turn.log.effects = early ++ late)
      (tickets : late.filterMap Message.ofEffect? = (Effect.tickets late).map .reclaim)
      (waiting : service.mailbox = kept ++ late.filterMap Message.ofEffect?) :
      Traffic engine first 0 queue
        (turns ++ [⟨turn.before,
          { turn.log with effects := early ++ late.map (Effect.withLoop false) }⟩])
        { service.disconnect with mailbox := kept }
  | turn {clients : Nat} {queue : List Message} {turns : List (Turn σ)} {service next : Service σ}
      {log : TurnLog} (before : Traffic engine first clients queue turns service)
      (turned : service.turn? engine = some (log, next)) :
      Traffic engine first clients (queue ++ Turn.posted ⟨service, log⟩)
        (turns ++ [⟨service, log⟩]) next

/-! ## What has been handled -/

namespace Traffic

/-- These messages were handled in this order, one on each turn, and nothing else has happened to
the board and to the engine. -/
structure Handled (engine : Engine σ) (first : Service σ) (messages : List Message)
    (turns : List (Turn σ)) (last : Service σ) : Prop where
  order : turns.map (·.message?) = messages.map some
  complete : ∀ turn ∈ turns, turn.Complete engine
  outcome : (first.board.run engine (messages.flatMap (·.operations)) first.engine).2
    = (last.board, last.engine)

variable {engine : Engine σ} {first service next : Service σ} {clients : Nat}
  {queue messages : List Message} {turns : List (Turn σ)} {log : TurnLog}

namespace Handled

theorem start (engine : Engine σ) (first : Service σ) : Handled engine first [] [] first :=
  ⟨rfl, fun _ member => (nomatch member), rfl⟩

theorem same (handled : Handled engine first messages turns service)
    (board : next.board = service.board) (state : next.engine = service.engine) :
    Handled engine first messages turns next where
  order := handled.order
  complete := handled.complete
  outcome := by rw [board, state]; exact handled.outcome

theorem turn (handled : Handled engine first messages turns service)
    (turned : service.turn? engine = some (log, next)) {message : Message} {rest : List Message}
    (waiting : service.mailbox = message :: rest) :
    Handled engine first (messages ++ [message]) (turns ++ [⟨service, log⟩]) next where
  order := by
    rw [List.map_append, List.map_append, handled.order]
    simp [Turn.message?, waiting]
  complete := by
    rw [List.forall_mem_append, List.forall_mem_singleton]
    exact ⟨handled.complete, log.effects, [], next, by simpa using turned, by simp⟩
  outcome := by
    have board := Service.handle_board engine
      { service with board := service.board.beginTurn, mailbox := rest } message
    have state := Service.handle_engine engine
      { service with board := service.board.beginTurn, mailbox := rest } message
    rw [Service.handle_of_turn? turned waiting] at board state
    rw [List.flatMap_append, Switchboard.run_append, handled.outcome, board, state]
    rfl

theorem unposted {turn : Turn σ} {early late : List Effect}
    (handled : Handled engine first messages (turns ++ [turn]) service)
    (turned : turn.before.turn? engine = some (turn.log, next))
    (amid : turn.log.effects = early ++ late) :
    Handled engine first messages (turns ++ [⟨turn.before,
      { turn.log with effects := early ++ late.map (Effect.withLoop false) }⟩]) service where
  order := by
    have order := handled.order
    rw [List.map_append, List.map_singleton] at order ⊢
    exact order
  complete := by
    have complete := handled.complete
    rw [List.forall_mem_append, List.forall_mem_singleton] at complete ⊢
    refine ⟨complete.1, early, late, next, ?_, rfl⟩
    rw [← amid]
    exact turned
  outcome := handled.outcome

end Handled

/-! ## Along traffic -/

theorem connected_iff (traffic : Traffic engine first clients queue turns service) :
    service.isConnected = true ↔ 0 < clients := by
  induction traffic with
  | start started =>
    obtain ⟨board, _, rfl⟩ := Service.start_eq started
    simp
  | share _ _ inductionHypothesis => simpa using inductionHypothesis
  | send _ _ _ inductionHypothesis => exact inductionHypothesis
  | leave | leaveAmid => simp [Service.disconnect]
  | turn _ turned inductionHypothesis =>
    rw [Service.turn?_isConnected turned]
    exact inductionHypothesis

/-- As long as someone is there, traffic is a session with a count and a memory. -/
theorem session (traffic : Traffic engine first clients queue turns service)
    (present : 0 < clients) : Session engine turns service := by
  induction traffic with
  | start started => exact .start started
  | share _ _ inductionHypothesis => exact inductionHypothesis (Nat.succ_pos _)
  | send _ arrives nextSlot inductionHypothesis =>
    exact (inductionHypothesis present).send arrives nextSlot
  | leave | leaveAmid => cases present
  | turn _ turned inductionHypothesis => exact (inductionHypothesis present).turn turned

/-- The turn has handled a shutdown. What lay ahead of it was handled before; what lay behind it is
dropped, and whoever waits there is told so. -/
structure ShutDown (engine : Engine σ) (first : Service σ) (ahead : List Message) (slot : Nat)
    (behind : List Message) (earlier : List (Turn σ)) (turn : Turn σ) (last : Service σ) :
    Prop where
  handled : Handled engine first ahead earlier turn.before
  waiting : turn.before.mailbox = .shutdown slot :: behind
  log : turn.log = ⟨(slot, .ok .shutDown) :: (behind.filterMap Message.slot?).map fun dropped =>
    (dropped, .error .stopped), []⟩
  board : last.board = turn.before.board.beginTurn.shutdown
  state : last.engine = turn.before.engine
  ended : last.Ended engine

/-- The turn has found neither a message nor anyone to send one. -/
structure Deserted (engine : Engine σ) (first : Service σ) (queue : List Message)
    (earlier : List (Turn σ)) (turn : Turn σ) (last : Service σ) : Prop where
  handled : Handled engine first queue earlier turn.before
  waiting : turn.before.mailbox = []
  log : turn.log = {}
  board : last.board = turn.before.board.shutdown
  state : last.engine = turn.before.engine
  ended : last.Ended engine

/-- How the last turn of a service came about. -/
inductive Cut (engine : Engine σ) (first : Service σ) :
    Nat → List Message → List (Turn σ) → Turn σ → Service σ → Prop where
  | shutDown {clients slot : Nat} {ahead behind : List Message} {earlier : List (Turn σ)}
      {turn : Turn σ} {last : Service σ}
      (cut : ShutDown engine first ahead slot behind earlier turn last) :
      Cut engine first clients (ahead ++ .shutdown slot :: behind) earlier turn last
  | deserted {queue : List Message} {earlier : List (Turn σ)} {turn : Turn σ} {last : Service σ}
      (cut : Deserted engine first queue earlier turn last) :
      Cut engine first 0 queue earlier turn last

theorem Cut.ended {earlier : List (Turn σ)} {turn : Turn σ}
    (cut : Cut engine first clients queue earlier turn service) : service.Ended engine := by
  cases cut with
  | shutDown cut => exact cut.ended
  | deserted cut => exact cut.ended

theorem step (handled : Handled engine first messages turns service)
    (present : service.isConnected = true ↔ 0 < clients)
    (turned : service.turn? engine = some (log, next)) :
    (next.isRunning = true ∧ ¬ Turn.IsLast ⟨service, log⟩ ∧
      ∃ more, messages ++ service.mailbox ++ Turn.posted ⟨service, log⟩ = more ++ next.mailbox ∧
        Handled engine first more (turns ++ [⟨service, log⟩]) next) ∨
    Cut engine first clients (messages ++ service.mailbox ++ Turn.posted ⟨service, log⟩) turns
      ⟨service, log⟩ next := by
  cases waiting : service.mailbox with
  | nil =>
    obtain ⟨_, ⟨_, gone, rfl, rfl⟩ | ⟨message, rest, other, _⟩⟩ := Service.turn?_cases turned
    · -- nobody is left to send anything
      obtain rfl : clients = 0 := by
        rw [← Nat.le_zero, ← Nat.not_lt, ← present, gone]
        exact Bool.false_ne_true
      have silent : Turn.posted (⟨service, {}⟩ : Turn σ) = [] := by simp [Turn.posted]
      rw [silent, List.append_nil, List.append_nil]
      exact .inr (.deserted ⟨handled, waiting, rfl, rfl, rfl,
        Service.ended_of_stopped rfl rfl rfl rfl rfl⟩)
    · rw [waiting] at other
      cases other
  | cons message rest =>
    by_cases last : message.operation = .shutdown
    · cases message with
      | shutdown slot =>
        obtain ⟨rfl, rfl⟩ := Service.shuts_down turned waiting
        simp only [Turn.posted, List.filterMap_nil, ite_self, List.append_nil]
        exact .inr (.shutDown ⟨handled, waiting, rfl, rfl, rfl,
          Service.ended_of_stopped rfl rfl rfl rfl rfl⟩)
      | request | event | reclaim => cases last
    · -- the message moves from the mailbox to what has been handled
      obtain ⟨running, mailbox⟩ := Service.goes_on turned waiting last
      refine .inl ⟨running, ?_, messages ++ [message], by simp [mailbox],
        handled.turn turned waiting⟩
      rintro (none | ⟨slot, taken⟩)
      · simp [Turn.message?, waiting] at none
      · simp only [Turn.message?, waiting, List.head?_cons, Option.some.injEq] at taken
        subst taken
        exact last rfl

/-- Either the service runs, and what was ever in the mailbox is handled or still waits; or it has
come to its end on the last turn. -/
theorem progress (traffic : Traffic engine first clients queue turns service) :
    (service.isRunning = true ∧ (∀ turn ∈ turns, ¬ turn.IsLast) ∧
      ∃ handled, queue = handled ++ service.mailbox ∧
        Handled engine first handled turns service) ∨
    ∃ earlier turn, turns = earlier ++ [turn] ∧ (∀ turn ∈ earlier, ¬ turn.IsLast) ∧
      Cut engine first clients queue earlier turn service := by
  induction traffic with
  | start started =>
    obtain ⟨board, _, rfl⟩ := Service.start_eq started
    exact .inl ⟨rfl, by simp, [], rfl, .start _ _⟩
  | share _ _ inductionHypothesis =>
    refine inductionHypothesis.imp_right ?_
    rintro ⟨earlier, turn, whole, others, cut⟩
    -- someone is there, so the service was not left alone
    cases cut with
    | shutDown cut => exact ⟨earlier, turn, whole, others, .shutDown cut⟩
  | @send clients past ahead behind turns service message _ arrives nextSlot
      inductionHypothesis =>
    rcases inductionHypothesis with ⟨_, others, handled, whole, kept⟩ | ⟨_, _, _, _, cut⟩
    · -- what lies ahead of the mailbox in the memory is what has been handled
      rw [arrives.mailbox] at whole
      obtain rfl := List.append_cancel_right whole
      exact .inl ⟨arrives.running, others, past, rfl, kept.same rfl rfl⟩
    · cases cut.ended.stopped.symm.trans arrives.running
  | leave _ inductionHypothesis =>
    rcases inductionHypothesis with ⟨running, others, handled, whole, kept⟩ |
      ⟨earlier, turn, whole, others, cut⟩
    · exact .inl ⟨running, others, handled, whole, kept.same rfl rfl⟩
    · cases cut with
      | shutDown cut =>
        exact .inr ⟨earlier, turn, whole, others,
          .shutDown { cut with ended := cut.ended.disconnect }⟩
  | @leaveAmid queue kept turns turn early late service before running amid _ waiting
      inductionHypothesis =>
    rcases inductionHypothesis with ⟨_, others, handled, whole, done⟩ | ⟨_, _, _, _, cut⟩
    · -- the lost tickets are the end of the memory and of the mailbox
      rw [waiting, ← List.append_assoc] at whole
      obtain ⟨next, turned⟩ := (before.session Nat.one_pos).turned turn (by simp)
      refine .inl ⟨running, ?_, handled, List.append_cancel_right whole,
        (done.unposted turned amid).same rfl rfl⟩
      rw [List.forall_mem_append, List.forall_mem_singleton] at others ⊢
      exact others
    · rw [cut.ended.stopped] at running
      cases running
  | @turn clients queue turns service next log before turned inductionHypothesis =>
    rcases inductionHypothesis with ⟨_, others, handled, rfl, done⟩ | ⟨_, _, _, _, cut⟩
    · rcases step done before.connected_iff turned with ⟨running, other, more, all, took⟩ | cut
      · refine .inl ⟨running, ?_, more, all, took⟩
        rw [List.forall_mem_append, List.forall_mem_singleton]
        exact ⟨others, other⟩
      · exact .inr ⟨turns, _, rfl, others, cut⟩
    · rw [cut.ended.turns] at turned
      cases turned

theorem cut_of_isLast {earlier later : List (Turn σ)} {turn : Turn σ}
    (traffic : Traffic engine first clients queue (earlier ++ turn :: later) service)
    (last : turn.IsLast) : later = [] ∧ Cut engine first clients queue earlier turn service := by
  rcases traffic.progress with ⟨_, others, _⟩ | ⟨front, final, whole, others, cut⟩
  · exact absurd last (others turn (by simp))
  · rcases List.eq_nil_or_concat later with rfl | ⟨between, other, rfl⟩
    · obtain ⟨rfl, same⟩ := List.append_inj' whole rfl
      rw [List.singleton_inj] at same
      subst same
      exact ⟨rfl, cut⟩
    · -- the turn would stand ahead of the last one
      rw [List.concat_eq_append, ← List.cons_append, ← List.append_assoc] at whole
      obtain ⟨rfl, _⟩ := List.append_inj' whole rfl
      exact absurd last (others turn (by simp))

theorem extend (traffic : Traffic engine first clients queue turns service) (count : Nat) :
    Traffic engine first clients (queue ++ (service.takeTurns engine count).1.flatMap (·.posted))
      (turns ++ (service.takeTurns engine count).1) (service.takeTurns engine count).2 := by
  have none : Traffic engine first clients (queue ++ ([] : List (Turn σ)).flatMap (·.posted))
      (turns ++ []) service := by
    simpa using traffic
  refine Service.takeTurns_induction (motive := fun taken service => Traffic engine first clients
    (queue ++ taken.flatMap (·.posted)) (turns ++ taken) service) ?_ none count
  intro taken service next log before turned
  simpa using before.turn turned

theorem sendEach {past : List Message}
    (traffic : Traffic engine first (clients + 1) (past ++ service.mailbox) turns service)
    (running : service.isRunning = true) (since : Turn.waiting turns ≤ service.mailbox.length)
    (messages : List Message) (requests : ∀ message ∈ messages, message.ticket? = none) :
    Traffic engine first (clients + 1) (past ++ (service.mailbox ++ messages)) turns
      { service with mailbox := service.mailbox ++ messages } := by
  refine Service.sendEach_induction (motive := fun service =>
    Traffic engine first (clients + 1) (past ++ service.mailbox) turns service) ?_ traffic running
    since messages requests
  intro service message before arrives
  exact send (by rw [List.append_nil]; exact before) arrives service.nextSlot

theorem ended (traffic : Traffic engine first clients queue turns service)
    (stopped : service.isRunning = false) :
    service.Ended engine ∧ ∃ earlier turn, turns = earlier ++ [turn] ∧ turn.IsLast := by
  rcases traffic.progress with ⟨running, _⟩ | ⟨earlier, turn, whole, _, cut⟩
  · rw [stopped] at running
    cases running
  · refine ⟨cut.ended, earlier, turn, whole, ?_⟩
    cases cut with
    | shutDown cut => exact .inr ⟨_, by rw [Turn.message?, cut.waiting]; rfl⟩
    | deserted cut => exact .inl (by rw [Turn.message?, cut.waiting]; rfl)

/-- As long as the service runs, the messages are handled completely and in the order of the
mailbox. A shutdown cuts this order: all that is ahead of it has been handled, nothing behind it
ever is, and whoever waits behind it or comes later is told that the service has stopped. If no
client is left, the service handles what still waits and comes to its end. Whichever way it ends, no
group, no tracked call and no pending release is left. -/
theorem clean_cut (traffic : Traffic engine first clients queue turns service) :
    (service.isRunning = true → ∃ handled, queue = handled ++ service.mailbox ∧
      Handled engine first handled turns service) ∧
    (∀ earlier turn later slot, turns = earlier ++ turn :: later →
      turn.message? = some (.shutdown slot) → later = [] ∧
        ∃ ahead behind, queue = ahead ++ .shutdown slot :: behind ∧
          ShutDown engine first ahead slot behind earlier turn service) ∧
    (∀ earlier turn later, turns = earlier ++ turn :: later → turn.message? = none →
      later = [] ∧ clients = 0 ∧ Deserted engine first queue earlier turn service) ∧
    (service.isRunning = false → service.Ended engine ∧
      ∃ earlier turn, turns = earlier ++ [turn] ∧ turn.IsLast) ∧
    (clients = 0 → (service.takeTurns engine (service.mailbox.length + 1)).2.Ended engine) := by
  refine ⟨?_, ?_, ?_, traffic.ended, ?_⟩
  · intro running
    rcases traffic.progress with ⟨_, _, handled⟩ | ⟨_, _, _, _, cut⟩
    · exact handled
    · rw [cut.ended.stopped] at running
      cases running
  · rintro earlier turn later slot rfl taken
    obtain ⟨nothing, cut⟩ := traffic.cut_of_isLast (.inr ⟨slot, taken⟩)
    refine ⟨nothing, ?_⟩
    cases cut with
    | shutDown cut =>
      rw [Turn.message?, cut.waiting] at taken
      cases taken
      exact ⟨_, _, rfl, cut⟩
    | deserted cut =>
      rw [Turn.message?, cut.waiting] at taken
      cases taken
  · rintro earlier turn later rfl taken
    obtain ⟨nothing, cut⟩ := traffic.cut_of_isLast (.inl taken)
    refine ⟨nothing, ?_⟩
    cases cut with
    | shutDown cut =>
      rw [Turn.message?, cut.waiting] at taken
      cases taken
    | deserted cut => exact ⟨rfl, cut⟩
  · rintro rfl
    have gone : service.isConnected = false := by
      rw [← Bool.not_eq_true, traffic.connected_iff]
      exact Nat.lt_irrefl 0
    have stopped := Service.stopped_of_disconnected engine gone (Nat.lt_succ_self _)
    exact ((traffic.extend (service.mailbox.length + 1)).ended stopped).1

end Traffic

/-! ## Sample traffic -/

namespace Closing

/-- Two calls of a group ring, and one is answered. -/
def race : List Message :=
  [.request (.createGroup "G") 0, .request (.addPeer "G" "sip:a@x" none) 1,
    .request (.addPeer "G" "sip:b@x" none) 2, .request (.startCall "G" {}) 3,
    .event (.established ⟨"call-1"⟩)]

/-- A shutdown, ahead of a request and of an event. -/
def closing : List Message :=
  [.shutdown 4, .request .dump 5, .event (.closed ⟨"call-2"⟩ none)]

def first : Service EngineScript := { board := Rematch.board, engine := {} }

/-- The turns and the service after some turns on these messages. -/
def taken (messages : List Message) (count : Nat) :
    List (Turn EngineScript) × Service EngineScript :=
  { first with mailbox := messages }.takeTurns EngineScript.engine count

theorem traffic (messages : List Message) (count : Nat)
    (requests : ∀ message ∈ messages, message.ticket? = none) :
    Traffic EngineScript.engine first 1 (messages ++ (taken messages count).1.flatMap (·.posted))
      (taken messages count).1 (taken messages count).2 := by
  have started : Service.start Rematch.board.config Rematch.board.accounts ({} : EngineScript)
      = .ok first := rfl
  have idle : Traffic EngineScript.engine first 1 ([] ++ first.mailbox) [] first := .start started
  exact (idle.sendEach rfl (Nat.le_refl 0) messages requests).extend count

/-- The turn of the answer. It posts a ticket. -/
def answer : Turn EngineScript := (taken race 5).1.getLast (by decide +kernel)

/-- The service when the last client has gone on that turn, ahead of the ticket. -/
def left : Service EngineScript := { (taken race 5).2.disconnect with mailbox := [] }

theorem traffic_left :
    Traffic EngineScript.engine first 0 race ((taken race 5).1.dropLast ++ [⟨answer.before,
      ⟨answer.log.replies, answer.log.effects.take 2
        ++ (answer.log.effects.drop 2).map (Effect.withLoop false)⟩⟩]) left := by
  have before := traffic race 5 (by decide)
  have posted : (taken race 5).1.flatMap (·.posted)
      = (answer.log.effects.drop 2).filterMap Message.ofEffect? := by decide +kernel
  have turns : (taken race 5).1 = (taken race 5).1.dropLast ++ [answer] :=
    (List.dropLast_append_getLast _).symm
  rw [posted, turns] at before
  exact before.leaveAmid (by decide +kernel) (List.take_append_drop 2 _).symm (by decide +kernel)
    (by decide +kernel)

def last : Turn EngineScript := (taken (race ++ closing) 6).1.getLast (by decide +kernel)

/-- A shutdown behind an answer leaves nothing of the race. If everyone goes instead while the loser
is put aside, its ticket is lost, and it is gone with the service all the same. -/
theorem clean_cut_when_closing :
    (∃ ahead behind, race ++ closing ++ [.reclaim ⟨1⟩] = ahead ++ .shutdown 4 :: behind ∧
      Traffic.ShutDown EngineScript.engine first ahead 4 behind
        (taken (race ++ closing) 6).1.dropLast last (taken (race ++ closing) 6).2) ∧
      last.log.replies = [(4, .ok .shutDown), (5, .error .stopped)] ∧
      left.board.releases.size = 1 ∧ left.mailbox = [] ∧
      (left.takeTurns EngineScript.engine 1).2.Ended EngineScript.engine := by
  have before := traffic (race ++ closing) 6 (by decide)
  have posted : (taken (race ++ closing) 6).1.flatMap (·.posted) = [.reclaim ⟨1⟩] := by
    decide +kernel
  have turns : (taken (race ++ closing) 6).1
      = (taken (race ++ closing) 6).1.dropLast ++ last :: [] :=
    (List.dropLast_append_getLast _).symm
  rw [posted] at before
  obtain ⟨_, shutdowns, _⟩ := before.clean_cut
  obtain ⟨_, cut⟩ := shutdowns _ last [] 4 turns (by decide +kernel)
  obtain ⟨_, _, _, _, leaving⟩ := traffic_left.clean_cut
  exact ⟨cut, by decide +kernel, by decide +kernel, by decide +kernel, leaving rfl⟩

end Closing
end CallFork
