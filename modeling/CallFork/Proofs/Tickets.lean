import CallFork.Proofs.Operations
import CallFork.Proofs.Releases
import CallFork.Proofs.Turns

/-! # Tickets in the mailbox

As long as a service runs and someone is connected to it, no ticket gets lost between the pending
releases and the mailbox, and none is there twice: the tickets in the mailbox are those of the
pending releases, in the order in which they were deferred. The order carries the proof. A ticket
that is taken out is the oldest one, it was deferred on an earlier turn, and so its call is forgotten
at once and the ticket never has to be posted again.
-/

namespace CallFork

/-! ## What an operation schedules -/

namespace ReleaseTable

/-- These calls were put behind the others on a turn, under new tickets, and their tickets are the
ones that the effects schedule. -/
structure Grows (before after : ReleaseTable) (turn : Nat) (effects : List Effect)
    (entries : List PendingRelease) : Prop where
  pending : after.pending = before.pending ++ entries
  scheduled : Effect.tickets effects = entries.map (·.ticket)
  turns : ∀ entry ∈ entries, entry.deferredTurn = turn
  fresh : ∀ entry ∈ entries, before.issued < entry.ticket.number
  issued : before.issued ≤ after.issued

theorem Grows.of_unchanged (table : ReleaseTable) (turn : Nat) {effects : List Effect}
    (quiet : Effect.tickets effects = []) : Grows table table turn effects [] where
  pending := (List.append_nil _).symm
  scheduled := quiet
  turns := by simp
  fresh := by simp
  issued := Nat.le_refl _

theorem grows_deferAll (table : ReleaseTable) (turn : Nat) (calls : List TrackedCall) :
    Grows table (table.deferAll turn calls).2 turn (table.deferAll turn calls).1
      (entriesFrom table.issued turn calls) where
  pending := by rw [deferAll_eq]
  scheduled := table.tickets_deferAll turn calls
  turns entry := deferredTurn_of_mem
  fresh entry := issued_lt_of_mem
  issued := by
    rw [deferAll_eq]
    exact Nat.le_add_right _ _

/-- The oldest ticket brings its call back, if its turn is over. -/
theorem release_first {table : ReleaseTable} (ticketed : table.Ticketed) {entry : PendingRelease}
    {others : List PendingRelease} (pending : table.pending = entry :: others) {turn : Nat}
    (later : entry.deferredTurn < turn) :
    table.find? entry.ticket = some entry ∧
      table.release entry.ticket turn
        = (.done ⟨entry.call.id, entry.deferredTurn, turn⟩, { table with pending := others }) := by
  have found : table.find? entry.ticket = some entry :=
    find?_of_mem ticketed (pending ▸ List.mem_cons_self)
  have distinct := ticketed.distinct
  rw [pending, List.map_cons, List.nodup_cons] at distinct
  have kept : others.filter (fun other => other.ticket ≠ entry.ticket) = others := by
    apply List.filter_eq_self.2
    intro other member
    have apart : other.ticket ≠ entry.ticket := fun same =>
      distinct.1 (same ▸ List.mem_map_of_mem member)
    simpa using apart
  refine ⟨found, ?_⟩
  unfold release
  rw [found]
  simp only [Nat.not_le.2 later, if_false, pending]
  rw [List.filter_cons_of_neg (by simp), kept]

end ReleaseTable

namespace Switchboard

variable {σ : Type}

theorem reclaim_first (board : Switchboard) (ticketed : board.releases.Ticketed)
    {entry : PendingRelease} {others : List PendingRelease}
    (pending : board.releases.pending = entry :: others)
    (later : entry.deferredTurn < board.turn) :
    board.reclaim entry.ticket
      = ⟨some ⟨entry.call.id, entry.deferredTurn, board.turn⟩,
        { board with releases := { board.releases with pending := others } },
        [.publish (.callReleased entry.call.id entry.deferredTurn board.turn)]⟩ := by
  simp only [reclaim, (ReleaseTable.release_first ticketed pending later).2]
  rfl

theorem tickets_handleRequest (engine : Engine σ) (board : Switchboard) (request : Request)
    (state : σ) :
    (board.handleRequest engine request state).1.board.releases = board.releases ∧
      (board.handleRequest engine request state).1.board.turn = board.turn ∧
      Effect.tickets (board.handleRequest engine request state).1.effects = [] := by
  have handled := handled engine board request state
  generalize board.handleRequest engine request state = done at handled ⊢
  cases handled with
  | refused => exact ⟨rfl, rfl, rfl⟩
  | registered => exact ⟨rfl, rfl, by simp [Effect.tickets, Effect.ticket?, Function.comp_def]⟩
  | called => exact ⟨rfl, rfl, DialAttempt.tickets_flatMap _ _⟩
  | hungUp => exact ⟨rfl, rfl, HangupAttempt.tickets_flatMap _ _⟩

/-- An event defers the losers of a race, if it decides one. -/
theorem exists_grows_handleEvent (engine : Engine σ) (board : Switchboard) (event : CallEvent)
    (state : σ) :
    (board.handleEvent engine event state).1.board.turn = board.turn ∧
      ∃ entries, board.releases.Grows (board.handleEvent engine event state).1.board.releases
        board.turn (board.handleEvent engine event state).1.effects entries := by
  cases event with
  | progress id => exact ⟨rfl, [], .of_unchanged _ _ rfl⟩
  | closed id reason =>
    simp only [handleEvent, hungUp]
    split <;> exact ⟨rfl, [], .of_unchanged _ _ rfl⟩
  | established id =>
    simp only [handleEvent, answered]
    split
    · refine ⟨rfl, [], .of_unchanged _ _ ?_⟩
      split <;> rfl
    · rename_i call _
      split
      · exact ⟨rfl, [], .of_unchanged _ _ rfl⟩
      · have grows := board.releases.grows_deferAll board.turn (board.calls.siblings call.id)
        refine ⟨rfl, _, { grows with scheduled := ?_ }⟩
        rw [tickets_supersede]
        exact grows.scheduled

/-- What a message that is neither a ticket nor a shutdown does to the pending releases. -/
theorem exists_grows_perform (engine : Engine σ) (board : Switchboard) {message : Message}
    (client : message.ticket? = none) (running : message.operation ≠ .shutdown) (state : σ) :
    (board.perform engine message.operation state).1.board.turn = board.turn ∧
      ∃ entries, board.releases.Grows
        (board.perform engine message.operation state).1.board.releases board.turn
        (board.perform engine message.operation state).1.effects entries := by
  cases message with
  | request request slot =>
    obtain ⟨releases, turn, quiet⟩ := board.tickets_handleRequest engine request state
    refine ⟨turn, [], ?_⟩
    change board.releases.Grows (board.handleRequest engine request state).1.board.releases
      board.turn (board.handleRequest engine request state).1.effects []
    rw [releases]
    exact .of_unchanged _ _ quiet
  | event event => exact board.exists_grows_handleEvent engine event state
  | shutdown slot => exact absurd rfl running
  | reclaim ticket => cases client

end Switchboard

/-! ## Along a session -/

variable {σ : Type} {engine : Engine σ} {turns : List (Turn σ)} {service : Service σ}

/-- How the pending releases and the mailbox fit together between two turns. -/
structure Kept (turns : List (Turn σ)) (service : Service σ) : Prop where
  /-- The tickets in the mailbox are those of the pending releases, in the same order. -/
  waiting : service.mailbox.filterMap Message.ticket?
    = service.board.releases.pending.map (·.ticket)
  /-- Whatever waits was scheduled on the turn on which it was deferred. -/
  deferred : ∀ entry ∈ service.board.releases.pending, ∃ turn ∈ turns,
    turn.number = entry.deferredTurn ∧ Effect.schedule entry.ticket ∈ turn.log.effects
  /-- Nothing waits under a ticket that was taken out. -/
  taken : ∀ turn ∈ turns, ∀ ticket, turn.message? = some (.reclaim ticket) →
    ticket.number ≤ service.board.releases.issued ∧
      ticket ∉ service.board.releases.pending.map (·.ticket)
  past : ∀ turn ∈ turns, turn.number ≤ service.board.turn

namespace Kept

variable {next : Service σ} {log : TurnLog}

theorem deferred_le (kept : Kept turns service) {entry : PendingRelease}
    (member : entry ∈ service.board.releases.pending) :
    entry.deferredTurn ≤ service.board.turn := by
  obtain ⟨turn, present, number, _⟩ := kept.deferred entry member
  exact number ▸ kept.past turn present

/-- A ticket that is taken out belongs to the oldest pending release, and ends it. -/
theorem reclaimed (kept : Kept turns service) (ticketed : service.board.releases.Ticketed)
    (connected : service.isConnected = true) {ticket : Ticket} {rest : List Message}
    (waiting : service.mailbox = .reclaim ticket :: rest)
    (handled : { service with board := service.board.beginTurn, mailbox := rest }.handle engine
      (.reclaim ticket) = (log, next)) :
    ∃ entry others, service.board.releases.pending = entry :: others ∧
      entry.ticket = ticket ∧
      service.board.releases.find? ticket = some entry ∧
      service.board.releases.release ticket (service.board.turn + 1)
        = (.done ⟨entry.call.id, entry.deferredTurn, service.board.turn + 1⟩,
          { service.board.releases with pending := others }) ∧
      next = { service with
        board := { service.board.beginTurn with
          releases := { service.board.releases with pending := others } }
        mailbox := rest } ∧
      log.effects
        = [.publish (.callReleased entry.call.id entry.deferredTurn (service.board.turn + 1))] := by
  -- the first ticket in the mailbox is that of the first pending release
  have order := kept.waiting
  rw [waiting] at order
  simp only [List.filterMap_cons, Message.ticket?] at order
  obtain ⟨entry, others, pending, rfl, _⟩ := List.map_eq_cons_iff.1 order.symm
  have ended : entry.deferredTurn < service.board.turn + 1 :=
    Nat.lt_succ_of_le (kept.deferred_le (pending ▸ List.mem_cons_self))
  obtain ⟨found, released⟩ := ReleaseTable.release_first ticketed pending ended
  refine ⟨entry, others, pending, rfl, found, released, ?_⟩
  have outcome := service.board.beginTurn.reclaim_first ticketed pending ended
  simp only [Service.handle, outcome, Prod.mk.injEq] at handled
  obtain ⟨rfl, rfl⟩ := handled
  refine ⟨?_, Service.settled_of_connected connected _⟩
  simp [Service.absorb, Switchboard.beginTurn, Message.ofEffect?]

theorem send (kept : Kept turns service) {message : Message} {ahead behind : List Message}
    (arrives : message.Arrives turns service ahead behind) (nextSlot : Nat) :
    Kept turns (service.receive ahead message behind nextSlot) :=
  { kept with
    waiting := by
      rw [Service.receive, ← kept.waiting, arrives.mailbox]
      simp [arrives.client] }

theorem reclaim (kept : Kept turns service) (ticketed : service.board.releases.Ticketed)
    (connected : service.isConnected = true) {ticket : Ticket} {rest : List Message}
    (waiting : service.mailbox = .reclaim ticket :: rest)
    (handled : { service with board := service.board.beginTurn, mailbox := rest }.handle engine
      (.reclaim ticket) = (log, next)) : Kept (turns ++ [⟨service, log⟩]) next := by
  obtain ⟨entry, others, pending, rfl, _, _, rfl, _⟩ :=
    kept.reclaimed ticketed connected waiting handled
  have distinct := ticketed.distinct
  rw [pending, List.map_cons, List.nodup_cons] at distinct
  constructor
  · have order := kept.waiting
    rw [waiting, pending] at order
    exact (List.cons.inj order).2
  · intro other member
    obtain ⟨turn, present, scheduled⟩ :=
      kept.deferred other (pending ▸ List.mem_cons_of_mem entry member)
    exact ⟨turn, List.mem_append_left _ present, scheduled⟩
  · intro turn member other message
    rcases List.mem_append.1 member with old | new
    · obtain ⟨given, gone⟩ := kept.taken turn old other message
      rw [pending, List.map_cons] at gone
      exact ⟨given, fun present => gone (List.mem_cons_of_mem _ present)⟩
    · -- the ticket of this turn
      obtain rfl := List.mem_singleton.1 new
      simp only [Turn.message?, waiting, List.head?_cons, Option.some.injEq,
        Message.reclaim.injEq] at message
      subst message
      exact ⟨ticketed.issued entry (pending ▸ List.mem_cons_self), distinct.1⟩
  · intro turn member
    rcases List.mem_append.1 member with old | new
    · exact Nat.le_succ_of_le (kept.past turn old)
    · rw [List.mem_singleton.1 new]
      exact Nat.le_refl _

/-- New pending releases and their tickets get behind the old ones. -/
theorem handle (kept : Kept turns service) (connected : service.isConnected = true)
    {message : Message} {rest : List Message} (waiting : service.mailbox = message :: rest)
    (client : message.ticket? = none) (running : message.operation ≠ .shutdown)
    (handled : { service with board := service.board.beginTurn, mailbox := rest }.handle engine
      message = (log, next)) : Kept (turns ++ [⟨service, log⟩]) next := by
  obtain ⟨rfl, effects⟩ := Service.handled_eq connected running handled
  obtain ⟨turn, entries, grows⟩ :=
    service.board.beginTurn.exists_grows_perform engine client running service.engine
  have ahead := kept.waiting
  rw [waiting, List.filterMap_cons, client] at ahead
  constructor
  · simp only [List.filterMap_append, Message.tickets_posted, grows.scheduled, grows.pending,
      List.map_append]
    exact congrArg (· ++ _) ahead
  · intro entry member
    rw [grows.pending] at member
    rcases List.mem_append.1 member with old | new
    · obtain ⟨turn, present, scheduled⟩ := kept.deferred entry old
      exact ⟨turn, List.mem_append_left _ present, scheduled⟩
    · have scheduled : entry.ticket ∈ Effect.tickets log.effects := by
        rw [effects, grows.scheduled]
        exact List.mem_map_of_mem new
      refine ⟨⟨service, log⟩, List.mem_append_right _ List.mem_cons_self,
        (grows.turns entry new).symm, ?_⟩
      exact Effect.mem_tickets.1 scheduled
  · intro turn member ticket taken
    rcases List.mem_append.1 member with old | new
    · obtain ⟨given, gone⟩ := kept.taken turn old ticket taken
      refine ⟨Nat.le_trans given grows.issued, ?_⟩
      rw [grows.pending, List.map_append, List.mem_append]
      rintro (present | fresh)
      · exact gone present
      · -- new tickets are higher than any that was taken out
        obtain ⟨entry, member, rfl⟩ := List.mem_map.1 fresh
        exact absurd given (Nat.not_le.2 (grows.fresh entry member))
    · obtain rfl := List.mem_singleton.1 new
      simp only [Turn.message?, waiting, List.head?_cons, Option.some.injEq] at taken
      subst taken
      cases client
  · intro old member
    rw [turn]
    rcases List.mem_append.1 member with past | new
    · exact Nat.le_succ_of_le (kept.past old past)
    · rw [List.mem_singleton.1 new]
      exact Nat.le_refl _

end Kept

namespace Session

theorem ticketed (session : Session engine turns service) :
    service.board.releases.Ticketed := by
  obtain ⟨_, reached⟩ := session.reach
  exact reached.sound.ticketed

theorem kept (session : Session engine turns service) (connected : service.isConnected = true)
    (never : ∀ turn ∈ turns, ∀ slot, turn.message? ≠ some (.shutdown slot)) :
    Kept turns service := by
  induction session with
  | start started =>
    obtain ⟨board, made, rfl⟩ := Service.start_eq started
    rw [Switchboard.start_eq made]
    exact ⟨rfl, by simp, by simp, by simp⟩
  | send _ arrives nextSlot inductionHypothesis =>
    exact (inductionHypothesis connected never).send arrives nextSlot
  | disconnect => cases connected
  | @turn turns service next log before turned inductionHypothesis =>
    have present := Service.turn?_isConnected turned ▸ connected
    have kept := inductionHypothesis present fun turn member =>
      never turn (List.mem_append_left _ member)
    rcases (Service.turn?_cases turned).2 with ⟨_, gone, _⟩ | ⟨message, rest, waiting, handled⟩
    · rw [gone] at present
      cases present
    · -- a ticket takes the first pending release away, anything else puts new ones behind
      cases message with
      | request asked slot => exact kept.handle present waiting rfl nofun handled
      | event reported => exact kept.handle present waiting rfl nofun handled
      | reclaim ticket => exact kept.reclaim before.ticketed present waiting handled
      | shutdown slot =>
        refine absurd ?_ (never _ (List.mem_append_right _ List.mem_cons_self) slot)
        simp [Turn.message?, waiting]

/-- With an empty mailbox, a service that runs waits for no release. -/
theorem none_pending (session : Session engine turns service)
    (running : service.isRunning = true) (connected : service.isConnected = true)
    (idle : service.mailbox = []) : service.board.releases.pending = [] := by
  have order := (session.kept connected (session.never_shutdown running)).waiting
  rw [idle] at order
  exact List.map_eq_nil_iff.1 order.symm

/-- As long as someone is connected and no shutdown was taken out, the tickets in the mailbox are
those of the pending releases, each once. A ticket that is taken out was never taken out before; it
was scheduled on an earlier turn, when the oldest of the pending releases was deferred under it, and
it ends that release and nothing else. When the mailbox is empty, nothing is pending. -/
theorem no_ticket_lost (session : Session engine turns service)
    (connected : service.isConnected = true)
    (never : ∀ turn ∈ turns, ∀ slot, turn.message? ≠ some (.shutdown slot)) :
    service.mailbox.filterMap Message.ticket?
        = service.board.releases.pending.map (·.ticket) ∧
      (service.board.releases.pending.map (·.ticket)).Nodup ∧
      (service.mailbox = [] → service.board.releases.pending = []) ∧
      ∀ earlier turn later ticket, turns = earlier ++ turn :: later →
        turn.message? = some (.reclaim ticket) →
        (∀ other ∈ earlier, other.message? ≠ some (.reclaim ticket)) ∧
        ∃ entry deferral next, turn.before.turn? engine = some (turn.log, next) ∧
          turn.before.board.releases.pending = entry :: next.board.releases.pending ∧
          entry.ticket = ticket ∧
          deferral ∈ earlier ∧ Effect.schedule ticket ∈ deferral.log.effects ∧
          entry.deferredTurn = deferral.number ∧ deferral.number < turn.number ∧
          (turn.before.board.releases.release ticket turn.number).1
            = .done ⟨entry.call.id, deferral.number, turn.number⟩ ∧
          turn.log.effects
            = [.publish (.callReleased entry.call.id deferral.number turn.number)] := by
  have kept := session.kept connected never
  refine ⟨kept.waiting, session.ticketed.distinct, ?_, ?_⟩
  · intro empty
    have order := kept.waiting
    rw [empty] at order
    exact List.map_eq_nil_iff.1 order.symm
  · rintro earlier turn later ticket rfl taken
    obtain ⟨before, ⟨next, turned⟩, present⟩ := session.split
    have kept := before.kept (present connected) fun other member =>
      never other (List.mem_append_left _ member)
    obtain ⟨rest, waiting⟩ := List.head?_eq_some_iff.1 taken
    rcases (Service.turn?_cases turned).2 with ⟨empty, _⟩ | ⟨message, rest, taken, handled⟩
    · rw [empty] at waiting
      cases waiting
    · obtain ⟨rfl, rfl⟩ := List.cons.inj (waiting.symm.trans taken)
      obtain ⟨entry, others, pending, rfl, _, released, same, announced⟩ :=
        kept.reclaimed before.ticketed (present connected) waiting handled
      have member : entry ∈ turn.before.board.releases.pending := pending ▸ List.mem_cons_self
      obtain ⟨deferral, past, number, scheduled⟩ := kept.deferred entry member
      constructor
      · intro other former again
        exact (kept.taken other former entry.ticket again).2 (List.mem_map_of_mem member)
      · rw [← number] at released announced
        refine ⟨entry, deferral, next, turned, ?_, rfl, past, scheduled, number.symm,
          Nat.lt_succ_of_le (kept.past deferral past), congrArg Prod.fst released, announced⟩
        rw [same]
        exact pending

/-! ## A sample session -/

namespace Interrupted

/-- Two groups are called, and a call of each is answered. -/
def messages : List Message :=
  [.request (.createGroup "G") 0, .request (.addPeer "G" "sip:a@x" none) 1,
    .request (.addPeer "G" "sip:b@x" none) 2, .request (.createGroup "H") 3,
    .request (.addPeer "H" "sip:c@x" none) 4, .request (.addPeer "H" "sip:d@x" none) 5,
    .request (.startCall "G" {}) 6, .request (.startCall "H" {}) 7,
    .event (.established ⟨"call-1"⟩), .event (.established ⟨"call-3"⟩)]

def answered : List (Turn EngineScript) × Service EngineScript :=
  Service.takeTurns EngineScript.engine 10
    { board := Rematch.board, engine := {}, mailbox := messages }

/-- The winner of the first group hangs up while the loser of the second one is being deferred. -/
def interrupted : Service EngineScript :=
  { answered.2 with
    mailbox := [.reclaim ⟨1⟩] ++ .event (.closed ⟨"call-1"⟩ none) :: [.reclaim ⟨2⟩] }

def finished : List (Turn EngineScript) × Service EngineScript :=
  interrupted.takeTurns EngineScript.engine 2

theorem session : Session EngineScript.engine (answered.1 ++ finished.1) finished.2 := by
  have started : Service.start Rematch.board.config Rematch.board.accounts ({} : EngineScript)
      = .ok { board := Rematch.board, engine := {} } := rfl
  have waiting : answered.2.mailbox = [.reclaim ⟨1⟩] ++ [.reclaim ⟨2⟩] := by decide +kernel
  have since : Turn.waiting answered.1 ≤ 1 := by decide +kernel
  have running : answered.2.isRunning = true := by decide +kernel
  have calling : Session EngineScript.engine answered.1 answered.2 :=
    Session.begun started messages (by decide) 10
  have arrived : Session EngineScript.engine answered.1 interrupted :=
    calling.send ⟨running, rfl, waiting, since⟩ answered.2.nextSlot
  exact arrived.extend 2

/-- The first ticket was deferred before the eleventh turn, on which it was taken out; the second
one still waits. -/
theorem no_ticket_lost_between : finished.2.board.releases.pending.map (·.ticket) = [⟨2⟩] ∧
    ∃ id deferral, deferral ∈ answered.1 ∧ Effect.schedule ⟨1⟩ ∈ deferral.log.effects ∧
      deferral.number < 11 ∧ (interrupted.board.releases.release ⟨1⟩ 11).1
        = .done ⟨id, deferral.number, 11⟩ := by
  have connected : finished.2.isConnected = true := by decide +kernel
  have taken : (answered.1 ++ finished.1).map Turn.message?
      = messages.map some ++ [some (.reclaim ⟨1⟩), some (.event (.closed ⟨"call-1"⟩ none))] := by
    decide +kernel
  have never : ∀ turn ∈ answered.1 ++ finished.1, ∀ slot,
      turn.message? ≠ some (.shutdown slot) := by
    intro turn member slot shutdown
    have present := shutdown ▸ List.mem_map_of_mem (f := Turn.message?) member
    rw [taken] at present
    simp [messages] at present
  obtain ⟨waiting, _, _, honoured⟩ := session.no_ticket_lost connected never
  have mailbox : finished.2.mailbox = [.reclaim ⟨2⟩] := by decide +kernel
  rw [mailbox] at waiting
  refine ⟨waiting.symm, ?_⟩
  obtain ⟨turn, later, turns⟩ : ∃ turn later, finished.1 = ⟨interrupted, turn⟩ :: later :=
    ⟨_, _, rfl⟩
  obtain ⟨_, entry, deferral, _, _, _, _, former, scheduled, _, before, released, _⟩ :=
    honoured answered.1 _ _ ⟨1⟩ (congrArg _ turns) rfl
  have number : interrupted.board.turn = 10 := by decide +kernel
  have here : Turn.number ⟨interrupted, turn⟩ = 11 := congrArg (· + 1) number
  rw [here] at before released
  exact ⟨entry.call.id, deferral, former, scheduled, before, released⟩

end Interrupted
end Session
end CallFork
