import CallFork.Proofs.AutoClose
import CallFork.Proofs.Tickets
import CallFork.Service.Settle

/-! # Draining the mailbox

The turns that a service takes until its mailbox is empty, over an engine that closes what it hangs
up. Closed events and tickets put nothing into the mailbox, so a mailbox of these is emptied in as
many turns (`drains_closed`, `drains_tickets`). The turn of an answer puts the closed events of the
losers into it and then their tickets; hanging up a group puts closed events into it only.
-/

namespace CallFork

variable {σ : Type} {engine : Engine σ} {view : σ → Simulation} {service : Service σ}

/-! ## Turns until the mailbox is empty -/

namespace Service

/-- The service takes turns with these effects one after the other. -/
inductive Drains (engine : Engine σ) : Service σ → List (List Effect) → Service σ → Prop where
  | done (service : Service σ) : Drains engine service [] service
  | turn {service next last : Service σ} {log : TurnLog} {later : List (List Effect)}
      (turned : service.turn? engine = some (log, next)) (rest : Drains engine next later last) :
      Drains engine service (log.effects :: later) last

theorem Drains.trans {middle last : Service σ} {first second : List (List Effect)}
    (begun : Drains engine service first middle) (goesOn : Drains engine middle second last) :
    Drains engine service (first ++ second) last := by
  induction begun with
  | done => exact goesOn
  | turn turned _ inductionHypothesis => exact .turn turned (inductionHypothesis goesOn)

/-- Turns up to an empty mailbox are those that settle the service. -/
theorem Drains.settle {last : Service σ} {effects : List (List Effect)}
    (drains : Drains engine service effects last) (connected : last.isConnected = true)
    (idle : last.mailbox = []) :
    ∃ logs, service.settle engine = (logs, last) ∧ logs.map (·.effects) = effects := by
  induction drains with
  | done service =>
    refine ⟨[], ?_, rfl⟩
    have waits : service.turn? engine = none := by simp [turn?, connected, idle]
    rw [Service.settle, waits]
  | @turn service next last log later turned _ inductionHypothesis =>
    obtain ⟨logs, settled, same⟩ := inductionHypothesis connected idle
    refine ⟨log :: logs, ?_, by rw [List.map_cons, same]⟩
    rw [Service.settle, turned]
    simp only [settled]

theorem drains_message (engine : Engine σ) (running : service.isRunning = true)
    (connected : service.isConnected = true) {message : Message} {rest : List Message}
    (waiting : service.mailbox = message :: rest) (goesOn : message.operation ≠ .shutdown) :
    Drains engine service
      [(service.board.beginTurn.perform engine message.operation service.engine).1.effects]
      { service with
        board := (service.board.beginTurn.perform engine message.operation service.engine).1.board
        engine := (service.board.beginTurn.perform engine message.operation service.engine).2
        mailbox := rest ++ (service.board.beginTurn.perform engine message.operation
          service.engine).1.effects.filterMap Message.ofEffect? } := by
  have turned : service.turn? engine
      = some ({ service with board := service.board.beginTurn, mailbox := rest }.handle engine
        message) := by
    simp [turn?, running, waiting]
  obtain ⟨next, effects⟩ := handled_eq connected goesOn rfl
  rw [← next, ← effects]
  exact .turn turned (.done _)

theorem send_of_idle (running : service.isRunning = true) (idle : service.mailbox = [])
    (message : Message) :
    ∃ sent, service.send message = .ok sent ∧ sent.mailbox = [message] ∧
      sent.board = service.board ∧ sent.engine = service.engine ∧ sent.isRunning = true ∧
      sent.isConnected = service.isConnected := by
  have sent : service.send message = .ok { service with mailbox := [message] } := by
    rw [send, if_pos running, idle, List.nil_append]
  exact ⟨_, sent, rfl, rfl, rfl, running, rfl⟩

theorem submit_of_idle (running : service.isRunning = true) (idle : service.mailbox = [])
    (message : Nat → Message) :
    ∃ sent, service.submit message = .ok (service.nextSlot, sent) ∧
      sent.mailbox = [message service.nextSlot] ∧ sent.board = service.board ∧
      sent.engine = service.engine ∧ sent.isRunning = true ∧
      sent.isConnected = service.isConnected := by
  obtain ⟨sent, accepted, mailbox, board, state, goesOn, present⟩ :=
    send_of_idle running idle (message service.nextSlot)
  have submitted : service.submit message
      = .ok (service.nextSlot, { sent with nextSlot := service.nextSlot + 1 }) := by
    rw [submit, accepted]
    rfl
  exact ⟨_, submitted, mailbox, board, state, goesOn, present⟩

end Service

/-! ## Closed events -/

namespace CallTable

/-- What comes of a closed event: a call that is tracked is announced closed. -/
def farewell (table : CallTable) (reason : Option String) (id : CallId) : List Effect :=
  (table.find? id).toList.map fun call => .publish (.callClosed call.groupName id reason false)

end CallTable

theorem Switchboard.hungUp_eq (board : Switchboard) (id : CallId) (reason : Option String) :
    board.hungUp id reason
      = ⟨(), { board with calls := board.calls.erase id }, board.calls.farewell reason id⟩ := by
  unfold hungUp
  cases found : board.calls.find? id with
  | none =>
    have same : board.calls.eraseAll [id] = board.calls :=
      CallTable.eraseAll_of_untracked (by simpa using found)
    change board.calls.erase id = board.calls at same
    simp [CallTable.farewell, found, same]
  | some call => simp [CallTable.farewell, found]

namespace Service

/-- Closed events in the mailbox are handled one after the other, and put nothing into it. -/
theorem drains_closed (engine : Engine σ) (running : service.isRunning = true)
    (connected : service.isConnected = true) {ids : List CallId} (distinct : ids.Nodup)
    (reason : Option String) {rest : List Message}
    (waiting : service.mailbox = ids.map (fun id => .event (.closed id reason)) ++ rest) :
    Drains engine service (ids.map (service.board.calls.farewell reason))
      { service with
        board := { service.board with
          calls := service.board.calls.eraseAll ids
          turn := service.board.turn + ids.length }
        mailbox := rest } := by
  induction ids generalizing service with
  | nil =>
    obtain rfl : service.mailbox = rest := waiting
    exact .done service
  | cons id later inductionHypothesis =>
    obtain ⟨new, distinct⟩ := List.nodup_cons.1 distinct
    have first := drains_message engine running connected waiting nofun
    simp only [Message.operation, Switchboard.perform, Switchboard.handleEvent,
      Switchboard.hungUp_eq, Outcome.map] at first
    have quiet : (service.board.beginTurn.calls.farewell reason id).filterMap Message.ofEffect?
        = [] := by
      simp [CallTable.farewell, List.filterMap_map, Message.ofEffect?]
    rw [quiet, List.append_nil] at first
    -- the later calls are found as before
    have found : later.map ((service.board.calls.erase id).farewell reason)
        = later.map (service.board.calls.farewell reason) := by
      apply List.map_congr_left
      intro other member
      have apart : other ≠ id := fun same => new (same ▸ member)
      simp [CallTable.farewell, apart]
    have drained := first.trans (inductionHypothesis running connected distinct rfl)
    simp only [Switchboard.beginTurn, found] at drained
    have turn : service.board.turn + (id :: later).length
        = service.board.turn + 1 + later.length := by
      rw [List.length_cons]
      omega
    rw [turn]
    exact drained

/-- Nothing comes of the closed events of calls that are not tracked. -/
theorem drains_untracked (engine : Engine σ) (running : service.isRunning = true)
    (connected : service.isConnected = true) {ids : List CallId} (distinct : ids.Nodup)
    (untracked : ∀ id ∈ ids, service.board.calls.find? id = none) {reason : Option String}
    {rest : List Message}
    (waiting : service.mailbox = ids.map (fun id => .event (.closed id reason)) ++ rest) :
    ∃ silenced : Service σ, Drains engine service (ids.map fun _ => []) silenced ∧
      silenced.board = { service.board with turn := service.board.turn + ids.length } ∧
      silenced.mailbox = rest ∧ silenced.isRunning = true ∧ silenced.isConnected = true := by
  have silent : ids.map (service.board.calls.farewell reason) = ids.map fun _ => [] := by
    apply List.map_congr_left
    intro id member
    simp [CallTable.farewell, untracked id member]
  have drained := drains_closed engine running connected distinct reason waiting
  rw [silent, CallTable.eraseAll_of_untracked untracked] at drained
  exact ⟨_, drained, rfl, rfl, running, connected⟩

end Service

/-! ## Tickets -/

namespace ReleaseTable

/-- What observers are told when releases end one by one, the first of them behind a turn. -/
def released (turn : Nat) : List PendingRelease → List Event
  | [] => []
  | entry :: rest =>
    .callReleased entry.call.id entry.deferredTurn (turn + 1) :: released (turn + 1) rest

theorem length_released (turn : Nat) (entries : List PendingRelease) :
    (released turn entries).length = entries.length := by
  induction entries generalizing turn with
  | nil => rfl
  | cons entry rest inductionHypothesis => simp [released, inductionHypothesis]

theorem callIds_released (turn : Nat) (entries : List PendingRelease) :
    (released turn entries).map (·.callId?) = entries.map fun entry => some entry.call.id := by
  induction entries generalizing turn with
  | nil => rfl
  | cons entry rest inductionHypothesis =>
    rw [released, List.map_cons, inductionHypothesis]
    rfl

theorem mem_released {turn : Nat} {entries : List PendingRelease} {entry : PendingRelease}
    (member : entry ∈ entries) :
    ∃ releasedTurn, .callReleased entry.call.id entry.deferredTurn releasedTurn
      ∈ released turn entries := by
  induction entries generalizing turn with
  | nil => cases member
  | cons first rest inductionHypothesis =>
    cases member with
    | head => exact ⟨turn + 1, List.mem_cons_self⟩
    | tail _ later =>
      obtain ⟨releasedTurn, told⟩ := inductionHypothesis later
      exact ⟨releasedTurn, List.mem_cons_of_mem _ told⟩

end ReleaseTable

namespace Service

/-- The tickets of the first pending releases, in their order, end them one after the other. -/
theorem drains_tickets (engine : Engine σ) (running : service.isRunning = true)
    (connected : service.isConnected = true) (ticketed : service.board.releases.Ticketed)
    {entries others : List PendingRelease}
    (pending : service.board.releases.pending = entries ++ others)
    (past : ∀ entry ∈ entries, entry.deferredTurn ≤ service.board.turn) {rest : List Message}
    (waiting : service.mailbox = entries.map (fun entry => .reclaim entry.ticket) ++ rest) :
    Drains engine service
      ((ReleaseTable.released service.board.turn entries).map fun event => [.publish event])
      { service with
        board := { service.board with
          releases := { service.board.releases with pending := others }
          turn := service.board.turn + entries.length }
        mailbox := rest } := by
  induction entries generalizing service with
  | nil =>
    obtain rfl : service.board.releases.pending = others := pending
    obtain rfl : service.mailbox = rest := waiting
    exact .done service
  | cons entry later inductionHypothesis =>
    have ended : entry.deferredTurn < service.board.beginTurn.turn :=
      Nat.lt_succ_of_le (past entry List.mem_cons_self)
    have first : Drains engine service
        [[.publish (.callReleased entry.call.id entry.deferredTurn (service.board.turn + 1))]]
        { service with
          board := { service.board.beginTurn with
            releases := { service.board.releases with pending := later ++ others } }
          mailbox := later.map (fun entry => .reclaim entry.ticket) ++ rest } := by
      have turned := drains_message engine running connected waiting nofun
      simp only [Message.operation, Switchboard.perform,
        service.board.beginTurn.reclaim_first ticketed pending ended, Outcome.map,
        List.filterMap_cons, Message.ofEffect?, List.filterMap_nil, List.append_nil] at turned
      exact turned
    have left : ReleaseTable.Ticketed
        { service.board.releases with pending := later ++ others } := by
      obtain ⟨distinct, issued⟩ := ticketed
      rw [pending] at distinct issued
      exact ⟨(List.nodup_cons.1 distinct).2, fun other member =>
        issued other (List.mem_cons_of_mem _ member)⟩
    have drained := first.trans (inductionHypothesis running connected left rfl
      (fun other member => Nat.le_succ_of_le (past other (List.mem_cons_of_mem _ member))) rfl)
    have turn : service.board.turn + (entry :: later).length
        = service.board.turn + 1 + later.length := by
      rw [List.length_cons]
      omega
    rw [turn]
    exact drained

end Service

/-! ## What is put into the mailbox -/

theorem HangupAttempt.messages_closing (policy : HangupPolicy)
    (warning : CallId → EngineError → Warning) (calls : List TrackedCall) :
    ((calls.map (closing policy)).flatMap (·.effects warning)).filterMap Message.ofEffect?
      = (calls.map (·.id)).map fun id => .event (.closed id policy.reason) := by
  induction calls with
  | nil => rfl
  | cons call rest inductionHypothesis =>
    simp only [List.map_cons, List.flatMap_cons, List.filterMap_append, inductionHypothesis]
    rfl

theorem ReleaseTable.messages_deferEffects (entries : List PendingRelease) :
    (entries.flatMap fun entry => deferEffects entry.call entry.ticket).filterMap
        Message.ofEffect? = entries.map fun entry => .reclaim entry.ticket := by
  induction entries with
  | nil => rfl
  | cons entry rest inductionHypothesis =>
    simp only [List.flatMap_cons, List.filterMap_append, inductionHypothesis]
    rfl

/-- The closed events of the losers get into the mailbox ahead of the tickets. -/
theorem Switchboard.messages_supersede (simulates : engine.Simulates view) {state : σ}
    (closes : (view state).autoClose = true) (board : Switchboard) (winner : TrackedCall) :
    (board.supersede engine winner state).1.effects.filterMap Message.ofEffect?
      = ((board.calls.siblings winner.id).map (·.id)).map
          (fun id => .event (.closed id board.config.supersede.reason))
        ++ (ReleaseTable.entriesFrom board.releases.issued board.turn
            (board.calls.siblings winner.id)).map fun entry => .reclaim entry.ticket := by
  simp only [supersede, simulates.hangUpEach_eq _ _ closes, ReleaseTable.deferAll_eq,
    List.filterMap_append, HangupAttempt.messages_closing, ReleaseTable.messages_deferEffects,
    List.filterMap_cons, Message.ofEffect?, List.filterMap_nil, List.append_nil]

/-! ## An answer -/

namespace Service

/-- The turn on which a call wins. Its losers wait for their release, and the mailbox holds their
closed events and their tickets. -/
theorem drains_established (running : service.isRunning = true)
    (connected : service.isConnected = true) (simulates : engine.Simulates view)
    (closes : (view service.engine).autoClose = true) {call : TrackedCall}
    (found : service.board.calls.find? call.id = some call) (rings : call.state = .dialing)
    (waiting : service.mailbox = [.event (.established call.id)]) :
    ∃ answered : Service σ, Drains engine service
        [(service.board.beginTurn.supersede engine call service.engine).1.effects] answered ∧
      answered.board
        = (service.board.beginTurn.supersede engine call service.engine).1.board ∧
      answered.mailbox = ((service.board.calls.siblings call.id).map (·.id)).map
          (fun id => .event (.closed id service.board.config.supersede.reason))
        ++ (ReleaseTable.entriesFrom service.board.releases.issued (service.board.turn + 1)
          (service.board.calls.siblings call.id)).map (fun entry => .reclaim entry.ticket) ∧
      answered.isRunning = true ∧ answered.isConnected = true := by
  have tracked : service.board.beginTurn.calls.find? call.id = some call := found
  have outcome : (service.board.beginTurn.perform engine (.event (.established call.id))
      service.engine).1 = _ := Switchboard.perform_answer_of_rings tracked rings service.engine
  have turned := drains_message engine running connected waiting nofun
  simp only [Message.operation, outcome, Outcome.map,
    Switchboard.messages_supersede simulates closes] at turned
  exact ⟨_, turned, rfl, rfl, running, connected⟩

theorem drains_answer (running : service.isRunning = true) (connected : service.isConnected = true)
    (sound : service.board.Sound) (unpending : service.board.releases.pending = [])
    (simulates : engine.Simulates view) (closes : (view service.engine).autoClose = true)
    {call : TrackedCall} (found : service.board.calls.find? call.id = some call)
    (rings : call.state = .dialing) (waiting : service.mailbox = [.event (.established call.id)])
    {losers : List TrackedCall} (siblings : service.board.calls.siblings call.id = losers)
    {entries : List PendingRelease} (deferred : ReleaseTable.entriesFrom
      service.board.releases.issued (service.board.turn + 1) losers = entries) :
    ∃ last, Drains engine service
        ((service.board.beginTurn.supersede engine call service.engine).1.effects
          :: (losers.map fun _ => [])
          ++ (ReleaseTable.released (service.board.turn + 1 + losers.length) entries).map
            fun event => [.publish event]) last ∧
      last.mailbox = [] ∧ last.isConnected = true ∧
      last.board.groups = service.board.groups ∧ last.board.releases.pending = [] ∧
      last.board.calls
        = (service.board.calls.establish call.id).eraseAll (losers.map (·.id)) := by
  obtain ⟨answered, first, board, mailbox, goesOn, present⟩ :=
    drains_established running connected simulates closes found rings waiting
  have ticketed : answered.board.releases.Ticketed := by
    have begun : service.board.beginTurn.Sound := ⟨sound.distinct, sound.ticketed⟩
    have kept := (Switchboard.sound_perform engine begun (.event (.established call.id))
      service.engine).ticketed
    have tracked : service.board.beginTurn.calls.find? call.id = some call := found
    rw [Switchboard.perform_answer_of_rings tracked rings] at kept
    exact board ▸ kept
  simp only [Switchboard.supersede, ReleaseTable.deferAll_eq, Switchboard.beginTurn, siblings,
    deferred, unpending, List.nil_append] at board mailbox
  -- the losers are not tracked any more when their closed events come
  have distinct : (losers.map (·.id)).Nodup :=
    siblings ▸ CallTable.siblings_distinct sound.distinct call.id
  have gone : ∀ id ∈ losers.map (·.id), answered.board.calls.find? id = none := by
    intro id member
    rw [board, CallTable.find?_eraseAll, if_pos member]
  obtain ⟨silenced, second, same, tickets, running, connected⟩ :=
    drains_untracked engine goesOn present distinct gone mailbox
  -- each ticket ends a release
  have pending : silenced.board.releases.pending = entries ++ [] := by
    rw [same, board, List.append_nil]
  have past : ∀ entry ∈ entries, entry.deferredTurn ≤ silenced.board.turn := by
    intro entry member
    rw [← deferred] at member
    rw [ReleaseTable.deferredTurn_of_mem member, same, board]
    exact Nat.le_add_right _ _
  rw [← List.append_nil (entries.map _)] at tickets
  have third := drains_tickets engine running connected (same ▸ ticketed) pending past tickets
  have drained := first.trans (second.trans third)
  simp only [same, board, List.map_map, List.length_map] at drained
  exact ⟨_, drained, rfl, connected, rfl, rfl, rfl⟩

end Service

/-! ## A request to hang up a group -/

namespace Service

theorem drains_hangup (running : service.isRunning = true) (connected : service.isConnected = true)
    (distinct : service.board.calls.Distinct) (simulates : engine.Simulates view)
    (closes : (view service.engine).autoClose = true) {name : String} {group : Group}
    (found : service.board.groups.find? name = some group) {slot : Nat}
    (waiting : service.mailbox = [.request (.hangupGroup name) slot]) {calls : List TrackedCall}
    (tracked : service.board.calls.inGroup group.id = calls) :
    ∃ last, Drains engine service
        ((calls.map (HangupAttempt.closing service.board.config.groupHangup)).flatMap
            (·.effects fun id cause => .groupHangupFailed id name cause)
          :: (calls.map fun call => .callClosed call.groupName call.id
              service.board.config.groupHangup.reason false).map fun event => [.publish event])
        last ∧
      last.mailbox = [] ∧ last.isConnected = true ∧
      last.board = { service.board with
        calls := service.board.calls.eraseAll (calls.map (·.id))
        turn := service.board.turn + 1 + calls.length } := by
  -- the turn of the request only puts closed events into the mailbox
  obtain ⟨asked, first, board, mailbox, goesOn, present⟩ : ∃ asked : Service σ,
      Drains engine service
        [(calls.map (HangupAttempt.closing service.board.config.groupHangup)).flatMap
          (·.effects fun id cause => .groupHangupFailed id name cause)] asked ∧
      asked.board = service.board.beginTurn ∧
      asked.mailbox = (calls.map (·.id)).map (fun id => .event (.closed id
        service.board.config.groupHangup.reason)) ++ [] ∧
      asked.isRunning = true ∧ asked.isConnected = true := by
    have turned := drains_message engine running connected waiting nofun
    have registered : service.board.beginTurn.groups.find? name = some group := found
    have same : service.board.beginTurn.calls.inGroup group.id = calls := tracked
    simp only [Message.operation, Switchboard.perform, Switchboard.handleRequest,
      Switchboard.hangupGroup, GroupTable.find, registered, same, Outcome.map,
      simulates.hangUpEach_eq _ _ closes, HangupAttempt.messages_closing] at turned
    exact ⟨_, turned, rfl, (List.append_nil _).symm, running, connected⟩
  -- and each of them ends a call
  have member : ∀ call ∈ calls, call ∈ service.board.calls.calls := fun call listed =>
    (CallTable.mem_inGroup.1 (tracked ▸ listed)).1
  have apart : (calls.map (·.id)).Nodup := tracked ▸ CallTable.inGroup_distinct distinct group.id
  have told : (calls.map (·.id)).map
        (asked.board.calls.farewell service.board.config.groupHangup.reason)
      = (calls.map fun call => .callClosed call.groupName call.id
          service.board.config.groupHangup.reason false).map fun event => [.publish event] := by
    rw [List.map_map, List.map_map, board]
    apply List.map_congr_left
    intro call listed
    have found := CallTable.find?_of_mem distinct (member call listed)
    simp [CallTable.farewell, Switchboard.beginTurn, found]
  have second := drains_closed engine goesOn present apart _ mailbox
  rw [told] at second
  refine ⟨_, first.trans second, rfl, present, ?_⟩
  simp [board, Switchboard.beginTurn]

end Service

end CallFork
