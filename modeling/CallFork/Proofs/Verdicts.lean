import CallFork.Proofs.Operations

/-! # What an event decides

The table of tracked calls alone decides what becomes of an event of the engine: nothing, a call
that has won against its siblings, or a call that is gone. `CallTable.verdict` is that decision, and the
lemmas on `handleEvent` read the result, the tables, the hangups and the events off it. The engine
has a say only in which hangups fail.
-/

namespace CallFork

inductive Verdict where
  | ignored
  /-- A call has won against these siblings. -/
  | won (winner : TrackedCall) (losers : List TrackedCall)
  | gone (call : TrackedCall) (reason : Option String)

namespace Verdict

/-- The calls that are hung up and put aside. -/
def losers : Verdict → List TrackedCall
  | won _ losers => losers
  | ignored | gone _ _ => []

def resolution? : Verdict → Option Resolution
  | won winner losers => some ⟨winner.groupName, winner.id, losers.map (·.id)⟩
  | ignored | gone _ _ => none

/-- What observers are told. -/
def events : Verdict → List Event
  | won winner losers =>
    losers.map (fun loser => .callClosed loser.groupName loser.id (some rejectedLocally) true)
      ++ [.raceWon winner.groupName winner.id losers.length]
  | gone call reason => [.callClosed call.groupName call.id reason false]
  | ignored => []

/-- The tracked calls that are left of a table. -/
def calls (verdict : Verdict) (table : CallTable) : CallTable :=
  match verdict with
  | won winner losers => (table.establish winner.id).eraseAll (losers.map (·.id))
  | gone call _ => table.erase call.id
  | ignored => table

end Verdict

namespace CallTable

/-- What an event decides. Only an answer to a call that rings starts anything with its siblings. -/
def verdict (table : CallTable) : CallEvent → Verdict
  | .progress _ => .ignored
  | .established id =>
    match table.find? id with
    | none => .ignored
    | some call =>
      match call.state with
      | .established => .ignored
      | .dialing => .won call (table.siblings call.id)
  | .closed id reason =>
    match table.find? id with
    | none => .ignored
    | some call => .gone call reason

theorem verdict_of_untracked {table : CallTable} {event : CallEvent}
    (untracked : table.find? event.callId = none) : table.verdict event = .ignored := by
  cases event <;> simp_all [verdict, CallEvent.callId]

theorem verdict_closed {table : CallTable} {id : CallId} {call : TrackedCall}
    (found : table.find? id = some call) (reason : Option String) :
    table.verdict (.closed id reason) = .gone call reason := by
  simp [verdict, found]

theorem verdict_established {table : CallTable} {id : CallId} {call : TrackedCall}
    (found : table.find? id = some call) :
    table.verdict (.established id)
      = if call.state = .dialing then .won call (table.siblings call.id) else .ignored := by
  cases reached : call.state <;> simp [verdict, found, reached]

/-- An event that decides anything is about a tracked call. -/
theorem verdict_cases (table : CallTable) (event : CallEvent) :
    table.verdict event = .ignored ∨
      ∃ call, table.find? event.callId = some call ∧
        ((∃ reason, table.verdict event = .gone call reason) ∨
          table.verdict event = .won call (table.siblings call.id)) := by
  cases found : table.find? event.callId with
  | none => exact .inl (verdict_of_untracked found)
  | some call =>
    cases event with
    | progress id => exact .inl rfl
    | closed id reason => exact .inr ⟨call, rfl, .inl ⟨reason, verdict_closed found reason⟩⟩
    | established id =>
      have answered := verdict_established found
      split at answered
      · exact .inr ⟨call, rfl, .inr answered⟩
      · exact .inl answered

end CallTable

namespace Switchboard

variable {σ : Type} (engine : Engine σ) (board : Switchboard) (event : CallEvent) (state : σ)

/-- An event is handled as the verdict on it says, whatever the engine does. -/
theorem handleEvent_spec :
    (board.handleEvent engine event state).1.result = (board.calls.verdict event).resolution? ∧
    (board.handleEvent engine event state).1.board = { board with
        calls := (board.calls.verdict event).calls board.calls
        releases := (board.releases.deferAll board.turn (board.calls.verdict event).losers).2 } ∧
    Effect.events (board.handleEvent engine event state).1.effects
      = (board.calls.verdict event).events ∧
    Effect.hangups (board.handleEvent engine event state).1.effects
      = (board.calls.verdict event).losers.map fun loser =>
          ⟨loser.call, board.config.supersede⟩ := by
  cases event with
  | progress id => exact ⟨rfl, rfl, rfl, rfl⟩
  | closed id reason =>
    simp only [handleEvent, hungUp, CallTable.verdict]
    cases found : board.calls.find? id with
    | none => exact ⟨rfl, rfl, rfl, rfl⟩
    | some call =>
      obtain ⟨_, rfl⟩ := CallTable.mem_of_find? found
      exact ⟨rfl, rfl, rfl, rfl⟩
  | established id =>
    simp only [handleEvent, answered, CallTable.verdict]
    cases found : board.calls.find? id with
    | none =>
      -- a late answer is only logged
      simp only
      split <;> exact ⟨rfl, rfl, rfl, rfl⟩
    | some call =>
      cases reached : call.state with
      | established => simp only [reached]; exact ⟨rfl, rfl, rfl, rfl⟩
      | dialing =>
        simp only [reached]
        exact ⟨rfl, rfl, events_supersede call state, hangups_supersede call state⟩

theorem handleEvent_result :
    (board.handleEvent engine event state).1.result = (board.calls.verdict event).resolution? :=
  (handleEvent_spec engine board event state).1

theorem handleEvent_board :
    (board.handleEvent engine event state).1.board = { board with
        calls := (board.calls.verdict event).calls board.calls
        releases := (board.releases.deferAll board.turn (board.calls.verdict event).losers).2 } :=
  (handleEvent_spec engine board event state).2.1

theorem events_handleEvent :
    Effect.events (board.handleEvent engine event state).1.effects
      = (board.calls.verdict event).events :=
  (handleEvent_spec engine board event state).2.2.1

theorem hangups_handleEvent :
    Effect.hangups (board.handleEvent engine event state).1.effects
      = (board.calls.verdict event).losers.map fun loser =>
          ⟨loser.call, board.config.supersede⟩ :=
  (handleEvent_spec engine board event state).2.2.2

end Switchboard
end CallFork
