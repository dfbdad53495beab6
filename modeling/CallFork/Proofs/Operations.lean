import CallFork.Proofs.History

/-! # What the operations do

The operations that calls depend on, case by case. An answer to a tracked call that rings lets it
win: all its siblings are hung up, announced closed and kept for their release. Any other answer
changes nothing and asks nothing of the engine. Calling or hanging up a group either is refused or
concerns the group that is registered under the name right now.
-/

namespace CallFork.Switchboard

variable {σ : Type} {engine : Engine σ} {board : Switchboard}

/-! ## Letting a call win -/

theorem hangups_supersede (winner : TrackedCall) (state : σ) :
    Effect.hangups (board.supersede engine winner state).1.effects
      = (board.calls.siblings winner.id).map fun loser => ⟨loser.call, board.config.supersede⟩ := by
  simp only [supersede]
  rw [Effect.hangups_append, Effect.hangups_append, HangupAttempt.hangups_flatMap,
    ReleaseTable.hangups_deferAll, Engine.hangUpEach_requests]
  simp [Effect.hangups, Effect.hangup?]

theorem events_supersede (winner : TrackedCall) (state : σ) :
    Effect.events (board.supersede engine winner state).1.effects
      = (board.calls.siblings winner.id).map (fun loser =>
          .callClosed loser.groupName loser.id (some rejectedLocally) true)
        ++ [.raceWon winner.groupName winner.id (board.calls.siblings winner.id).length] := by
  simp only [supersede]
  rw [Effect.events_append, Effect.events_append, HangupAttempt.events_flatMap,
    ReleaseTable.events_deferAll, List.length_map]
  rfl

theorem tickets_supersede (winner : TrackedCall) (state : σ) :
    Effect.tickets (board.supersede engine winner state).1.effects
      = Effect.tickets
          (board.releases.deferAll board.turn (board.calls.siblings winner.id)).1 := by
  simp only [supersede]
  rw [Effect.tickets_append, Effect.tickets_append, HangupAttempt.tickets_flatMap]
  simp [Effect.tickets, Effect.ticket?]

theorem placements_supersede (winner : TrackedCall) (state : σ) :
    Effect.placements (board.supersede engine winner state).1.effects = [] := by
  simp only [supersede]
  rw [Effect.placements_append, Effect.placements_append, HangupAttempt.placements_flatMap,
    ReleaseTable.placements_deferAll]
  rfl

/-- The losers are tracked no longer, and the winner has been answered. -/
theorem find?_supersede (engine : Engine σ) (board : Switchboard) (winner : TrackedCall)
    (state : σ) (id : CallId) :
    (board.supersede engine winner state).1.board.calls.find? id =
      if id ∈ (board.calls.siblings winner.id).map (·.id) then none
      else (board.calls.find? id).map fun call =>
        if id = winner.id then { call with state := .established } else call := by
  simp only [supersede]
  rw [CallTable.find?_eraseAll, CallTable.find?_establish]

/-! ## Answers -/

theorem perform_answer_of_rings {id : CallId} {call : TrackedCall}
    (tracked : board.calls.find? id = some call) (rings : call.state = .dialing) (state : σ) :
    (board.perform engine (.event (.established id)) state).1
      = (board.supersede engine call state).1.map fun resolution =>
          .resolution (some resolution) := by
  simp only [perform, handleEvent, answered, tracked, rings]
  rfl

/-- An answer lets a tracked call win that rings. Any other answer changes nothing, tells observers
nothing and asks nothing of the engine. -/
theorem perform_answer_cases (engine : Engine σ) (board : Switchboard) (id : CallId) (state : σ) :
    (∃ call, board.calls.find? id = some call ∧ call.state = .dialing ∧
        (board.perform engine (.event (.established id)) state).1
          = (board.supersede engine call state).1.map fun resolution =>
              .resolution (some resolution)) ∨
      (∀ call, board.calls.find? id = some call → call.state = .established) ∧
        ∃ effects, (board.perform engine (.event (.established id)) state).1
            = ⟨.resolution none, board, effects⟩ ∧
          Effect.events effects = [] ∧ Effect.hangups effects = [] := by
  cases found : board.calls.find? id with
  | none =>
    refine .inr ⟨by simp,
      if board.releases.isPending id then [.warn (.lateAnswer id)] else [], ?_, ?_⟩
    · simp only [perform, handleEvent, answered, found, Outcome.map]
    · -- a late answer is logged, which nobody is told of
      split <;> exact ⟨rfl, rfl⟩
  | some call =>
    cases reached : call.state with
    | dialing => exact .inl ⟨call, rfl, reached, perform_answer_of_rings found reached state⟩
    | established =>
      refine .inr ⟨?_, [], ?_, rfl, rfl⟩
      · intro other same
        rw [← Option.some.inj same]
        exact reached
      · simp only [perform, handleEvent, answered, found, reached, Outcome.map]

/-- An answer resolves a race exactly if it is to a tracked call that rings. -/
theorem resolves_iff {id : CallId} {state : σ} :
    (∃ resolution, (board.perform engine (.event (.established id)) state).1.result
        = .resolution (some resolution)) ↔
      ∃ call, board.calls.find? id = some call ∧ call.state = .dialing := by
  rcases perform_answer_cases engine board id state with
    ⟨call, found, rings, outcome⟩ | ⟨quiet, effects, outcome, _⟩
  · rw [outcome]
    exact ⟨fun _ => ⟨call, found, rings⟩, fun _ => ⟨_, rfl⟩⟩
  · rw [outcome]
    constructor
    · rintro ⟨resolution, resolved⟩
      cases resolved
    · rintro ⟨call, found, rings⟩
      rw [quiet call found] at rings
      cases rings

/-! ## Calling and hanging up a group -/

/-- A request to call a group is refused, or calls the peers of the registered group. -/
theorem perform_start_cases (engine : Engine σ) (board : Switchboard) (name : String)
    (media : Media) (state : σ) :
    (∃ error, (board.perform engine (.request (.startCall name media)) state).1
        = ⟨.answer (.error error), board, []⟩) ∨
      ∃ group attempts grown next, board.groups.find? name = some group ∧
        FanOut.dialEach engine board.config.supersede group media group.peers board.calls state
          = (attempts, grown, next) ∧
        (board.perform engine (.request (.startCall name media)) state).1
          = ⟨.answer (.ok (.started (FanOut.report group media attempts))),
              { board with calls := grown }, attempts.flatMap (·.effects group.name)⟩ := by
  simp only [perform, handleRequest, startCall, Outcome.map, GroupTable.find]
  cases found : board.groups.find? name with
  | none => exact .inl ⟨_, rfl⟩
  | some group =>
    cases checked : FanOut.checkMedia media with
    | error error => exact .inl ⟨_, rfl⟩
    | ok _ => exact .inr ⟨group, _, _, _, rfl, rfl, rfl⟩

/-- A request to hang up a group is refused if there is none of the name; otherwise the tracked
calls of the registered group are hung up, and nothing else happens. -/
theorem perform_hangup_cases (engine : Engine σ) (board : Switchboard) (name : String)
    (state : σ) :
    (board.groups.find? name = none ∧
      ∃ error, (board.perform engine (.request (.hangupGroup name)) state).1
        = ⟨.answer (.error error), board, []⟩) ∨
      ∃ group answer effects, board.groups.find? name = some group ∧
        (board.perform engine (.request (.hangupGroup name)) state).1
          = ⟨.answer answer, board, effects⟩ ∧
        Effect.hangups effects = (board.calls.inGroup group.id).map fun tracked =>
          ⟨tracked.call, board.config.groupHangup⟩ := by
  simp only [perform, handleRequest, hangupGroup, Outcome.map, GroupTable.find]
  cases found : board.groups.find? name with
  | none => exact .inl ⟨rfl, _, rfl⟩
  | some group =>
    refine .inr ⟨group, _, _, rfl, rfl, ?_⟩
    rw [HangupAttempt.hangups_flatMap, Engine.hangUpEach_requests]

end CallFork.Switchboard
