import CallFork.Proofs.TableOrder

/-! # What comes of an event

An event of the engine does one of three things. The first answer to a call of a race hangs up all
other calls of the group and puts them aside; the end of a tracked call takes it off the table; and
everything else is ignored. Each is stated here with all it does and all it leaves alone, for any
switchboard that a run can lead to and any way in which hangups may fail.
-/

namespace CallFork

namespace Switchboard

variable {σ : Type} {engine : Engine σ} {board : Switchboard} {state : σ}

/-! ## Winning a race -/

/-- A tracked call wins against these calls. They are hung up, announced closed and put aside under
new tickets, in this order, and nothing else changes but that the call has been answered. -/
structure Wins (board : Switchboard) (winner : TrackedCall) (losers : List TrackedCall)
    (outcome : Outcome (Option Resolution)) : Prop where
  resolution : outcome.result = some ⟨winner.groupName, winner.id, losers.map (·.id)⟩
  hangups : Effect.hangups outcome.effects
    = losers.map fun loser => ⟨loser.call, board.config.supersede⟩
  placements : Effect.placements outcome.effects = []
  events : Effect.events outcome.effects
    = losers.map (fun loser => .callClosed loser.groupName loser.id (some rejectedLocally) true)
      ++ [.raceWon winner.groupName winner.id losers.length]
  calls : ∀ id, outcome.board.calls.find? id =
    if id ∈ losers.map (·.id) then none
    else if id = winner.id then some { winner with state := .established }
    else board.calls.find? id
  distinct : outcome.board.calls.Distinct
  releases : outcome.board.releases = ⟨board.releases.pending
      ++ ReleaseTable.entriesFrom board.releases.issued board.turn losers,
    board.releases.issued + losers.length⟩
  numbers : (ReleaseTable.entriesFrom board.releases.issued board.turn losers).map
    (·.ticket.number) = List.range' (board.releases.issued + 1) losers.length
  fresh : ∀ entry ∈ ReleaseTable.entriesFrom board.releases.issued board.turn losers,
    board.releases.find? entry.ticket = none
  tickets : Effect.tickets outcome.effects
    = (ReleaseTable.entriesFrom board.releases.issued board.turn losers).map (·.ticket)
  rest : outcome.board
    = { board with calls := outcome.board.calls, releases := outcome.board.releases }

theorem handleEvent_of_rings {id : CallId} {call : TrackedCall}
    (tracked : board.calls.find? id = some call) (rings : call.state = .dialing) (state : σ) :
    (board.handleEvent engine (.established id) state).1
      = (board.supersede engine call state).1.map some := by
  simp only [handleEvent, answered, tracked, rings]
  rfl

theorem wins_supersede (sound : board.Sound) {winner : TrackedCall}
    (tracked : board.calls.find? winner.id = some winner) :
    board.Wins winner (board.calls.siblings winner.id)
      ((board.supersede engine winner state).1.map some) where
  resolution := rfl
  hangups := hangups_supersede winner state
  placements := placements_supersede winner state
  events := events_supersede winner state
  calls id := by
    -- of the calls that are left, only the winner has changed
    refine (find?_supersede engine board winner state id).trans ?_
    by_cases same : id = winner.id
    · rw [same, tracked]
      simp
    · simp only [same, if_false]
      cases board.calls.find? id <;> rfl
  distinct := CallTable.distinct_eraseAll (CallTable.distinct_establish sound.distinct _) _
  releases := by
    simp only [Outcome.map, supersede, ReleaseTable.deferAll_eq]
  numbers := ReleaseTable.numbers_entriesFrom _ _ _
  fresh _ member := ReleaseTable.find?_of_mem_entriesFrom sound.ticketed member
  tickets := (tickets_supersede winner state).trans (ReleaseTable.tickets_deferAll _ _ _)
  rest := rfl

/-! ## Events without a race -/

theorem handleEvent_closed {id : CallId} {call : TrackedCall}
    (tracked : board.calls.find? id = some call) (reason : Option String) (state : σ) :
    board.handleEvent engine (.closed id reason) state
      = (⟨none, { board with calls := board.calls.erase id },
          [.publish (.callClosed call.groupName id reason false)]⟩, state) := by
  simp only [handleEvent, hungUp, tracked]

/-- The event is no answer to a call that rings, and not the end of a tracked call. -/
def Ignores (board : Switchboard) : CallEvent → Prop
  | .progress _ => True
  | .established id => ∀ call, board.calls.find? id = some call → call.state = .established
  | .closed id _ => board.calls.find? id = none

theorem handleEvent_of_ignores {event : CallEvent} (ignores : board.Ignores event) (state : σ) :
    ∃ warnings : List Warning,
      board.handleEvent engine event state = (⟨none, board, warnings.map .warn⟩, state) := by
  cases event with
  | progress id => exact ⟨[], rfl⟩
  | closed id reason =>
    simp only [Ignores] at ignores
    exact ⟨[], by simp only [handleEvent, hungUp, ignores]; rfl⟩
  | established id =>
    simp only [handleEvent, answered]
    cases found : board.calls.find? id with
    | none =>
      -- a late answer is logged
      cases board.releases.isPending id with
      | false => exact ⟨[], rfl⟩
      | true => exact ⟨[.lateAnswer id], rfl⟩
    | some call =>
      simp only [ignores call found]
      exact ⟨[], rfl⟩

end Switchboard

namespace Reach

variable {σ : Type} {engine : Engine σ} {steps : List Step} {board : Switchboard} {state : σ}

/-- The first answer to a call that rings lets it win against all other tracked calls of its group,
in ascending order of their identifiers. The end of a tracked call takes this call off the table,
and observers are told the reason that was given. All other events change nothing and ask nothing of
the engine. In which order the table holds the calls does not matter. -/
theorem event_effects (reached : Reach engine steps board state) :
    (∀ id winner, board.calls.find? id = some winner → winner.state = .dialing →
      ∃ losers : List TrackedCall,
        (∀ call, call ∈ losers ↔
          call ∈ board.calls.calls ∧ call.groupId = winner.groupId ∧ call.id ≠ id) ∧
        (losers.Pairwise fun first second => utf8 first.id.text < utf8 second.id.text) ∧
        board.Wins winner losers (board.handleEvent engine (.established id) state).1) ∧
    (∀ id reason call, board.calls.find? id = some call →
      board.handleEvent engine (.closed id reason) state
        = (⟨none, { board with calls := board.calls.erase id },
            [.publish (.callClosed call.groupName id reason false)]⟩, state) ∧
      ∀ other, (board.calls.erase id).find? other
        = if other = id then none else board.calls.find? other) ∧
    (∀ event, board.Ignores event → ∃ warnings : List Warning,
      board.handleEvent engine event state = (⟨none, board, warnings.map .warn⟩, state)) ∧
    ∀ event, ∀ order : CallTable, order.calls.Perm board.calls.calls →
      ({ board with calls := order }.handleEvent engine event state).2
          = (board.handleEvent engine event state).2 ∧
        ({ board with calls := order }.handleEvent engine event state).1.result
          = (board.handleEvent engine event state).1.result ∧
        ({ board with calls := order }.handleEvent engine event state).1.effects
          = (board.handleEvent engine event state).1.effects ∧
        ({ board with calls := order }.handleEvent engine event state).1.board.Shuffled
          (board.handleEvent engine event state).1.board := by
  have sound := reached.sound
  refine ⟨?_, ?_, ?_, ?_⟩
  · intro id winner tracked rings
    obtain ⟨_, rfl⟩ := CallTable.mem_of_find? tracked
    refine ⟨board.calls.siblings winner.id, fun call => CallTable.mem_siblings tracked, ?_, ?_⟩
    · unfold CallTable.siblings
      rw [tracked]
      exact TrackedCall.pairwise_mergeSort (sound.distinct.sublist (List.filter_sublist.map _))
    · rw [Switchboard.handleEvent_of_rings tracked rings]
      exact Switchboard.wins_supersede sound tracked
  · intro id reason call tracked
    exact ⟨Switchboard.handleEvent_closed tracked reason state, CallTable.find?_erase _ _⟩
  · intro event ignores
    exact Switchboard.handleEvent_of_ignores ignores state
  · intro event order same
    exact Switchboard.shuffled_handleEvent engine sound.distinct same event state

end Reach

namespace Ringing

/-- The first call wins, and the others of its group have lost in the order of their identifiers,
though one could not be hung up. The call of the other group may end meanwhile. -/
theorem event_effects_when_ringing :
    board.Wins first [second, third]
        (board.handleEvent EngineScript.engine (.established ⟨"w"⟩) engine).1 ∧
      (board.handleEvent EngineScript.engine (.closed ⟨"t"⟩ (some "gone")) engine).1.effects
        = [.publish (.callClosed "H" ⟨"t"⟩ (some "gone") false)] ∧
      (∃ warnings : List Warning,
        board.handleEvent EngineScript.engine (.closed ⟨"s"⟩ none) engine
          = (⟨none, board, warnings.map .warn⟩, engine)) ∧
      (({ board with calls := ⟨[other, third, second, first]⟩ } : Switchboard).handleEvent
          EngineScript.engine (.established ⟨"w"⟩) engine).1.result
        = (board.handleEvent EngineScript.engine (.established ⟨"w"⟩) engine).1.result := by
  obtain ⟨_, reached⟩ := reached
  obtain ⟨wins, closed, ignored, shuffled⟩ := reached.event_effects
  have found : board.calls.find? ⟨"w"⟩ = some first := by rw [calls_board]; decide
  have there : board.calls.find? ⟨"t"⟩ = some other := by rw [calls_board]; decide
  have absent : board.calls.find? ⟨"s"⟩ = none := by rw [calls_board]; decide
  refine ⟨?_, ?_, ignored (.closed ⟨"s"⟩ none) absent, ?_⟩
  · obtain ⟨losers, members, ascending, won⟩ := wins ⟨"w"⟩ first found rfl
    have expected : [second, third].Pairwise fun first second : TrackedCall =>
        utf8 first.id.text < utf8 second.id.text := by
      decide +kernel
    have same : losers = [second, third] := by
      refine TrackedCall.eq_of_ascending ascending expected fun call => ?_
      rw [members, calls_board]
      simp only [List.mem_cons, List.not_mem_nil, or_false]
      constructor
      · rintro ⟨rfl | rfl | rfl | rfl, group, different⟩
        · exact absurd rfl different
        · exact .inl rfl
        · exact .inr rfl
        · cases group
      · rintro (rfl | rfl)
        · exact ⟨.inr (.inl rfl), rfl, by decide⟩
        · exact ⟨.inr (.inr (.inl rfl)), rfl, by decide⟩
    rw [same] at won
    exact won
  · rw [(closed ⟨"t"⟩ (some "gone") other there).1]
    rfl
  · refine (shuffled (.established ⟨"w"⟩) ⟨[other, third, second, first]⟩ ?_).2.1
    rw [calls_board]
    decide

end Ringing
end CallFork
