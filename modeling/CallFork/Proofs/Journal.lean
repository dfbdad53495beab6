import CallFork.Proofs.Requests

/-! # The journal of a switchboard

Calls move between the table of tracked calls and the pending releases in five ways, and each of
them is told to observers. `Change` lists the five, each with its event and with what has to hold
before it; every other event names no call. `changes_perform` says that whatever an operation other
than a shutdown publishes, its events account for all it did to the two tables. Invariants of calls
are then proved for five small changes, and not for every operation.
-/

namespace CallFork

namespace Event

def placed? : Event → Option CallId
  | callPlaced _ id _ _ => some id
  | _ => none

end Event

/-- What observers are told, with the change of the tables that goes with it. -/
inductive Change : Switchboard → Event → Switchboard → Prop where
  /-- A call that rings is tracked from now on. -/
  | placed {board : Switchboard} {calls : CallTable} {call : TrackedCall} {media : Media}
      (inserted : board.calls.insert call = .ok calls) (rings : call.state = .dialing) :
      Change board (.callPlaced call.groupName call.id call.target media) { board with calls }
  /-- A call that rings has won, and is the only one that is left of its group. -/
  | won {board : Switchboard} {call : TrackedCall} {superseded : Nat}
      (tracked : board.calls.find? call.id = some call) (rings : call.state = .dialing)
      (alone : ∀ other ∈ board.calls.calls, other.groupId = call.groupId → other.id = call.id) :
      Change board (.raceWon call.groupName call.id superseded)
        { board with calls := board.calls.establish call.id }
  /-- A call has lost its race, and waits for its release. -/
  | lost {board : Switchboard} {call : TrackedCall}
      (tracked : board.calls.find? call.id = some call) :
      Change board (.callClosed call.groupName call.id (some rejectedLocally) true)
        { board with
          calls := board.calls.erase call.id
          releases := (board.releases.defer call board.turn).2 }
  /-- The engine has reported a call closed. -/
  | hungUp {board : Switchboard} {call : TrackedCall} {reason : Option String}
      (tracked : board.calls.find? call.id = some call) :
      Change board (.callClosed call.groupName call.id reason false)
        { board with calls := board.calls.erase call.id }
  /-- A call that had lost its race is forgotten, on a turn later than it was put aside. -/
  | released {board : Switchboard} {entry : PendingRelease}
      (kept : board.releases.find? entry.ticket = some entry)
      (later : entry.deferredTurn < board.turn) :
      Change board (.callReleased entry.call.id entry.deferredTurn board.turn)
        { board with releases := { board.releases with
            pending := board.releases.pending.filter fun other => other.ticket ≠ entry.ticket } }
  /-- Nothing happens to any call. -/
  | unrelated {board : Switchboard} {event : Event} (nobody : event.callId? = none) :
      Change board event board

/-- Changes one after the other, with all that observers are told. Between them the turn and the
groups may become others. -/
inductive Changes : Switchboard → List Event → Switchboard → Prop where
  | refl (board : Switchboard) : Changes board [] board
  | unseen {board middle after : Switchboard} {events : List Event}
      (before : Changes board events middle) (calls : after.calls = middle.calls)
      (releases : after.releases = middle.releases) : Changes board events after
  | told {board middle after : Switchboard} {events : List Event} {event : Event}
      (before : Changes board events middle) (change : Change middle event after) :
      Changes board (events ++ [event]) after

namespace Changes

theorem single {board after : Switchboard} {event : Event} (change : Change board event after) :
    Changes board [event] after :=
  .told (.refl board) change

theorem trans {board middle after : Switchboard} {first second : List Event}
    (before : Changes board first middle) (behind : Changes middle second after) :
    Changes board (first ++ second) after := by
  induction behind with
  | refl => rwa [List.append_nil]
  | unseen _ calls releases inductionHypothesis =>
    exact .unseen inductionHypothesis calls releases
  | told _ change inductionHypothesis =>
    rw [← List.append_assoc]
    exact .told inductionHypothesis change

theorem ofUnrelated {board after : Switchboard} {events : List Event}
    (nobody : ∀ event ∈ events, event.callId? = none) (calls : after.calls = board.calls)
    (releases : after.releases = board.releases) : Changes board events after := by
  have still : Changes board events board := by
    clear calls releases
    induction events with
    | nil => exact .refl board
    | cons event rest inductionHypothesis =>
      have first : Changes board [event] board :=
        single (.unrelated (nobody event List.mem_cons_self))
      exact first.trans
        (inductionHypothesis fun other member => nobody other (List.mem_cons_of_mem _ member))
  exact .unseen still calls releases

end Changes

/-! ## Invariants of the tables -/

namespace Switchboard

/-- The tables can be searched by identifier and by ticket. -/
structure Sound (board : Switchboard) : Prop where
  distinct : board.calls.Distinct
  ticketed : board.releases.Ticketed

theorem sound_change {board after : Switchboard} {event : Event} (sound : board.Sound)
    (change : Change board event after) : after.Sound := by
  obtain ⟨distinct, ticketed⟩ := sound
  cases change with
  | placed inserted _ => exact ⟨CallTable.distinct_insert distinct inserted, ticketed⟩
  | won _ _ _ => exact ⟨CallTable.distinct_establish distinct _, ticketed⟩
  | lost _ =>
    exact ⟨CallTable.distinct_erase distinct _, ReleaseTable.ticketed_defer ticketed _ _⟩
  | hungUp _ => exact ⟨CallTable.distinct_erase distinct _, ticketed⟩
  | released _ _ => exact ⟨distinct, ReleaseTable.ticketed_filter ticketed _⟩
  | unrelated _ => exact ⟨distinct, ticketed⟩

theorem sound_changes {board after : Switchboard} {events : List Event} (sound : board.Sound)
    (changes : Changes board events after) : after.Sound := by
  induction changes with
  | refl => exact sound
  | unseen _ calls releases inductionHypothesis =>
    obtain ⟨distinct, ticketed⟩ := inductionHypothesis
    exact ⟨calls ▸ distinct, releases ▸ ticketed⟩
  | told _ change inductionHypothesis => exact sound_change inductionHypothesis change

/-! ## What the operations tell -/

variable {σ : Type}

theorem changes_deferAll (board : Switchboard) (losers : List TrackedCall)
    (distinct : (losers.map (·.id)).Nodup)
    (tracked : ∀ loser ∈ losers, board.calls.find? loser.id = some loser) :
    Changes board (Effect.events (board.releases.deferAll board.turn losers).1)
      { board with
        calls := board.calls.eraseAll (losers.map (·.id))
        releases := (board.releases.deferAll board.turn losers).2 } := by
  induction losers generalizing board with
  | nil => exact .refl board
  | cons loser rest inductionHypothesis =>
    rw [List.map_cons, List.nodup_cons] at distinct
    have first := Changes.single (.lost (tracked loser List.mem_cons_self))
    refine first.trans (inductionHypothesis _ distinct.2 ?_)
    -- the others are still tracked, as their identifiers are different
    intro other member
    have different : other.id ≠ loser.id := by
      intro same
      exact distinct.1 (same ▸ List.mem_map_of_mem member)
    rw [CallTable.find?_erase, if_neg different]
    exact tracked other (List.mem_cons_of_mem _ member)

/-- A race: all losers are put aside, and then the winner is alone. -/
theorem changes_supersede (engine : Engine σ) {board : Switchboard}
    (distinct : board.calls.Distinct) {winner : TrackedCall}
    (tracked : board.calls.find? winner.id = some winner) (rings : winner.state = .dialing)
    (state : σ) :
    Changes board (Effect.events (board.supersede engine winner state).1.effects)
      (board.supersede engine winner state).1.board := by
  have lost := changes_deferAll board (board.calls.siblings winner.id)
    (CallTable.siblings_distinct distinct winner.id) (CallTable.find?_sibling distinct tracked)
  simp only [supersede]
  -- the winner is answered before the losers go, but observers hear of them first
  rw [Effect.events_append, Effect.events_append, HangupAttempt.events_flatMap, List.nil_append,
    CallTable.eraseAll_establish]
  refine lost.told (.won ?_ rings ?_)
  · -- the winner is none of its siblings
    rw [CallTable.find?_eraseAll, if_neg, tracked]
    intro member
    obtain ⟨loser, sibling, same⟩ := List.mem_map.1 member
    exact ((CallTable.mem_siblings tracked).1 sibling).2.2 same
  · -- and any other call of its group is one of them
    intro other member same
    obtain ⟨present, spared⟩ := CallTable.mem_eraseAll.1 member
    by_cases winner : other.id = winner.id
    · exact winner
    · have sibling := (CallTable.mem_siblings tracked).2 ⟨present, same, winner⟩
      exact absurd (List.mem_map_of_mem sibling) spared

theorem changes_dialEach {engine : Engine σ} {policy : HangupPolicy} {group : Group}
    {media : Media} {peers : List Peer} (board : Switchboard) {grown : CallTable} {state next : σ}
    {attempts : List DialAttempt}
    (dialed : FanOut.dialEach engine policy group media peers board.calls state
      = (attempts, grown, next)) :
    Changes board (Effect.events (attempts.flatMap (·.effects group.name)))
      { board with calls := grown } := by
  induction peers generalizing board state attempts with
  | nil =>
    simp only [FanOut.dialEach, Prod.mk.injEq] at dialed
    obtain ⟨rfl, rfl, _⟩ := dialed
    exact .refl board
  | cons peer rest inductionHypothesis =>
    obtain ⟨attempt, later, calls, middle, rfl, first, others⟩ := FanOut.dialEach_cons dialed
    rw [List.flatMap_cons, Effect.events_append]
    obtain ⟨target, ⟨skipped, rfl⟩ | ⟨call, tracked, inserted⟩⟩ := FanOut.dial_cases first
    · obtain ⟨reason, told⟩ := DialAttempt.events_effects_of_skipped skipped group.name
      rw [told]
      exact (Changes.single (.unrelated rfl)).trans (inductionHypothesis board others)
    · rw [DialAttempt.events_effects_of_tracked tracked, target]
      exact (Changes.single (.placed inserted rfl)).trans
        (inductionHypothesis { board with calls } others)

theorem changes_handleRequest (engine : Engine σ) (board : Switchboard) (request : Request)
    (state : σ) :
    Changes board (Effect.events (board.handleRequest engine request state).1.effects)
      (board.handleRequest engine request state).1.board := by
  have handled := handled engine board request state
  generalize board.handleRequest engine request state = done at handled ⊢
  cases handled with
  | refused => exact .refl board
  | registered nobody =>
    rw [Effect.events_publish]
    exact .ofUnrelated nobody rfl rfl
  | called _ dialed => exact changes_dialEach board dialed
  | hungUp =>
    rw [HangupAttempt.events_flatMap]
    exact .refl board

theorem changes_handleEvent (engine : Engine σ) {board : Switchboard}
    (distinct : board.calls.Distinct) (event : CallEvent) (state : σ) :
    Changes board (Effect.events (board.handleEvent engine event state).1.effects)
      (board.handleEvent engine event state).1.board := by
  cases event with
  | progress id => exact .refl board
  | closed id reason =>
    simp only [handleEvent, hungUp]
    split
    · exact .refl board
    · rename_i call found
      obtain ⟨_, rfl⟩ := CallTable.mem_of_find? found
      exact .single (.hungUp found)
  | established id =>
    simp only [handleEvent, answered]
    split
    · split
      · exact .refl board
      · exact .refl board
    · rename_i call found
      split
      · exact .refl board
      · rename_i rings
        exact changes_supersede engine distinct (CallTable.find?_self found) rings state

theorem changes_reclaim (board : Switchboard) (ticket : Ticket) :
    Changes board (Effect.events (board.reclaim ticket).effects) (board.reclaim ticket).board := by
  simp only [reclaim, ReleaseTable.release]
  split
  · exact .refl board
  · rename_i entry found
    obtain ⟨_, rfl⟩ := ReleaseTable.mem_of_find? found
    split
    · exact .refl board
    · rename_i late
      exact .single (.released found (Nat.lt_of_not_le late))

/-- What an operation publishes accounts for all it does to the tables, unless it is a shutdown. -/
theorem changes_perform (engine : Engine σ) {board : Switchboard} (distinct : board.calls.Distinct)
    {operation : Operation} (running : operation ≠ .shutdown) (state : σ) :
    Changes board (Effect.events (board.perform engine operation state).1.effects)
      (board.perform engine operation state).1.board := by
  cases operation with
  | beginTurn => exact .unseen (.refl board) rfl rfl
  | request request => exact changes_handleRequest engine board request state
  | event event => exact changes_handleEvent engine distinct event state
  | reclaim ticket => exact changes_reclaim board ticket
  | shutdown => exact absurd rfl running

/-! ## What an event comes of -/

/-- The operation calls a group. -/
def Operation.IsStart (operation : Operation) : Prop :=
  ∃ name media, operation = .request (.startCall name media)

/-- The operations that an event can come of, as far as calls are concerned. -/
inductive Operation.Causes (operation : Operation) : Event → Prop where
  | placed (start : operation.IsStart) (group : String) (id : CallId) (target : String)
      (media : Media) : Causes operation (.callPlaced group id target media)
  | won {id : CallId} (answer : operation = .event (.established id)) (group : String)
      (superseded : Nat) : Causes operation (.raceWon group id superseded)
  | lost {answered : CallId} (answer : operation = .event (.established answered))
      (group : String) (id : CallId) :
      Causes operation (.callClosed group id (some rejectedLocally) true)
  | hungUp {id : CallId} {reason : Option String}
      (closed : operation = .event (.closed id reason)) (group : String) :
      Causes operation (.callClosed group id reason false)
  | released {ticket : Ticket} (reclaim : operation = .reclaim ticket) (id : CallId)
      (deferredTurn releasedTurn : Nat) :
      Causes operation (.callReleased id deferredTurn releasedTurn)
  | unrelated {event : Event} (nobody : event.callId? = none) : Causes operation event

theorem causes_handleRequest (engine : Engine σ) (board : Switchboard) (request : Request)
    (state : σ) : ∀ event ∈ Effect.events (board.handleRequest engine request state).1.effects,
      Operation.Causes (.request request) event := by
  intro event member
  have handled := handled engine board request state
  generalize board.handleRequest engine request state = done at handled member
  cases handled with
  | refused => cases member
  | registered nobody =>
    rw [Effect.events_publish] at member
    exact .unrelated (nobody event member)
  | @called name media =>
    obtain ⟨attempt, told⟩ := FanOut.mem_events_flatMap member
    cases tracked : attempt.tracked? with
    | some call =>
      rw [DialAttempt.events_effects_of_tracked tracked, List.mem_singleton] at told
      rw [told]
      exact .placed ⟨name, media, rfl⟩ _ _ _ _
    | none =>
      obtain ⟨reason, skipped⟩ := DialAttempt.events_effects_of_skipped tracked _
      rw [skipped, List.mem_singleton] at told
      rw [told]
      exact .unrelated rfl
  | hungUp =>
    rw [HangupAttempt.events_flatMap] at member
    cases member

theorem causes_handleEvent (engine : Engine σ) (board : Switchboard) (event : CallEvent)
    (state : σ) : ∀ told ∈ Effect.events (board.handleEvent engine event state).1.effects,
      Operation.Causes (.event event) told := by
  intro told member
  cases event with
  | progress id => cases member
  | closed id reason =>
    simp only [handleEvent, hungUp] at member
    split at member
    · cases member
    · rw [List.mem_singleton.1 member]
      exact .hungUp rfl _
  | established id =>
    simp only [handleEvent, answered] at member
    split at member
    · split at member <;> cases member
    · rename_i call found
      split at member
      · cases member
      · obtain ⟨_, rfl⟩ := CallTable.mem_of_find? found
        simp only [supersede] at member
        rw [Effect.events_append, Effect.events_append, HangupAttempt.events_flatMap,
          ReleaseTable.events_deferAll, List.nil_append] at member
        rcases List.mem_append.1 member with loser | winner
        · obtain ⟨other, _, rfl⟩ := List.mem_map.1 loser
          exact .lost rfl _ _
        · rw [List.mem_singleton.1 winner]
          exact .won rfl _ _

/-- Whatever observers are told comes of an operation of the right kind. -/
theorem causes_perform (engine : Engine σ) (board : Switchboard) (operation : Operation)
    (state : σ) : ∀ event ∈ Effect.events (board.perform engine operation state).1.effects,
      operation.Causes event := by
  intro event member
  cases operation with
  | beginTurn | shutdown => cases member
  | event event => exact causes_handleEvent engine board event state _ member
  | reclaim ticket =>
    simp only [perform, reclaim, Outcome.map] at member
    cases delivered : (board.releases.release ticket board.turn).1 with
    | unknown | early =>
      rw [delivered] at member
      cases member
    | done released =>
      rw [delivered] at member
      rw [List.mem_singleton.1 member]
      exact .released rfl _ _ _
  | request request => exact causes_handleRequest engine board request state _ member

/-- Only a request to call a group makes observers hear of placements. -/
theorem placed_of_not_start (engine : Engine σ) (board : Switchboard) {operation : Operation}
    (other : ¬ operation.IsStart) (state : σ) :
    (Effect.events (board.perform engine operation state).1.effects).filterMap Event.placed?
      = [] := by
  rw [List.filterMap_eq_nil_iff]
  intro event member
  cases causes_perform engine board operation state event member with
  | placed start => exact absurd start other
  | won | lost | hungUp | released => rfl
  | unrelated nobody =>
    cases event with
    | callPlaced => cases nobody
    | _ => rfl

theorem placed_sublist_attempts (group : String) (attempts : List DialAttempt) :
    ((Effect.events (attempts.flatMap (·.effects group))).filterMap Event.placed?).Sublist
      ((Effect.placements (attempts.flatMap (·.effects group))).map (·.2.id)) := by
  induction attempts with
  | nil => exact .slnil
  | cons attempt rest inductionHypothesis =>
    rw [List.flatMap_cons, Effect.events_append, Effect.placements_append, List.filterMap_append,
      List.map_append]
    refine List.Sublist.append ?_ inductionHypothesis
    cases tracked : attempt.tracked? with
    | none =>
      obtain ⟨reason, told⟩ := DialAttempt.events_effects_of_skipped tracked group
      rw [told]
      exact List.nil_sublist _
    | some call =>
      have answered : attempt.answer = .ok call.call := by
        unfold DialAttempt.tracked? at tracked
        unfold DialAttempt.answer
        split at tracked <;> simp_all
      rw [DialAttempt.events_effects_of_tracked tracked]
      unfold DialAttempt.effects
      rw [answered]
      exact List.Sublist.cons_cons _ (List.nil_sublist _)

theorem placed_sublist_perform (engine : Engine σ) (board : Switchboard) (operation : Operation)
    (state : σ) :
    ((Effect.events (board.perform engine operation state).1.effects).filterMap
        Event.placed?).Sublist
      ((Effect.placements (board.perform engine operation state).1.effects).map (·.2.id)) := by
  by_cases start : operation.IsStart
  · obtain ⟨name, media, rfl⟩ := start
    simp only [perform, handleRequest, startCall, Outcome.map]
    split
    · exact .slnil
    · split
      · exact .slnil
      · exact placed_sublist_attempts _ _
  · rw [placed_of_not_start engine board start state]
    exact List.nil_sublist _

/-! ## Soundness along operations -/

theorem sound_shutdown (board : Switchboard) : board.shutdown.Sound where
  distinct := CallTable.distinct_empty
  ticketed := ⟨List.nodup_nil, by simp [shutdown, ReleaseTable.drain]⟩

theorem sound_perform (engine : Engine σ) {board : Switchboard} (sound : board.Sound)
    (operation : Operation) (state : σ) : (board.perform engine operation state).1.board.Sound := by
  by_cases running : operation = .shutdown
  · subst running
    exact sound_shutdown board
  · exact sound_changes sound (changes_perform engine sound.distinct running state)

end Switchboard
end CallFork
