import CallFork.Proofs.TableOrder

/-! # Hanging up a group

A group is hung up by walking through the table of tracked calls, in whichever order it holds them.
The walk asks once for every call of the registered group and for no other, and goes on when the
engine fails. So the number it comes back with depends on which calls could be hung up, and not on
the order. Nothing else comes of it: the calls stay tracked until the engine reports them closed.
-/

namespace CallFork

namespace Effect

/-- The hangup, if the effect is one that the engine has accepted. -/
def accepted? : Effect → Option HangupRequest
  | hangup request none => some request
  | _ => none

def accepted (effects : List Effect) : List HangupRequest := effects.filterMap accepted?

theorem ignores_accepted? : Ignores accepted? := ⟨fun _ => rfl, fun _ => rfl⟩

end Effect

namespace HangupAttempt

variable {warning : CallId → EngineError → Warning} {attempts : List HangupAttempt}

theorem length_accepted (warning : CallId → EngineError → Warning)
    (attempts : List HangupAttempt) :
    (Effect.accepted (attempts.flatMap (·.effects warning))).length
      = attempts.countP (·.isAccepted) := by
  rw [Effect.accepted, filterMap_flatMap Effect.ignores_accepted?,
    List.length_filterMap_eq_countP]
  apply List.countP_congr
  rintro ⟨request, failure, posted⟩ _
  cases failure <;> simp [Effect.accepted?, isAccepted]

theorem hangup_mem_flatMap {request : HangupRequest} {failure : Option EngineError} :
    .hangup request failure ∈ attempts.flatMap (·.effects warning) ↔
      ∃ attempt ∈ attempts, attempt.request = request ∧ attempt.failure = failure := by
  simp [List.mem_flatMap, effects, eq_comm]

theorem countP_isAccepted {pattern : CallHandle → Option EngineError}
    (failures : ∀ attempt ∈ attempts, attempt.failure = pattern attempt.request.call) :
    attempts.countP (·.isAccepted)
      = (attempts.map (·.request)).countP fun request => (pattern request.call).isNone := by
  rw [List.countP_map]
  apply List.countP_congr
  intro attempt member
  simp [isAccepted, failures attempt member]

end HangupAttempt

theorem CallTable.countP_inGroup {table : CallTable} (distinct : table.Distinct) (group : GroupId)
    {call : TrackedCall} (member : call ∈ table.calls) :
    (table.inGroup group).countP (fun other => other.id = call.id)
      = if call.groupId = group then 1 else 0 := by
  rw [List.countP_eq_length_filter, inGroup, List.filter_comm, filter_id_eq distinct,
    find?_of_mem distinct member]
  by_cases same : call.groupId = group <;> simp [same]

namespace Switchboard

variable {σ : Type} {engine : Engine σ} {board : Switchboard} {state : σ}

/-- The tracked calls of a group are hung up, and nothing else happens. -/
structure HangsUp (board : Switchboard) (group : Group) (outcome : Outcome (Except Error Nat)) :
    Prop where
  result : outcome.result = .ok (Effect.accepted outcome.effects).length
  hangups : (Effect.hangups outcome.effects).Perm
    ((board.calls.inGroup group.id).map fun call => ⟨call.call, board.config.groupHangup⟩)
  once : ∀ call ∈ board.calls.calls,
    (Effect.hangups outcome.effects).countP (fun request => request.call.id = call.id)
      = if call.groupId = group.id then 1 else 0
  pending : ∀ entry ∈ board.releases.pending, board.calls.find? entry.call.id = none →
    ∀ request ∈ Effect.hangups outcome.effects, request.call.id ≠ entry.call.id
  /-- The order in which the calls were hung up does not count, but which ones failed. -/
  counted : ∀ pattern : CallHandle → Option EngineError,
    (∀ request failure, .hangup request failure ∈ outcome.effects →
      failure = pattern request.call) →
    outcome.result
      = .ok ((board.calls.inGroup group.id).countP fun call => (pattern call.call).isNone)
  events : Effect.events outcome.effects = []
  tickets : Effect.tickets outcome.effects = []
  placements : Effect.placements outcome.effects = []

theorem hangupGroup_of_registered {name : String} {group : Group}
    (registered : board.groups.find? name = some group) (state : σ) :
    (board.hangupGroup engine name state).1
      = ⟨.ok ((engine.hangUpEach board.config.groupHangup (board.calls.inGroup group.id)
            state).1.countP (·.isAccepted)), board,
          (engine.hangUpEach board.config.groupHangup (board.calls.inGroup group.id)
            state).1.flatMap (·.effects fun id cause => .groupHangupFailed id name cause)⟩ := by
  simp only [hangupGroup, GroupTable.find, registered]

theorem hangsUp_hangupGroup (engine : Engine σ) (distinct : board.calls.Distinct) {name : String}
    {group : Group} (registered : board.groups.find? name = some group) (state : σ) :
    board.HangsUp group (board.hangupGroup engine name state).1 := by
  rw [hangupGroup_of_registered registered]
  have requests := engine.hangUpEach_requests board.config.groupHangup
    (board.calls.inGroup group.id) state
  generalize (engine.hangUpEach board.config.groupHangup (board.calls.inGroup group.id) state).1
    = attempts at requests ⊢
  have asked : Effect.hangups
      (attempts.flatMap (·.effects fun id cause => .groupHangupFailed id name cause))
      = (board.calls.inGroup group.id).map fun call => ⟨call.call, board.config.groupHangup⟩ := by
    rw [HangupAttempt.hangups_flatMap, requests]
  refine ⟨?_, .of_eq asked, ?_, ?_, ?_, HangupAttempt.events_flatMap _ _,
    HangupAttempt.tickets_flatMap _ _, HangupAttempt.placements_flatMap _ _⟩
  · rw [HangupAttempt.length_accepted]
  · intro call member
    rw [asked, List.countP_map]
    exact CallTable.countP_inGroup distinct group.id member
  · intro entry _ untracked request member same
    rw [asked] at member
    obtain ⟨call, listed, rfl⟩ := List.mem_map.1 member
    -- whatever is asked to be hung up is tracked
    have tracked := CallTable.find?_of_mem distinct (CallTable.mem_inGroup.1 listed).1
    rw [show call.id = entry.call.id from same, untracked] at tracked
    cases tracked
  · intro pattern follows
    have failures : ∀ attempt ∈ attempts, attempt.failure = pattern attempt.request.call :=
      fun attempt member =>
        follows _ _ (HangupAttempt.hangup_mem_flatMap.2 ⟨attempt, member, rfl, rfl⟩)
    rw [HangupAttempt.countP_isAccepted failures, requests, List.countP_map]
    rfl

theorem HangsUp.of_perm {order : CallTable} {group : Group} {outcome : Outcome (Except Error Nat)}
    (distinct : board.calls.Distinct) (same : order.calls.Perm board.calls.calls)
    (done : { board with calls := order }.HangsUp group outcome) : board.HangsUp group outcome where
  result := done.result
  hangups := done.hangups.trans ((CallTable.inGroup_of_perm same group.id).map _)
  once call member := done.once call (same.mem_iff.2 member)
  pending entry waits untracked :=
    done.pending entry waits ((CallTable.find?_of_perm distinct same _).trans untracked)
  counted pattern follows := by
    rw [done.counted pattern follows, (CallTable.inGroup_of_perm same group.id).countP_eq]
  events := done.events
  tickets := done.tickets
  placements := done.placements

end Switchboard

/-- Whichever order the table holds its calls in, and whichever hangups fail, hanging up a group
asks the engine once for every tracked call of the group that is registered under the name. It comes
back with the number of requests that were accepted, and leaves the switchboard as it is. -/
theorem Reach.group_hangup {σ : Type} {engine : Engine σ} {steps : List Step} {board : Switchboard}
    {state : σ} (reached : Reach engine steps board state) {name : String} {group : Group}
    (registered : board.groups.find? name = some group) (order : CallTable)
    (same : order.calls.Perm board.calls.calls) :
    board.HangsUp group ({ board with calls := order }.hangupGroup engine name state).1 ∧
      ({ board with calls := order }.hangupGroup engine name state).1.board
        = { board with calls := order } := by
  have distinct := reached.sound.distinct
  have there : ({ board with calls := order } : Switchboard).groups.find? name = some group :=
    registered
  constructor
  · exact .of_perm distinct same (Switchboard.hangsUp_hangupGroup engine
      (CallTable.distinct_of_perm distinct same) there state)
  · rw [Switchboard.hangupGroup_of_registered there]

/-! ## A sample run -/

theorem EngineScript.failure_of_mem {policy : HangupPolicy} {calls : List TrackedCall}
    {script : EngineScript} {attempt : HangupAttempt}
    (member : attempt ∈ (engine.hangUpEach policy calls script).1) :
    attempt.failure = script.hangupFailures.lookup attempt.request.call.id := by
  induction calls with
  | nil => cases member
  | cons call rest inductionHypothesis =>
    cases member with
    | head => rfl
    | tail _ later =>
      -- the script does not change when it is asked to hang up
      exact inductionHypothesis later

namespace Ringing

def shuffled : Switchboard := { board with calls := ⟨[other, third, second, first]⟩ }

/-- One of three calls cannot be hung up. The others are hung up all the same, and the call of the
other group is left alone. -/
theorem group_hangup_when_ringing :
    (shuffled.hangupGroup EngineScript.engine "G" engine).1.result = .ok 2 ∧
      (∀ call ∈ [first, second, third],
        (Effect.hangups (shuffled.hangupGroup EngineScript.engine "G" engine).1.effects).countP
          (fun request => request.call.id = call.id) = 1) ∧
      (Effect.hangups (shuffled.hangupGroup EngineScript.engine "G" engine).1.effects).countP
        (fun request => request.call.id = other.id) = 0 := by
  obtain ⟨_, reached⟩ := reached
  obtain ⟨group, registered, number⟩ : ∃ group, board.groups.find? "G" = some group ∧
      group.id = ⟨1⟩ := by
    decide +kernel
  have same : shuffled.calls.calls.Perm board.calls.calls := by
    rw [calls_board]
    decide
  have done : board.HangsUp group (shuffled.hangupGroup EngineScript.engine "G" engine).1 :=
    (reached.group_hangup registered shuffled.calls same).1
  refine ⟨?_, ?_, ?_⟩
  · have follows : ∀ request failure,
        .hangup request failure ∈ (shuffled.hangupGroup EngineScript.engine "G" engine).1.effects →
        failure = engine.hangupFailures.lookup request.call.id := by
      have there : shuffled.groups.find? "G" = some group := registered
      intro request failure asked
      rw [Switchboard.hangupGroup_of_registered there] at asked
      obtain ⟨attempt, member, rfl, rfl⟩ := HangupAttempt.hangup_mem_flatMap.1 asked
      exact EngineScript.failure_of_mem member
    rw [done.counted (fun call => engine.hangupFailures.lookup call.id) follows, calls_board,
      number]
    decide +kernel
  · have group : ∀ call ∈ [first, second, third], call ∈ board.calls.calls ∧
        call.groupId = ⟨1⟩ := by
      rw [calls_board]
      decide
    intro call member
    obtain ⟨tracked, same⟩ := group call member
    rw [done.once call tracked, same, number]
    rfl
  · rw [done.once other (by rw [calls_board]; decide), number]
    rfl

end Ringing
end CallFork
