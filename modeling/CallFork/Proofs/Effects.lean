import CallFork.Proofs.Tables
import CallFork.Switchboard.FanOut

/-! # What the building blocks of an operation do

Hangups, deferrals and placements are carried out in lists, and each yields its effects in a list.
For each of them this module says which effects of which kind come out, and what becomes of the
tables. The engine decides only which requests fail: what is requested never depends on it.
-/

namespace CallFork

namespace Effect

/-! ## Kinds of effects -/

@[simp] theorem events_append (first second : List Effect) :
    events (first ++ second) = events first ++ events second :=
  List.filterMap_append

@[simp] theorem hangups_append (first second : List Effect) :
    hangups (first ++ second) = hangups first ++ hangups second :=
  List.filterMap_append

@[simp] theorem tickets_append (first second : List Effect) :
    tickets (first ++ second) = tickets first ++ tickets second :=
  List.filterMap_append

@[simp] theorem placements_append (first second : List Effect) :
    placements (first ++ second) = placements first ++ placements second :=
  List.filterMap_append

theorem mem_tickets {effects : List Effect} {ticket : Ticket} :
    ticket ∈ tickets effects ↔ schedule ticket ∈ effects := by
  unfold tickets
  rw [List.mem_filterMap]
  constructor
  · rintro ⟨effect, member, shown⟩
    cases effect with
    | schedule scheduled =>
      cases shown
      exact member
    | publish | place | hangup | post | warn => cases shown
  · intro member
    exact ⟨_, member, rfl⟩

@[simp] theorem events_publish (told : List Event) : events (told.map publish) = told := by
  simp [events, event?, Function.comp_def]

/-- The kind is neither that of the engine's own events nor that of warnings. These two come with
any request to the engine. -/
structure Ignores {β : Type} (kind : Effect → Option β) : Prop where
  posts : ∀ event, kind (.post event) = none
  warnings : ∀ warning, kind (.warn warning) = none

theorem ignores_event? : Ignores event? := ⟨fun _ => rfl, fun _ => rfl⟩

theorem ignores_hangup? : Ignores hangup? := ⟨fun _ => rfl, fun _ => rfl⟩

theorem ignores_ticket? : Ignores ticket? := ⟨fun _ => rfl, fun _ => rfl⟩

theorem ignores_placement? : Ignores placement? := ⟨fun _ => rfl, fun _ => rfl⟩

theorem Ignores.filterMap_posts {β : Type} {kind : Effect → Option β} (ignores : Ignores kind)
    (posted : List CallEvent) : (posted.map post).filterMap kind = [] := by
  simp [List.filterMap_map, ignores.posts]

end Effect

namespace HangupAttempt

variable {β : Type} {kind : Effect → Option β}

theorem filterMap_effects (ignores : Effect.Ignores kind)
    (warning : CallId → EngineError → Warning) (attempt : HangupAttempt) :
    (attempt.effects warning).filterMap kind
      = (kind (.hangup attempt.request attempt.failure)).toList := by
  have warned : (attempt.failure.toList.map fun cause =>
      Effect.warn (warning attempt.request.call.id cause)).filterMap kind = [] := by
    simp [List.filterMap_map, ignores.warnings]
  unfold effects
  rw [List.cons_append, List.filterMap_cons, List.filterMap_append, ignores.filterMap_posts, warned]
  cases kind (.hangup attempt.request attempt.failure) <;> rfl

theorem filterMap_flatMap (ignores : Effect.Ignores kind)
    (warning : CallId → EngineError → Warning) (attempts : List HangupAttempt) :
    (attempts.flatMap (·.effects warning)).filterMap kind
      = attempts.filterMap fun attempt => kind (.hangup attempt.request attempt.failure) := by
  induction attempts with
  | nil => rfl
  | cons attempt rest inductionHypothesis =>
    rw [List.flatMap_cons, List.filterMap_append, filterMap_effects ignores, inductionHypothesis,
      List.filterMap_cons]
    cases kind (.hangup attempt.request attempt.failure) <;> rfl

/-- A hangup is a request to the engine and tells observers nothing. -/
theorem events_flatMap (warning : CallId → EngineError → Warning)
    (attempts : List HangupAttempt) :
    Effect.events (attempts.flatMap (·.effects warning)) = [] := by
  rw [Effect.events, filterMap_flatMap Effect.ignores_event?]
  simp [Effect.event?]

theorem hangups_flatMap (warning : CallId → EngineError → Warning)
    (attempts : List HangupAttempt) :
    Effect.hangups (attempts.flatMap (·.effects warning)) = attempts.map (·.request) := by
  rw [Effect.hangups, filterMap_flatMap Effect.ignores_hangup?]
  simp [Effect.hangup?]

theorem tickets_flatMap (warning : CallId → EngineError → Warning)
    (attempts : List HangupAttempt) :
    Effect.tickets (attempts.flatMap (·.effects warning)) = [] := by
  rw [Effect.tickets, filterMap_flatMap Effect.ignores_ticket?]
  simp [Effect.ticket?]

theorem placements_flatMap (warning : CallId → EngineError → Warning)
    (attempts : List HangupAttempt) :
    Effect.placements (attempts.flatMap (·.effects warning)) = [] := by
  rw [Effect.placements, filterMap_flatMap Effect.ignores_placement?]
  simp [Effect.placement?]

end HangupAttempt

namespace Engine

variable {σ : Type}

/-- Each call is asked to be hung up once, in the order of the list, whatever the engine does. -/
theorem hangUpEach_requests (engine : Engine σ) (policy : HangupPolicy)
    (calls : List TrackedCall) (state : σ) :
    (engine.hangUpEach policy calls state).1.map (·.request)
      = calls.map fun tracked => ⟨tracked.call, policy⟩ := by
  induction calls generalizing state with
  | nil => rfl
  | cons tracked rest inductionHypothesis =>
    simp only [hangUpEach, List.map_cons, inductionHypothesis]
    rfl

end Engine

namespace ReleaseTable

/-! ## Deferring calls one after the other -/

/-- Calls under consecutive tickets, the first of which comes after `issued` others. -/
def entriesFrom (issued turn : Nat) : List TrackedCall → List PendingRelease
  | [] => []
  | call :: rest => ⟨⟨issued + 1⟩, call, turn⟩ :: entriesFrom (issued + 1) turn rest

@[simp] theorem map_call_entriesFrom (issued turn : Nat) (calls : List TrackedCall) :
    (entriesFrom issued turn calls).map (·.call) = calls := by
  induction calls generalizing issued with
  | nil => rfl
  | cons call rest inductionHypothesis => simp [entriesFrom, inductionHypothesis]

theorem length_entriesFrom (issued turn : Nat) (calls : List TrackedCall) :
    (entriesFrom issued turn calls).length = calls.length := by
  have same := congrArg List.length (map_call_entriesFrom issued turn calls)
  rw [List.length_map] at same
  exact same

theorem deferredTurn_of_mem {issued turn : Nat} {calls : List TrackedCall} {entry : PendingRelease}
    (member : entry ∈ entriesFrom issued turn calls) : entry.deferredTurn = turn := by
  induction calls generalizing issued with
  | nil => cases member
  | cons call rest inductionHypothesis =>
    cases member with
    | head => rfl
    | tail _ later => exact inductionHypothesis later

theorem issued_lt_of_mem {issued turn : Nat} {calls : List TrackedCall} {entry : PendingRelease}
    (member : entry ∈ entriesFrom issued turn calls) : issued < entry.ticket.number := by
  induction calls generalizing issued with
  | nil => cases member
  | cons call rest inductionHypothesis =>
    cases member with
    | head => exact Nat.lt_succ_self _
    | tail _ later => exact Nat.lt_of_succ_lt (inductionHypothesis later)

/-- Tickets that are given out now are higher than those of all calls that were kept before. -/
theorem find?_of_mem_entriesFrom {table : ReleaseTable} (ticketed : table.Ticketed) {turn : Nat}
    {calls : List TrackedCall} {entry : PendingRelease}
    (member : entry ∈ entriesFrom table.issued turn calls) : table.find? entry.ticket = none := by
  apply List.find?_eq_none.2
  intro other kept same
  have old := ticketed.issued other kept
  rw [of_decide_eq_true same] at old
  exact absurd (issued_lt_of_mem member) (Nat.not_lt.2 old)

theorem numbers_entriesFrom (issued turn : Nat) (calls : List TrackedCall) :
    (entriesFrom issued turn calls).map (·.ticket.number)
      = List.range' (issued + 1) calls.length := by
  induction calls generalizing issued with
  | nil => rfl
  | cons call rest inductionHypothesis =>
    rw [entriesFrom, List.map_cons, inductionHypothesis, List.length_cons, List.range'_succ]

theorem deferAll_eq (table : ReleaseTable) (turn : Nat) (calls : List TrackedCall) :
    table.deferAll turn calls =
      ((entriesFrom table.issued turn calls).flatMap fun entry =>
          deferEffects entry.call entry.ticket,
        ⟨table.pending ++ entriesFrom table.issued turn calls, table.issued + calls.length⟩) := by
  induction calls generalizing table with
  | nil => simp [deferAll, entriesFrom]
  | cons call rest inductionHypothesis =>
    simp [deferAll, defer, entriesFrom, inductionHypothesis, Nat.add_comm, Nat.add_left_comm]

/-- Besides its ticket, nothing comes of a deferred call but that it is announced closed. -/
theorem filterMap_deferAll {β : Type} {kind : Effect → Option β}
    (schedules : ∀ ticket, kind (.schedule ticket) = none) (table : ReleaseTable) (turn : Nat)
    (calls : List TrackedCall) :
    (table.deferAll turn calls).1.filterMap kind = calls.filterMap fun call =>
      kind (.publish (.callClosed call.groupName call.id (some rejectedLocally) true)) := by
  induction calls generalizing table with
  | nil => rfl
  | cons call rest inductionHypothesis =>
    rw [deferAll, List.filterMap_append, inductionHypothesis]
    simp only [deferEffects, List.filterMap_cons, schedules, List.filterMap_nil]
    cases kind (.publish (.callClosed call.groupName call.id (some rejectedLocally) true)) <;> rfl

theorem events_deferAll (table : ReleaseTable) (turn : Nat) (calls : List TrackedCall) :
    Effect.events (table.deferAll turn calls).1 = calls.map fun call =>
      .callClosed call.groupName call.id (some rejectedLocally) true := by
  rw [Effect.events, filterMap_deferAll fun _ => rfl]
  simp [Effect.event?]

theorem hangups_deferAll (table : ReleaseTable) (turn : Nat) (calls : List TrackedCall) :
    Effect.hangups (table.deferAll turn calls).1 = [] := by
  rw [Effect.hangups, filterMap_deferAll fun _ => rfl]
  simp [Effect.hangup?]

theorem placements_deferAll (table : ReleaseTable) (turn : Nat) (calls : List TrackedCall) :
    Effect.placements (table.deferAll turn calls).1 = [] := by
  rw [Effect.placements, filterMap_deferAll fun _ => rfl]
  simp [Effect.placement?]

theorem tickets_deferAll (table : ReleaseTable) (turn : Nat) (calls : List TrackedCall) :
    Effect.tickets (table.deferAll turn calls).1
      = (entriesFrom table.issued turn calls).map (·.ticket) := by
  rw [deferAll_eq, Effect.tickets, List.filterMap_flatMap, List.map_eq_flatMap]
  rfl

theorem ticketed_deferAll {table : ReleaseTable} (ticketed : table.Ticketed) (turn : Nat)
    (calls : List TrackedCall) : (table.deferAll turn calls).2.Ticketed := by
  induction calls generalizing table with
  | nil => exact ticketed
  | cons call rest inductionHypothesis =>
    exact inductionHypothesis (ticketed_defer ticketed call turn)

/-- The calls that are kept under new tickets are the deferred ones. -/
theorem handed_deferAll {table : ReleaseTable} (ticketed : table.Ticketed) (turn : Nat)
    (calls : List TrackedCall) {call : TrackedCall} :
    (∃ ticket, table.find? ticket = none ∧
        (table.deferAll turn calls).2.find? ticket = some ⟨ticket, call, turn⟩) ↔
      call ∈ calls := by
  have grows : (table.deferAll turn calls).2.pending
      = table.pending ++ entriesFrom table.issued turn calls := by
    rw [deferAll_eq]
  constructor
  · rintro ⟨ticket, absent, kept⟩
    have member := (mem_of_find? kept).1
    rw [grows] at member
    rcases List.mem_append.1 member with old | new
    · have present := find?_of_mem ticketed old
      rw [absent] at present
      cases present
    · have deferred : call ∈ (entriesFrom table.issued turn calls).map (·.call) :=
        List.mem_map.2 ⟨_, new, rfl⟩
      rw [map_call_entriesFrom] at deferred
      exact deferred
  · intro member
    rw [← map_call_entriesFrom table.issued turn calls] at member
    obtain ⟨entry, deferred, rfl⟩ := List.mem_map.1 member
    refine ⟨entry.ticket, find?_of_mem_entriesFrom ticketed deferred, ?_⟩
    have whole : entry = ⟨entry.ticket, entry.call, turn⟩ := by
      rw [← deferredTurn_of_mem deferred]
    have kept : entry ∈ (table.deferAll turn calls).2.pending := by
      rw [grows]
      exact List.mem_append_right _ deferred
    exact (find?_of_mem (ticketed_deferAll ticketed turn calls) kept).trans (congrArg some whole)

end ReleaseTable

namespace DialAttempt

/-! ## Calling peers -/

def tracked? (attempt : DialAttempt) : Option TrackedCall :=
  match attempt.result with
  | .placed call => some call
  | .refused _ | .reused _ _ => none

theorem placed?_eq (attempt : DialAttempt) :
    attempt.placed? = attempt.tracked?.map fun call => ⟨call.id, attempt.request.target⟩ := by
  unfold placed? tracked?
  cases attempt.result <;> rfl

/-- The request comes first, then the new call is hung up if it has to be, and then the report. -/
theorem filterMap_parts {β : Type} {kind : Effect → Option β} (ignores : Effect.Ignores kind)
    (group : String) (attempt : DialAttempt) :
    (attempt.effects group).filterMap kind
      = (kind (.place attempt.request attempt.answer)).toList
        ++ (attempt.cleanup.filterMap kind ++ (attempt.report group).filterMap kind) := by
  unfold effects
  rw [List.append_assoc, List.cons_append, List.filterMap_cons, List.filterMap_append,
    List.filterMap_append, ignores.filterMap_posts, List.nil_append]
  cases kind (.place attempt.request attempt.answer) <;> rfl

/-- Getting rid of a call whose identifier was in use comes to a hangup. -/
theorem filterMap_cleanup {β : Type} {kind : Effect → Option β} (ignores : Effect.Ignores kind)
    (attempt : DialAttempt) :
    attempt.cleanup.filterMap kind = match attempt.result with
      | .reused _ hangup => (kind (.hangup hangup.request hangup.failure)).toList
      | .placed _ | .refused _ => [] := by
  unfold cleanup
  cases attempt.result with
  | reused call hangup =>
    simp only
    rw [List.filterMap_cons, ignores.warnings, HangupAttempt.filterMap_effects ignores]
  | placed call | refused cause => rfl

/-- Reporting comes to events. -/
theorem filterMap_report {β : Type} {kind : Effect → Option β} (ignores : Effect.Ignores kind)
    (events : ∀ event, kind (.publish event) = none) (group : String) (attempt : DialAttempt) :
    (attempt.report group).filterMap kind = [] := by
  unfold report
  split <;> simp [events, ignores.warnings]

theorem filterMap_effects {β : Type} {kind : Effect → Option β} (ignores : Effect.Ignores kind)
    (hangups : ∀ request failure, kind (.hangup request failure) = none) (group : String)
    (attempt : DialAttempt) :
    (attempt.effects group).filterMap kind
      = (kind (.place attempt.request attempt.answer)).toList
        ++ (attempt.report group).filterMap kind := by
  have cleanup : attempt.cleanup.filterMap kind = [] := by
    rw [filterMap_cleanup ignores]
    split <;> simp [hangups]
  rw [filterMap_parts ignores, cleanup, List.nil_append]

theorem events_effects (group : String) (attempt : DialAttempt) :
    Effect.events (attempt.effects group) = Effect.events (attempt.report group) :=
  filterMap_effects Effect.ignores_event? (fun _ _ => rfl) group attempt

theorem hangups_effects (group : String) (attempt : DialAttempt) :
    Effect.hangups (attempt.effects group) = Effect.hangups attempt.cleanup := by
  rw [Effect.hangups, filterMap_parts Effect.ignores_hangup?,
    filterMap_report Effect.ignores_hangup? fun _ => rfl, List.append_nil]
  rfl

theorem tickets_flatMap (group : String) (attempts : List DialAttempt) :
    Effect.tickets (attempts.flatMap (·.effects group)) = [] := by
  rw [Effect.tickets, List.filterMap_flatMap, List.flatMap_eq_nil_iff]
  intro attempt _
  rw [filterMap_effects Effect.ignores_ticket? (fun _ _ => rfl),
    filterMap_report Effect.ignores_ticket? fun _ => rfl]
  rfl

/-- The call that the engine has placed, if it has. -/
def placement? (attempt : DialAttempt) : Option (PlaceRequest × CallHandle) :=
  match attempt.answer with
  | .ok call => some (attempt.request, call)
  | .error _ => none

theorem mem_placements {group : String} {attempts : List DialAttempt}
    {placement : PlaceRequest × CallHandle} :
    placement ∈ Effect.placements (attempts.flatMap (·.effects group)) ↔
      ∃ attempt ∈ attempts, attempt.placement? = some placement := by
  have placed : ∀ attempt : DialAttempt,
      (attempt.effects group).filterMap Effect.placement? = attempt.placement?.toList := by
    intro attempt
    rw [filterMap_effects Effect.ignores_placement? (fun _ _ => rfl),
      filterMap_report Effect.ignores_placement? fun _ => rfl]
    unfold placement?
    cases attempt.answer <;> rfl
  rw [Effect.placements, List.filterMap_flatMap]
  simp [placed]

theorem events_effects_of_tracked {attempt : DialAttempt} {call : TrackedCall}
    (tracked : attempt.tracked? = some call) (group : String) :
    Effect.events (attempt.effects group)
      = [.callPlaced group call.id attempt.request.target attempt.request.media] := by
  rw [events_effects]
  unfold report
  rw [placed?_eq, tracked]
  rfl

theorem events_effects_of_skipped {attempt : DialAttempt} (skipped : attempt.tracked? = none)
    (group : String) :
    ∃ reason, Effect.events (attempt.effects group)
      = [.placementFailed group attempt.request.target reason] := by
  rw [events_effects]
  unfold report
  rw [placed?_eq, skipped]
  unfold tracked? at skipped
  unfold error?
  cases result : attempt.result with
  | placed call => simp [result] at skipped
  | refused cause => exact ⟨_, rfl⟩
  | reused call hangup => exact ⟨_, rfl⟩

end DialAttempt

namespace FanOut

variable {σ : Type}

/-- Calling a peer either tracks a new call of the group that rings, or leaves the table alone. -/
theorem dial_cases {engine : Engine σ} {policy : HangupPolicy} {group : Group} {media : Media}
    {peer : Peer} {calls grown : CallTable} {state next : σ} {attempt : DialAttempt}
    (dialed : dial engine policy group media peer calls state = (attempt, grown, next)) :
    attempt.request.target = peer.target ∧
      (attempt.tracked? = none ∧ grown = calls ∨
        ∃ call : CallHandle,
          attempt.tracked? = some ⟨call, group.id, group.name, peer.target, .dialing⟩ ∧
          calls.insert ⟨call, group.id, group.name, peer.target, .dialing⟩ = .ok grown) := by
  simp only [dial] at dialed
  split at dialed
  · -- the engine has refused
    simp only [Prod.mk.injEq] at dialed
    obtain ⟨rfl, rfl, _⟩ := dialed
    exact ⟨rfl, .inl ⟨rfl, rfl⟩⟩
  · rename_i call _
    split at dialed
    · rename_i inserted
      simp only [Prod.mk.injEq] at dialed
      obtain ⟨rfl, rfl, _⟩ := dialed
      exact ⟨rfl, .inr ⟨call, rfl, inserted⟩⟩
    · -- the identifier was in use
      simp only [Prod.mk.injEq] at dialed
      obtain ⟨rfl, rfl, _⟩ := dialed
      exact ⟨rfl, .inl ⟨rfl, rfl⟩⟩

theorem dialEach_cons {engine : Engine σ} {policy : HangupPolicy} {group : Group} {media : Media}
    {peer : Peer} {rest : List Peer} {calls grown : CallTable} {state next : σ}
    {attempts : List DialAttempt}
    (dialed : dialEach engine policy group media (peer :: rest) calls state
      = (attempts, grown, next)) :
    ∃ attempt later between middle, attempts = attempt :: later ∧
      dial engine policy group media peer calls state = (attempt, between, middle) ∧
      dialEach engine policy group media rest between middle = (later, grown, next) := by
  simp only [dialEach, Prod.mk.injEq] at dialed
  obtain ⟨rfl, rfl, rfl⟩ := dialed
  exact ⟨_, _, _, _, rfl, rfl, rfl⟩

/-- What calling some peers adds to the table: the tracked calls of the attempts, which all ring
and belong to the group. -/
theorem dialEach_calls {engine : Engine σ} {policy : HangupPolicy} {group : Group} {media : Media}
    {peers : List Peer} {calls grown : CallTable} {state next : σ} {attempts : List DialAttempt}
    (dialed : dialEach engine policy group media peers calls state = (attempts, grown, next)) :
    grown.calls = calls.calls ++ attempts.filterMap (·.tracked?) ∧
      ∀ call ∈ attempts.filterMap (·.tracked?),
        call.groupId = group.id ∧ call.groupName = group.name ∧ call.state = .dialing := by
  induction peers generalizing calls state attempts with
  | nil =>
    simp only [dialEach, Prod.mk.injEq] at dialed
    obtain ⟨rfl, rfl, _⟩ := dialed
    simp
  | cons peer rest inductionHypothesis =>
    obtain ⟨attempt, later, between, middle, rfl, first, others⟩ := dialEach_cons dialed
    obtain ⟨grows, belong⟩ := inductionHypothesis others
    obtain ⟨_, ⟨skipped, rfl⟩ | ⟨call, tracked, inserted⟩⟩ := dial_cases first
    · rw [List.filterMap_cons, skipped]
      exact ⟨grows, belong⟩
    · obtain ⟨_, rfl⟩ := CallTable.insert_eq_ok.1 inserted
      rw [List.filterMap_cons, tracked]
      refine ⟨by rw [grows]; simp, ?_⟩
      intro other member
      rcases List.mem_cons.1 member with rfl | member
      · exact ⟨rfl, rfl, rfl⟩
      · exact belong other member

theorem mem_events_flatMap {group : String} {attempts : List DialAttempt} {event : Event}
    (member : event ∈ Effect.events (attempts.flatMap (·.effects group))) :
    ∃ attempt : DialAttempt, event ∈ Effect.events (attempt.effects group) := by
  unfold Effect.events at member
  rw [List.filterMap_flatMap, List.mem_flatMap] at member
  obtain ⟨attempt, _, told⟩ := member
  exact ⟨attempt, told⟩

theorem report_placed (group : Group) (media : Media) (attempts : List DialAttempt) :
    (report group media attempts).placed.map (·.id)
      = (attempts.filterMap (·.tracked?)).map (·.id) := by
  unfold report
  rw [List.map_filterMap, List.map_filterMap]
  congr 1
  funext attempt
  rw [DialAttempt.placed?_eq, Option.map_map]
  rfl

end FanOut
end CallFork
