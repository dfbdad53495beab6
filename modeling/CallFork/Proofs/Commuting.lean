import CallFork.Proofs.Verdicts

/-! # Events of different groups commute

Two events that are not both about tracked calls of one group can be handled in either order: each
of them comes to the same, and the switchboard is the same afterwards, up to the tickets under which
the losers wait. The reason is that a verdict depends on the calls of one group only
(`verdict_calls_of_apart`), and that whatever two verdicts do to the table of tracked calls can be
done in either order (`Verdict.calls_comm`). An event and a request about the groups look at
different tables altogether.
-/

namespace CallFork

namespace CallTable

/-! ## Operations on the table in either order -/

theorem eraseAll_comm (table : CallTable) (first second : List CallId) :
    (table.eraseAll first).eraseAll second = (table.eraseAll second).eraseAll first := by
  have same : ((table.eraseAll first).eraseAll second).calls
      = ((table.eraseAll second).eraseAll first).calls := by
    simp only [calls_eraseAll, List.filter_filter, Bool.and_comm]
  exact congrArg CallTable.mk same

theorem establish_comm (table : CallTable) (first second : CallId) :
    (table.establish first).establish second = (table.establish second).establish first := by
  simp only [establish, List.map_map]
  congr 1
  apply List.map_congr_left
  intro call _
  by_cases here : call.id = first <;> by_cases there : call.id = second <;>
    simp_all [TrackedCall.id]

/-! ## The calls of one group -/

theorem inGroup_eraseAll {table : CallTable} {group : GroupId} {ids : List CallId}
    (spared : ∀ call ∈ table.calls, call.groupId = group → call.id ∉ ids) :
    (table.eraseAll ids).inGroup group = table.inGroup group := by
  simp only [inGroup, calls_eraseAll, List.filter_filter]
  apply List.filter_congr
  intro call member
  by_cases same : call.groupId = group
  · simp [same, spared call member same]
  · simp [same]

/-- To remove calls of one group leaves all other groups as they are. -/
theorem inGroup_eraseAll_of_ne {table : CallTable} (distinct : table.Distinct) {ids : List CallId}
    {group other : GroupId} (ofGroup : ∀ id ∈ ids, id ∈ (table.inGroup group).map (·.id))
    (apart : other ≠ group) : (table.eraseAll ids).inGroup other = table.inGroup other := by
  apply inGroup_eraseAll
  intro call member same listed
  obtain ⟨erased, inside, named⟩ := List.mem_map.1 (ofGroup call.id listed)
  obtain ⟨tracked, there⟩ := mem_inGroup.1 inside
  obtain rfl := List.inj_on_of_nodup_map distinct tracked member named
  exact apart (same.symm.trans there)

/-- No call changes its group when one of them is answered. -/
theorem map_inGroup_establish (table : CallTable) (group : GroupId) (id : CallId) :
    (table.establish id).inGroup group = (table.inGroup group).map fun call =>
      if call.id = id then { call with state := .established } else call := by
  simp only [inGroup, establish, List.filter_map]
  congr 1
  apply List.filter_congr
  intro call _
  simp only [Function.comp_apply]
  split <;> rfl

theorem inGroup_establish {table : CallTable} {group : GroupId} {id : CallId}
    (other : ∀ call ∈ table.calls, call.groupId = group → call.id ≠ id) :
    (table.establish id).inGroup group = table.inGroup group := by
  rw [map_inGroup_establish]
  refine (List.map_congr_left ?_).trans (List.map_id _)
  intro call member
  obtain ⟨tracked, same⟩ := mem_inGroup.1 member
  exact if_neg (other call tracked same)

/-- Siblings are found among the calls of the group alone. -/
theorem siblings_eq {table : CallTable} {id : CallId} {call : TrackedCall}
    (found : table.find? id = some call) :
    table.siblings id
      = ((table.inGroup call.groupId).filter fun other => call.id ≠ other.id).mergeSort
          TrackedCall.le := by
  simp only [siblings, found, inGroup, List.filter_filter]
  congr 1
  apply List.filter_congr
  intro other _
  by_cases same : other.groupId = call.groupId
  · simp [TrackedCall.isSiblingOf, same]
  · simp [TrackedCall.isSiblingOf, same, Ne.symm same]

theorem inGroup_filter_id {table : CallTable} (distinct : table.Distinct) {call : TrackedCall}
    (found : table.find? call.id = some call) :
    (table.inGroup call.groupId).filter (fun other => other.id = call.id) = [call] := by
  rw [inGroup, List.filter_comm, filter_id_eq distinct, found]
  simp

/-- Without its siblings, a call is the only one of its group. -/
theorem inGroup_eraseSiblings {table : CallTable} (distinct : table.Distinct) {call : TrackedCall}
    (found : table.find? call.id = some call) :
    (table.eraseAll (table.siblingIds call.id)).inGroup call.groupId = [call] := by
  rw [← inGroup_filter_id distinct found, inGroup, inGroup, calls_eraseAll, List.filter_filter,
    List.filter_filter]
  apply List.filter_congr
  intro other member
  by_cases same : other.groupId = call.groupId
  · by_cases here : other.id = call.id
    · have kept : other.id ∉ table.siblingIds call.id := by
        intro listed
        obtain ⟨loser, sibling, named⟩ := List.mem_map.1 listed
        exact ((mem_siblings found).1 sibling).2.2 (named.trans here)
      simp [same, here, here ▸ kept]
    · have lost : other.id ∈ table.siblingIds call.id :=
        List.mem_map_of_mem ((mem_siblings found).2 ⟨member, same, here⟩)
      simp [same, here, lost]
  · simp [same]

theorem siblingIds_inGroup {table : CallTable} {call : TrackedCall}
    (found : table.find? call.id = some call) :
    ∀ id ∈ table.siblingIds call.id, id ∈ (table.inGroup call.groupId).map (·.id) := by
  intro id listed
  obtain ⟨sibling, member, rfl⟩ := List.mem_map.1 listed
  obtain ⟨tracked, same, _⟩ := (mem_siblings found).1 member
  exact List.mem_map_of_mem (mem_inGroup.2 ⟨tracked, same⟩)

/-! ## Verdicts -/

theorem find?_calls_of_untracked {table : CallTable} {id : CallId}
    (untracked : table.find? id = none) (verdict : Verdict) :
    (verdict.calls table).find? id = none := by
  cases verdict <;> simp [Verdict.calls, find?_eraseAll, untracked]

theorem distinct_calls {table : CallTable} (distinct : table.Distinct) (verdict : Verdict) :
    (verdict.calls table).Distinct := by
  cases verdict with
  | ignored => exact distinct
  | won winner losers => exact distinct_eraseAll (distinct_establish distinct winner.id) _
  | gone call reason => exact distinct_erase distinct call.id

/-- An event leaves the calls of all groups alone but those of the group of its own call. -/
theorem inGroup_calls {table : CallTable} (distinct : table.Distinct) {event : CallEvent}
    {group : GroupId}
    (apart : ∀ call, table.find? event.callId = some call → call.groupId ≠ group) :
    ((table.verdict event).calls table).inGroup group = table.inGroup group := by
  rcases table.verdict_cases event with ignored | ⟨call, found, ⟨reason, gone⟩ | won⟩
  · rw [ignored]
    rfl
  · rw [gone]
    refine inGroup_eraseAll (fun other member same listed => ?_ : ∀ other ∈ table.calls,
      other.groupId = group → other.id ∉ [call.id])
    rw [List.mem_singleton] at listed
    have self := find?_of_mem distinct member
    rw [listed, find?_self found] at self
    exact apart call found (Option.some.inj self ▸ same)
  · -- the winner and its siblings are all of the other group
    have self := find?_self found
    have kept : ∀ other ∈ table.calls, other.groupId = group → other.id ≠ call.id := by
      intro other member same listed
      have again := find?_of_mem distinct member
      rw [listed, self] at again
      exact apart call found (Option.some.inj again ▸ same)
    rw [won]
    simp only [Verdict.calls, eraseAll_establish]
    rw [inGroup_establish, inGroup_eraseAll]
    · intro other member same listed
      obtain ⟨loser, sibling, named⟩ := List.mem_map.1 listed
      have again := find?_of_mem distinct member
      rw [← named, find?_sibling distinct self loser sibling] at again
      have ofGroup := ((mem_siblings self).1 sibling).2.1
      rw [Option.some.inj again, same] at ofGroup
      exact apart call found ofGroup.symm
    · intro other member same
      exact kept other (mem_eraseAll.1 member).1 same

/-- The two events are not both about tracked calls of the same group. -/
def Apart (table : CallTable) (first second : CallEvent) : Prop :=
  ∀ call other, table.find? first.callId = some call →
    table.find? second.callId = some other → call.groupId ≠ other.groupId

theorem Apart.symm {table : CallTable} {first second : CallEvent}
    (apart : table.Apart first second) : table.Apart second first :=
  fun call other found there same => apart other call there found same.symm

/-- An event decides nothing about the calls of other groups. -/
theorem verdict_calls_of_apart {table : CallTable} (distinct : table.Distinct)
    {first second : CallEvent} (apart : table.Apart first second) :
    ((table.verdict first).calls table).verdict second = table.verdict second := by
  cases found : table.find? second.callId with
  | none =>
    rw [verdict_of_untracked found, verdict_of_untracked (find?_calls_of_untracked found _)]
  | some call =>
    -- the call is found again, and so are its siblings
    have group := inGroup_calls distinct fun other there => apart other call there found
    have member : call ∈ ((table.verdict first).calls table).inGroup call.groupId := by
      rw [group]
      exact mem_inGroup.2 ⟨(mem_of_find? found).1, rfl⟩
    have self :=
      find?_of_mem (distinct_calls distinct (table.verdict first)) (mem_inGroup.1 member).1
    have again := self
    rw [(mem_of_find? found).2] at again
    have siblings : ((table.verdict first).calls table).siblings call.id
        = table.siblings call.id := by
      rw [siblings_eq self, siblings_eq (find?_self found), group]
    cases second with
    | progress id => rfl
    | established id =>
      change table.find? id = some call at found
      change ((table.verdict first).calls table).find? id = some call at again
      rw [verdict_established found, verdict_established again, siblings]
    | closed id reason =>
      change table.find? id = some call at found
      change ((table.verdict first).calls table).find? id = some call at again
      rw [verdict_closed found, verdict_closed again]

end CallTable

theorem Verdict.calls_comm (first second : Verdict) (table : CallTable) :
    second.calls (first.calls table) = first.calls (second.calls table) := by
  have erase : ∀ (table : CallTable) (id : CallId), table.erase id = table.eraseAll [id] :=
    fun _ _ => rfl
  cases first with
  | ignored => rfl
  | won winner losers =>
    cases second with
    | ignored => rfl
    | won rival others =>
      simp only [calls, CallTable.eraseAll_establish]
      rw [CallTable.establish_comm, CallTable.eraseAll_comm]
    | gone call reason =>
      simp only [calls, erase, CallTable.eraseAll_establish]
      rw [CallTable.eraseAll_comm]
  | gone call reason =>
    cases second with
    | ignored => rfl
    | won rival others =>
      simp only [calls, erase, CallTable.eraseAll_establish]
      rw [CallTable.eraseAll_comm]
    | gone other reason =>
      simp only [calls, erase]
      rw [CallTable.eraseAll_comm]

/-! ## Operations in either order -/

/-- Nobody can tell two outcomes apart by their results, the hangups that were requested and the
events that were published. -/
structure Outcome.Resembles {α : Type} (first second : Outcome α) : Prop where
  result : first.result = second.result
  hangups : Effect.hangups first.effects = Effect.hangups second.effects
  events : Effect.events first.effects = Effect.events second.effects

/-- A pending release but for its ticket. -/
def PendingRelease.untagged (entry : PendingRelease) : TrackedCall × Nat :=
  (entry.call, entry.deferredTurn)

namespace Switchboard

/-- Two switchboards that came of the same one agree, up to the tickets of the releases that have
been deferred since. -/
structure Agree (start first second : Switchboard) : Prop where
  config : first.config = second.config
  accounts : first.accounts = second.accounts
  groups : first.groups = second.groups
  calls : first.calls = second.calls
  turn : first.turn = second.turn
  issued : first.releases.issued = second.releases.issued
  pending : ∃ entries others, first.releases.pending = start.releases.pending ++ entries ∧
    second.releases.pending = start.releases.pending ++ others ∧
    (entries.map (·.untagged)).Perm (others.map (·.untagged))

variable {σ : Type}

/-- What comes of an operation behind another one. -/
def performBehind (engine : Engine σ) (board : Switchboard) (ahead operation : Operation)
    (state : σ) : Outcome Report :=
  let (outcome, state) := board.perform engine ahead state
  (outcome.board.perform engine operation state).1

/-- Two operations come to the same in either order. -/
structure Commute (engine : Engine σ) (board : Switchboard) (first second : Operation)
    (state : σ) : Prop where
  former : (board.perform engine first state).1.Resembles
    (board.performBehind engine second first state)
  latter : (board.perform engine second state).1.Resembles
    (board.performBehind engine first second state)
  boards : board.Agree (board.performBehind engine first second state).board
    (board.performBehind engine second first state).board

variable {engine : Engine σ} {board : Switchboard} {state : σ}

theorem perform_event (engine : Engine σ) (board : Switchboard) (event : CallEvent) (state : σ) :
    (board.perform engine (.event event) state).1
      = (board.handleEvent engine event state).1.map .resolution := rfl

/-- An event comes to the same on any switchboard on which the verdict on it is the same. -/
theorem resembles_event (engine : Engine σ) (first second : Switchboard) {event : CallEvent}
    (config : first.config = second.config)
    (verdict : first.calls.verdict event = second.calls.verdict event) (state after : σ) :
    (first.perform engine (.event event) state).1.Resembles
      (second.perform engine (.event event) after).1 where
  result := by simp only [perform_event, Outcome.map, handleEvent_result, verdict]
  hangups := by simp only [perform_event, Outcome.map, hangups_handleEvent, verdict, config]
  events := by simp only [perform_event, Outcome.map, events_handleEvent, verdict]

theorem map_untagged_entriesFrom (issued turn : Nat) (calls : List TrackedCall) :
    (ReleaseTable.entriesFrom issued turn calls).map (·.untagged) = calls.map (·, turn) := by
  induction calls generalizing issued with
  | nil => rfl
  | cons call rest inductionHypothesis =>
    simp [ReleaseTable.entriesFrom, PendingRelease.untagged, ← inductionHypothesis (issued + 1)]

theorem commute_events (engine : Engine σ) {board : Switchboard} (distinct : board.calls.Distinct)
    {first second : CallEvent} (apart : board.calls.Apart first second) (state : σ) :
    board.Commute engine (.event first) (.event second) state := by
  have behindFirst := CallTable.verdict_calls_of_apart distinct apart
  have behindSecond := CallTable.verdict_calls_of_apart distinct apart.symm
  constructor
  · exact resembles_event engine board (board.perform engine (.event second) state).1.board
      (by rw [perform_event, Outcome.map, handleEvent_board])
      (by rw [perform_event, Outcome.map, handleEvent_board]; exact behindSecond.symm) _ _
  · exact resembles_event engine board (board.perform engine (.event first) state).1.board
      (by rw [perform_event, Outcome.map, handleEvent_board])
      (by rw [perform_event, Outcome.map, handleEvent_board]; exact behindFirst.symm) _ _
  · simp only [performBehind, perform_event, Outcome.map, handleEvent_board, behindFirst,
      behindSecond, ReleaseTable.deferAll_eq]
    constructor
    case calls => exact Verdict.calls_comm _ _ _
    case issued => simp only; omega
    case pending =>
      refine ⟨_, _, List.append_assoc _ _ _, List.append_assoc _ _ _, ?_⟩
      simp only [List.map_append, map_untagged_entriesFrom]
      exact List.perm_append_comm
    all_goals rfl

end Switchboard

/-! ## Requests about the groups -/

/-- The request registers, removes or extends groups. -/
def Request.isRegistration : Request → Bool
  | createGroup _ | removeGroup _ | clearGroups | addPeer _ _ _ => true
  | startCall _ _ | hangupGroup _ | dump => false

namespace Switchboard

variable {σ : Type}

/-- A request about the groups neither looks at the calls nor touches them. -/
theorem handleRequest_registration (engine : Engine σ) (board : Switchboard) {request : Request}
    (registration : request.isRegistration = true) :
    ∃ answer groups, ∃ events : List Event, ∀ calls releases state,
      { board with calls, releases }.handleRequest engine request state
        = (⟨answer, { board with calls, releases, groups }, events.map .publish⟩, state) := by
  cases request with
  | createGroup name =>
    simp only [handleRequest, createGroup]
    cases board.groups.create name with
    | error error => exact ⟨.error error, board.groups, [], fun _ _ _ => rfl⟩
    | ok made => exact ⟨_, _, [.groupCreated name], fun _ _ _ => rfl⟩
  | removeGroup name =>
    simp only [handleRequest, removeGroup]
    cases board.groups.remove name with
    | error error => exact ⟨.error error, board.groups, [], fun _ _ _ => rfl⟩
    | ok made => exact ⟨_, _, [.groupRemoved name], fun _ _ _ => rfl⟩
  | clearGroups =>
    exact ⟨.ok (.cleared board.groups.size), board.groups.clear,
      [.groupsCleared board.groups.size], fun _ _ _ => rfl⟩
  | addPeer group address displayName =>
    have peer : ∀ calls releases, peerFor { board with calls, releases } address displayName
        = board.peerFor address displayName := fun _ _ => rfl
    simp only [handleRequest, addPeer, peer]
    cases board.groups.find group with
    | error error => exact ⟨.error error, board.groups, [], fun _ _ _ => rfl⟩
    | ok _ =>
      cases board.peerFor address displayName with
      | error error => exact ⟨.error error, board.groups, [], fun _ _ _ => rfl⟩
      | ok peer =>
        simp only
        cases board.groups.addPeer group peer with
        | error error => exact ⟨.error error, board.groups, [], fun _ _ _ => rfl⟩
        | ok groups => exact ⟨_, groups, [], fun _ _ _ => rfl⟩
  | startCall | hangupGroup | dump => cases registration

theorem commute_registration (engine : Engine σ) (board : Switchboard) (event : CallEvent)
    {request : Request} (registration : request.isRegistration = true) (state : σ) :
    board.Commute engine (.event event) (.request request) state := by
  obtain ⟨answer, groups, events, registers⟩ :=
    handleRequest_registration engine board registration
  have ahead : board.handleRequest engine request state
      = (⟨answer, { board with groups }, events.map .publish⟩, state) :=
    registers board.calls board.releases state
  have handled := handleEvent_board engine board event state
  constructor
  · have behind : board.performBehind engine (.request request) (.event event) state
        = ({ board with groups }.perform engine (.event event) state).1 := by
      simp only [performBehind, perform, ahead, Outcome.map]
    rw [behind]
    exact resembles_event engine board { board with groups } rfl rfl state state
  · simp only [performBehind, perform, Outcome.map, handled, registers]
    exact ⟨rfl, rfl, rfl⟩
  · simp only [performBehind, perform, Outcome.map, handled, registers, handleEvent_board,
      ReleaseTable.deferAll_eq]
    constructor
    case pending => exact ⟨_, _, rfl, rfl, List.Perm.refl _⟩
    all_goals rfl

end Switchboard

/-! ## At any point of a run -/

/-- At any point of a run, events that are not both about tracked calls of one group can be handled
in either order, and so can an event and a request that creates, removes or extends groups. -/
theorem Reach.events_commute {σ : Type} {engine : Engine σ} {steps : List Step}
    {board : Switchboard} {state : σ} (reached : Reach engine steps board state) :
    (∀ first second, board.calls.Apart first second →
      board.Commute engine (.event first) (.event second) state) ∧
    ∀ event request, Request.isRegistration request = true →
      board.Commute engine (.event event) (.request request) state :=
  ⟨fun _ _ apart => board.commute_events engine reached.sound.distinct apart state,
    fun event _ registration => board.commute_registration engine event registration state⟩

namespace Crossing

/-- Two groups are called, and all their phones ring. -/
def operations : List Switchboard.Operation :=
  [.request (.createGroup "G"), .request (.addPeer "G" "sip:a@x" none),
    .request (.addPeer "G" "sip:b@x" none), .request (.createGroup "H"),
    .request (.addPeer "H" "sip:c@x" none), .request (.addPeer "H" "sip:d@x" none),
    .request (.startCall "G" {}), .request (.startCall "H" {}), .beginTurn]

def board : Switchboard := (Rematch.board.run EngineScript.engine operations {}).2.1

def script : EngineScript := (Rematch.board.run EngineScript.engine operations {}).2.2

theorem reached : ∃ steps, Reach EngineScript.engine steps board script :=
  ⟨_, (Reach.start Rematch.started ({} : EngineScript)).extend operations⟩

theorem apart : board.calls.Apart (.established ⟨"call-1"⟩) (.established ⟨"call-3"⟩) := by
  intro call other found there same
  have first : (board.calls.find? ⟨"call-1"⟩).map (·.groupId) = some ⟨1⟩ := rfl
  have second : (board.calls.find? ⟨"call-3"⟩).map (·.groupId) = some ⟨2⟩ := rfl
  rw [show board.calls.find? ⟨"call-1"⟩ = some call from found] at first
  rw [show board.calls.find? ⟨"call-3"⟩ = some other from there] at second
  simp only [Option.map_some, Option.some.injEq] at first second
  rw [first, second] at same
  cases same

/-- One call of each group is answered, and one of the groups is removed. The losers are put aside
in the order of the answers. -/
theorem events_commute_across_groups :
    (board.Commute EngineScript.engine (.event (.established ⟨"call-1"⟩))
        (.event (.established ⟨"call-3"⟩)) script ∧
      board.Commute EngineScript.engine (.event (.established ⟨"call-1"⟩))
        (.request (.removeGroup "G")) script) ∧
    (board.performBehind EngineScript.engine (.event (.established ⟨"call-1"⟩))
        (.event (.established ⟨"call-3"⟩)) script).board.releases.pending.map (·.call.id)
      = [⟨"call-2"⟩, ⟨"call-4"⟩] ∧
    (board.performBehind EngineScript.engine (.event (.established ⟨"call-3"⟩))
        (.event (.established ⟨"call-1"⟩)) script).board.releases.pending.map (·.call.id)
      = [⟨"call-4"⟩, ⟨"call-2"⟩] := by
  obtain ⟨steps, reached⟩ := reached
  obtain ⟨events, registrations⟩ := reached.events_commute
  exact ⟨⟨events _ _ apart, registrations _ _ rfl⟩, by decide +kernel, by decide +kernel⟩

end Crossing
end CallFork
