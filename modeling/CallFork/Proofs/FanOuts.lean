import CallFork.Proofs.HangupFailures

/-! # Calling every peer once

Calling a group comes to one entry for each peer, whatever the engine answers. The answers alone
decide what becomes of the peers: a peer is called unless the engine refuses or gives out an
identifier that is tracked, be it from before or for a peer ahead of this one. `FanOut.fates` says
so without looking at the table, and the report, the events, the hangups and the new table are read
off it.
-/

namespace CallFork

namespace Effect

/-- What the engine was asked to place, and its answer. -/
def dial? : Effect → Option (PlaceRequest × Except EngineError CallHandle)
  | place request answer => some (request, answer)
  | _ => none

def dials (effects : List Effect) : List (PlaceRequest × Except EngineError CallHandle) :=
  effects.filterMap dial?

theorem ignores_dial? : Ignores dial? := ⟨fun _ => rfl, fun _ => rfl⟩

end Effect

theorem DialAttempt.dials_flatMap (group : String) (attempts : List DialAttempt) :
    Effect.dials (attempts.flatMap (·.effects group))
      = (attempts.map (·.request)).zip (attempts.map (·.answer)) := by
  have once : ∀ attempt : DialAttempt,
      (attempt.effects group).filterMap Effect.dial? = [(attempt.request, attempt.answer)] := by
    intro attempt
    rw [filterMap_effects Effect.ignores_dial? (fun _ _ => rfl),
      filterMap_report Effect.ignores_dial? fun _ => rfl]
    rfl
  rw [Effect.dials, List.filterMap_flatMap, List.zip_map']
  simp only [once]
  exact List.map_eq_flatMap.symm

namespace FanOut

/-- What becomes of a peer. -/
inductive Fate where
  | placed (call : CallHandle)
  | refused (cause : EngineError)
  /-- The identifier of the new call is tracked already. -/
  | reused (call : CallHandle)
deriving DecidableEq, Repr

namespace Fate

/-- What an answer of the engine makes of a peer when these identifiers are tracked. -/
def ofAnswer (tracked : List CallId) : Except EngineError CallHandle → Fate
  | .error cause => refused cause
  | .ok call => if call.id ∈ tracked then reused call else placed call

/-- The identifier that is tracked from then on, if there is one. -/
def id? : Fate → Option CallId
  | placed call => some call.id
  | refused _ | reused _ => none

def placed? (peer : Peer) : Fate → Option PlacedCall
  | placed call => some ⟨call.id, peer.target⟩
  | refused _ | reused _ => none

def error? (peer : Peer) : Fate → Option Error
  | placed _ => none
  | refused cause => some (.placementFailed peer.target cause.message)
  | reused call => some (.duplicateCall call.id)

def tracked? (group : Group) (peer : Peer) : Fate → Option TrackedCall
  | placed call => some ⟨call, group.id, group.name, peer.target, .dialing⟩
  | refused _ | reused _ => none

/-- The call that has to be hung up, if there is one. -/
def dropped? : Fate → Option CallHandle
  | reused call => some call
  | placed _ | refused _ => none

def event (group : Group) (media : Media) (peer : Peer) (fate : Fate) : Event :=
  match fate with
  | placed call => .callPlaced group.name call.id peer.target media
  | refused cause => .placementFailed group.name peer.target
      (Error.placementFailed peer.target cause.message).message
  | reused call => .placementFailed group.name peer.target (Error.duplicateCall call.id).message

/-- An attempt to call the peer has gone this way. -/
inductive Goes (policy : HangupPolicy) (group : Group) (media : Media) (peer : Peer) :
    Fate → DialAttempt → Prop where
  | placed {call : CallHandle} {posted : List CallEvent} :
      Goes policy group media peer (.placed call) ⟨⟨peer.account, peer.target, media⟩,
        .placed ⟨call, group.id, group.name, peer.target, .dialing⟩, posted⟩
  | refused {cause : EngineError} {posted : List CallEvent} :
      Goes policy group media peer (.refused cause)
        ⟨⟨peer.account, peer.target, media⟩, .refused cause, posted⟩
  | reused {call : CallHandle} {failure : Option EngineError} {during posted : List CallEvent} :
      Goes policy group media peer (.reused call) ⟨⟨peer.account, peer.target, media⟩,
        .reused call ⟨⟨call, policy⟩, failure, during⟩, posted⟩

namespace Goes

variable {policy : HangupPolicy} {group : Group} {media : Media} {peer : Peer} {fate : Fate}
  {attempt : DialAttempt}

theorem placed?_eq (goes : Goes policy group media peer fate attempt) :
    fate.placed? peer = attempt.placed? := by
  cases goes <;> rfl

theorem error?_eq (goes : Goes policy group media peer fate attempt) :
    fate.error? peer = attempt.error? := by
  cases goes <;> rfl

theorem request_eq (goes : Goes policy group media peer fate attempt) :
    (⟨peer.account, peer.target, media⟩ : PlaceRequest) = attempt.request := by
  cases goes <;> rfl

theorem events_eq (goes : Goes policy group media peer fate attempt) :
    [fate.event group media peer] = Effect.events (attempt.effects group.name) := by
  rw [DialAttempt.events_effects]
  cases goes <;> rfl

theorem hangups_eq (goes : Goes policy group media peer fate attempt) :
    (fate.dropped?.map fun call => (⟨call, policy⟩ : HangupRequest)).toList
      = Effect.hangups (attempt.effects group.name) := by
  rw [DialAttempt.hangups_effects, Effect.hangups,
    DialAttempt.filterMap_cleanup Effect.ignores_hangup?]
  cases goes <;> rfl

end Goes
end Fate

/-- What the answers of the engine make of the peers. An identifier counts as tracked from the peer
on that it was given out for. -/
def fates (tracked : List CallId) : List (Except EngineError CallHandle) → List Fate
  | [] => []
  | answer :: rest =>
    let fate := Fate.ofAnswer tracked answer
    fate :: fates (tracked ++ fate.id?.toList) rest

def entries (calls : CallTable) (peers : List Peer)
    (answers : List (Except EngineError CallHandle)) : List (Peer × Fate) :=
  peers.zip (fates (calls.calls.map (·.id)) answers)

def placed (entries : List (Peer × Fate)) : List PlacedCall :=
  entries.filterMap fun entry => entry.2.placed? entry.1

def failed (entries : List (Peer × Fate)) : List Error :=
  entries.filterMap fun entry => entry.2.error? entry.1

/-- The calls that get into the table. -/
def records (group : Group) (entries : List (Peer × Fate)) : List TrackedCall :=
  entries.filterMap fun entry => entry.2.tracked? group entry.1

def dropped (entries : List (Peer × Fate)) : List CallHandle :=
  entries.filterMap fun entry => entry.2.dropped?

/-! ## Along the peers -/

variable {σ : Type} {engine : Engine σ} {policy : HangupPolicy} {group : Group} {media : Media}

theorem mem_ids {calls : CallTable} {id : CallId} :
    id ∈ calls.calls.map (·.id) ↔ calls.contains id = true := by
  simp [CallTable.contains]

/-- It goes with a peer as the answer says. A call that has to be tracked is taken into the table
without fail. -/
theorem dial_goes {peer : Peer} {calls grown : CallTable} {state next : σ} {attempt : DialAttempt}
    (dialed : dial engine policy group media peer calls state = (attempt, grown, next)) :
    ∃ fate, Fate.ofAnswer (calls.calls.map (·.id)) attempt.answer = fate ∧
      Fate.Goes policy group media peer fate attempt ∧
      (fate.tracked? group peer).toList.foldlM CallTable.insert calls = .ok grown ∧
      grown.calls.map (·.id) = calls.calls.map (·.id) ++ fate.id?.toList := by
  simp only [dial] at dialed
  cases answer : (engine.place ⟨peer.account, peer.target, media⟩ state).answer with
  | error cause =>
    simp only [answer, Prod.mk.injEq] at dialed
    obtain ⟨rfl, rfl, _⟩ := dialed
    exact ⟨.refused cause, rfl, .refused, rfl, (List.append_nil _).symm⟩
  | ok call =>
    simp only [answer] at dialed
    cases known : calls.contains call.id with
    | false =>
      -- the insertion tests the same identifier again, so it does not fail
      simp only [CallTable.insert, TrackedCall.id, known, Bool.false_eq_true, if_false,
        Prod.mk.injEq] at dialed
      obtain ⟨rfl, rfl, _⟩ := dialed
      refine ⟨.placed call, if_neg ?_, .placed, ?_, ?_⟩
      · rw [mem_ids, known]
        exact Bool.false_ne_true
      · simp [Fate.tracked?, CallTable.insert, TrackedCall.id, known]
      · simp [Fate.id?, TrackedCall.id]
    | true =>
      simp only [CallTable.insert, TrackedCall.id, known, if_true, Prod.mk.injEq] at dialed
      obtain ⟨rfl, rfl, _⟩ := dialed
      exact ⟨.reused call, if_pos (mem_ids.2 known), .reused, rfl, (List.append_nil _).symm⟩

theorem dialEach_goes {peers : List Peer} {calls grown : CallTable} {state next : σ}
    {attempts : List DialAttempt}
    (dialed : dialEach engine policy group media peers calls state = (attempts, grown, next)) :
    List.Forall₂ (fun entry attempt => Fate.Goes policy group media entry.1 entry.2 attempt)
        (entries calls peers (attempts.map (·.answer))) attempts ∧
      (records group (entries calls peers (attempts.map (·.answer)))).foldlM CallTable.insert calls
        = .ok grown := by
  -- for any table, since the next peer meets what this attempt has left there
  induction peers generalizing calls state attempts with
  | nil =>
    simp only [dialEach, Prod.mk.injEq] at dialed
    obtain ⟨rfl, rfl, _⟩ := dialed
    exact ⟨.nil, rfl⟩
  | cons peer rest inductionHypothesis =>
    obtain ⟨attempt, later, between, middle, rfl, first, others⟩ := dialEach_cons dialed
    obtain ⟨fate, decided, goes, taken, ids⟩ := dial_goes first
    obtain ⟨each, all⟩ := inductionHypothesis others
    have whole : entries calls (peer :: rest) ((attempt :: later).map (·.answer))
        = (peer, fate) :: entries between rest (later.map (·.answer)) := by
      simp only [entries, List.map_cons, fates, decided, List.zip_cons_cons, ids]
    rw [whole]
    refine ⟨.cons goes each, ?_⟩
    rw [records, List.filterMap_eq_flatMap_toList, List.flatMap_cons,
      ← List.filterMap_eq_flatMap_toList, List.foldlM_append, taken]
    exact all

/-! ## Reading off the entries -/

theorem length_fates (tracked : List CallId) (answers : List (Except EngineError CallHandle)) :
    (fates tracked answers).length = answers.length := by
  induction answers generalizing tracked with
  | nil => rfl
  | cons answer rest inductionHypothesis => simp [fates, inductionHypothesis]

/-- An identifier is tracked from then on only if it was not tracked yet. -/
theorem ids_fates (tracked : List CallId) (answers : List (Except EngineError CallHandle)) :
    ((fates tracked answers).filterMap (·.id?)).Nodup ∧
      ∀ id ∈ (fates tracked answers).filterMap (·.id?), id ∉ tracked := by
  induction answers generalizing tracked with
  | nil => simp [fates]
  | cons answer rest inductionHypothesis =>
    cases taken : (Fate.ofAnswer tracked answer).id? with
    | none =>
      have same := inductionHypothesis tracked
      simpa only [fates, taken, Option.toList_none, List.append_nil, List.filterMap_cons] using same
    | some id =>
      -- from here on the identifier counts as tracked, so it is not given out again
      obtain ⟨distinct, others⟩ := inductionHypothesis (tracked ++ [id])
      have new : id ∉ tracked := by
        unfold Fate.ofAnswer at taken
        split at taken
        · cases taken
        · split at taken
          · cases taken
          · rename_i untracked
            rw [← Option.some.inj taken]
            exact untracked
      simp only [fates, taken, Option.toList_some, List.filterMap_cons, List.nodup_cons,
        List.forall_mem_cons]
      refine ⟨⟨fun again => others id again (by simp), distinct⟩, new, ?_⟩
      intro other member known
      exact others other member (List.mem_append_left _ known)

theorem length_placed_add_failed (entries : List (Peer × Fate)) :
    (placed entries).length + (failed entries).length = entries.length := by
  -- each peer is either called or skipped
  have either : ∀ (peer : Peer) (fate : Fate),
      (fate.error? peer).isSome = !(fate.placed? peer).isSome := by
    intro peer fate
    cases fate <;> rfl
  unfold placed failed
  rw [List.length_filterMap_eq_countP, List.length_filterMap_eq_countP,
    List.length_eq_countP_add_countP fun entry : Peer × Fate => (entry.2.placed? entry.1).isSome]
  congr 2
  funext entry
  rw [either]
  cases (entry.2.placed? entry.1) <;> rfl

theorem ids_placed (entries : List (Peer × Fate)) :
    (placed entries).map (·.id) = (entries.map (·.2)).filterMap (·.id?) := by
  rw [placed, List.map_filterMap, List.filterMap_map]
  congr 1
  funext entry
  obtain ⟨peer, fate⟩ := entry
  cases fate <;> rfl

theorem records_eq_placed (group : Group) (entries : List (Peer × Fate)) :
    (records group entries).map (fun record => ⟨record.id, record.target⟩) = placed entries := by
  rw [records, placed, List.map_filterMap]
  congr 1
  funext entry
  obtain ⟨peer, fate⟩ := entry
  cases fate <;> rfl

theorem map_fst_entries {peers : List Peer} {answers : List (Except EngineError CallHandle)}
    (each : answers.length = peers.length) (calls : CallTable) :
    (entries calls peers answers).map (·.1) = peers := by
  apply List.map_fst_zip
  exact Nat.le_of_eq ((length_fates _ _).trans each).symm

theorem placed_entries_new {peers : List Peer} {answers : List (Except EngineError CallHandle)}
    (each : answers.length = peers.length) (calls : CallTable) :
    ((placed (entries calls peers answers)).map (·.id)).Nodup ∧
      ∀ call ∈ placed (entries calls peers answers), calls.find? call.id = none := by
  have fates : (entries calls peers answers).map (·.2)
      = fates (calls.calls.map (·.id)) answers := by
    apply List.map_snd_zip
    exact Nat.le_of_eq ((length_fates _ _).trans each)
  obtain ⟨distinct, untracked⟩ := ids_fates (calls.calls.map (·.id)) answers
  rw [← fates, ← ids_placed] at distinct untracked
  refine ⟨distinct, fun call member => ?_⟩
  have absent := untracked call.id (List.mem_map_of_mem member)
  rw [mem_ids, CallTable.contains_eq_isSome] at absent
  simpa using absent

theorem calls_of_foldlM_insert {records : List TrackedCall} {calls grown : CallTable}
    (taken : records.foldlM CallTable.insert calls = .ok grown) :
    grown.calls = calls.calls ++ records := by
  induction records generalizing calls with
  | nil =>
    obtain rfl := Except.ok.inj taken
    exact (List.append_nil _).symm
  | cons record rest inductionHypothesis =>
    rw [List.foldlM_cons] at taken
    cases inserted : calls.insert record with
    | error cause =>
      rw [inserted] at taken
      cases taken
    | ok between =>
      rw [inserted] at taken
      obtain ⟨_, rfl⟩ := CallTable.insert_eq_ok.1 inserted
      rw [inductionHypothesis taken, List.append_assoc]
      rfl

theorem flatMap_of_forall₂ {α β γ : Type} {related : α → β → Prop} {items : List α}
    {others : List β} {first : α → List γ} {second : β → List γ}
    (all : List.Forall₂ related items others)
    (same : ∀ item other, related item other → first item = second other) :
    items.flatMap first = others.flatMap second := by
  induction all with
  | nil => rfl
  | cons here _ inductionHypothesis =>
    rw [List.flatMap_cons, List.flatMap_cons, same _ _ here, inductionHypothesis]

section

variable {entries : List (Peer × Fate)} {attempts : List DialAttempt}
  (all : List.Forall₂ (fun entry attempt => Fate.Goes policy group media entry.1 entry.2 attempt)
    entries attempts)

include all

theorem report_eq :
    report group media attempts = ⟨group.name, media, placed entries, failed entries⟩ := by
  have called : placed entries = attempts.filterMap (·.placed?) := by
    rw [placed, List.filterMap_eq_flatMap_toList, List.filterMap_eq_flatMap_toList]
    exact flatMap_of_forall₂ all fun _ _ goes => congrArg Option.toList goes.placed?_eq
  have skipped : failed entries = attempts.filterMap (·.error?) := by
    rw [failed, List.filterMap_eq_flatMap_toList, List.filterMap_eq_flatMap_toList]
    exact flatMap_of_forall₂ all fun _ _ goes => congrArg Option.toList goes.error?_eq
  rw [called, skipped]
  rfl

theorem requests_eq :
    attempts.map (·.request) = entries.map fun entry =>
      ⟨entry.1.account, entry.1.target, media⟩ := by
  rw [List.map_eq_flatMap, List.map_eq_flatMap]
  exact (flatMap_of_forall₂ all fun _ _ goes => congrArg List.singleton goes.request_eq).symm

theorem events_eq :
    Effect.events (attempts.flatMap (·.effects group.name))
      = entries.map fun entry => entry.2.event group media entry.1 := by
  rw [Effect.events, List.filterMap_flatMap, List.map_eq_flatMap]
  exact (flatMap_of_forall₂ all fun _ _ goes => goes.events_eq).symm

theorem hangups_eq :
    Effect.hangups (attempts.flatMap (·.effects group.name))
      = (dropped entries).map fun call => ⟨call, policy⟩ := by
  rw [Effect.hangups, List.filterMap_flatMap, dropped, List.map_filterMap,
    List.filterMap_eq_flatMap_toList]
  exact (flatMap_of_forall₂ all fun _ _ goes => goes.hangups_eq).symm

end

end FanOut

namespace Switchboard

variable {σ : Type}

/-- The engine was asked once for each peer and gave these answers, and what has come of it is what
the entries say. -/
structure Accounted (board : Switchboard) (group : Group) (media : Media)
    (answers : List (Except EngineError CallHandle)) (entries : List (Peer × FanOut.Fate))
    (outcome : Outcome (Except Error FanOutReport)) : Prop where
  each : answers.length = group.peers.length
  peers : entries.map (·.1) = group.peers
  asked : Effect.dials outcome.effects
    = (group.peers.map fun peer => ⟨peer.account, peer.target, media⟩).zip answers
  report : outcome.result
    = .ok ⟨group.name, media, FanOut.placed entries, FanOut.failed entries⟩
  counts : (FanOut.placed entries).length + (FanOut.failed entries).length = group.peers.length
  events : Effect.events outcome.effects
    = entries.map fun entry => entry.2.event group media entry.1
  distinct : ((FanOut.placed entries).map (·.id)).Nodup
  untracked : ∀ call ∈ FanOut.placed entries, board.calls.find? call.id = none
  /-- No insertion has failed. -/
  inserted : (FanOut.records group entries).foldlM CallTable.insert board.calls
    = .ok outcome.board.calls
  calls : outcome.board.calls.calls = board.calls.calls ++ FanOut.records group entries
  records : (FanOut.records group entries).map (fun record => ⟨record.id, record.target⟩)
    = FanOut.placed entries
  rest : outcome.board = { board with calls := outcome.board.calls }
  hangups : Effect.hangups outcome.effects
    = (FanOut.dropped entries).map fun call => ⟨call, board.config.supersede⟩
  tickets : Effect.tickets outcome.effects = []

/-- A request to call the peers of a registered group succeeds unless there would be no media. Each
peer is called or skipped as the answers of the engine say, whatever they are and whatever the
table holds. -/
theorem fan_out_accounts_for_peers {engine : Engine σ} {board : Switchboard} {name : String}
    {group : Group} (registered : board.groups.find? name = some group) {media : Media}
    (audible : media.audio ≠ .inactive ∨ media.video ≠ .inactive) (state : σ) :
    ∃ answers, board.Accounted group media answers
      (FanOut.entries board.calls group.peers answers)
      (board.startCall engine name media state).1 := by
  generalize called : FanOut.dialEach engine board.config.supersede group media group.peers
    board.calls state = dialed
  obtain ⟨attempts, grown, next⟩ := dialed
  have done : (board.startCall engine name media state).1
      = ⟨.ok (FanOut.report group media attempts), { board with calls := grown },
          attempts.flatMap (·.effects group.name)⟩ := by
    simp only [startCall, GroupTable.find, registered, FanOut.checkMedia,
      Media.isSilent_eq_false_iff.2 audible, called]
    rfl
  have each : (attempts.map (·.answer)).length = group.peers.length := by
    rw [List.length_map, ← FanOut.length_dialEach engine group.peers board.calls state, called]
  obtain ⟨all, taken⟩ := FanOut.dialEach_goes called
  have peers := FanOut.map_fst_entries each board.calls
  obtain ⟨distinct, untracked⟩ := FanOut.placed_entries_new each board.calls
  refine ⟨attempts.map (·.answer), ?_⟩
  rw [done]
  refine ⟨each, peers, ?_, ?_, ?_, FanOut.events_eq all, distinct, untracked, taken,
    FanOut.calls_of_foldlM_insert taken, FanOut.records_eq_placed group _, rfl,
    FanOut.hangups_eq all, DialAttempt.tickets_flatMap _ _⟩
  · -- the entries forget the answers, and the peers in them are those of the group
    rw [DialAttempt.dials_flatMap, FanOut.requests_eq all]
    conv_rhs => rw [← peers, List.map_map]
    rfl
  · rw [FanOut.report_eq all]
  · rw [FanOut.length_placed_add_failed, ← List.length_map, peers]

end Switchboard

/-! ## A sample -/

namespace Mixed

/-- A group of five, and a call of another group that is tracked already. -/
def operations : List Switchboard.Operation :=
  [.request (.createGroup "H"), .request (.addPeer "H" "sip:h@x" none),
    .request (.startCall "H" {}), .request (.createGroup "G"),
    .request (.addPeer "G" "sip:a@x" none), .request (.addPeer "G" "sip:b@x" none),
    .request (.addPeer "G" "sip:c@x" none), .request (.addPeer "G" "sip:d@x" none),
    .request (.addPeer "G" "sip:e@x" none)]

/-- The second peer is refused. The third one gets the identifier of the tracked call, and the
fourth one that of the first. -/
def script : EngineScript :=
  { nextIds := [⟨"u"⟩, ⟨"v"⟩, ⟨"u"⟩, ⟨"v"⟩, ⟨"w"⟩]
    refusals := [("sip:b@x", .unreachable "busy")] }

def board : Switchboard := (Rematch.board.run EngineScript.engine operations script).2.1

def engine : EngineScript := (Rematch.board.run EngineScript.engine operations script).2.2

def outcome : Outcome (Except Error FanOutReport) :=
  (board.startCall EngineScript.engine "G" {} engine).1

theorem fan_out_accounts_for_five :
    (∃ group answers, group.peers.length = 5 ∧
      board.Accounted group {} answers (FanOut.entries board.calls group.peers answers)
        outcome) ∧
      outcome.result = .ok ⟨"G", {}, [⟨⟨"v"⟩, "sip:a@x"⟩, ⟨⟨"w"⟩, "sip:e@x"⟩],
        [.placementFailed "sip:b@x" "target unreachable: busy", .duplicateCall ⟨"u"⟩,
          .duplicateCall ⟨"v"⟩]⟩ ∧
      (Effect.hangups outcome.effects).map (·.call)
        = [⟨⟨"u"⟩, "sip:c@x"⟩, ⟨⟨"v"⟩, "sip:d@x"⟩] := by
  obtain ⟨group, registered, five⟩ : ∃ group, board.groups.find? "G" = some group ∧
      group.peers.length = 5 := by
    decide +kernel
  have audible : ({} : Media).audio ≠ .inactive ∨ ({} : Media).video ≠ .inactive := .inl nofun
  obtain ⟨answers, done⟩ := Switchboard.fan_out_accounts_for_peers registered audible engine
  exact ⟨⟨group, answers, five, done⟩, by decide +kernel, by decide +kernel⟩

end Mixed
end CallFork
