import CallFork.Proofs.Commuting
import CallFork.Proofs.Draining
import CallFork.Proofs.TableOrder

/-! # Settling a race

What comes of an answer, or of a request to hang up a group, until the mailbox of the service is
empty again, over an engine that closes what it hangs up. The losers of a race are not tracked any
more when their closed events come, so nothing comes of those; each of the tickets behind them then
ends a release. In a group that is hung up, each closed event ends a tracked call.

A group is hung up in the order of the table, which means nothing; so all of this is shown of a
service with its table in any order (`Service.inOrder`).
-/

namespace CallFork

namespace Effect

/-- How often a call was asked to hang up. -/
def hangupsOf (effects : List Effect) (id : CallId) : Nat :=
  (hangups effects).countP fun request => request.call.id = id

/-- What observers are told of a call. -/
def eventsOf (effects : List Effect) (id : CallId) : List Event :=
  (events effects).filter fun event => event.callId? = some id

@[simp] theorem hangupsOf_append (first second : List Effect) (id : CallId) :
    hangupsOf (first ++ second) id = hangupsOf first id + hangupsOf second id := by
  simp [hangupsOf]

end Effect

variable {σ : Type} {engine : Engine σ} {view : σ → Simulation} {turns : List (Turn σ)}
  {service : Service σ}

/-! ## The calls of the group -/

namespace CallTable

variable {table : CallTable} {winner : TrackedCall}

/-- Everyone else in the group of a call is its sibling. -/
theorem length_inGroup (distinct : table.Distinct) (found : table.find? winner.id = some winner) :
    (table.inGroup winner.groupId).length = 1 + (table.siblings winner.id).length := by
  rw [siblings_eq found, List.length_mergeSort,
    List.length_eq_length_filter_add fun call : TrackedCall => decide (call.id = winner.id),
    inGroup_filter_id distinct found]
  congr 2
  apply List.filter_congr
  intro call _
  simp [eq_comm]

/-- Of the group of a winner, only the winner is left. -/
theorem inGroup_won (distinct : table.Distinct) (found : table.find? winner.id = some winner) :
    ((table.establish winner.id).eraseAll ((table.siblings winner.id).map (·.id))).inGroup
        winner.groupId = [{ winner with state := .established }] := by
  have left := inGroup_eraseSiblings distinct found
  unfold siblingIds at left
  rw [eraseAll_establish, map_inGroup_establish, left]
  simp

/-- The calls of other groups stay as they are. -/
theorem inGroup_won_of_ne (distinct : table.Distinct)
    (found : table.find? winner.id = some winner) (rings : winner.state = .dialing)
    {group : GroupId} (other : group ≠ winner.groupId) :
    ((table.establish winner.id).eraseAll ((table.siblings winner.id).map (·.id))).inGroup group
      = table.inGroup group := by
  have won := verdict_established found
  rw [if_pos rings] at won
  have kept : ((table.verdict (.established winner.id)).calls table).inGroup group
      = table.inGroup group := by
    apply inGroup_calls distinct
    intro call tracked same
    obtain rfl := Option.some.inj (found.symm.trans tracked)
    exact other same.symm
  rw [won] at kept
  exact kept

theorem inGroup_eraseGroup (table : CallTable) (group : GroupId) :
    (table.eraseAll ((table.inGroup group).map (·.id))).inGroup group = [] := by
  apply List.filter_eq_nil_iff.2
  intro call member same
  obtain ⟨tracked, kept⟩ := mem_eraseAll.1 member
  exact kept (List.mem_map_of_mem (mem_inGroup.2 ⟨tracked, of_decide_eq_true same⟩))

end CallTable

/-! ## What has come of it -/

namespace Service

/-- What has come of an answer when the mailbox is empty again. -/
structure RaceOver (before : Service σ) (winner : TrackedCall) (logs : List TurnLog)
    (after : Service σ) : Prop where
  mailbox : after.mailbox = []
  turns : logs.length = 1 + 2 * ((before.board.calls.inGroup winner.groupId).length - 1)
  left : after.board.calls.inGroup winner.groupId = [{ winner with state := .established }]
  others : ∀ group, group ≠ winner.groupId →
    after.board.calls.inGroup group = before.board.calls.inGroup group
  groups : after.board.groups = before.board.groups
  pending : after.board.releases.pending = []
  spared : Effect.hangupsOf (logs.flatMap (·.effects)) winner.id = 0
  losers : ∀ loser ∈ before.board.calls.inGroup winner.groupId, loser.id ≠ winner.id →
    Effect.hangupsOf (logs.flatMap (·.effects)) loser.id = 1 ∧
      ∃ deferredTurn releasedTurn, Effect.eventsOf (logs.flatMap (·.effects)) loser.id
        = [.callClosed loser.groupName loser.id (some rejectedLocally) true,
          .callReleased loser.id deferredTurn releasedTurn]

/-- What has come of a request to hang up a group when the mailbox is empty again. -/
structure GroupOver (before : Service σ) (group : GroupId) (logs : List TurnLog)
    (after : Service σ) : Prop where
  mailbox : after.mailbox = []
  turns : logs.length = 1 + (before.board.calls.inGroup group).length
  left : after.board.calls.inGroup group = []
  others : ∀ other, other ≠ group →
    after.board.calls.inGroup other = before.board.calls.inGroup other
  groups : after.board.groups = before.board.groups
  pending : after.board.releases.pending = []
  closed : ∀ call ∈ before.board.calls.inGroup group,
    Effect.hangupsOf (logs.flatMap (·.effects)) call.id = 1 ∧
      Effect.eventsOf (logs.flatMap (·.effects)) call.id
        = [.callClosed call.groupName call.id before.board.config.groupHangup.reason false]

end Service

namespace Effect

theorem flatten_publish (told : List Event) :
    (told.map fun event => [publish event]).flatten = told.map publish := by
  rw [← List.flatMap_def]
  exact List.map_eq_flatMap.symm

/-- A hangup for each of some calls makes one for each of their identifiers. -/
theorem hangupsOf_eq_one {effects : List Effect} {calls : List TrackedCall} {policy : HangupPolicy}
    (asked : hangups effects = calls.map fun call => ⟨call.call, policy⟩)
    (distinct : (calls.map (·.id)).Nodup) {call : TrackedCall} (member : call ∈ calls) :
    hangupsOf effects call.id = 1 := by
  have only := filter_key_eq distinct member
  rw [hangupsOf, asked, List.countP_map, List.countP_eq_length_filter]
  exact congrArg List.length only

theorem hangupsOf_eq_zero {effects : List Effect} {calls : List TrackedCall} {policy : HangupPolicy}
    (asked : hangups effects = calls.map fun call => ⟨call.call, policy⟩) {id : CallId}
    (absent : ∀ call ∈ calls, call.id ≠ id) : hangupsOf effects id = 0 := by
  rw [hangupsOf, asked, List.countP_map, List.countP_eq_zero]
  intro call member same
  exact absent call member (of_decide_eq_true same)

end Effect

theorem Turn.hangupsOf_eq_zero {id : CallId} (unasked : ¬ Turn.Asked turns id) :
    Effect.hangupsOf ((turns.map (·.log)).flatMap (·.effects)) id = 0 := by
  apply List.countP_eq_zero.2
  intro request member same
  simp only [Effect.hangups, List.filterMap_flatMap, List.flatMap_map] at member
  obtain ⟨turn, present, asked⟩ := List.mem_flatMap.1 member
  exact unasked ⟨turn, present, request, asked, of_decide_eq_true same⟩

/-- Of events that tell one thing of each call, one is about each of them. -/
theorem Event.filter_map_eq {calls : List TrackedCall} (distinct : (calls.map (·.id)).Nodup)
    {tell : TrackedCall → Event} (about : ∀ call, (tell call).callId? = some call.id)
    {call : TrackedCall} (member : call ∈ calls) :
    (calls.map tell).filter (fun event => event.callId? = some call.id) = [tell call] := by
  have only := filter_key_eq distinct member
  simp only [List.filter_map, Function.comp_def, about, Option.some.injEq, only,
    List.map_singleton]

namespace ReleaseTable

theorem filter_released (turn : Nat) {entries : List PendingRelease}
    (distinct : ((entries.map (·.call)).map (·.id)).Nodup) {entry : PendingRelease}
    (member : entry ∈ entries) :
    ∃ releasedTurn, (released turn entries).filter (fun event =>
        event.callId? = some entry.call.id)
      = [.callReleased entry.call.id entry.deferredTurn releasedTurn] := by
  obtain ⟨releasedTurn, told⟩ : ∃ releasedTurn, .callReleased entry.call.id entry.deferredTurn
      releasedTurn ∈ released turn entries := mem_released member
  have distinctly : ((released turn entries).map (·.callId?)).Nodup := by
    rw [callIds_released]
    have apart := distinct.map fun _ _ (same : some _ = some _) => Option.some.inj same
    rw [List.map_map, List.map_map] at apart
    exact apart
  exact ⟨releasedTurn, filter_key_eq distinctly told⟩

end ReleaseTable

namespace Switchboard

/-- What is asked and told about the losers, up to the end of their releases. -/
theorem supersede_and_release (board : Switchboard) {winner : TrackedCall}
    (distinct : board.calls.Distinct) (found : board.calls.find? winner.id = some winner)
    (state : σ) (turn : Nat) {effects : List Effect}
    (all : effects = (board.supersede engine winner state).1.effects
      ++ (ReleaseTable.released turn (ReleaseTable.entriesFrom board.releases.issued board.turn
          (board.calls.siblings winner.id))).map .publish) :
    Effect.hangupsOf effects winner.id = 0 ∧
      ∀ loser ∈ board.calls.siblings winner.id, Effect.hangupsOf effects loser.id = 1 ∧
        ∃ deferredTurn releasedTurn, Effect.eventsOf effects loser.id
          = [.callClosed loser.groupName loser.id (some rejectedLocally) true,
            .callReleased loser.id deferredTurn releasedTurn] := by
  have asked : Effect.hangups effects = (board.calls.siblings winner.id).map fun loser =>
      ⟨loser.call, board.config.supersede⟩ := by
    rw [all, Effect.hangups_append, hangups_supersede]
    simp [Effect.hangups, Effect.hangup?, Function.comp_def]
  have apart := CallTable.siblings_distinct distinct winner.id
  refine ⟨Effect.hangupsOf_eq_zero asked fun loser member =>
    ((CallTable.mem_siblings found).1 member).2.2, ?_⟩
  intro loser member
  refine ⟨Effect.hangupsOf_eq_one asked apart member, ?_⟩
  have told : Effect.events effects = (board.calls.siblings winner.id).map (fun loser =>
        .callClosed loser.groupName loser.id (some rejectedLocally) true)
      ++ [.raceWon winner.groupName winner.id (board.calls.siblings winner.id).length]
      ++ ReleaseTable.released turn (ReleaseTable.entriesFrom board.releases.issued board.turn
          (board.calls.siblings winner.id)) := by
    rw [all, Effect.events_append, events_supersede, Effect.events_publish]
  obtain ⟨entry, kept, rfl⟩ : ∃ entry ∈ ReleaseTable.entriesFrom board.releases.issued board.turn
      (board.calls.siblings winner.id), entry.call = loser := by
    apply List.mem_map.1
    rw [ReleaseTable.map_call_entriesFrom]
    exact member
  obtain ⟨releasedTurn, released⟩ := ReleaseTable.filter_released turn
    (by rw [ReleaseTable.map_call_entriesFrom]; exact apart) kept
  have other : winner.id ≠ entry.call.id := fun same =>
    ((CallTable.mem_siblings found).1 member).2.2 same.symm
  refine ⟨entry.deferredTurn, releasedTurn, ?_⟩
  rw [Effect.eventsOf, told, List.filter_append, List.filter_append, released,
    Event.filter_map_eq apart (fun _ => rfl) member]
  simp [Event.callId?, other]

end Switchboard

namespace Service

/-- The service runs, someone is connected, and nothing waits: no message and no release. -/
structure Idle (service : Service σ) : Prop where
  running : service.isRunning = true
  connected : service.isConnected = true
  mailbox : service.mailbox = []
  pending : service.board.releases.pending = []
  sound : service.board.Sound

theorem Idle.raceOver (idle : service.Idle) (simulates : engine.Simulates view)
    (closes : (view service.engine).autoClose = true) {call : TrackedCall}
    (found : service.board.calls.find? call.id = some call) (rings : call.state = .dialing) :
    ∃ posted logs final, service.post (.established call.id) = .ok posted ∧
      posted.settle engine = (logs, final) ∧ service.RaceOver call logs final := by
  have sound := idle.sound
  obtain ⟨posted, sent, mailbox, board, state, goesOn, present⟩ :=
    send_of_idle idle.running idle.mailbox (.event (.established call.id))
  obtain ⟨final, drains, mailbox, present, groups, pending, calls⟩ :=
    drains_answer goesOn (present.trans idle.connected) (board ▸ sound)
      (board ▸ idle.pending) simulates (state ▸ closes) (board ▸ found) rings mailbox rfl rfl
  obtain ⟨logs, settled, same⟩ := drains.settle present mailbox
  rw [board] at groups calls same
  have tracked : service.board.beginTurn.calls.find? call.id = some call := found
  have all := congrArg List.flatten same
  rw [← List.flatMap_def, List.cons_append, List.flatten_cons, List.flatten_append, List.map_const',
    List.flatten_replicate_nil, List.nil_append, Effect.flatten_publish] at all
  obtain ⟨spared, losers⟩ :=
    service.board.beginTurn.supersede_and_release sound.distinct tracked _ _ all
  refine ⟨posted, logs, final, sent, settled, mailbox, ?_, ?_, ?_, groups, pending, spared, ?_⟩
  · have count := congrArg List.length same
    simp only [List.length_map, List.length_append, List.length_cons, ReleaseTable.length_released,
      ReleaseTable.length_entriesFrom] at count
    rw [count, CallTable.length_inGroup sound.distinct found]
    omega
  · rw [calls]
    exact CallTable.inGroup_won sound.distinct found
  · intro group other
    rw [calls]
    exact CallTable.inGroup_won_of_ne sound.distinct found rings other
  · intro loser member apart
    obtain ⟨present, group⟩ := CallTable.mem_inGroup.1 member
    exact losers loser ((CallTable.mem_siblings tracked).2 ⟨present, group, apart⟩)

theorem Idle.groupOver (idle : service.Idle) (simulates : engine.Simulates view)
    (closes : (view service.engine).autoClose = true) {name : String} {group : Group}
    (found : service.board.groups.find? name = some group) :
    ∃ slot sent logs final,
      service.submit (.request (.hangupGroup name)) = .ok (slot, sent) ∧
      sent.settle engine = (logs, final) ∧ service.GroupOver group.id logs final := by
  have distinct := idle.sound.distinct
  obtain ⟨sent, submitted, mailbox, board, state, goesOn, present⟩ :=
    submit_of_idle idle.running idle.mailbox (.request (.hangupGroup name))
  obtain ⟨final, drains, mailbox, present, last⟩ :=
    drains_hangup goesOn (present.trans idle.connected) (board ▸ distinct) simulates
      (state ▸ closes) (board ▸ found) mailbox rfl
  obtain ⟨logs, settled, same⟩ := drains.settle present mailbox
  rw [board] at last same
  refine ⟨service.nextSlot, sent, logs, final, submitted, settled, mailbox, ?_, ?_, ?_, ?_, ?_, ?_⟩
  · have count := congrArg List.length same
    simp only [List.length_map, List.length_cons] at count
    rw [count, Nat.add_comm]
  · rw [last]
    exact CallTable.inGroup_eraseGroup _ _
  · intro other apart
    rw [last]
    exact CallTable.inGroup_eraseAll_of_ne distinct (fun _ listed => listed) apart
  · rw [last]
  · rw [last]
    exact idle.pending
  · intro call member
    have all := congrArg List.flatten same
    rw [← List.flatMap_def, List.flatten_cons, Effect.flatten_publish] at all
    have asked : Effect.hangups (logs.flatMap (·.effects))
        = (service.board.calls.inGroup group.id).map fun call =>
          ⟨call.call, service.board.config.groupHangup⟩ := by
      rw [all, Effect.hangups_append, HangupAttempt.hangups_flatMap, List.map_map]
      simp [Effect.hangups, Effect.hangup?, HangupAttempt.closing, Function.comp_def]
    have told : Effect.events (logs.flatMap (·.effects))
        = (service.board.calls.inGroup group.id).map fun call => .callClosed call.groupName call.id
          service.board.config.groupHangup.reason false := by
      rw [all, Effect.events_append, HangupAttempt.events_flatMap, Effect.events_publish]
      rfl
    have apart := CallTable.inGroup_distinct distinct group.id
    refine ⟨Effect.hangupsOf_eq_one asked apart member, ?_⟩
    rw [Effect.eventsOf, told]
    exact Event.filter_map_eq apart (fun _ => rfl) member

/-- The service with its table of tracked calls in some order. -/
def inOrder (service : Service σ) (order : CallTable) : Service σ :=
  { service with board := { service.board with calls := order } }

theorem Idle.inOrder {order : CallTable} (idle : service.Idle)
    (same : order.calls.Perm service.board.calls.calls) : (service.inOrder order).Idle where
  running := idle.running
  connected := idle.connected
  mailbox := idle.mailbox
  pending := idle.pending
  sound := ⟨CallTable.distinct_of_perm idle.sound.distinct same, idle.sound.ticketed⟩

end Service

namespace Session

theorem idle (session : Session engine turns service) (connected : service.isConnected = true)
    (mailbox : service.mailbox = []) (running : service.isRunning = true) : service.Idle where
  running := running
  connected := connected
  mailbox := mailbox
  pending := session.none_pending running connected mailbox
  sound := by
    obtain ⟨_, reached⟩ := session.reach
    exact reached.sound

/-- Between two turns with an empty mailbox, over an engine that closes what it hangs up and gives
out no identifier twice, and whichever order the table holds its calls in: an answer to a call that
rings, and a request to hang up a group, each empty the mailbox again after a number of turns that
depends only on how many calls the group has. The answered call is the one that is left of its group,
and was never asked to hang up; every other call of the group was asked once, announced closed once
and released once. Of a group that was hung up nothing is left, and each of its calls was reported
closed once. -/
theorem mailbox_settles (session : Session engine turns service)
    (simulates : engine.Simulates view) (connected : service.isConnected = true)
    (idle : service.mailbox = []) (closes : (view service.engine).autoClose = true)
    (unfixed : (view service.engine).fixedId = none) {order : CallTable}
    (same : order.calls.Perm service.board.calls.calls) :
    (∀ call, order.find? call.id = some call → call.state = .dialing →
      ∃ posted logs final, (service.inOrder order).post (.established call.id) = .ok posted ∧
        posted.settle engine = (logs, final) ∧
        (service.inOrder order).RaceOver call logs final ∧
        Effect.hangupsOf ((turns.map (·.log) ++ logs).flatMap (·.effects)) call.id = 0) ∧
    ∀ name group, service.board.groups.find? name = some group →
      ∃ slot sent logs final,
        (service.inOrder order).submit (.request (.hangupGroup name)) = .ok (slot, sent) ∧
        sent.settle engine = (logs, final) ∧
        (service.inOrder order).GroupOver group.id logs final := by
  cases running : service.isRunning with
  | false =>
    -- a service that has stopped keeps neither calls nor groups
    obtain ⟨calls, groups⟩ := session.empty_of_stopped running
    rw [calls] at same
    refine ⟨fun call found => ?_, fun name group found => ?_⟩
    · exact absurd (CallTable.mem_of_find? found).1 (by simp [same.eq_nil])
    · simp [GroupTable.find?, groups] at found
  | true =>
    have shuffled := (session.idle connected idle running).inOrder same
    refine ⟨fun call found rings => ?_, fun name group found => ?_⟩
    · obtain ⟨posted, logs, final, sent, settled, outcome⟩ :=
        shuffled.raceOver simulates closes found rings
      have unasked := session.unasked simulates connected unfixed closes idle
        (same.mem_iff.1 (CallTable.mem_of_find? found).1)
      refine ⟨posted, logs, final, sent, settled, outcome, ?_⟩
      rw [List.flatMap_append, Effect.hangupsOf_append, outcome.spared,
        Turn.hangupsOf_eq_zero unasked]
    · exact shuffled.groupOver simulates closes found

/-! ## A sample session -/

namespace Trio

/-- Three calls of one group ring, and one of another. -/
def messages : List Message :=
  [.request (.createGroup "G") 0, .request (.addPeer "G" "sip:a@x" none) 1,
    .request (.addPeer "G" "sip:b@x" none) 2, .request (.addPeer "G" "sip:c@x" none) 3,
    .request (.createGroup "H") 4, .request (.addPeer "H" "sip:d@x" none) 5,
    .request (.startCall "G" {}) 6, .request (.startCall "H" {}) 7]

def rung : List (Turn Simulation) × Service Simulation :=
  Service.takeTurns Simulation.engine 8
    { board := Rematch.board, engine := { autoClose := true }, mailbox := messages }

theorem session : Session Simulation.engine rung.1 rung.2 := by
  have started : Service.start Rematch.board.config Rematch.board.accounts
      ({ autoClose := true } : Simulation)
      = .ok { board := Rematch.board, engine := { autoClose := true } } := rfl
  exact Session.begun started messages (by decide) 8

def second : TrackedCall :=
  ⟨⟨⟨"call-2"⟩, "sip:b@x"⟩, ⟨1⟩, "G", "sip:b@x", .dialing⟩

/-- The table from its end to its beginning. -/
def reversed : CallTable := ⟨rung.2.board.calls.calls.reverse⟩

theorem mailbox_settles_with_three :
    (∃ posted logs final,
      (rung.2.inOrder reversed).post (.established ⟨"call-2"⟩) = .ok posted ∧
      posted.settle Simulation.engine = (logs, final) ∧ logs.length = 5 ∧ final.mailbox = [] ∧
      final.board.calls.inGroup ⟨1⟩ = [{ second with state := .established }] ∧
      Effect.hangupsOf (logs.flatMap (·.effects)) ⟨"call-3"⟩ = 1) ∧
    ∃ slot sent logs final,
      (rung.2.inOrder reversed).submit (.request (.hangupGroup "G")) = .ok (slot, sent) ∧
      sent.settle Simulation.engine = (logs, final) ∧ logs.length = 4 ∧
      final.board.calls.inGroup ⟨1⟩ = [] := by
  have connected : rung.2.isConnected = true := by decide +kernel
  have idle : rung.2.mailbox = [] := by decide +kernel
  have found : reversed.find? second.id = some second := by decide +kernel
  have three : (reversed.inGroup ⟨1⟩).length = 3 := by decide +kernel
  have third : ∃ loser ∈ reversed.inGroup ⟨1⟩, loser.id = ⟨"call-3"⟩ := by decide +kernel
  have same : reversed.calls.Perm rung.2.board.calls.calls := List.reverse_perm _
  obtain ⟨answers, hangups⟩ := session.mailbox_settles Simulation.simulates connected idle
    (by decide +kernel) (by decide +kernel) same
  constructor
  · obtain ⟨posted, logs, final, sent, settled, outcome, _⟩ := answers second found rfl
    obtain ⟨loser, member, named⟩ := third
    have lost := (outcome.losers loser member (by rw [named]; decide)).1
    refine ⟨posted, logs, final, sent, settled, ?_, outcome.mailbox, outcome.left, named ▸ lost⟩
    rw [outcome.turns]
    change 1 + 2 * ((reversed.inGroup ⟨1⟩).length - 1) = 5
    rw [three]
  · obtain ⟨group, registered, number⟩ : ∃ group, rung.2.board.groups.find? "G" = some group ∧
        group.id = ⟨1⟩ := by
      decide +kernel
    obtain ⟨slot, sent, logs, final, submitted, settled, outcome⟩ := hangups "G" group registered
    rw [number] at outcome
    refine ⟨slot, sent, logs, final, submitted, settled, ?_, outcome.left⟩
    rw [outcome.turns]
    change 1 + (reversed.inGroup ⟨1⟩).length = 4
    rw [three]

end Trio
end Session
end CallFork
