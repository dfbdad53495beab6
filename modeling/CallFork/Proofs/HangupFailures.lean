import CallFork.Proofs.History
import Mathlib.Data.List.Forall2

/-! # Failing hangups change nothing

Two engines that answer the same placements in the same way may fail any hangups they like: the runs
of a switchboard over them are step by step the same, but for the number of accepted requests that a
hangup of a group reports, and for the warnings. Whatever an operation does to the switchboard is
settled before the engine has said how the hangups went, so the answers to the placements are all
that is left of the engine (`dialEach_alike`, `perform_alike`).

The order in which a table holds its calls means nothing, so a run may find them in another order on
each operation (`Switchboard.arrangedHistory`).
-/

namespace CallFork

/-! ## What does not depend on how hangups go -/

namespace Warning

/-- The warning says that a hangup failed. -/
def isHangupFailure : Warning → Bool
  | untrackedHangupFailed _ _ | groupHangupFailed _ _ _ | supersedeHangupFailed _ _ => true
  | peerSkipped _ _ _ | idReused _ | lateAnswer _ | releaseUnposted _ => false

end Warning

namespace Effect

/-- What is left of an effect if the engine's own events and the fate of hangups are left out. -/
def overt? : Effect → Option Effect
  | hangup request _ => some (hangup request none)
  | post _ => none
  | warn warning => if warning.isHangupFailure then none else some (warn warning)
  | publish event => some (publish event)
  | place request answer => some (place request answer)
  | schedule ticket => some (schedule ticket)

def overt (effects : List Effect) : List Effect := effects.filterMap overt?

/-- What the engine answered, if it was asked to place a call. -/
def answer? : Effect → Option (Except EngineError CallHandle)
  | place _ answer => some answer
  | publish _ | hangup _ _ | post _ | schedule _ | warn _ => none

def answers (effects : List Effect) : List (Except EngineError CallHandle) :=
  effects.filterMap answer?

@[simp] theorem overt_append (first second : List Effect) :
    overt (first ++ second) = overt first ++ overt second :=
  List.filterMap_append

@[simp] theorem answers_append (first second : List Effect) :
    answers (first ++ second) = answers first ++ answers second :=
  List.filterMap_append

theorem ignores_answer? : Ignores answer? := ⟨fun _ => rfl, fun _ => rfl⟩

/-- Any kind of effects that does not tell accepted hangups from failed ones is overt. -/
theorem filterMap_overt {β : Type} {kind : Effect → Option β} (ignores : Ignores kind)
    (blind : ∀ request failure, kind (.hangup request failure) = kind (.hangup request none))
    (effects : List Effect) : (overt effects).filterMap kind = effects.filterMap kind := by
  unfold overt
  rw [List.filterMap_filterMap]
  congr 1
  funext effect
  cases effect with
  | hangup request failure => exact (blind request failure).symm
  | post event => exact (ignores.posts event).symm
  | warn warning =>
    by_cases failed : warning.isHangupFailure = true <;> simp [overt?, failed, ignores.warnings]
  | publish | place | schedule => rfl

end Effect

/-- The report without the number of accepted hangups. -/
def Switchboard.Report.uncounted : Switchboard.Report → Switchboard.Report
  | .answer (.ok (.hungUp name _)) => .answer (.ok (.hungUp name 0))
  | report => report

namespace Step

/-- The answers to all placements of some steps, in order. -/
def answers (steps : List Step) : List (Except EngineError CallHandle) :=
  Effect.answers (steps.flatMap (·.outcome.effects))

/-- The steps differ at most in how hangups went, and in what follows from that for the log and for
the number that is reported. -/
structure Alike (first second : Step) : Prop where
  before : first.before = second.before
  operation : first.operation = second.operation
  after : first.after = second.after
  report : first.outcome.result.uncounted = second.outcome.result.uncounted
  events : Effect.events first.outcome.effects = Effect.events second.outcome.effects
  hangups : Effect.hangups first.outcome.effects = Effect.hangups second.outcome.effects
  tickets : Effect.tickets first.outcome.effects = Effect.tickets second.outcome.effects
  overt : Effect.overt first.outcome.effects = Effect.overt second.outcome.effects

theorem alike_of_overt {board : Switchboard} {operation : Switchboard.Operation}
    {first second : Outcome Switchboard.Report} (after : first.board = second.board)
    (report : first.result.uncounted = second.result.uncounted)
    (overt : Effect.overt first.effects = Effect.overt second.effects) :
    Alike ⟨board, operation, first⟩ ⟨board, operation, second⟩ := by
  have shown : ∀ {β : Type} {kind : Effect → Option β}, Effect.Ignores kind →
      (∀ request failure, kind (.hangup request failure) = kind (.hangup request none)) →
      first.effects.filterMap kind = second.effects.filterMap kind := by
    intro β kind ignores blind
    rw [← Effect.filterMap_overt ignores blind, overt, Effect.filterMap_overt ignores blind]
  exact ⟨rfl, rfl, after, report, shown Effect.ignores_event? fun _ _ => rfl,
    shown Effect.ignores_hangup? fun _ _ => rfl, shown Effect.ignores_ticket? fun _ _ => rfl, overt⟩

end Step

/-! ## Hanging up -/

namespace HangupAttempt

variable {warning : CallId → EngineError → Warning}

theorem overt_effects (hidden : ∀ id cause, (warning id cause).isHangupFailure = true)
    (attempt : HangupAttempt) :
    Effect.overt (attempt.effects warning) = [.hangup attempt.request none] := by
  have posts : (attempt.posted.map Effect.post).filterMap Effect.overt? = [] := by
    simp [List.filterMap_map, Effect.overt?]
  have warned : (attempt.failure.toList.map fun cause =>
      Effect.warn (warning attempt.request.call.id cause)).filterMap Effect.overt? = [] := by
    simp [List.filterMap_map, Effect.overt?, hidden]
  simp [Effect.overt, effects, Effect.overt?, posts, warned]

/-- Nothing but the requests is left of hanging up calls. -/
theorem overt_hangUpEach {σ : Type}
    (hidden : ∀ id cause, (warning id cause).isHangupFailure = true) (engine : Engine σ)
    (policy : HangupPolicy) (calls : List TrackedCall) (state : σ) :
    Effect.overt ((engine.hangUpEach policy calls state).1.flatMap (·.effects warning))
      = calls.map fun tracked => .hangup ⟨tracked.call, policy⟩ none := by
  have requests := engine.hangUpEach_requests policy calls state
  have shown : ∀ attempts : List HangupAttempt,
      Effect.overt (attempts.flatMap (·.effects warning))
        = (attempts.map (·.request)).map fun request => .hangup request none := by
    intro attempts
    induction attempts with
    | nil => rfl
    | cons attempt rest inductionHypothesis =>
      simp [overt_effects hidden, inductionHypothesis]
  rw [shown, requests, List.map_map]
  rfl

end HangupAttempt

/-! ## Calling peers -/

namespace DialAttempt

/-- The attempts differ at most in how a hangup went. -/
structure Alike (first second : DialAttempt) : Prop where
  placed : first.placed? = second.placed?
  error : first.error? = second.error?
  overt : ∀ group, Effect.overt (first.effects group) = Effect.overt (second.effects group)

theorem answers_effects (group : String) (attempt : DialAttempt) :
    Effect.answers (attempt.effects group) = [attempt.answer] := by
  rw [Effect.answers, filterMap_effects Effect.ignores_answer? (fun _ _ => rfl),
    filterMap_report Effect.ignores_answer? fun _ => rfl]
  rfl

theorem answers_flatMap (group : String) (attempts : List DialAttempt) :
    Effect.answers (attempts.flatMap (·.effects group)) = attempts.map (·.answer) := by
  induction attempts with
  | nil => rfl
  | cons attempt rest inductionHypothesis => simp [answers_effects, inductionHypothesis]

theorem overt_effects (group : String) (attempt : DialAttempt) :
    Effect.overt (attempt.effects group)
      = .place attempt.request attempt.answer
        :: (Effect.overt attempt.cleanup ++ Effect.overt (attempt.report group)) := by
  have posts : Effect.overt (attempt.posted.map Effect.post) = [] := by
    simp [Effect.overt, List.filterMap_map, Effect.overt?]
  rw [effects, Effect.overt_append, Effect.overt_append]
  change _ :: Effect.overt (attempt.posted.map Effect.post) ++ _ ++ _ = _
  rw [posts]
  rfl

/-- The request, the answer and the way a reused identifier is dealt with decide everything else. -/
theorem alike_of_answer {first second : DialAttempt} (request : first.request = second.request)
    (answer : first.answer = second.answer) (placed : first.placed? = second.placed?)
    (error : first.error? = second.error?)
    (cleanup : Effect.overt first.cleanup = Effect.overt second.cleanup) : first.Alike second where
  placed := placed
  error := error
  overt group := by
    rw [overt_effects, overt_effects, request, answer, cleanup]
    simp only [report, placed, error, request]

theorem overt_cleanup_of_reused {attempt : DialAttempt} {call : CallHandle}
    {hangup : HangupAttempt} (reused : attempt.result = .reused call hangup) :
    Effect.overt attempt.cleanup = [.warn (.idReused call.id), .hangup hangup.request none] := by
  have quiet : Effect.overt (hangup.effects .untrackedHangupFailed)
      = [.hangup hangup.request none] := HangupAttempt.overt_effects (fun _ _ => rfl) hangup
  unfold cleanup
  rw [reused, ← quiet]
  rfl

end DialAttempt

namespace FanOut

variable {σ τ : Type} {policy : HangupPolicy} {group : Group} {media : Media}

theorem dial_answer (engine : Engine σ) (peer : Peer) (calls : CallTable) (state : σ) :
    (dial engine policy group media peer calls state).1.answer
      = (engine.place ⟨peer.account, peer.target, media⟩ state).answer := by
  simp only [dial]
  cases (engine.place ⟨peer.account, peer.target, media⟩ state).answer with
  | error cause => rfl
  | ok call => dsimp only; split <;> rfl

theorem length_dialEach (engine : Engine σ) (peers : List Peer) (calls : CallTable) (state : σ) :
    (dialEach engine policy group media peers calls state).1.length = peers.length := by
  induction peers generalizing calls state with
  | nil => rfl
  | cons peer rest inductionHypothesis => simp [dialEach, inductionHypothesis]

variable (first : Engine σ) (second : Engine τ)

/-- All that calling a peer takes from the engine is the answer to the placement. -/
theorem dial_alike {peer : Peer} {calls : CallTable} {state : σ} {other : τ}
    (same : (dial first policy group media peer calls state).1.answer
      = (dial second policy group media peer calls other).1.answer) :
    (dial first policy group media peer calls state).1.Alike
        (dial second policy group media peer calls other).1 ∧
      (dial first policy group media peer calls state).2.1
        = (dial second policy group media peer calls other).2.1 := by
  rw [dial_answer, dial_answer] at same
  simp only [dial, ← same]
  cases (first.place ⟨peer.account, peer.target, media⟩ state).answer with
  | error cause => exact ⟨DialAttempt.alike_of_answer rfl rfl rfl rfl rfl, rfl⟩
  | ok call =>
    dsimp only
    cases calls.insert ⟨call, group.id, group.name, peer.target, .dialing⟩ with
    | ok grown => exact ⟨DialAttempt.alike_of_answer rfl rfl rfl rfl rfl, rfl⟩
    | error =>
      -- both engines are asked to hang up the new call
      refine ⟨DialAttempt.alike_of_answer rfl rfl rfl rfl ?_, rfl⟩
      rw [DialAttempt.overt_cleanup_of_reused rfl, DialAttempt.overt_cleanup_of_reused rfl]
      rfl

theorem dialEach_alike {peers : List Peer} {calls : CallTable} {state : σ} {other : τ}
    (same : (dialEach first policy group media peers calls state).1.map (·.answer)
      = (dialEach second policy group media peers calls other).1.map (·.answer)) :
    List.Forall₂ DialAttempt.Alike (dialEach first policy group media peers calls state).1
        (dialEach second policy group media peers calls other).1 ∧
      (dialEach first policy group media peers calls state).2.1
        = (dialEach second policy group media peers calls other).2.1 := by
  induction peers generalizing calls state other with
  | nil => exact ⟨.nil, rfl⟩
  | cons peer rest inductionHypothesis =>
    simp only [dialEach, List.map_cons, List.cons.injEq] at same ⊢
    obtain ⟨alike, grown⟩ := dial_alike first second same.1
    rw [← grown] at same ⊢
    obtain ⟨others, last⟩ := inductionHypothesis same.2
    exact ⟨.cons alike others, last⟩

/-- Alike attempts are reported alike. -/
theorem report_alike {attempts others : List DialAttempt}
    (alike : List.Forall₂ DialAttempt.Alike attempts others) (group : Group) (media : Media) :
    report group media attempts = report group media others ∧
      Effect.overt (attempts.flatMap (·.effects group.name))
        = Effect.overt (others.flatMap (·.effects group.name)) := by
  induction alike with
  | nil => exact ⟨rfl, rfl⟩
  | cons same _ inductionHypothesis =>
    obtain ⟨reported, overt⟩ := inductionHypothesis
    simp only [report, FanOutReport.mk.injEq, true_and] at reported
    constructor
    · simp only [report, List.filterMap_cons, same.placed, same.error, reported]
    · simp only [List.flatMap_cons, Effect.overt_append, same.overt, overt]

end FanOut

/-! ## Operations -/

namespace Switchboard

variable {σ τ : Type} (first : Engine σ) (second : Engine τ)

theorem overt_supersede (board : Switchboard) (winner : TrackedCall) (state : σ) :
    Effect.overt (board.supersede first winner state).1.effects
      = (board.calls.siblings winner.id).map
          (fun loser => .hangup ⟨loser.call, board.config.supersede⟩ none)
        ++ Effect.overt (board.releases.deferAll board.turn (board.calls.siblings winner.id)).1
        ++ [.publish (.raceWon winner.groupName winner.id
            (board.calls.siblings winner.id).length)] := by
  simp only [supersede]
  rw [Effect.overt_append, Effect.overt_append, HangupAttempt.overt_hangUpEach fun _ _ => rfl,
    List.length_map]
  rfl

/-- Only calling a group waits for anything that the engine says. -/
theorem perform_alike_of_not_start (board : Switchboard) {operation : Operation}
    (other : ¬ operation.IsStart) (state : σ) (rival : τ) :
    Step.Alike ⟨board, operation, (board.perform first operation state).1⟩
      ⟨board, operation, (board.perform second operation rival).1⟩ := by
  cases operation with
  | beginTurn | reclaim | shutdown => exact Step.alike_of_overt rfl rfl rfl
  | event event =>
    cases event with
    | progress | closed => exact Step.alike_of_overt rfl rfl rfl
    | established id =>
      simp only [perform, handleEvent, answered]
      cases board.calls.find? id with
      | none => exact Step.alike_of_overt rfl rfl rfl
      | some call =>
        cases reached : call.state with
        | established => simp only [reached]; exact Step.alike_of_overt rfl rfl rfl
        | dialing =>
          simp only [reached]
          refine Step.alike_of_overt rfl rfl ?_
          simp only [Outcome.map, overt_supersede]
  | request request =>
    cases request with
    | createGroup | removeGroup | clearGroups | addPeer | dump =>
      exact Step.alike_of_overt rfl rfl rfl
    | startCall name media => exact absurd ⟨name, media, rfl⟩ other
    | hangupGroup name =>
      simp only [perform, handleRequest, hangupGroup]
      cases board.groups.find name with
      | error error => exact Step.alike_of_overt rfl rfl rfl
      | ok group =>
        -- how many requests are accepted is up to the engine
        refine Step.alike_of_overt rfl rfl ?_
        simp only [Outcome.map]
        rw [HangupAttempt.overt_hangUpEach fun _ _ => rfl,
          HangupAttempt.overt_hangUpEach fun _ _ => rfl]

theorem startCall_alike (board : Switchboard) (name : String) (media : Media) (state : σ)
    (rival : τ)
    (same : Effect.answers (board.startCall first name media state).1.effects
      = Effect.answers (board.startCall second name media rival).1.effects) :
    (board.startCall first name media state).1.result
        = (board.startCall second name media rival).1.result ∧
      (board.startCall first name media state).1.board
        = (board.startCall second name media rival).1.board ∧
      Effect.overt (board.startCall first name media state).1.effects
        = Effect.overt (board.startCall second name media rival).1.effects := by
  simp only [startCall] at same ⊢
  cases found : board.groups.find name with
  | error error => exact ⟨rfl, rfl, rfl⟩
  | ok group =>
    cases checked : FanOut.checkMedia media with
    | error error => exact ⟨rfl, rfl, rfl⟩
    | ok =>
      simp only [found, checked, DialAttempt.answers_flatMap] at same ⊢
      obtain ⟨alike, grown⟩ := FanOut.dialEach_alike first second same
      obtain ⟨reported, overt⟩ := FanOut.report_alike alike group media
      exact ⟨by rw [reported], by rw [grown], overt⟩

/-- The engine has a say in an operation only by its answers to placements. -/
theorem perform_alike (board : Switchboard) (operation : Operation) (state : σ) (rival : τ)
    (same : Effect.answers (board.perform first operation state).1.effects
      = Effect.answers (board.perform second operation rival).1.effects) :
    Step.Alike ⟨board, operation, (board.perform first operation state).1⟩
      ⟨board, operation, (board.perform second operation rival).1⟩ := by
  by_cases start : operation.IsStart
  · obtain ⟨name, media, rfl⟩ := start
    obtain ⟨result, after, overt⟩ := startCall_alike first second board name media state rival same
    refine Step.alike_of_overt after ?_ overt
    simp only [perform, handleRequest, Outcome.map, result]
  · exact perform_alike_of_not_start first second board start state rival

/-- How often the engine is asked to place a call is up to the switchboard alone. -/
theorem length_answers_perform (board : Switchboard) (operation : Operation) (state : σ)
    (rival : τ) :
    (Effect.answers (board.perform first operation state).1.effects).length
      = (Effect.answers (board.perform second operation rival).1.effects).length := by
  by_cases start : operation.IsStart
  · obtain ⟨name, media, rfl⟩ := start
    simp only [perform, handleRequest, startCall, Outcome.map]
    cases board.groups.find name with
    | error error => rfl
    | ok group =>
      cases FanOut.checkMedia media with
      | error error => rfl
      | ok =>
        simp only [DialAttempt.answers_flatMap, List.length_map]
        rw [FanOut.length_dialEach, FanOut.length_dialEach]
  · have alike := perform_alike_of_not_start first second board start state rival
    have answers := Effect.filterMap_overt Effect.ignores_answer? fun _ _ => rfl
    unfold Effect.answers
    rw [← answers (board.perform first operation state).1.effects, alike.overt, answers]

end Switchboard

/-! ## Whole runs -/

/-- A table stands for a set of calls. An arrangement puts the calls of any table into an order. -/
structure Arrangement where
  arrange : CallTable → CallTable
  perm : ∀ table, (arrange table).calls.Perm table.calls

namespace Arrangement

def kept : Arrangement := ⟨id, fun _ => .refl _⟩

def reversed : Arrangement :=
  ⟨fun table => ⟨table.calls.reverse⟩, fun table => List.reverse_perm table.calls⟩

end Arrangement

namespace Switchboard

variable {σ τ : Type}

/-- The steps of a run in which each operation meets the tracked calls in an order of its own. -/
def arrangedHistory (engine : Engine σ) (board : Switchboard) :
    List (Arrangement × Operation) → σ → List Step
  | [], _ => []
  | (order, operation) :: rest, state =>
    let board := { board with calls := order.arrange board.calls }
    let (outcome, state) := board.perform engine operation state
    ⟨board, operation, outcome⟩ :: outcome.board.arrangedHistory engine rest state

theorem arrangedHistory_kept (engine : Engine σ) (board : Switchboard)
    (operations : List Operation) (state : σ) :
    board.arrangedHistory engine (operations.map (Arrangement.kept, ·)) state
      = board.history engine operations state := by
  induction operations generalizing board state with
  | nil => rfl
  | cons operation rest inductionHypothesis =>
    simp only [List.map_cons, arrangedHistory, history, Arrangement.kept, id, List.cons.injEq,
      true_and]
    exact inductionHypothesis _ _

/-- Two engines that answer the placements of a run in the same way make the same steps out of it,
whichever hangups they fail, and in whichever order the calls are met. -/
theorem history_alike_of_answers (first : Engine σ) (second : Engine τ) (board : Switchboard)
    (operations : List (Arrangement × Operation)) (state : σ) (other : τ)
    (same : Step.answers (board.arrangedHistory first operations state)
      = Step.answers (board.arrangedHistory second operations other)) :
    List.Forall₂ Step.Alike (board.arrangedHistory first operations state)
      (board.arrangedHistory second operations other) := by
  induction operations generalizing board state other with
  | nil => exact .nil
  | cons met rest inductionHypothesis =>
    obtain ⟨order, operation⟩ := met
    simp only [arrangedHistory, Step.answers, List.flatMap_cons, Effect.answers_append] at same ⊢
    generalize { board with calls := order.arrange board.calls } = board at same ⊢
    obtain ⟨now, later⟩ := List.append_inj same
      (length_answers_perform first second board operation state other)
    have alike := perform_alike first second board operation state other now
    refine .cons alike ?_
    have after : (board.perform first operation state).1.board
        = (board.perform second operation other).1.board := alike.after
    rw [← after] at later ⊢
    exact inductionHypothesis _ _ _ later

end Switchboard

/-! ## A sample -/

namespace Faulty

/-- A group is called and hung up, one of its calls is answered all the same, and when the group is
called again the engine gives out an identifier that is in use. -/
def operations : List Switchboard.Operation :=
  [.request (.createGroup "G"), .request (.addPeer "G" "sip:a@x" none),
    .request (.addPeer "G" "sip:b@x" none), .request (.startCall "G" {}),
    .request (.hangupGroup "G"), .event (.established ⟨"u"⟩), .request (.startCall "G" {})]

def accepting : EngineScript := { nextIds := [⟨"u"⟩, ⟨"v"⟩, ⟨"u"⟩, ⟨"w"⟩] }

def failing : EngineScript :=
  { accepting with hangupFailures := [(⟨"u"⟩, .failure "busy"), (⟨"v"⟩, .unknownCall ⟨"v"⟩)] }

/-- Each operation meets the calls the other way round than the one before has left them. -/
def steps (script : EngineScript) : List Step :=
  Rematch.board.arrangedHistory EngineScript.engine (operations.map (Arrangement.reversed, ·)) script

/-- Hangups fail in all three places, and nothing but the count and the log tells. -/
theorem history_alike_when_failing :
    List.Forall₂ Step.Alike (Rematch.board.history EngineScript.engine operations accepting)
        (Rematch.board.history EngineScript.engine operations failing) ∧
      List.Forall₂ Step.Alike (steps accepting) (steps failing) ∧
      (steps accepting)[4].outcome.result = .answer (.ok (.hungUp "G" 2)) ∧
      (steps failing)[4].outcome.result = .answer (.ok (.hungUp "G" 0)) ∧
      (Effect.warnings ((steps accepting).flatMap (·.outcome.effects))).filter
        (·.isHangupFailure) = [] ∧
      (Effect.warnings ((steps failing).flatMap (·.outcome.effects))).filter (·.isHangupFailure)
        = [.groupHangupFailed ⟨"v"⟩ "G" (.unknownCall ⟨"v"⟩),
          .groupHangupFailed ⟨"u"⟩ "G" (.failure "busy"),
          .supersedeHangupFailed ⟨"v"⟩ (.unknownCall ⟨"v"⟩),
          .untrackedHangupFailed ⟨"u"⟩ (.failure "busy")] := by
  refine ⟨?_, ?_, rfl, rfl, by decide +kernel, by decide +kernel⟩
  · rw [← Switchboard.arrangedHistory_kept, ← Switchboard.arrangedHistory_kept]
    exact Switchboard.history_alike_of_answers EngineScript.engine EngineScript.engine
      Rematch.board _ accepting failing (by decide +kernel)
  · have same : Step.answers (steps accepting) = Step.answers (steps failing) := by decide +kernel
    exact Switchboard.history_alike_of_answers EngineScript.engine EngineScript.engine
      Rematch.board _ accepting failing same

end Faulty
end CallFork
