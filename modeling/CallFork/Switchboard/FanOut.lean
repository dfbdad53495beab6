import CallFork.Switchboard.Hangup

/-!
# Calling a group

One call is placed per peer, in the order of the peers. A peer that cannot be called is skipped,
and the others are called all the same. A placed call is tracked at once. If the engine gives it the
identifier of a call that is tracked already, nothing can be said about it later on, so it is hung
up and counts as failed.
-/

namespace CallFork

/-- How it went with one peer. -/
inductive DialResult where
  /-- The call is tracked. -/
  | placed (call : TrackedCall)
  /-- The engine would not place the call. -/
  | refused (cause : EngineError)
  /-- The identifier was in use, and the new call was hung up. -/
  | reused (call : CallHandle) (hangup : HangupAttempt)
deriving DecidableEq, Repr

/-- A request to place a call to one peer, with everything that followed. -/
structure DialAttempt where
  request : PlaceRequest
  result : DialResult
  posted : List CallEvent
deriving DecidableEq, Repr

/-- A call that was placed for a target. -/
structure PlacedCall where
  id : CallId
  target : String
deriving DecidableEq, Repr

/-- What came of calling a group: which peers were called, and why the others were skipped. -/
structure FanOutReport where
  group : String
  media : Media
  placed : List PlacedCall
  failed : List Error
deriving DecidableEq, Repr

namespace DialAttempt

/-- The call that is tracked now, if it is. -/
def placed? (attempt : DialAttempt) : Option PlacedCall :=
  match attempt.result with
  | .placed call => some ⟨call.id, attempt.request.target⟩
  | .refused _ | .reused _ _ => none

/-- Why the peer was skipped, if it was. -/
def error? (attempt : DialAttempt) : Option Error :=
  match attempt.result with
  | .placed _ => none
  | .refused cause => some (.placementFailed attempt.request.target cause.message)
  | .reused call _ => some (.duplicateCall call.id)

def answer (attempt : DialAttempt) : Except EngineError CallHandle :=
  match attempt.result with
  | .placed call => .ok call.call
  | .refused cause => .error cause
  | .reused call _ => .ok call

/-- How a new call whose identifier was in use is got rid of. -/
def cleanup (attempt : DialAttempt) : List Effect :=
  match attempt.result with
  | .reused call hangup => .warn (.idReused call.id) :: hangup.effects .untrackedHangupFailed
  | .placed _ | .refused _ => []

/-- What observers are told about the peer, and the log if it was skipped. -/
def report (group : String) (attempt : DialAttempt) : List Effect :=
  match attempt.placed?, attempt.error? with
  | some call, _ =>
    [.publish (.callPlaced group call.id call.target attempt.request.media)]
  | none, some error =>
    [.warn (.peerSkipped group attempt.request.target error),
      .publish (.placementFailed group attempt.request.target error.message)]
  | none, none => []

def effects (group : String) (attempt : DialAttempt) : List Effect :=
  .place attempt.request attempt.answer :: attempt.posted.map .post
    ++ attempt.cleanup ++ attempt.report group

end DialAttempt

namespace FanOut

variable {σ : Type}

/-- Refuses a request that would place calls without media. -/
def checkMedia (media : Media) : Except Error Unit :=
  if media.isSilent then .error .silentMedia else .ok ()

def dial (engine : Engine σ) (policy : HangupPolicy) (group : Group) (media : Media)
    (peer : Peer) (calls : CallTable) (state : σ) : DialAttempt × CallTable × σ :=
  let request : PlaceRequest := ⟨peer.account, peer.target, media⟩
  let reply := engine.place request state
  match reply.answer with
  | .error cause => (⟨request, .refused cause, reply.posted⟩, calls, reply.engine)
  | .ok call =>
    let tracked : TrackedCall := ⟨call, group.id, group.name, peer.target, .dialing⟩
    match calls.insert tracked with
    | .ok grown => (⟨request, .placed tracked, reply.posted⟩, grown, reply.engine)
    | .error _ =>
      -- nobody could tell the two calls apart, so the new one has to go
      let (hangup, state) := engine.hangUp policy call reply.engine
      (⟨request, .reused call hangup, reply.posted⟩, calls, state)

/-- Calls each of some peers of a group. -/
def dialEach (engine : Engine σ) (policy : HangupPolicy) (group : Group) (media : Media) :
    List Peer → CallTable → σ → List DialAttempt × CallTable × σ
  | [], calls, state => ([], calls, state)
  | peer :: rest, calls, state =>
    let (attempt, calls, state) := dial engine policy group media peer calls state
    let (attempts, calls, state) := dialEach engine policy group media rest calls state
    (attempt :: attempts, calls, state)

/-- The report on the attempts to call the peers of a group. -/
def report (group : Group) (media : Media) (attempts : List DialAttempt) : FanOutReport :=
  ⟨group.name, media, attempts.filterMap (·.placed?), attempts.filterMap (·.error?)⟩

end FanOut

namespace Switchboard

variable {σ : Type}

/-- Calls all peers of a group. The group has to exist before the directions are looked at. -/
def startCall (engine : Engine σ) (board : Switchboard) (name : String) (media : Media)
    (state : σ) : Outcome (Except Error FanOutReport) × σ :=
  match board.groups.find name with
  | .error error => (board.refuse error, state)
  | .ok group =>
    match FanOut.checkMedia media with
    | .error error => (board.refuse error, state)
    | .ok () =>
      let (attempts, calls, state) :=
        FanOut.dialEach engine board.config.supersede group media group.peers board.calls state
      (⟨.ok (FanOut.report group media attempts), { board with calls },
        attempts.flatMap (·.effects group.name)⟩, state)

end Switchboard
end CallFork
