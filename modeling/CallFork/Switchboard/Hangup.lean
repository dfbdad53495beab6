import CallFork.Switchboard

/-!
# Hanging up

Calls are hung up one after the other, and a failure does not stop the rest. What is requested
depends only on the calls and the policy; the engine decides only which requests fail.
-/

namespace CallFork

/-- A request to hang up a call, with the engine's reaction. -/
structure HangupAttempt where
  request : HangupRequest
  failure : Option EngineError
  posted : List CallEvent
deriving DecidableEq, Repr

namespace HangupAttempt

def isAccepted (attempt : HangupAttempt) : Bool :=
  attempt.failure.isNone

/-- What happens during an attempt; `warning` is logged if it fails. -/
def effects (warning : CallId → EngineError → Warning) (attempt : HangupAttempt) : List Effect :=
  .hangup attempt.request attempt.failure :: attempt.posted.map .post
    ++ attempt.failure.toList.map fun cause => .warn (warning attempt.request.call.id cause)

end HangupAttempt

namespace Engine

variable {σ : Type}

def hangUp (engine : Engine σ) (policy : HangupPolicy) (call : CallHandle) (state : σ) :
    HangupAttempt × σ :=
  let request := ⟨call, policy⟩
  let reply := engine.hangup request state
  (⟨request, reply.answer, reply.posted⟩, reply.engine)

/-- Asks the engine to hang up each of some calls. -/
def hangUpEach (engine : Engine σ) (policy : HangupPolicy) :
    List TrackedCall → σ → List HangupAttempt × σ
  | [], state => ([], state)
  | tracked :: rest, state =>
    let (attempt, state) := engine.hangUp policy tracked.call state
    let (attempts, state) := engine.hangUpEach policy rest state
    (attempt :: attempts, state)

end Engine

namespace Switchboard

variable {σ : Type}

/-- Hangs up every tracked call that the registered group of this name has placed, and says how
many requests the engine accepted. The calls stay tracked until the engine reports them closed. -/
def hangupGroup (engine : Engine σ) (board : Switchboard) (name : String) (state : σ) :
    Outcome (Except Error Nat) × σ :=
  match board.groups.find name with
  | .error error => (board.refuse error, state)
  | .ok group =>
    let (attempts, state) :=
      engine.hangUpEach board.config.groupHangup (board.calls.inGroup group.id) state
    (⟨.ok (attempts.countP (·.isAccepted)), board,
      attempts.flatMap (·.effects fun id cause => .groupHangupFailed id name cause)⟩, state)

end Switchboard
end CallFork
