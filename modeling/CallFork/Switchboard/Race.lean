import CallFork.Switchboard.Hangup

/-!
# Racing for the first answer

The calls that a group has placed race each other. The first that is reported established wins:
every other tracked call of its group is hung up, and then handed over to the pending releases. The
winner stays tracked until it is reported closed.

Events are handled one at a time, so there is always a first. A call that has lost is not tracked
any more; if it is answered all the same, its hangup is on the way.
-/

namespace CallFork

/-- The outcome of a race. -/
structure Resolution where
  group : String
  winner : CallId
  superseded : List CallId
deriving DecidableEq, Repr

namespace Switchboard

variable {σ : Type}

/-- Lets a tracked call win against its siblings. -/
def supersede (engine : Engine σ) (board : Switchboard) (winner : TrackedCall) (state : σ) :
    Outcome Resolution × σ :=
  let losers := board.calls.siblings winner.id
  let ids := losers.map (·.id)
  -- all losers are hung up before the first of them changes hands
  let (attempts, state) := engine.hangUpEach board.config.supersede losers state
  let (deferred, releases) := board.releases.deferAll board.turn losers
  let calls := (board.calls.establish winner.id).eraseAll ids
  (⟨⟨winner.groupName, winner.id, ids⟩, { board with calls, releases },
    attempts.flatMap (·.effects .supersedeHangupFailed) ++ deferred
      ++ [.publish (.raceWon winner.groupName winner.id ids.length)]⟩, state)

/-- A call was answered. It wins if it is tracked and has not won already. -/
def answered (engine : Engine σ) (board : Switchboard) (id : CallId) (state : σ) :
    Outcome (Option Resolution) × σ :=
  match board.calls.find? id with
  | none =>
    (⟨none, board, if board.releases.isPending id then [.warn (.lateAnswer id)] else []⟩, state)
  | some call =>
    match call.state with
    | .established => (⟨none, board, []⟩, state)
    | .dialing =>
      let (outcome, state) := supersede engine board call state
      (⟨some outcome.result, outcome.board, outcome.effects⟩, state)

/-- A call is gone. If it was tracked, it is not any more; its siblings are left alone. -/
def hungUp (board : Switchboard) (id : CallId) (reason : Option String) : Outcome Unit :=
  match board.calls.find? id with
  | none => ⟨(), board, []⟩
  | some call =>
    ⟨(), { board with calls := board.calls.erase id },
      [.publish (.callClosed call.groupName id reason false)]⟩

def handleEvent (engine : Engine σ) (board : Switchboard) (event : CallEvent) (state : σ) :
    Outcome (Option Resolution) × σ :=
  match event with
  | .progress _ => (⟨none, board, []⟩, state)
  | .established id => board.answered engine id state
  | .closed id reason =>
    let outcome := board.hungUp id reason
    (⟨none, outcome.board, outcome.effects⟩, state)

end Switchboard
end CallFork
