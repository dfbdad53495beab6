import CallFork.Call.Table
import CallFork.Effect

/-!
# Deferred releases

A call that has lost its race is not forgotten at once: the event being handled, or events right
behind it, may still name it. It is announced closed, kept as a pending release under a fresh
ticket, and the ticket is posted for a later turn. `release` forgets the call when the ticket comes
back on a later turn, and posts the ticket again when it comes back too early.
-/

namespace CallFork

/-- The reason announced for calls that lost their race. -/
def rejectedLocally : String := "Rejected locally"

/-- A call kept until its ticket comes back, and the turn on which it was put here. -/
structure PendingRelease where
  ticket : Ticket
  call : TrackedCall
  deferredTurn : Nat
deriving DecidableEq, Repr

/-- A call that was forgotten, with the turns on which its release was deferred and done. -/
structure Released where
  id : CallId
  deferredTurn : Nat
  releasedTurn : Nat
deriving DecidableEq, Repr

namespace Released

def event (released : Released) : Event :=
  .callReleased released.id released.deferredTurn released.releasedTurn

end Released

/-- The pending releases, and how many tickets have been given out. -/
structure ReleaseTable where
  pending : List PendingRelease := []
  issued : Nat := 0
deriving DecidableEq, Repr

namespace ReleaseTable

def find? (table : ReleaseTable) (ticket : Ticket) : Option PendingRelease :=
  table.pending.find? fun entry => entry.ticket = ticket

/-- Whether a call with this identifier waits for its release. -/
def isPending (table : ReleaseTable) (id : CallId) : Bool :=
  table.pending.any fun entry => entry.call.id = id

/-- The calls that wait for their release, in ascending order of their identifiers. -/
def listed (table : ReleaseTable) : List TrackedCall :=
  (table.pending.map (·.call)).mergeSort TrackedCall.le

/-- How many calls wait for their release. -/
def size (table : ReleaseTable) : Nat :=
  table.pending.length

/-! ## Deferring -/

def defer (table : ReleaseTable) (call : TrackedCall) (turn : Nat) : Ticket × ReleaseTable :=
  let ticket := ⟨table.issued + 1⟩
  (ticket, ⟨table.pending ++ [⟨ticket, call, turn⟩], table.issued + 1⟩)

/-- What happens when a call is kept: it is announced closed, and its ticket is posted. -/
def deferEffects (call : TrackedCall) (ticket : Ticket) : List Effect :=
  [.publish (.callClosed call.groupName call.id (some rejectedLocally) true), .schedule ticket]

/-- Calls kept one after the other, under consecutive tickets. -/
def deferAll (table : ReleaseTable) (turn : Nat) : List TrackedCall → List Effect × ReleaseTable
  | [] => ([], table)
  | call :: rest =>
    let (ticket, table) := table.defer call turn
    let (effects, table) := table.deferAll turn rest
    (deferEffects call ticket ++ effects, table)

/-! ## Releasing -/

/-- What becomes of a ticket that comes back. -/
inductive Delivery where
  /-- Nothing is kept under the ticket. -/
  | unknown
  /-- The ticket came back too early. -/
  | early
  /-- The call was forgotten. -/
  | done (released : Released)
deriving DecidableEq, Repr

def release (table : ReleaseTable) (ticket : Ticket) (turn : Nat) : Delivery × ReleaseTable :=
  match table.find? ticket with
  | none => (.unknown, table)
  | some entry =>
    if turn ≤ entry.deferredTurn then (.early, table)
    else
      (.done ⟨entry.call.id, entry.deferredTurn, turn⟩,
        { table with pending := table.pending.filter fun other => other.ticket ≠ ticket })

namespace Delivery

/-- The call that was forgotten, if one was. -/
def released? : Delivery → Option Released
  | done released => some released
  | unknown | early => none

/-- A ticket that came back too early is posted again. -/
def rescheduled (ticket : Ticket) : Delivery → List Effect
  | early => [.schedule ticket]
  | unknown | done _ => []

end Delivery

/-- The table without any pending release; tickets go on from where they were. -/
def drain (table : ReleaseTable) : ReleaseTable :=
  { table with pending := [] }

end ReleaseTable

/-! ## Posting tickets -/

namespace Effect

/-- An effect where tickets are posted to a loop that may be gone; then a warning stands for each
ticket. -/
def withLoop (isOpen : Bool) : Effect → Effect
  | schedule ticket => if isOpen then schedule ticket else warn (.releaseUnposted ticket)
  | effect => effect

end Effect
end CallFork
