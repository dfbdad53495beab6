import CallFork.Error

/-!
# Tracked calls

A tracked call remembers which group placed it and for which target. The table of tracked calls
knows nothing of the groups themselves: a group can be removed while its calls are still ringing.
Two calls are siblings if the same group placed them; they race each other for the first answer.
-/

namespace CallFork

/-- How far a tracked call has come. -/
inductive CallState where
  /-- Placed, and not answered yet. -/
  | dialing
  /-- Answered first; it does not race any more. -/
  | established
deriving DecidableEq, Repr

namespace CallState

def name : CallState → String
  | dialing => "dialing"
  | established => "established"

end CallState

/-- A call placed on behalf of a group. -/
structure TrackedCall where
  call : CallHandle
  groupId : GroupId
  groupName : String
  target : String
  state : CallState := .dialing
deriving DecidableEq, Repr

namespace TrackedCall

def id (tracked : TrackedCall) : CallId := tracked.call.id

/-- Whether another call was placed by the same group. -/
def isSiblingOf (a b : TrackedCall) : Bool :=
  a.groupId = b.groupId && a.id ≠ b.id

def le (a b : TrackedCall) : Bool := CallId.le a.id b.id

end TrackedCall

/-- The tracked calls. No two of them have the same identifier as long as calls only get in through
`insert`. -/
structure CallTable where
  calls : List TrackedCall := []
deriving DecidableEq, Repr

namespace CallTable

def find? (table : CallTable) (id : CallId) : Option TrackedCall :=
  table.calls.find? fun tracked => tracked.id = id

def contains (table : CallTable) (id : CallId) : Bool :=
  table.calls.any fun tracked => tracked.id = id

/-- The table with one more call, whose identifier must be new. -/
def insert (table : CallTable) (tracked : TrackedCall) : Except Error CallTable :=
  if table.contains tracked.id then .error (.duplicateCall tracked.id)
  else .ok ⟨table.calls ++ [tracked]⟩

/-- The table without the call of this identifier. -/
def erase (table : CallTable) (id : CallId) : CallTable :=
  ⟨table.calls.filter fun tracked => tracked.id ≠ id⟩

/-- The table without the calls of these identifiers. -/
def eraseAll (table : CallTable) (ids : List CallId) : CallTable :=
  ids.foldl erase table

/-- The table in which the call of this identifier has been answered. -/
def establish (table : CallTable) (id : CallId) : CallTable :=
  ⟨table.calls.map fun tracked =>
    if tracked.id = id then { tracked with state := .established } else tracked⟩

/-- The calls that the group of this number has placed. -/
def inGroup (table : CallTable) (id : GroupId) : List TrackedCall :=
  table.calls.filter fun tracked => tracked.groupId = id

/-- The siblings of a tracked call in ascending order of their identifiers. -/
def siblings (table : CallTable) (id : CallId) : List TrackedCall :=
  match table.find? id with
  | none => []
  | some tracked => (table.calls.filter tracked.isSiblingOf).mergeSort TrackedCall.le

/-- The identifiers of the siblings of a tracked call, in ascending order. -/
def siblingIds (table : CallTable) (id : CallId) : List CallId :=
  (table.siblings id).map (·.id)

/-- The tracked calls in ascending order of their identifiers. -/
def listed (table : CallTable) : List TrackedCall :=
  table.calls.mergeSort TrackedCall.le

/-- How many calls are tracked. -/
def size (table : CallTable) : Nat :=
  table.calls.length

end CallTable
end CallFork
