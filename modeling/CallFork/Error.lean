import CallFork.Call

/-!
# Errors

Why an operation was refused. Most errors refuse a single command before anything was changed
(`isValidation`); two concern a single peer while a group is being called, and the other peers are
called all the same (`isPlacement`).
-/

namespace CallFork

/-- Why the call engine did not do what it was asked to. -/
inductive EngineError where
  | unreachable (reason : String)
  | unknownCall (id : CallId)
  | failure (detail : String)
deriving DecidableEq, Repr

namespace EngineError

def message : EngineError → String
  | unreachable reason => "target unreachable: " ++ reason
  | unknownCall id => "call " ++ id.text ++ " not found"
  | failure detail => "call engine error: " ++ detail

end EngineError

/-- Why an operation on groups and calls was refused. -/
inductive Error where
  | groupExists (name : String)
  /-- No group of this name is registered. -/
  | groupMissing (name : String)
  | duplicateTarget (group target : String)
  /-- Neither audio nor video would flow. -/
  | silentMedia
  /-- The call engine would not place a call to this target. -/
  | placementFailed (target reason : String)
  /-- No account can call this address. -/
  | noAccount (address : String)
  /-- The target is no usable address. -/
  | invalidTarget (target reason : String)
  /-- The call engine gave out the identifier of a call that is still tracked. -/
  | duplicateCall (id : CallId)
  | configuration (detail : String)
  /-- An operator command is malformed; the usage text says how it is written. -/
  | badCommand (usage : String)
  /-- The service does not run any more. -/
  | stopped
deriving DecidableEq, Repr

namespace Error

def message : Error → String
  | groupExists name => "call group " ++ name ++ " already exists"
  | groupMissing name => "call group " ++ name ++ " does not exist"
  | duplicateTarget group target => target ++ " already a target of " ++ group
  | silentMedia => "audio and video must not be inactive at the same time"
  | placementFailed target reason => "failed to place call to " ++ target ++ ": " ++ reason
  | noAccount address => "could not find UA for " ++ address
  | invalidTarget target reason => "invalid target " ++ target ++ ": " ++ reason
  | duplicateCall id => "call " ++ id.text ++ " is already tracked"
  | configuration detail => "Configuration error: " ++ detail
  | badCommand usage => usage
  | stopped => "parallel call service is not running"

/-- Errors that refuse a command before anything was changed. -/
def isValidation : Error → Bool
  | groupExists _ | groupMissing _ | duplicateTarget _ _ | silentMedia | noAccount _
  | invalidTarget _ _ | badCommand _ => true
  | placementFailed _ _ | duplicateCall _ | configuration _ | stopped => false

/-- Errors that concern a single peer while a group is being called. -/
def isPlacement : Error → Bool
  | placementFailed _ _ | duplicateCall _ => true
  | _ => false

end Error
end CallFork
