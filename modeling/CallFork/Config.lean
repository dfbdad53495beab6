import CallFork.Engine
import CallFork.Release

/-!
# Configuration

The accounts calls go out from, the media directions of requests that name none, how calls are
hung up, and how far observers may fall behind. Everything has a default, so the empty
configuration is valid.
-/

namespace CallFork

/-- The settings of a switchboard. Accounts are given by their addresses of record. -/
structure Config where
  accounts : List String := []
  media : Media := {}
  /-- How calls that lost their race are hung up. -/
  supersede : HangupPolicy := { reason := some rejectedLocally }
  /-- How calls are hung up by a command. -/
  groupHangup : HangupPolicy := {}
  eventCapacity : Nat := 256
deriving DecidableEq, Repr

namespace Config

/-- The largest backlog that an observer may have. -/
def maxEventCapacity : Nat := 65536

/-- Why a configuration is unusable, accounts aside. -/
inductive Fault where
  | eventCapacity (given : Nat)
  | statusCode (policy : String) (given : Nat)
  | unreadable (path reason : String)
  | malformed
deriving DecidableEq, Repr

def Fault.message : Fault → String
  | eventCapacity given =>
    "event_capacity must be between 1 and " ++ toString maxEventCapacity ++ ", got "
      ++ toString given
  | statusCode policy given =>
    policy ++ ".status_code must be 0 or a final status 300-699, got " ++ toString given
  | unreadable path reason => "cannot read " ++ path ++ ": " ++ reason
  | malformed => "invalid configuration: <toml>"

def Fault.error (fault : Fault) : Error := .configuration fault.message

/-- Whether calls can be hung up with a status code: 0, or a final status that is no success. -/
def isHangupStatus (code : Nat) : Bool :=
  code = 0 || (300 ≤ code && code ≤ 699)

def policyFault? (config : Config) : Option Fault :=
  if !isHangupStatus config.supersede.statusCode then
    some (.statusCode "supersede" config.supersede.statusCode)
  else if !isHangupStatus config.groupHangup.statusCode then
    some (.statusCode "group_hangup" config.groupHangup.statusCode)
  else none

def accountTable (config : Config) : Except Error AccountTable :=
  AccountTable.ofTexts config.accounts

/-- Refuses numbers out of range and accounts that cannot be read, in this order. -/
def validate (config : Config) : Except Error Unit := do
  if config.eventCapacity = 0 || maxEventCapacity < config.eventCapacity then
    throw (Fault.eventCapacity config.eventCapacity).error
  if let some fault := config.policyFault? then
    throw fault.error
  let _ ← config.accountTable

end Config
end CallFork
