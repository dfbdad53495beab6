import CallFork.Config
import CallFork.Toml.Document

/-!
# Configuration files

A configuration is written as TOML. Keys that mean nothing are ignored, whatever their values; a
value of the wrong type or out of range makes the file unusable. A record may also be written as an
array of its fields in their order. A record that is there but lacks fields takes the defaults of
its own type, not those of the configuration: `[supersede]` without a reason gives none.
-/

namespace CallFork

open Toml (Value)

namespace Config

/-- The field of a record with some name and place; `none` if the value is no record. A date is a
record without fields. -/
def field? (value : Value) : Option (String → Nat → Option Value) :=
  match value with
  | .table _ entries => some fun name _ => entries.lookup name
  | .array elements => some fun _ place => elements[place]?
  | .tables elements => some fun _ place => elements[place]?
  | .moment => some fun _ _ => none
  | _ => none

/-- A field that is there must be readable; one that is not there takes a default. -/
def withDefault {α : Type} (read : Value → Option α) (fallback : α) (value : Option Value) :
    Option α :=
  match value with
  | some value => read value
  | none => some fallback

def string? : Value → Option String
  | .string text => some text
  | _ => none

/-- A number from 0 to `high`. -/
def number? (high : Nat) : Value → Option Nat
  | .integer number => if 0 ≤ number && number ≤ high then some number.toNat else none
  | _ => none

/-- A table or an array without anything in it. -/
def isHollow : Value → Bool
  | .table _ entries => entries.isEmpty
  | .array elements => elements.isEmpty
  | .tables elements => elements.isEmpty
  | _ => false

/-- A direction by its exact name, which may also be the only key of a table, with a hollow value. -/
def direction? : Value → Option Direction
  | .string name => Direction.ofName? name
  | .table _ [(name, value)] => if isHollow value then Direction.ofName? name else none
  | _ => none

def media? (value : Value) : Option Media := do
  let field ← field? value
  let audio ← withDefault direction? .sendRecv (field "audio" 0)
  let video ← withDefault direction? .sendRecv (field "video" 1)
  return ⟨audio, video⟩

def policy? (value : Value) : Option HangupPolicy := do
  let field ← field? value
  let statusCode ← withDefault (number? 65535) 0 (field "status_code" 0)
  let reason ← withDefault (fun value => (string? value).map some) none (field "reason" 1)
  return ⟨statusCode, reason⟩

def account? (value : Value) : Option String := do
  let field ← field? value
  string? (← field "aor" 0)

def accounts? : Value → Option (List String)
  | .array elements => elements.mapM account?
  | .tables elements => elements.mapM account?
  | _ => none

def ofEntries (entries : Toml.Entries) : Option Config := do
  let standard : Config := {}
  let accounts ← withDefault accounts? standard.accounts (entries.lookup "accounts")
  let media ← withDefault media? standard.media (entries.lookup "media")
  let supersede ← withDefault policy? standard.supersede (entries.lookup "supersede")
  let groupHangup ← withDefault policy? standard.groupHangup (entries.lookup "group_hangup")
  let eventCapacity ← withDefault (number? 0xFFFFFFFFFFFFFFFF) standard.eventCapacity
    (entries.lookup "event_capacity")
  return { accounts, media, supersede, groupHangup, eventCapacity }

/-- The configuration that a text stands for, if it is usable. -/
def ofToml (text : String) : Except Error Config := do
  match (Toml.parse text).bind ofEntries with
  | none => throw Fault.malformed.error
  | some config =>
    config.validate
    return config

end Config
end CallFork
