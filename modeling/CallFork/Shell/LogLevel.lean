import CallFork.Text
import CallFork.Text.Numeral

/-!
# Log levels

A level is given by its name, in any case, or by a number from 1 for errors to 5 for traces.
-/

namespace CallFork

/-- How much is logged, from least to most. -/
inductive LogLevel where
  | error
  | warn
  | info
  | debug
  | trace
deriving DecidableEq, Repr

namespace LogLevel

/-- All levels, from least to most. -/
def all : List LogLevel := [error, warn, info, debug, trace]

def name : LogLevel → String
  | error => "ERROR"
  | warn => "WARN"
  | info => "INFO"
  | debug => "DEBUG"
  | trace => "TRACE"

/-- A number without a sign, or with a plus sign. -/
def number? : List Char → Option Nat
  | '+' :: digits => Numeral.decimal? digits
  | digits => Numeral.decimal? digits

def read? (text : String) : Option LogLevel :=
  match number? text.toList with
  | some 0 => none
  | some (place + 1) => all[place]?
  | none => all.find? fun level => sameLetters level.name.toList text.toList

/-- The complaint about a text that is no level. -/
def complaint (text : String) : String :=
  "Invalid log level: " ++ text

end LogLevel
end CallFork
