import CallFork.Sip.Grammar

/-!
# Addresses as people write them

An address may stand in angle brackets behind a name, and its scheme may be left out. `spec` finds
the address itself, `splitScheme` its scheme. `host:5060` has no scheme, although it has a colon:
letters in front of nothing but digits are a host.
-/

namespace CallFork.Address

/-- The scheme of an address: one that can be called, or some other one, in lower case. -/
inductive Scheme where
  | sip (scheme : SipScheme)
  | foreign (name : String)
deriving DecidableEq, Repr

/-- The text between the first `<` and the last `>` behind it, or else the whole text, without
blanks around it. -/
def spec (text : List Char) : List Char :=
  match cutAt '<' (trim text) with
  | some (_, after) =>
    match cutAtLast '>' after with
    | some (inside, _) => trim inside
    | none => trim text
  | none => trim text

/-- Whether a text in front of a colon can be the name of a scheme. -/
def isSchemeName (name : List Char) : Bool :=
  !name.isEmpty && name.all Char.isAlpha

/-- Whether a text behind a colon can only be a port. -/
def isPortOnly (rest : List Char) : Bool :=
  !rest.isEmpty && rest.all Char.isDigit

/-- The scheme that a word in front of a colon names, given what stands behind the colon. -/
def schemeOf (word : String) (rest : List Char) : Option Scheme :=
  if word = "sip" then some (.sip .sip)
  else if word = "sips" then some (.sip .sips)
  else if word = "tel" then some (.foreign word)
  else if isSchemeName word.toList && !isPortOnly rest then some (.foreign word)
  else none

/-- The scheme in front of the first colon and the text behind it, if the address has a scheme. -/
def splitScheme (address : List Char) : Option (Scheme × List Char) := do
  let (word, rest) ← cutAt ':' address
  let scheme ← schemeOf (String.ofList (lower word)) rest
  return (scheme, rest)

/-- What is said of a text that is not a SIP address. -/
def badSyntax : String := "<uri syntax>"

end CallFork.Address
