/-!
# Numerals

Decimal and hexadecimal numbers inside addresses. A reader takes a whole text or nothing, and it
reads leading zeros; where a format forbids them, the format says so itself.
-/

namespace CallFork.Numeral

/-- The number that a nonempty run of decimal digits stands for. -/
def decimal? (text : List Char) : Option Nat :=
  if !text.isEmpty && text.all Char.isDigit then some (Nat.ofDigitChars 10 text 0) else none

/-- The shortest decimal digits of a number. -/
def decimal (n : Nat) : List Char :=
  Nat.toDigits 10 n

/-- The value of a hexadecimal digit in either case. -/
def hexDigit? (c : Char) : Option Nat :=
  if c.isDigit then some (c.toNat - '0'.toNat)
  else if 'a' ≤ c && c ≤ 'f' then some (c.toNat - 'a'.toNat + 10)
  else if 'A' ≤ c && c ≤ 'F' then some (c.toNat - 'A'.toNat + 10)
  else none

def isHexDigit (c : Char) : Bool :=
  (hexDigit? c).isSome

/-- The number that a run of hexadecimal digits stands for, continuing from `high`. -/
def hexFrom (high : Nat) : List Char → Option Nat
  | [] => some high
  | c :: rest => (hexDigit? c).bind fun value => hexFrom (16 * high + value) rest

/-- The number that a nonempty run of hexadecimal digits stands for. -/
def hex? (text : List Char) : Option Nat :=
  if text.isEmpty then none else hexFrom 0 text

/-- The shortest hexadecimal digits of a number, in lower case. -/
def hex (n : Nat) : List Char :=
  Nat.toDigits 16 n

end CallFork.Numeral
