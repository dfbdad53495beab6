import CallFork.Text
import CallFork.Text.Numeral
import CallFork.Toml.Value

/-!
# TOML strings, numbers and dates

The values without parts. Each reader takes a value from the start of a text and yields what
follows it; `none` means that the file is malformed. Control characters other than tabs are allowed
nowhere.
-/

namespace CallFork.Toml

open Numeral (decimal? hexDigit? hexFrom isHexDigit)

/-! ## Characters -/

/-- Not a control character, tabs aside. -/
def isPlain (c : Char) : Bool :=
  c = '\t' || (0x20 ≤ c.toNat && c.toNat ≠ 0x7F)

/-- A character of a key without quotes. -/
def isBare (c : Char) : Bool :=
  c.isAlphanum || c = '_' || c = '-'

def apostrophe : Char := '\x27'

/-- A text with a character in front of what was taken. -/
def push (c : Char) (found : Option (List Char × List Char)) : Option (List Char × List Char) :=
  found.map fun (taken, rest) => (c :: taken, rest)

/-! ## Strings -/

/-- The character with a hexadecimal code point, if it is a Unicode scalar value. -/
def scalar (digits : List Char) : Option Char := do
  let code ← hexFrom 0 digits
  if code.isValidChar then some (Char.ofNat code) else none

/-- The character that a letter behind a backslash stands for. -/
def escaped (letter : Char) : Option Char :=
  [('b', Char.ofNat 8), ('t', '\t'), ('n', '\n'), ('f', Char.ofNat 12), ('r', '\r'), ('"', '"'),
   ('\\', '\\')].lookup letter

/-- The inside of a string in double quotes, and what follows the closing quote. -/
def basic : List Char → Option (List Char × List Char)
  | [] => none
  | '"' :: rest => some ([], rest)
  | '\\' :: 'u' :: a :: b :: c :: d :: rest => do push (← scalar [a, b, c, d]) (basic rest)
  | '\\' :: 'U' :: a :: b :: c :: d :: e :: f :: g :: h :: rest => do
    push (← scalar [a, b, c, d, e, f, g, h]) (basic rest)
  | '\\' :: letter :: rest => do push (← escaped letter) (basic rest)
  | c :: rest => if isPlain c && c ≠ '\\' then push c (basic rest) else none

/-- Whether only blanks stand before the end of the line. -/
def endsLine (text : List Char) : Bool :=
  (afterBreak (text.dropWhile isSpace)).isSome

/-- The inside of a string in three double quotes, and what follows them. Up to two more quotes may
stand before the closing ones. A backslash at the end of a line swallows blanks and line breaks;
`swallowing` tells that one has done so. -/
def multiline (swallowing : Bool) : List Char → Option (List Char × List Char)
  | [] => none
  | '"' :: '"' :: '"' :: '"' :: '"' :: rest => some (['"', '"'], rest)
  | '"' :: '"' :: '"' :: '"' :: rest => some (['"'], rest)
  | '"' :: '"' :: '"' :: rest => some ([], rest)
  | '\r' :: '\n' :: rest =>
    if swallowing then multiline true rest else push '\n' (multiline false rest)
  | '\\' :: 'u' :: a :: b :: c :: d :: rest => do
    push (← scalar [a, b, c, d]) (multiline false rest)
  | '\\' :: 'U' :: a :: b :: c :: d :: e :: f :: g :: h :: rest => do
    push (← scalar [a, b, c, d, e, f, g, h]) (multiline false rest)
  | '\\' :: letter :: rest =>
    if endsLine (letter :: rest) then multiline true rest
    else do push (← escaped letter) (multiline false rest)
  | c :: rest =>
    if swallowing && (isSpace c || c = '\n') then multiline true rest
    else if c = '\n' || (isPlain c && c ≠ '\\') then push c (multiline false rest)
    else none

/-- The inside of a literal string, and what follows the closing mark. -/
def literal (text : List Char) : Option (List Char × List Char) :=
  match text.dropWhile fun c => isPlain c && c ≠ apostrophe with
  | c :: rest =>
    if c = apostrophe then some (text.takeWhile fun c => isPlain c && c ≠ apostrophe, rest)
    else none
  | [] => none

/-- The inside of a literal string in three marks, and what follows them. Up to two more marks may
stand before the closing ones. -/
def multilineLiteral : List Char → Option (List Char × List Char)
  | [] => none
  | '\r' :: '\n' :: rest => push '\n' (multilineLiteral rest)
  | '\x27' :: '\x27' :: '\x27' :: '\x27' :: '\x27' :: rest =>
    some ([apostrophe, apostrophe], rest)
  | '\x27' :: '\x27' :: '\x27' :: '\x27' :: rest => some ([apostrophe], rest)
  | '\x27' :: '\x27' :: '\x27' :: rest => some ([], rest)
  | c :: rest => if c = '\n' || isPlain c then push c (multilineLiteral rest) else none

/-- A text without a line break at its start. -/
def skipBreak (text : List Char) : List Char :=
  (afterBreak text).getD text

/-- The string at the start of a text. -/
def readString : List Char → Option (String × List Char)
  | '"' :: '"' :: '"' :: rest => (multiline false (skipBreak rest)).map asString
  | '"' :: rest => (basic rest).map asString
  | '\x27' :: '\x27' :: '\x27' :: rest => (multilineLiteral (skipBreak rest)).map asString
  | '\x27' :: rest => (literal rest).map asString
  | _ => none
where
  /-- What was taken, as a string. -/
  asString : List Char × List Char → String × List Char
    | (taken, rest) => (String.ofList taken, rest)

/-! ## Numbers -/

/-- Digits that may be separated by single underscores, in the middle of a number. -/
def moreDigits (isDigit : Char → Bool) : List Char → Option (List Char × List Char)
  | [] => some ([], [])
  | ['_'] => none
  | '_' :: c :: rest => if isDigit c then push c (moreDigits isDigit rest) else none
  | c :: rest => if isDigit c then push c (moreDigits isDigit rest) else some ([], c :: rest)

/-- One or more digits, with single underscores between them. -/
def someDigits (isDigit : Char → Bool) : List Char → Option (List Char × List Char)
  | [] => none
  | c :: rest => if isDigit c then push c (moreDigits isDigit rest) else none

/-- Decimal digits without leading zeros. -/
def wholeDigits : List Char → Option (List Char × List Char)
  | '0' :: rest => some (['0'], rest)
  | text => someDigits Char.isDigit text

/-- A sign, if one stands at the start; it says whether the number is negative. -/
def takeSign : List Char → Bool × List Char
  | '-' :: rest => (true, rest)
  | '+' :: rest => (false, rest)
  | text => (false, text)

/-- Integers have 64 bits. -/
def fitsInteger (number : Int) : Bool :=
  -0x8000000000000000 ≤ number && number < 0x8000000000000000

/-- The number of digits in some base of at most sixteen. -/
def ofDigits (base : Nat) (digits : List Char) : Nat :=
  digits.foldl (fun number c => base * number + (hexDigit? c).getD 0) 0

/-- The integer at the start of a text with a base in front. -/
def readBased (base : Nat) (text : List Char) : Option (Value × List Char) := do
  let (digits, rest) ← someDigits (fun c => (hexDigit? c).any (· < base)) text
  let number : Int := ofDigits base digits
  if fitsInteger number then some (.integer number, rest) else none

/-- The integer at the start of a text. -/
def readInteger (text : List Char) : Option (Value × List Char) :=
  match text with
  | '0' :: 'x' :: rest => readBased 16 rest
  | '0' :: 'o' :: rest => readBased 8 rest
  | '0' :: 'b' :: rest => readBased 2 rest
  | _ => do
    let (negative, unsigned) := takeSign text
    let (digits, rest) ← wholeDigits unsigned
    let number : Int := if negative then -(ofDigits 10 digits : Int) else ofDigits 10 digits
    if fitsInteger number then some (.integer number, rest) else none

/-- The least number that is nearer to infinity than to a floating-point number. -/
def floatBound : Nat := (Nat.pow 2 54 - 1) * Nat.pow 2 970

/-- Whether `digits` times a power of ten is too large for a floating-point number. Numbers of fewer
than 300 or more than 320 places before the point are decided by their size alone. -/
def overflows (digits : Nat) (exponent : Int) : Bool :=
  let places : Int := (Nat.toDigits 10 digits).length + exponent
  if digits = 0 || places < 300 then false
  else if 320 < places then true
  else if 0 ≤ exponent then floatBound ≤ digits * Nat.pow 10 exponent.toNat
  else floatBound * Nat.pow 10 (-exponent).toNat ≤ digits

/-- The fraction at the start of a text, if a point stands there. -/
def takeFraction : List Char → Option (List Char × List Char)
  | '.' :: rest => someDigits Char.isDigit rest
  | text => some ([], text)

/-- The exponent at the start of a text, if there is one. -/
def takeExponent (text : List Char) : Option (Option Int × List Char) :=
  match text with
  | c :: rest =>
    if c = 'e' || c = 'E' then do
      let (negative, unsigned) := takeSign rest
      let (digits, rest) ← someDigits Char.isDigit unsigned
      let size : Int := ofDigits 10 digits
      some (some (if negative then -size else size), rest)
    else some (none, text)
  | [] => some (none, [])

/-- The floating-point number at the start of a text. It has a fraction or an exponent, or it is
infinite or no number. Positive numbers that are too large are refused. -/
def readFloat (text : List Char) : Option (Value × List Char) :=
  let (negative, unsigned) := takeSign text
  match unsigned with
  | 'i' :: 'n' :: 'f' :: rest => some (.float, rest)
  | 'n' :: 'a' :: 'n' :: rest => some (.float, rest)
  | _ => do
    let (whole, rest) ← wholeDigits unsigned
    let (fraction, rest) ← takeFraction rest
    let (exponent, rest) ← takeExponent rest
    if fraction.isEmpty && exponent.isNone then none
    else if !negative
        && overflows (ofDigits 10 (whole ++ fraction)) (exponent.getD 0 - fraction.length) then none
    else some (.float, rest)

/-! ## Dates and times -/

/-- Exactly `count` digits with a value in a range, and what follows them. -/
def takeField (count low high : Nat) (text : List Char) : Option (Nat × List Char) := do
  let number ← decimal? (text.take count)
  if (text.take count).length = count && low ≤ number && number ≤ high then
    some (number, text.drop count)
  else none

/-- What follows a character that must stand at the start. -/
def expect (c : Char) : List Char → Option (List Char)
  | first :: rest => if first = c then some rest else none
  | [] => none

/-- How many days a month has. -/
def daysIn (year month : Nat) : Nat :=
  if month = 2 then
    if year % 4 = 0 && (year % 100 ≠ 0 || year % 400 = 0) then 29 else 28
  else if month = 4 || month = 6 || month = 9 || month = 11 then 30
  else 31

/-- What follows a date. -/
def afterDate (text : List Char) : Option (List Char) := do
  let (year, rest) ← takeField 4 0 9999 text
  let (month, rest) ← takeField 2 1 12 (← expect '-' rest)
  let (_, rest) ← takeField 2 1 (daysIn year month) (← expect '-' rest)
  return rest

/-- What follows a fraction of a second, if there is one. -/
def afterSecondFraction : List Char → Option (List Char)
  | '.' :: rest =>
    if (rest.takeWhile Char.isDigit).isEmpty then none else some (rest.dropWhile Char.isDigit)
  | text => some text

/-- What follows a time of day. -/
def afterTime (text : List Char) : Option (List Char) := do
  let (_, rest) ← takeField 2 0 23 text
  let (_, rest) ← takeField 2 0 59 (← expect ':' rest)
  let (_, rest) ← takeField 2 0 60 (← expect ':' rest)
  match afterSecondFraction rest with
  | some left => some left
  | none => some rest

/-- What follows a distance from universal time, if there is one. -/
def afterOffset (text : List Char) : Option (List Char) :=
  match text with
  | c :: rest =>
    if c = 'Z' || c = 'z' then some rest
    else if c = '+' || c = '-' then do
      let (_, rest) ← takeField 2 0 23 rest
      let (_, rest) ← takeField 2 0 59 (← expect ':' rest)
      return rest
    else some text
  | [] => some []

/-- The date, the time, or both, at the start of a text. -/
def readMoment (text : List Char) : Option (Value × List Char) :=
  match afterDate text with
  | none => (afterTime text).map fun rest => (.moment, rest)
  | some rest =>
    match rest with
    | c :: clock =>
      if c = 'T' || c = 't' || c = ' ' then
        match afterTime clock with
        | some rest => (afterOffset rest).map fun rest => (.moment, rest)
        | none => some (.moment, c :: clock)
      else some (.moment, rest)
    | [] => some (.moment, [])

/-! ## Any value without parts -/

/-- The truth value or number at the start of a text. -/
def readWord (text : List Char) : Option (Value × List Char) :=
  match text with
  | 't' :: 'r' :: 'u' :: 'e' :: rest => some (.boolean true, rest)
  | 'f' :: 'a' :: 'l' :: 's' :: 'e' :: rest => some (.boolean false, rest)
  | _ => readMoment text <|> readFloat text <|> readInteger text

/-- The value without parts at the start of a text. -/
def readScalar (text : List Char) : Option (Value × List Char) :=
  match text with
  | '"' :: _ | '\x27' :: _ => (readString text).map fun (string, rest) => (.string string, rest)
  | _ => readWord text

end CallFork.Toml
