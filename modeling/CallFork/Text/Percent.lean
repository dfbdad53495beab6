import CallFork.Text.Numeral

/-!
# Percent escapes

A component of an address is a string whose UTF-8 bytes are written either as themselves or as
`%` and two hexadecimal digits. `encode` escapes every byte outside a set of plain characters,
`decode` undoes any mixture of plain characters and escapes, and `spanEscaped` finds how far a
component reaches.
-/

namespace CallFork.Percent

open Numeral (hexDigit?)

/-- The characters that never need an escape: letters, digits and nine marks. -/
def isUnreserved (c : Char) : Bool :=
  c.isAlphanum || "-_.!~*\x27()".toList.contains c

/-! ## Writing -/

/-- A hexadecimal digit in upper case. -/
def upperHexDigit (n : Nat) : Char :=
  (Nat.digitChar n).toUpper

/-- One byte: itself if it is a plain ASCII character, else its escape. -/
def encodeByte (plain : Char → Bool) (b : UInt8) : List Char :=
  let c := Char.ofNat b.toNat
  if b.toNat < 128 && plain c then [c]
  else ['%', upperHexDigit (b.toNat / 16), upperHexDigit (b.toNat % 16)]

/-- The bytes of a string, each written by `encodeByte`. -/
def encode (plain : Char → Bool) (text : String) : List Char :=
  text.toByteArray.data.toList.flatMap (encodeByte plain)

/-! ## Reading -/

/-- The bytes that a component stands for; a `%` without two hexadecimal digits has no meaning. -/
def decodeBytes : List Char → Option (List UInt8)
  | [] => some []
  | '%' :: high :: low :: rest => do
    let h ← hexDigit? high
    let l ← hexDigit? low
    return UInt8.ofNat (16 * h + l) :: (← decodeBytes rest)
  | c :: rest =>
    if c = '%' then none
    else (decodeBytes rest).map (String.utf8EncodeChar c ++ ·)

/-- The string that a component stands for, if its bytes are UTF-8. -/
def decode (text : List Char) : Option String := do
  let bytes ← decodeBytes text
  String.fromUTF8? ⟨bytes.toArray⟩

/-- The longest beginning made of `plain` characters and complete escapes, and what follows. -/
def spanEscaped (plain : Char → Bool) : List Char → List Char × List Char
  | [] => ([], [])
  | '%' :: high :: low :: rest =>
    if (hexDigit? high).isSome && (hexDigit? low).isSome then
      let (taken, left) := spanEscaped plain rest
      ('%' :: high :: low :: taken, left)
    else ([], '%' :: high :: low :: rest)
  | c :: rest =>
    if c ≠ '%' && plain c then
      let (taken, left) := spanEscaped plain rest
      (c :: taken, left)
    else ([], c :: rest)

end CallFork.Percent
