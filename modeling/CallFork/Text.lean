/-!
# Text

Commands, addresses and configuration values are short texts that are cut at single characters.
The cutting is done on `List Char`, where each operation is a plain list function.

* `isBlank`, `trim`, `words`: white space is the Unicode property `White_Space`, and a word is
  a longest run of other characters.
* `isSpace`, `afterBreak`: within a line only spaces and tabs separate, and a line ends in a line feed
  that may have a carriage return in front.
* `cutAt`: the text before and after the first occurrence of a character.
* `lower`, `sameLetters`: ASCII letters are compared without case; other letters are left alone.
-/

namespace CallFork

/-! ## White space -/

/-- The code points with the Unicode property `White_Space`, as inclusive ranges. -/
def blankRanges : List (Nat × Nat) :=
  [(0x09, 0x0D), (0x20, 0x20), (0x85, 0x85), (0xA0, 0xA0), (0x1680, 0x1680), (0x2000, 0x200A),
   (0x2028, 0x2029), (0x202F, 0x202F), (0x205F, 0x205F), (0x3000, 0x3000)]

/-- A blank is a character with the Unicode property `White_Space`. -/
def isBlank (c : Char) : Bool :=
  blankRanges.any fun range => range.1 ≤ c.toNat && c.toNat ≤ range.2

/-- The text without its leading blanks. -/
def trimStart (text : List Char) : List Char :=
  text.dropWhile isBlank

/-- The text without its trailing blanks. -/
def trimEnd (text : List Char) : List Char :=
  (text.reverse.dropWhile isBlank).reverse

/-- The text without blanks at either end. -/
def trim (text : List Char) : List Char :=
  trimEnd (trimStart text)

/-- The longest runs of characters that are not blank, in order. -/
def words (text : List Char) : List (List Char) :=
  (text.splitOnP isBlank).filter (!·.isEmpty)

/-- `trim` on strings. -/
def trimmed (text : String) : String :=
  String.ofList (trim text.toList)

/-! ## Lines -/

/-- A space or a tab. -/
def isSpace (c : Char) : Bool :=
  c = ' ' || c = '\t'

/-- What follows a line break, if one stands at the start. -/
def afterBreak : List Char → Option (List Char)
  | '\n' :: rest => some rest
  | '\r' :: '\n' :: rest => some rest
  | _ => none

/-! ## Cutting and joining -/

/-- The text before and after the first `mark`, if there is one. -/
def cutAt (mark : Char) : List Char → Option (List Char × List Char)
  | [] => none
  | c :: rest =>
    if c = mark then some ([], rest)
    else (cutAt mark rest).map fun (before, after) => (c :: before, after)

/-- The text before and after the last `mark`, if there is one. -/
def cutAtLast (mark : Char) (text : List Char) : Option (List Char × List Char) :=
  (cutAt mark text.reverse).map fun (after, before) => (before.reverse, after.reverse)

/-- The parts with one `separator` between neighbours. -/
def joined (separator : String) (parts : List String) : String :=
  separator.intercalate parts

/-! ## Letters -/

/-- The text with its ASCII capitals in lower case. -/
def lower (text : List Char) : List Char :=
  text.map Char.toLower

/-- Whether two texts differ at most in the case of ASCII letters. -/
def sameLetters (a b : List Char) : Bool :=
  lower a == lower b

/-- If `text` begins with `lead`, ASCII case aside, what follows it. -/
def afterLead (lead : List Char) (text : List Char) : Option (List Char) :=
  if sameLetters lead (text.take lead.length) then some (text.drop lead.length) else none

end CallFork
