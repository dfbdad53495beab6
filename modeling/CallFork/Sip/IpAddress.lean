import CallFork.Text.Numeral

/-!
# IP addresses

The texts of IPv4 and IPv6 addresses. Reading is strict: octets are decimal without leading
zeros, a group has one to four hexadecimal digits, `::` stands at most once and for at least one
group, and a dotted quad may take the place of the last two groups. Writing gives the canonical
text: the longest run of at least two zero groups, the first of equals, becomes `::`, and an
IPv4-mapped address ends in a dotted quad.
-/

namespace CallFork

open Numeral (decimal decimal? hex hex?)

/-- An IPv4 or an IPv6 address. -/
inductive IpAddress where
  | v4 (a b c d : UInt8)
  | v6 (groups : Vector UInt16 8)
deriving DecidableEq, Repr

namespace IpAddress

/-! ## Reading -/

/-- A decimal number up to 255 without leading zeros. -/
def octet? (text : List Char) : Option UInt8 :=
  match decimal? text with
  | some n => if n ≤ 255 && text.length = (decimal n).length then some (UInt8.ofNat n) else none
  | none => none

/-- Four octets between dots. -/
def quad? (text : List Char) : Option (UInt8 × UInt8 × UInt8 × UInt8) :=
  match text.splitOn '.' with
  | [a, b, c, d] => do return (← octet? a, ← octet? b, ← octet? c, ← octet? d)
  | _ => none

/-- One to four hexadecimal digits. -/
def group? (text : List Char) : Option UInt16 :=
  if text.length ≤ 4 then (hex? text).map UInt16.ofNat else none

/-- Two octets as one group. -/
def pair (high low : UInt8) : UInt16 :=
  UInt16.ofNat (256 * high.toNat + low.toNat)

/-- Groups of which the last may be a dotted quad, worth two groups. -/
def groups? : List (List Char) → Option (List UInt16)
  | [] => some []
  | [last] =>
    match quad? last with
    | some (a, b, c, d) => some [pair a b, pair c d]
    | none => (group? last).map ([·])
  | first :: rest => do return (← group? first) :: (← groups? rest)

/-- The pieces between colons; an empty text has none. -/
def pieces (text : List Char) : List (List Char) :=
  if text.isEmpty then [] else text.splitOn ':'

/-- The text before and after the first `::`, if there is one. -/
def cutAtGap : List Char → Option (List Char × List Char)
  | [] => none
  | ':' :: ':' :: rest => some ([], rest)
  | c :: rest => (cutAtGap rest).map fun (before, after) => (c :: before, after)

/-- Eight groups, if there are that many. -/
def v6? (groups : List UInt16) : Option IpAddress :=
  if h : groups.toArray.size = 8 then some (.v6 ⟨groups.toArray, h⟩) else none

/-- The text of an IPv6 address. -/
def readV6 (text : List Char) : Option IpAddress :=
  match cutAtGap text with
  | none => (groups? (pieces text)).bind v6?
  | some (before, after) => do
    let front ← (pieces before).mapM group?
    let back ← groups? (pieces after)
    if front.length + back.length < 8 then
      v6? (front ++ List.replicate (8 - front.length - back.length) 0 ++ back)
    else none

/-- The text of an IPv4 address. -/
def readV4 (text : List Char) : Option IpAddress :=
  (quad? text).map fun (a, b, c, d) => .v4 a b c d

def read (text : List Char) : Option IpAddress :=
  readV4 text <|> readV6 text

/-! ## Writing -/

/-- Four octets between dots. -/
def quad (a b c d : UInt8) : List Char :=
  [a, b, c, d].map (fun octet => decimal octet.toNat) |> List.intercalate ['.']

/-- Groups between colons. -/
def colons (groups : List UInt16) : List Char :=
  groups.map (fun group => hex group.toNat) |> List.intercalate [':']

/-- The start and length of the longest run of zero groups, the first of equals. -/
def longestZeroRun : List UInt16 → Nat × Nat
  | [] => (0, 0)
  | group :: rest =>
    let here := ((group :: rest).takeWhile (· == 0)).length
    let (start, length) := longestZeroRun rest
    if length ≤ here then (0, here) else (start + 1, length)

/-- The octets of an IPv4-mapped address. -/
def mapped? : List UInt16 → Option (UInt8 × UInt8 × UInt8 × UInt8)
  | [0, 0, 0, 0, 0, 0xFFFF, high, low] =>
    some ((high >>> 8).toUInt8, high.toUInt8, (low >>> 8).toUInt8, low.toUInt8)
  | _ => none

/-- Groups with the longest run of zeros, if it has at least two, left out at `::`. -/
def compressed (groups : List UInt16) : List Char :=
  let (start, length) := longestZeroRun groups
  if length < 2 then colons groups
  else colons (groups.take start) ++ "::".toList ++ colons (groups.drop (start + length))

/-- The canonical text of an address, without brackets. -/
def text : IpAddress → List Char
  | v4 a b c d => quad a b c d
  | v6 groups =>
    match mapped? groups.toList with
    | some (a, b, c, d) => "::ffff:".toList ++ quad a b c d
    | none => compressed groups.toList

end IpAddress
end CallFork
