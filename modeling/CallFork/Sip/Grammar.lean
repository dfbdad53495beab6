import CallFork.Text
import CallFork.Sip.Uri

/-!
# The grammar of SIP addresses

How the text behind the scheme is read. The parts are taken from left to right:

1. the text before the first `@`, if it is a user with an optional password;
2. a host: a domain name, a dotted quad or an address in brackets;
3. a port, parameters and headers, each if its mark follows.

An address must be used up completely. A domain name without a dot is taken up to the next `:`,
`;` or `?` whatever it holds behind a first well-formed label, and before the host is read the
first colon has to look like the start of a port.
-/

namespace CallFork

open Percent (decode spanEscaped isUnreserved)
open Numeral (decimal? isHexDigit)

namespace SipUri

/-! ## User and password -/

/-- The characters of a user beside escapes. -/
def isUserChar (c : Char) : Bool :=
  isUnreserved c || "&=+$,;?/".toList.contains c

/-- The characters of a password beside escapes. -/
def isPasswordChar (c : Char) : Bool :=
  isUnreserved c || "&=+$,".toList.contains c

def isBracketed (c : Char) : Bool :=
  isHexDigit c || c == ':' || c == '.' || c == '%'

/-- A bracketed part at the start, brackets included, and what follows it. -/
def spanBrackets : List Char → Option (List Char × List Char)
  | '[' :: rest =>
    match rest.takeWhile isBracketed, rest.dropWhile isBracketed with
    | [], _ => none
    | inner, ']' :: after => some ('[' :: inner ++ [']'], after)
    | _, _ => none
  | _ => none

/-- The user at the start, still escaped, and what follows it. -/
def spanUser (text : List Char) : Option (List Char × List Char) :=
  match spanBrackets text with
  | some found => some found
  | none =>
    match spanEscaped isUserChar text with
    | ([], _) => none
    | found => some found

/-- A whole text as a user with an optional password. Two colons only pass beside brackets. -/
def readUserInfo (text : List Char) : Option UserInfo :=
  if 1 < text.count ':' && !(text.contains '[' && text.contains ']') then none
  else
    match spanUser text with
    | none => none
    | some (user, []) => (decode user).map (⟨·, none⟩)
    | some (user, ':' :: rest) =>
      match spanEscaped isPasswordChar rest with
      | (password, []) => do return ⟨← decode user, some (← decode password)⟩
      | _ => none
    | some _ => none

/-- The user in front of the first `@`, if there is one, and the text that is left. -/
def takeUserInfo (text : List Char) : Option UserInfo × List Char :=
  match cutAt '@' text with
  | none => (none, text)
  | some (before, after) =>
    match readUserInfo before with
    | some info => (some info, after)
    | none => (none, text)

/-! ## Host and port -/

/-- Ports fit in 16 bits. -/
def maxPort : Nat := 65535

/-- Whether a bracket has been opened and none closed. -/
def isInBrackets (before : List Char) : Bool :=
  before.contains '[' && !before.contains ']'

def endsPort : List Char → Bool
  | [] => true
  | c :: _ => c == ';' || c == '?'

/-- The first colon, unless it stands in brackets, closes the text or opens a bracket, must be
followed by one to five digits up to 65535 and then by a parameter, a header or nothing. -/
def portFits (text : List Char) : Bool :=
  match cutAt ':' text with
  | none => true
  | some (before, after) =>
    isInBrackets before || after.isEmpty || after.head? == some '['
      || (match decimal? (after.takeWhile Char.isDigit) with
          | some port =>
            (after.takeWhile Char.isDigit).length ≤ 5 && port ≤ maxPort
              && endsPort (after.dropWhile Char.isDigit)
          | none => false)

def isNameChar (c : Char) : Bool :=
  !(c == ':' || c == ';' || c == '?')

def isLabelChar (c : Char) : Bool :=
  c.isAlphanum || c == '-'

/-- A label has letters, digits and hyphens, with no hyphen at either end. -/
def isLabel (text : List Char) : Bool :=
  !text.isEmpty && text.all isLabelChar && text.head? != some '-' && text.getLast? != some '-'

/-- The name without one trailing dot. -/
def withoutFinalDot (name : List Char) : List Char :=
  if name.getLast? = some '.' && 1 < name.length then name.dropLast else name

/-- A domain name at the start, and what follows it. A trailing dot is dropped when something
follows, and else left over. -/
def takeDomain (text : List Char) : Option (Host × List Char) :=
  let name := text.takeWhile isNameChar
  let rest := text.dropWhile isNameChar
  if name.contains '_' then none
  else if !name.contains '.' then
    -- only the first label is looked at, and the whole name is taken
    if isLabel (name.takeWhile isLabelChar) then some (.domain (String.ofList name), rest)
    else none
  else
    let bare := withoutFinalDot name
    if (bare.splitOn '.').all isLabel && (IpAddress.readV4 bare).isNone then
      some (.domain (String.ofList bare),
        if rest.isEmpty && name.getLast? = some '.' then ['.'] else rest)
    else none

/-- Whether a character may be part of a dotted quad. -/
def isQuadChar (c : Char) : Bool :=
  c.isDigit || c == '.'

/-- One to three digits up to 255; here leading zeros pass. -/
def looseOctet? (text : List Char) : Option UInt8 :=
  match decimal? text with
  | some n => if n ≤ 255 && text.length ≤ 3 then some (UInt8.ofNat n) else none
  | none => none

/-- A dotted quad at the start, and what follows it. -/
def takeQuad (text : List Char) : Option (Host × List Char) :=
  match (text.takeWhile isQuadChar).splitOn '.' with
  | [a, b, c, d] => do
    let ip := .v4 (← looseOctet? a) (← looseOctet? b) (← looseOctet? c) (← looseOctet? d)
    return (.address ip, text.dropWhile isQuadChar)
  | _ => none

/-- An address in brackets at the start, and what follows it. -/
def takeBracketed (text : List Char) : Option (Host × List Char) :=
  match spanBrackets text with
  | some (bracketed, rest) =>
    (IpAddress.read (bracketed.drop 1).dropLast).map fun ip => (.address ip, rest)
  | none => none

/-- The host at the start, and what follows it. -/
def takeHost (text : List Char) : Option (Host × List Char) :=
  takeDomain text <|> takeQuad text <|> takeBracketed text

/-- The port at the start, if a colon stands there, and what follows it. -/
def takePort : List Char → Option (Option Nat × List Char)
  | ':' :: rest =>
    match decimal? (rest.takeWhile Char.isDigit) with
    | some port =>
      if port ≤ maxPort then some (some port, rest.dropWhile Char.isDigit) else none
    | none => none
  | text => some (none, text)

/-! ## Parameters -/

def isTokenChar (c : Char) : Bool :=
  c.isAlphanum || "-.!%*_+\x60\x27~".toList.contains c

/-- The characters of other parameters beside escapes. -/
def isParamChar (c : Char) : Bool :=
  isUnreserved c || "[]/:&+$".toList.contains c

/-- A text without the gap that may stand around the marks between parameters: spaces and tabs, in
which the line may be broken once if a space or a tab follows. -/
def skipGap (text : List Char) : List Char :=
  let rest := text.dropWhile isSpace
  match afterBreak rest with
  | some (c :: after) => if isSpace c then after.dropWhile isSpace else rest
  | _ => rest

/-- A parameter with a fixed name and a token for its value. -/
def takeToken (lead : String) (make : String → UriParam) (text : List Char) :
    Option (UriParam × List Char) := do
  let rest ← afterLead lead.toList text
  match rest.takeWhile isTokenChar with
  | [] => none
  | token => some (make (String.ofList token), rest.dropWhile isTokenChar)

/-- A time to live of one to three digits, up to 255. -/
def takeTtl (text : List Char) : Option (UriParam × List Char) := do
  let rest ← afterLead "ttl=".toList text
  let digits := rest.takeWhile Char.isDigit
  let hops ← decimal? digits
  if digits.length ≤ 3 && hops ≤ 255 then some (.ttl hops, rest.dropWhile Char.isDigit) else none

/-- A multicast host; an IPv6 address is kept as written. -/
def takeMaddr (text : List Char) : Option (UriParam × List Char) := do
  let rest ← afterLead "maddr=".toList text
  let (host, left) ← takeHost rest
  match host with
  | .address (.v6 _) =>
    return (.maddr (String.ofList (rest.take (rest.length - left.length))), left)
  | _ => return (.maddr host.bare, left)

/-- The mark for loose routing. -/
def takeLooseRouting (text : List Char) : Option (UriParam × List Char) :=
  (afterLead "lr".toList text).map fun rest => (.looseRouting, rest)

/-- A nonempty name or value, decoded, and what follows it. -/
def takeComponent (text : List Char) : Option (String × List Char) :=
  match spanEscaped isParamChar text with
  | ([], _) => none
  | (raw, rest) => (decode raw).map fun decoded => (decoded, rest)

/-- The value behind `=`, if there is one, and what follows it. -/
def takeValue (text : List Char) : Option (String × List Char) :=
  match skipGap text with
  | '=' :: rest => takeComponent (skipGap rest)
  | _ => none

/-- Any other parameter. The whole text that is left must not begin with `=`, nor end with `=`. -/
def takeOther (text : List Char) : Option (UriParam × List Char) :=
  if text.head? = some '=' || text.getLast? = some '=' then none
  else do
    let (name, rest) ← takeComponent text
    match takeValue rest with
    | some (value, left) => some (.other name (some value), left)
    | none => some (.other name none, rest)

/-- The parameter at the start, and what follows it. -/
def takeParam (text : List Char) : Option (UriParam × List Char) :=
  takeToken "transport=" .transport text
    <|> takeToken "user=" .user text
    <|> takeToken "method=" .method text
    <|> takeTtl text
    <|> takeMaddr text
    <|> takeLooseRouting text
    <|> takeOther text

/-- As many parameters as follow, each behind a semicolon, and what is left. -/
def takeParams (text : List Char) : List UriParam × List Char :=
  match skipGap text with
  | ';' :: after =>
    match takeParam (skipGap after) with
    | some (param, rest) =>
      if rest.length < text.length then
        let (more, left) := takeParams rest
        (param :: more, left)
      else ([], text)
    | none => ([], text)
  | _ => ([], text)
termination_by text.length

/-- The parameters, if a semicolon stands at the start; it must not be followed by `=`. -/
def takeParamPart : List Char → Option (List UriParam × List Char)
  | ';' :: '=' :: _ => none
  | ';' :: rest => some (takeParams (';' :: rest))
  | text => some ([], text)

/-! ## Headers -/

/-- The characters of a header name beside escapes. -/
def isHeaderNameChar (c : Char) : Bool :=
  isUnreserved c || "[]/?:+$".toList.contains c

/-- The characters of a header value beside escapes. -/
def isHeaderValueChar (c : Char) : Bool :=
  isHeaderNameChar c || "<>;,\x22=@ #".toList.contains c

/-- The header at the start, and what follows it. -/
def takeHeader (text : List Char) : Option ((String × String) × List Char) :=
  match spanEscaped isHeaderNameChar text with
  | ([], _) => none
  | (name, '=' :: rest) =>
    let (value, left) := spanEscaped isHeaderValueChar rest
    do return ((← decode name, ← decode value), left)
  | _ => none

/-- Headers with a later value in place of an earlier one of the same name. -/
def putHeader (headers : List (String × String)) (header : String × String) :
    List (String × String) :=
  if headers.any (·.1 = header.1) then
    headers.map fun old => if old.1 = header.1 then header else old
  else headers ++ [header]

/-- As many headers as follow, with `&` between them, put behind those in `headers`. -/
def takeHeaders (headers : List (String × String)) (text : List Char) :
    Option (List (String × String) × List Char) :=
  match takeHeader text with
  | none => none
  | some (header, '&' :: rest) =>
    if rest.length < text.length then takeHeaders (putHeader headers header) rest else none
  | some (header, rest) => some (putHeader headers header, rest)
termination_by text.length

/-- The headers, if a question mark stands at the start. -/
def takeHeaderPart : List Char → Option (List (String × String) × List Char)
  | '?' :: rest => takeHeaders [] rest
  | text => some ([], text)

/-! ## Whole addresses -/

/-- The address whose text behind the scheme is `text`. -/
def read (scheme : SipScheme) (text : List Char) : Option SipUri := do
  let (userInfo, rest) := takeUserInfo text
  if !portFits rest then none
  else
    let (host, rest) ← takeHost rest
    let (port, rest) ← takePort rest
    let (params, rest) ← takeParamPart rest
    let (headers, rest) ← takeHeaderPart rest
    -- what no part has taken spoils the address
    if rest.isEmpty then some ⟨scheme, userInfo, host, port, params, headers⟩ else none

end SipUri
end CallFork
