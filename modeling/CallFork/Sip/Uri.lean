import CallFork.Text.Percent
import CallFork.Sip.IpAddress

/-!
# SIP addresses

The parts of a SIP address and its one written form:

    scheme:[user[:password]@]host[:port][;parameter...][?header[&header...]]

User, password and headers are kept decoded and are escaped again when written. Parameters are
kept decoded and written as they are. A password is only written behind a user, and port 0 counts
as no port.
-/

namespace CallFork

open Percent (encode isUnreserved)
open Numeral (decimal)

/-- The two schemes of a SIP address: plain and over TLS. -/
inductive SipScheme where
  | sip
  | sips
deriving DecidableEq, Repr

namespace SipScheme

def word : SipScheme → String
  | sip => "sip"
  | sips => "sips"

end SipScheme

/-! ## Hosts -/

/-- A host is a domain name, with its case kept, or an IP address. -/
inductive Host where
  | domain (name : String)
  | address (ip : IpAddress)
deriving DecidableEq, Repr

namespace Host

/-- The host alone, without brackets. -/
def bare : Host → String
  | domain name => name
  | address ip => String.ofList ip.text

/-- The host as an address shows it: an IPv6 address stands in brackets. -/
def text : Host → List Char
  | domain name => name.toList
  | address (.v4 a b c d) => (IpAddress.v4 a b c d).text
  | address (.v6 groups) => '[' :: (IpAddress.v6 groups).text ++ [']']

/-- Whether the host names a machine by number. -/
def isIp : Host → Bool
  | domain name => (IpAddress.read name.toList).isSome
  | address _ => true

end Host

/-! ## Parameters -/

/-- A parameter behind a semicolon. Names with a fixed meaning are written in lower case. -/
inductive UriParam where
  | transport (token : String)
  | user (token : String)
  | method (token : String)
  | ttl (hops : Nat)
  | maddr (host : String)
  | looseRouting
  | other (name : String) (value : Option String)
deriving DecidableEq, Repr

namespace UriParam

/-- The parameter without its semicolon. -/
def text : UriParam → List Char
  | transport token => "transport=".toList ++ token.toList
  | user token => "user=".toList ++ token.toList
  | method token => "method=".toList ++ token.toList
  | ttl hops => "ttl=".toList ++ decimal hops
  | maddr host => "maddr=".toList ++ host.toList
  | looseRouting => "lr".toList
  | other name none => name.toList
  | other name (some value) => name.toList ++ '=' :: value.toList

end UriParam

/-! ## Whole addresses -/

/-- Who is addressed at the host, and the password, if one is given. -/
structure UserInfo where
  user : String
  password : Option String
deriving DecidableEq, Repr

/-- A SIP address in its parts. -/
structure SipUri where
  scheme : SipScheme
  userInfo : Option UserInfo
  host : Host
  port : Option Nat
  params : List UriParam
  headers : List (String × String)
deriving DecidableEq, Repr

namespace UserInfo

/-- User and password, escaped, with the closing `@`. -/
def text (info : UserInfo) : List Char :=
  encode isUnreserved info.user
    ++ (match info.password with
        | some password => ':' :: encode isUnreserved password
        | none => [])
    ++ ['@']

end UserInfo

namespace SipUri

/-- The characters of a header that need no escape. -/
def isPlainInHeader (c : Char) : Bool :=
  isUnreserved c || c == '+'

/-- A header as `name=value`, escaped. -/
def headerText (header : String × String) : List Char :=
  encode isPlainInHeader header.1 ++ '=' :: encode isPlainInHeader header.2

/-- The port with its colon; port 0 is left out. -/
def portText : Option Nat → List Char
  | some port => if port = 0 then [] else ':' :: decimal port
  | none => []

def headersText : List (String × String) → List Char
  | [] => []
  | headers => '?' :: List.intercalate ['&'] (headers.map headerText)

def body (uri : SipUri) : List Char :=
  (match uri.userInfo with
    | some info => info.text
    | none => [])
    ++ uri.host.text
    ++ portText uri.port
    ++ uri.params.flatMap (fun param => ';' :: param.text)
    ++ headersText uri.headers

def text (uri : SipUri) : String :=
  uri.scheme.word ++ String.ofList (':' :: uri.body)

/-- The user, if one is named. -/
def user (uri : SipUri) : Option String :=
  uri.userInfo.map (·.user)

end SipUri
end CallFork
