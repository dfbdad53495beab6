import CallFork.Account

/-!
# Dial targets

A target may be given in part: `bob` is a user at the account's domain, `10.0.0.7` a machine, and
a full address is only brought into its written form. `complete` fills in what is missing,
`canonical` is the dial string under which a group knows the target.
-/

namespace CallFork.Target

/-- Why a target cannot be dialed. -/
inductive Fault where
  | foreignScheme (name : String)
  | badSyntax
  | portWithoutHost
deriving DecidableEq, Repr

def Fault.message : Fault → String
  | foreignScheme name => "unsupported scheme " ++ name
  | badSyntax => Address.badSyntax
  | portWithoutHost => "port given without a host"

/-- The port that an account's address lends to a target; the standard port goes without saying. -/
def lentPort (account : Account) : Option Nat :=
  account.address.port.filter (· != 5060)

/-- An address with a host name and no user is a user at the account's host. -/
def atAccount (account : Account) (uri : SipUri) : Except Fault SipUri :=
  if uri.userInfo.isSome || uri.host.isIp then .ok uri
  else if uri.port.any (· != 0) then .error .portWithoutHost
  else
    .ok { uri with
      userInfo := some ⟨uri.host.bare, none⟩
      host := account.address.host
      port := lentPort account }

/-- The address behind an optional scheme, completed from the account. -/
def completeSpec (account : Account) (address : List Char) : Except Fault SipUri :=
  match Address.splitScheme address with
  | some (.foreign name, _) => .error (.foreignScheme name)
  | some (.sip scheme, rest) => readAt scheme rest
  | none => readAt .sip address
where
  /-- The address with this scheme, completed from the account. -/
  readAt (scheme : SipScheme) (rest : List Char) : Except Fault SipUri :=
    match SipUri.read scheme rest with
    | some uri => atAccount account uri
    | none => .error .badSyntax

/-- The full address of a target that is dialed from an account. -/
def complete (account : Account) (target : String) : Except Error String :=
  match completeSpec account (Address.spec target.toList) with
  | .ok uri => .ok uri.text
  | .error fault => .error (.invalidTarget (trimmed target) fault.message)

/-- The name to show, if there is anything to show. -/
def shownName (displayName : Option String) : Option String :=
  (displayName.map trimmed).filter (· ≠ "")

/-- An address behind the name to show. -/
def dialString (name : Option String) (uri : String) : String :=
  match name with
  | some name => "\"" ++ name ++ "\" <" ++ uri ++ ">"
  | none => uri

/-- The dial string of a target, under which its group knows it. -/
def canonical (account : Account) (target : String) (displayName : Option String) :
    Except Error String :=
  (complete account target).map (dialString (shownName displayName))

end CallFork.Target
