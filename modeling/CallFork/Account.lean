import CallFork.Error
import CallFork.Address

/-!
# Accounts

A call goes out from a local account, which has an address of record. `AccountTable.accountFor`
chooses the account for a target: the first whose domain is the target's, or else the first of
all. A target that names no user has no domain of its own.
-/

namespace CallFork

/-- A local account, known by its address of record. -/
structure Account where
  address : SipUri
deriving DecidableEq, Repr

namespace Account

/-- Why a text is no address of record. -/
inductive Fault where
  | noScheme
  | foreignScheme (name : String)
  | badSyntax
deriving DecidableEq, Repr

def Fault.message (given : String) : Fault → String
  | noScheme => "account " ++ given ++ " has no sip: scheme"
  | foreignScheme name => "account " ++ given ++ " uses unsupported scheme " ++ name
  | badSyntax => "account " ++ given ++ ": " ++ Address.badSyntax

/-- The account with an address of record, which has to name its scheme. -/
def parse (given : String) : Except Fault Account :=
  match Address.splitScheme (Address.spec given.toList) with
  | none => .error .noScheme
  | some (.foreign name, _) => .error (.foreignScheme name)
  | some (.sip scheme, rest) =>
    match SipUri.read scheme rest with
    | some address => .ok ⟨address⟩
    | none => .error .badSyntax

/-- `parse`, with the error as it is reported. -/
def ofText (given : String) : Except Error Account :=
  (parse given).mapError fun fault => .configuration (fault.message given)

/-- The host of the address of record, without brackets. -/
def domain (account : Account) : String :=
  account.address.host.bare

def text (account : Account) : String :=
  account.address.text

end Account

/-- The accounts of this process, in the order of the configuration. -/
structure AccountTable where
  accounts : List Account
deriving DecidableEq, Repr

namespace AccountTable

/-- The table of accounts with these addresses of record. -/
def ofTexts (given : List String) : Except Error AccountTable :=
  (given.mapM Account.ofText).map AccountTable.mk

/-- The domain behind the user of an address without scheme, if it names a user. -/
def domainOf (rest : List Char) : Option String :=
  match SipUri.read .sip rest with
  | some uri => if uri.userInfo.isSome then some uri.host.bare else none
  | none => none

def serves (domain : Option String) (account : Account) : Bool :=
  match domain with
  | some name => sameLetters name.toList account.domain.toList
  | none => false

/-- The first account that serves the domain, or else the first account. -/
def choose (table : AccountTable) (domain : Option String) : Option Account :=
  table.accounts.find? (serves domain) <|> table.accounts.head?

/-- The account that calls a target. Nobody calls a target with a foreign scheme. -/
def accountFor (table : AccountTable) (target : String) : Option Account :=
  let address := Address.spec target.toList
  match Address.splitScheme address with
  | some (.sip _, rest) => table.choose (domainOf rest)
  | some (.foreign _, _) => none
  | none => table.choose (domainOf address)

end AccountTable
end CallFork
