import CallFork.Proofs.Completion
import Mathlib.Data.List.Basic

/-! # Which account calls a target

`AccountTable.accountFor` looks at a target before it is completed, and `Target.complete` needs the
account for that. They agree on targets that name a user, and on names that become users at the
account's own domain: the account is the first one of the domain of the address that is called. A
machine that is called by number, without a user, is called from the first account of all, even if
another one is of that domain (`AccountTable.prefers_iff`).
-/

namespace CallFork

namespace AccountTable

/-- The account is the first one of this domain, or the first of all if there is none. -/
def Prefers (table : AccountTable) (domain : String) (account : Account) : Prop :=
  (∃ before after, table.accounts = before ++ account :: after ∧
      sameLetters domain.toList account.domain.toList = true ∧
      ∀ other ∈ before, sameLetters domain.toList other.domain.toList = false) ∨
    (∀ other ∈ table.accounts, sameLetters domain.toList other.domain.toList = false) ∧
      table.accounts.head? = some account

variable {table : AccountTable} {domain : String} {account : Account}

theorem choose_none : table.choose none = table.accounts.head? := by
  have nobody : table.accounts.find? (serves none) = none := by simp [serves]
  rw [choose, nobody]
  rfl

theorem choose_some_iff : table.choose (some domain) = some account ↔
    table.Prefers domain account := by
  unfold choose Prefers
  cases found : table.accounts.find? (serves (some domain)) with
  | none =>
    have nobody : ∀ other ∈ table.accounts,
        sameLetters domain.toList other.domain.toList = false := by
      simpa [serves] using found
    constructor
    · intro first
      exact .inr ⟨nobody, first⟩
    · rintro (⟨before, after, whole, same, _⟩ | ⟨_, first⟩)
      · have member : account ∈ table.accounts := by simp [whole]
        rw [nobody account member] at same
        cases same
      · exact first
  | some other =>
    obtain ⟨same, before, after, whole, others⟩ := List.find?_eq_some_iff_append.1 found
    have others : ∀ other ∈ before, sameLetters domain.toList other.domain.toList = false := by
      simpa [serves] using others
    constructor
    · rintro ⟨⟩
      exact .inl ⟨before, after, whole, same, others⟩
    · rintro (⟨before', after', whole', same', others'⟩ | ⟨nobody, _⟩)
      · have again : table.accounts.find? (serves (some domain)) = some account :=
          List.find?_eq_some_iff_append.2
            ⟨same', before', after', whole', by simpa [serves] using others'⟩
        rw [found] at again
        exact again
      · have member : other ∈ table.accounts := by simp [whole]
        have different := nobody other member
        rw [serves] at same
        rw [different] at same
        cases same

/-- The first account of all is preferred if it is of the domain or no account is. -/
theorem prefers_head_iff (first : table.accounts.head? = some account) :
    table.Prefers domain account ↔
      sameLetters domain.toList account.domain.toList = true ∨
        ∀ other ∈ table.accounts, sameLetters domain.toList other.domain.toList = false := by
  obtain ⟨rest, whole⟩ : ∃ rest, table.accounts = account :: rest := by
    cases accounts : table.accounts with
    | nil => simp [accounts] at first
    | cons head rest =>
      rw [accounts] at first
      cases first
      exact ⟨rest, rfl⟩
  constructor
  · rintro (⟨_, _, _, same, _⟩ | ⟨nobody, _⟩)
    · exact .inl same
    · exact .inr nobody
  · rintro (same | nobody)
    · exact .inl ⟨[], rest, whole, same, nofun⟩
    · exact .inr ⟨nobody, first⟩

end AccountTable

/-! ## The account and the address -/

namespace AccountTable

variable {table : AccountTable} {target : String} {account : Account}

theorem accountFor_eq : table.accountFor target
    = (Address.dialed? (Address.spec target.toList)).bind fun dialed =>
        table.choose (domainOf dialed.2) := by
  unfold accountFor Address.dialed?
  dsimp only
  generalize Address.splitScheme (Address.spec target.toList) = found
  match found with
  | none => rfl
  | some (.sip _, _) => rfl
  | some (.foreign _, _) => rfl

theorem domainOf_of_read {scheme : SipScheme} {rest : List Char} {whole : SipUri}
    (read : SipUri.read scheme rest = some whole) :
    domainOf rest = if whole.userInfo.isSome then some whole.host.bare else none := by
  rw [domainOf, SipUri.read_scheme scheme .sip, read]
  rfl

/-- The account that calls a target is chosen by the domain of the completed address, if that names
a user. -/
theorem choose_of_completed {uri : SipUri} (chosen : table.accountFor target = some account)
    (completed : Target.completeSpec account (Address.spec target.toList) = .ok uri) :
    table.choose (if uri.userInfo.isSome then some uri.host.bare else none) = some account := by
  obtain ⟨scheme, rest, whole, dialed, read, placed⟩ := Target.completeSpec_eq_ok_iff.1 completed
  rw [accountFor_eq, dialed, Option.bind_some, domainOf_of_read read] at chosen
  rcases Target.atAccount_cases placed with ⟨rfl, _⟩ | ⟨rfl, unnamed, _⟩
  · exact chosen
  · -- a name at the account's own host, for which the first account was chosen
    rw [unnamed] at chosen
    have first : table.accounts.head? = some account := choose_none.symm.trans chosen
    have own : sameLetters account.domain.toList account.domain.toList = true := beq_self_eq_true _
    exact choose_some_iff.2 ((prefers_head_iff first).2 (.inl own))

/-- Of the address that a target is completed to, the account was chosen by the host if it has a
user, and is the first one of all if it is a machine without a user. So it is the one that the host
asks for unless a machine is called without a user, the first account is of another domain, and some
account is of that domain. -/
theorem prefers_iff {uri : SipUri} (chosen : table.accountFor target = some account)
    (completed : Target.completeSpec account (Address.spec target.toList) = .ok uri) :
    Target.complete account target = .ok uri.text ∧
    (uri.userInfo.isSome = true → table.Prefers uri.host.bare account) ∧
    (uri.userInfo = none → uri.host.isIp = true ∧ table.accounts.head? = some account) ∧
    (table.Prefers uri.host.bare account ↔
      uri.userInfo.isSome = true ∨
        sameLetters uri.host.bare.toList account.domain.toList = true ∨
        ∀ other ∈ table.accounts,
          sameLetters uri.host.bare.toList other.domain.toList = false) := by
  have choice := choose_of_completed chosen completed
  have byUser : uri.userInfo.isSome = true → table.Prefers uri.host.bare account := by
    intro named
    rw [if_pos named] at choice
    exact choose_some_iff.1 choice
  have byNumber : uri.userInfo = none →
      uri.host.isIp = true ∧ table.accounts.head? = some account := by
    intro unnamed
    rw [unnamed] at choice
    have placed := Target.placed_of_completed completed
    simp only [unnamed, Option.isSome_none, Bool.false_eq_true, false_or] at placed
    exact ⟨placed, choose_none.symm.trans choice⟩
  refine ⟨Target.complete_of_completeSpec completed, byUser, byNumber, ?_⟩
  cases named : uri.userInfo with
  | some info => exact iff_of_true (byUser (by simp [named])) (.inl rfl)
  | none => simp [prefers_head_iff (byNumber named).2]

end AccountTable

/-! ## A machine with an account of its own -/

namespace Gateway

def alice : Account := ⟨⟨.sip, some ⟨"alice", none⟩, .domain "example.com", none, [], []⟩⟩

/-- The account of a machine that is known by its number. -/
def gateway : Account := ⟨⟨.sip, some ⟨"gw", none⟩, .address (.v4 10 0 0 7), none, [], []⟩⟩

def table : AccountTable := ⟨[alice, gateway]⟩

/-- A user at the machine is called from the account of the machine, and the machine itself is
not. -/
theorem prefers_iff_at_gateway :
    table.Prefers "10.0.0.7" gateway ∧ ¬ table.Prefers "10.0.0.7" alice := by
  have user : Target.completeSpec gateway (Address.spec "Bob <sip:bob@10.0.0.7:5070>".toList)
      = .ok ⟨.sip, some ⟨"bob", none⟩, .address (.v4 10 0 0 7), some 5070, [], []⟩ := rfl
  have machine : Target.completeSpec alice (Address.spec "10.0.0.7".toList)
      = .ok ⟨.sip, none, .address (.v4 10 0 0 7), none, [], []⟩ := rfl
  have byUser : table.accountFor "Bob <sip:bob@10.0.0.7:5070>" = some gateway := rfl
  have byNumber : table.accountFor "10.0.0.7" = some alice := rfl
  obtain ⟨_, preferred, _⟩ := AccountTable.prefers_iff byUser user
  obtain ⟨_, _, _, exactly⟩ := AccountTable.prefers_iff byNumber machine
  refine ⟨preferred rfl, ?_⟩
  rw [show "10.0.0.7" = (Host.address (.v4 10 0 0 7)).bare from rfl, exactly]
  decide +kernel

/-- A machine that has an account of its own is called from another one, as soon as it is called
without a user. -/
theorem machine_called_from_elsewhere :
    AccountTable.ofTexts ["sip:alice@example.com", "sip:gw@10.0.0.7"] = .ok table ∧
      table.accountFor "10.0.0.7" = some alice ∧
      Target.complete alice "10.0.0.7" = .ok "sip:10.0.0.7" ∧
      gateway.domain = "10.0.0.7" ∧ alice.domain ≠ "10.0.0.7" :=
  ⟨rfl, rfl, rfl, rfl, by decide⟩

end Gateway
end CallFork
