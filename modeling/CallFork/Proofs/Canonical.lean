import CallFork.Proofs.AccountChoice
import CallFork.Proofs.DuplicateTargets
import CallFork.Proofs.UriTexts

/-! # Dial strings are complete

A dial string can be given as a target: its address is found behind the name to show, is read back,
and is complete, so nothing is changed in it, and it is called from the same account. This holds for
targets whose completed address is legible (`AccountTable.canonical_stable`). Of others it can fail
in several ways, since parameters are written without escapes, a port 0 is not written at all, and
the address itself is looked for between brackets (`Misread.canonical_unstable`).
-/

namespace CallFork

/-! ## Accounts and completed addresses are put together from parts that were read -/

theorem Account.sound_of_parse {given : String} {account : Account}
    (parsed : Account.parse given = .ok account) : account.address.Sound := by
  unfold Account.parse at parsed
  split at parsed
  · cases parsed
  · cases parsed
  · split at parsed
    · rename_i read
      cases parsed
      exact SipUri.sound_of_read read
    · cases parsed

theorem Account.parse_of_ofText {given : String} {account : Account}
    (parsed : Account.ofText given = .ok account) : Account.parse given = .ok account := by
  unfold Account.ofText at parsed
  cases result : Account.parse given with
  | error fault =>
    rw [result] at parsed
    cases parsed
  | ok other =>
    rw [result] at parsed
    cases parsed
    rfl

theorem AccountTable.sound_of_mapM {given : List String} {accounts : List Account}
    (parsed : given.mapM Account.ofText = .ok accounts) :
    ∀ account ∈ accounts, account.address.Sound := by
  induction given generalizing accounts with
  | nil =>
    cases parsed
    simp
  | cons text given inductionHypothesis =>
    rw [List.mapM_cons] at parsed
    cases first : Account.ofText text with
    | error error =>
      rw [first] at parsed
      cases parsed
    | ok account =>
      cases others : given.mapM Account.ofText with
      | error error =>
        rw [first, others] at parsed
        cases parsed
      | ok more =>
        rw [first, others] at parsed
        cases parsed
        exact List.forall_mem_cons.2
          ⟨Account.sound_of_parse (Account.parse_of_ofText first), inductionHypothesis others⟩

theorem AccountTable.sound_of_ofTexts {given : List String} {table : AccountTable}
    (built : AccountTable.ofTexts given = .ok table) :
    ∀ account ∈ table.accounts, account.address.Sound := by
  unfold AccountTable.ofTexts at built
  cases parsed : given.mapM Account.ofText with
  | error error =>
    rw [parsed] at built
    cases built
  | ok accounts =>
    rw [parsed] at built
    cases built
    exact AccountTable.sound_of_mapM parsed

theorem AccountTable.mem_of_choose {table : AccountTable} {domain : Option String}
    {account : Account} (chosen : table.choose domain = some account) :
    account ∈ table.accounts := by
  unfold AccountTable.choose at chosen
  cases found : table.accounts.find? (AccountTable.serves domain) with
  | some other =>
    rw [found] at chosen
    cases chosen
    exact List.mem_of_find?_eq_some found
  | none =>
    rw [found] at chosen
    exact List.mem_of_head? chosen

namespace SipUri

variable {account : Account} {address : List Char} {uri : SipUri}

/-- A completed address is put together from parts of the target and parts of the account. -/
theorem sound_of_completed (sound : account.address.Sound)
    (completed : Target.completeSpec account address = .ok uri) : uri.Sound := by
  obtain ⟨scheme, rest, whole, _, read, placed⟩ := Target.completeSpec_eq_ok_iff.1 completed
  have soundToo := sound_of_read read
  rcases Target.atAccount_cases placed with ⟨rfl, _⟩ | ⟨rfl, _, named⟩
  · exact soundToo
  · refine ⟨?_, sound.host, ?_, soundToo.params, soundToo.headers⟩
    · rintro info ⟨⟩
      exact Host.bare_ne_empty soundToo.host named
    · intro number lent
      exact sound.port number (Option.mem_filter_iff.1 lent).1

/-! ## The written form of an address as a target -/

variable {text : String}

/-- Blanks around a written form are not part of it, since it has none at its ends. -/
theorem trimmed_text (blank : ∀ c ∈ uri.body.getLast?, isBlank c = false) :
    Trimmed uri.text.toList := by
  constructor
  · intro c first
    rw [uri.head?_text] at first
    cases first
    rfl
  · intro c last
    rw [uri.toList_text, List.getLast?_append_of_ne_nil _ (List.cons_ne_nil _ _),
      List.getLast?_cons] at last
    cases end' : uri.body.getLast? with
    | none =>
      rw [end'] at last
      cases last
      rfl
    | some d =>
      rw [end'] at last
      cases last
      exact blank d (by rw [end']; rfl)

/-- The scheme of a written form is the one it was written with. -/
theorem dialed_text (uri : SipUri) :
    Address.dialed? uri.text.toList = some (uri.scheme, uri.body) := by
  have split : Address.splitScheme uri.text.toList = some (.sip uri.scheme, uri.body) := by
    rw [uri.toList_text, Address.splitScheme]
    cases uri.scheme with
    | sip => rw [cutAt_append (by decide)]; rfl
    | sips => rw [cutAt_append (by decide)]; rfl
  rw [Address.dialed?, split]

/-- A target that stands for the written form of a complete legible address is complete. -/
theorem complete_of_spec (sound : uri.Sound) (legible : uri.Legible)
    (placed : uri.userInfo.isSome = true ∨ uri.host.isIp = true)
    (found : Address.spec text.toList = uri.text.toList) :
    Target.complete account text = .ok uri.text := by
  obtain ⟨again, read, scheme, userInfo, host, body⟩ := read_body sound legible uri.scheme
  have kept : Target.atAccount account again = .ok again :=
    Target.atAccount_of_user (by rw [userInfo, host]; exact placed)
  have completed : Target.completeSpec account (Address.spec text.toList) = .ok again :=
    Target.completeSpec_eq_ok_iff.2 ⟨_, _, again, found ▸ dialed_text uri, read, kept⟩
  have same : again.text = uri.text := by rw [SipUri.text, SipUri.text, scheme, body]
  rw [Target.complete_of_completeSpec completed, same]

/-- Such a target is called from the account that the host of the address asks for. -/
theorem accountFor_of_spec (sound : uri.Sound) (legible : uri.Legible) (table : AccountTable)
    (found : Address.spec text.toList = uri.text.toList) :
    table.accountFor text
      = table.choose (if uri.userInfo.isSome then some uri.host.bare else none) := by
  obtain ⟨again, read, _, userInfo, host, _⟩ := read_body sound legible uri.scheme
  rw [AccountTable.accountFor_eq, found, dialed_text, Option.bind_some,
    AccountTable.domainOf_of_read read, userInfo, host]

/-- The address is found in its dial string, behind a name or between no brackets. -/
theorem spec_dialString {shown : Option String} (blank : ∀ c ∈ uri.body.getLast?, isBlank c = false)
    (plain : ∀ name ∈ shown, '<' ∉ name.toList)
    (bare : shown = none → Address.Unbracketed uri.text.toList) :
    Address.spec (Target.dialString shown uri.text).toList = uri.text.toList := by
  have trimmed := (trimmed_text blank).trim_eq
  cases shown with
  | none =>
    have unbracketed := bare rfl
    rw [← trimmed] at unbracketed
    exact (Address.spec_of_unbracketed unbracketed).trans trimmed
  | some name =>
    have absent : '<' ∉ '"' :: name.toList ++ ['"', ' '] := by simpa using plain name rfl
    have whole : (Target.dialString (some name) uri.text).toList
        = ('"' :: name.toList ++ ['"', ' ']) ++ '<' :: uri.text.toList ++ '>' :: [] := by
      simp [Target.toList_dialString_some]
    rw [whole, Address.spec_bracketed absent (by simp [Blank]), trimmed]

end SipUri

namespace Target

theorem not_mem_shownName {displayName : Option String} {mark : Char}
    (plain : ∀ name ∈ displayName, mark ∉ name.toList) :
    ∀ name ∈ shownName displayName, mark ∉ name.toList := by
  intro name shown member
  have shows := shownName_eq_iff.1 shown
  cases shows with
  | name whole _ _ _ _ =>
    refine plain _ rfl ?_
    rw [whole]
    exact List.mem_append_left _ (List.mem_append_right _ member)

end Target

namespace AccountTable

variable {given : List String} {table : AccountTable} {target dial : String} {account : Account}
  {displayName : Option String} {uri : SipUri}

/-- A dial string is complete, and so is the address in it, and both are called from the account of
the target that they were made of. -/
theorem canonical_stable (built : ofTexts given = .ok table)
    (chosen : table.accountFor target = some account)
    (made : Target.canonical account target displayName = .ok dial)
    (completed : Target.completeSpec account (Address.spec target.toList) = .ok uri)
    (plain : ∀ name ∈ displayName, '<' ∉ name.toList) (legible : uri.Legible) :
    Target.complete account target = .ok uri.text ∧
    (Target.shownName displayName ≠ none ∨ Address.Unbracketed uri.text.toList →
      Target.complete account dial = .ok uri.text ∧ table.accountFor dial = some account) ∧
    (Address.Unbracketed uri.text.toList →
      Target.complete account uri.text = .ok uri.text ∧
        table.accountFor uri.text = some account) := by
  have whole := Target.complete_of_completeSpec completed
  obtain ⟨_, again, dialed⟩ := Target.completed_of_canonical made
  obtain rfl : uri.text = _ := Except.ok.inj (whole.symm.trans again)
  have choice := choose_of_completed chosen completed
  have sound : uri.Sound :=
    SipUri.sound_of_completed (sound_of_ofTexts built account (mem_of_choose choice)) completed
  have stable : ∀ text : String, Address.spec text.toList = uri.text.toList →
      Target.complete account text = .ok uri.text ∧ table.accountFor text = some account := by
    intro text found
    refine ⟨SipUri.complete_of_spec sound legible (Target.placed_of_completed completed) found, ?_⟩
    rw [SipUri.accountFor_of_spec sound legible table found, choice]
  refine ⟨whole, fun bare => ?_, fun bare => ?_⟩
  · rw [dialed]
    refine stable _ (SipUri.spec_dialString legible.blank (Target.not_mem_shownName plain) ?_)
    exact fun nothing => bare.resolve_left (not_not.2 nothing)
  · exact stable uri.text
      (SipUri.spec_dialString legible.blank (by simp) fun _ => bare : Address.spec
        (Target.dialString none uri.text).toList = _)

end AccountTable

/-! ## A full address -/

namespace Spelled

def given : List String := ["sip:alice@example.com", "sips:gw@[2001:DB8:0::1]:5070"]

def host : Host := .address (.v6 #v[0x2001, 0xdb8, 0, 0, 0, 0, 0, 1])

def gateway : Account := ⟨⟨.sips, some ⟨"gw", none⟩, host, some 5070, [], []⟩⟩

def table : AccountTable :=
  ⟨[⟨⟨.sip, some ⟨"alice", none⟩, .domain "example.com", none, [], []⟩⟩, gateway]⟩

/-- User and password with escapes, an address in brackets, a port with leading zeros, parameters of
both kinds and a header. -/
def target : String :=
  "Bob <sips:bob%20b:%26s@[2001:db8::0:1]:05061;Transport=udp;ttl=007;x=%79;lr?Subject=hi%20there>"

def uri : SipUri where
  scheme := .sips
  userInfo := some ⟨"bob b", some "&s"⟩
  host := host
  port := some 5061
  params := [.transport "udp", .ttl 7, .other "x" (some "y"), .looseRouting]
  headers := [("Subject", "hi there")]

def written : String :=
  "sips:bob%20b:%26s@[2001:db8::1]:5061;transport=udp;ttl=7;x=y;lr?Subject=hi%20there"

theorem legible : uri.Legible where
  params := by
    intro param member other
    have plain : param = .other "x" (some "y") := by
      simp only [uri, List.mem_cons, List.not_mem_nil, or_false] at member
      rcases member with rfl | rfl | rfl | rfl
      · cases other
      · cases other
      · rfl
      · cases other
    exact plain ▸ UriParam.legible_of_plain (by decide) (by decide) (by decide) (by decide)
      (by decide +kernel)
  equals := by decide +kernel
  colon := by decide +kernel
  user := by decide +kernel
  blank := by
    have ends : uri.body.getLast? = some 'e' := by decide +kernel
    intro c last
    rw [ends] at last
    cases last
    rfl

/-- The name may have quotation marks and a closing bracket. -/
theorem canonical_stable_under_name :
    Target.complete gateway ("\"a > \"b\"\" <" ++ written ++ ">") = .ok written ∧
      table.accountFor ("\"a > \"b\"\" <" ++ written ++ ">") = some gateway ∧
      Target.complete gateway written = .ok written ∧ table.accountFor written = some gateway := by
  have built : AccountTable.ofTexts given = .ok table := by decide +kernel
  have chosen : table.accountFor target = some gateway := by decide +kernel
  have completed : Target.completeSpec gateway (Address.spec target.toList) = .ok uri := by
    decide +kernel
  have made : Target.canonical gateway target (some " a > \"b\" ")
      = .ok ("\"a > \"b\"\" <" ++ written ++ ">") := by
    decide +kernel
  have same : uri.text = written := by decide +kernel
  have unbracketed : Address.Unbracketed uri.text.toList :=
    Address.unbracketed_of_not_mem (by decide +kernel)
  obtain ⟨_, named, bare⟩ :=
    AccountTable.canonical_stable built chosen made completed (by decide +kernel) legible
  rw [same] at named bare
  obtain ⟨dialComplete, dialAccount⟩ := named (.inr (same ▸ unbracketed))
  exact ⟨dialComplete, dialAccount, bare (same ▸ unbracketed)⟩

end Spelled

/-! ## Addresses that are misread -/

namespace Misread

def me : Account := ⟨⟨.sip, some ⟨"me", none⟩, .domain "x", none, [], []⟩⟩

def table : AccountTable := ⟨[me]⟩

/-- Targets and the addresses that they are completed to, which are completed to something else or
cannot be read. In order: an escape that was escaped; a value that is cut like a fixed one; a colon
in a parameter; headers of which the last is left empty; a parameter that is taken for a user when
the port 0 is gone; a host that ends in a blank; brackets in a host. -/
def misread : List (String × String) :=
  [("sip:bob@x;p=%2541", "sip:bob@x;p=%41"),
    ("sip:bob@x;ttl=%35x", "sip:bob@x;ttl=5x"),
    ("sip:bob@x;p=%3Ax", "sip:bob@x;p=:x"),
    ("sip:bob@x;p?a=1&b=&a=2", "sip:bob@x;p?a=2&b="),
    ("sip:10.0.0.1:0;maddr=a@b", "sip:10.0.0.1;maddr=a@b"),
    ("<sip:bob@x :0>", "sip:bob@x "),
    ("<sip:bob@a<b>c>", "sip:bob@a<b>c")]

/-- Each condition of `AccountTable.canonical_stable` is needed. -/
theorem canonical_unstable : AccountTable.ofTexts ["sip:me@x"] = .ok table ∧
    ∀ row ∈ misread, table.accountFor row.1 = some me ∧
      Target.canonical me row.1 none = .ok row.2 ∧
      Target.complete me row.1 = .ok row.2 ∧
      Target.complete me row.2 ≠ .ok row.2 := by
  decide +kernel

end Misread
end CallFork
