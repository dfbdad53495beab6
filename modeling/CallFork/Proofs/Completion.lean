import CallFork.Target

/-! # How a target is completed

`SipUri.read` takes the parts of an address one after the other, and `SipUri.read_eq_some_iff` says
what it has to find for each. A target is read under its own scheme or under `sip`
(`Address.dialed?`), and what was read is kept or becomes a user at the account's host
(`Target.atAccount_cases`).
-/

namespace CallFork

namespace SipUri

variable {scheme : SipScheme} {text : List Char} {uri : SipUri}

/-- An address is read if each part begins where the one before ends, and nothing is left over. -/
theorem read_eq_some_iff : read scheme text = some uri ↔
    uri.scheme = scheme ∧ ∃ body tail middle last,
      takeUserInfo text = (uri.userInfo, body) ∧ portFits body = true ∧
      takeHost body = some (uri.host, tail) ∧ takePort tail = some (uri.port, middle) ∧
      takeParamPart middle = some (uri.params, last) ∧
      takeHeaderPart last = some (uri.headers, []) := by
  unfold read
  generalize takeUserInfo text = named
  obtain ⟨userInfo, body⟩ := named
  simp only [Bool.not_eq_true', Option.bind_eq_bind, Prod.mk.injEq]
  by_cases fits : portFits body = true
  · simp only [fits, Bool.true_eq_false, if_false, Option.bind_eq_some_iff]
    constructor
    · rintro ⟨⟨host, tail⟩, hosted, ⟨port, middle⟩, ported, ⟨params, last⟩, listed,
        ⟨headers, left⟩, headed, whole⟩
      cases left with
      | nil =>
        cases whole
        exact ⟨rfl, body, tail, middle, last, ⟨rfl, rfl⟩, fits, hosted, ported, listed, headed⟩
      | cons c left => cases whole
    · rintro ⟨rfl, _, tail, middle, last, ⟨rfl, rfl⟩, _, hosted, ported, listed, headed⟩
      exact ⟨_, hosted, _, ported, _, listed, _, headed, rfl⟩
  · rw [Bool.not_eq_true] at fits
    simp only [fits, if_true]
    constructor
    · exact nofun
    · rintro ⟨_, _, _, _, _, ⟨_, rfl⟩, fitting, _⟩
      rw [fits] at fitting
      cases fitting

/-- The grammar is the same under both schemes. -/
theorem read_scheme (scheme other : SipScheme) (text : List Char) :
    read other text = (read scheme text).map fun uri => { uri with scheme := other } := by
  ext uri
  rw [Option.map_eq_some_iff]
  constructor
  · intro found
    obtain ⟨rfl, parts⟩ := read_eq_some_iff.1 found
    exact ⟨{ uri with scheme }, read_eq_some_iff.2 ⟨rfl, parts⟩, rfl⟩
  · rintro ⟨whole, found, rfl⟩
    exact read_eq_some_iff.2 ⟨rfl, (read_eq_some_iff.1 found).2⟩

end SipUri

namespace Address

/-- The scheme under which an address is read and the text that is read, unless it has a foreign
scheme. -/
def dialed? (address : List Char) : Option (SipScheme × List Char) :=
  match splitScheme address with
  | some (.sip scheme, rest) => some (scheme, rest)
  | some (.foreign _, _) => none
  | none => some (.sip, address)

end Address

namespace Target

variable {account : Account} {address : List Char} {whole uri : SipUri}

/-- An address is kept as it is, or it becomes a user at the account's host. -/
theorem atAccount_cases (completed : atAccount account whole = .ok uri) :
    uri = whole ∧ (whole.userInfo.isSome = true ∨ whole.host.isIp = true) ∨
      uri = { whole with
        userInfo := some ⟨whole.host.bare, none⟩
        host := account.address.host
        port := lentPort account } ∧ whole.userInfo = none ∧ whole.host.isIp = false := by
  unfold atAccount at completed
  split at completed
  · rename_i kept
    cases completed
    exact .inl ⟨rfl, by simpa using kept⟩
  · rename_i moved
    split at completed
    · cases completed
    · cases completed
      simp only [Bool.or_eq_true, not_or, Bool.not_eq_true, Option.isSome_eq_false_iff,
        Option.isNone_iff_eq_none] at moved
      exact .inr ⟨rfl, moved⟩

theorem atAccount_of_user (named : whole.userInfo.isSome = true ∨ whole.host.isIp = true) :
    atAccount account whole = .ok whole := by
  unfold atAccount
  rw [if_pos (by simpa using named)]

theorem completeSpec_eq_ok_iff : completeSpec account address = .ok uri ↔
    ∃ scheme rest whole, Address.dialed? address = some (scheme, rest) ∧
      SipUri.read scheme rest = some whole ∧ atAccount account whole = .ok uri := by
  have reads : ∀ scheme rest, completeSpec.readAt account scheme rest = .ok uri ↔
      ∃ whole, SipUri.read scheme rest = some whole ∧ atAccount account whole = .ok uri := by
    intro scheme rest
    unfold completeSpec.readAt
    cases SipUri.read scheme rest <;> simp
  unfold completeSpec Address.dialed?
  cases Address.splitScheme address with
  | none =>
    simp only [reads]
    constructor
    · rintro ⟨whole, parts⟩
      exact ⟨_, _, whole, rfl, parts⟩
    · rintro ⟨_, _, whole, ⟨⟩, parts⟩
      exact ⟨whole, parts⟩
  | some found =>
    obtain ⟨scheme | name, rest⟩ := found
    · simp only [reads]
      constructor
      · rintro ⟨whole, parts⟩
        exact ⟨_, _, whole, rfl, parts⟩
      · rintro ⟨_, _, whole, ⟨⟩, parts⟩
        exact ⟨whole, parts⟩
    · constructor
      · exact nofun
      · rintro ⟨_, _, _, ⟨⟩, _⟩

/-- A completed address names a user or a machine. -/
theorem placed_of_completed (completed : completeSpec account address = .ok uri) :
    uri.userInfo.isSome = true ∨ uri.host.isIp = true := by
  obtain ⟨_, _, whole, _, _, placed⟩ := completeSpec_eq_ok_iff.1 completed
  rcases atAccount_cases placed with ⟨rfl, kept⟩ | ⟨rfl, _⟩
  · exact kept
  · exact .inl rfl

theorem complete_of_completeSpec {target : String}
    (completed : completeSpec account (Address.spec target.toList) = .ok uri) :
    complete account target = .ok uri.text := by
  rw [complete, completed]

end Target

end CallFork
