import CallFork.Proofs.Completion
import CallFork.Proofs.ParamTexts

/-! # Addresses are read back

Users, passwords and headers are escaped when they are written, so they are read back whatever they
are; of the parameters, and of the text as a whole, this cannot be said (`SipUri.Legible`). An
address that was put together from parts that have been read (`SipUri.Sound`) and that is legible is
read back from its written form, with the same user at the same host, and has the same written form
again (`SipUri.read_body`).
-/

namespace CallFork

open Percent (encode decode spanEscaped isUnreserved spanEscaped_encode decode_encode encode_eq_nil_iff
  mem_encode)
open Numeral (isHexDigit)

namespace SipUri

variable {text rest left : List Char}

/-! ## Users -/

theorem not_mem_encode {mark : Char} (reserved : isUnreserved mark = false) (unmarked : mark ≠ '%')
    (noDigit : isHexDigit mark = false) (component : String) :
    mark ∉ encode isUnreserved component := by
  intro member
  rcases mem_encode member with kept | rfl | digit
  · rw [reserved] at kept
    cases kept
  · exact unmarked rfl
  · rw [noDigit] at digit
    cases digit

theorem plain_user : Percent.Plain isUnreserved isUserChar :=
  ⟨fun c kept => by simp [isUserChar, kept], rfl⟩

theorem plain_password : Percent.Plain isUnreserved isPasswordChar :=
  ⟨fun c kept => by simp [isPasswordChar, kept], rfl⟩

theorem spanUser_encode {user : String} (named : user ≠ "") (ends : Percent.Ends isUserChar rest) :
    spanUser (encode isUnreserved user ++ rest) = some (encode isUnreserved user, rest) := by
  have filled : encode isUnreserved user ≠ [] := mt encode_eq_nil_iff.1 named
  obtain ⟨c, more, begins⟩ := List.exists_cons_of_ne_nil filled
  have noBracket : c ≠ '[' := by
    rintro rfl
    exact not_mem_encode rfl (by decide) rfl user (begins ▸ List.mem_cons_self)
  have unbracketed : spanBrackets (encode isUnreserved user ++ rest) = none := by
    by_contra taken
    obtain ⟨⟨found, left⟩, taken⟩ := Option.ne_none_iff_exists'.1 taken
    obtain ⟨inner, _, _, rfl, whole⟩ := spanBrackets_eq_some_iff.1 taken
    rw [begins] at whole
    exact noBracket (List.cons.inj whole).1
  rw [spanUser, unbracketed, spanEscaped_encode plain_user ends, begins]

/-- A password as an address shows it. -/
def passwordText : Option String → List Char
  | some password => ':' :: encode isUnreserved password
  | none => []

theorem text_userInfo (info : UserInfo) :
    info.text = encode isUnreserved info.user ++ passwordText info.password ++ ['@'] := by
  obtain ⟨user, _ | password⟩ := info <;> rfl

theorem nothing_ends (allowed : Char → Bool) : Percent.Ends allowed [] :=
  ⟨nofun, nofun, nofun⟩

theorem readUserInfo_text {info : UserInfo} (named : info.user ≠ "") :
    readUserInfo (encode isUnreserved info.user ++ passwordText info.password) = some info := by
  have noColon : ∀ component, (encode isUnreserved component).count ':' = 0 := fun component =>
    List.count_eq_zero.2 (not_mem_encode rfl (by decide) rfl component)
  obtain ⟨user, password⟩ := info
  unfold readUserInfo
  cases password with
  | none =>
    rw [passwordText, spanUser_encode named (nothing_ends _)]
    simp [noColon, decode_encode plain_user]
  | some password =>
    have ends : Percent.Ends isUserChar (':' :: encode isUnreserved password) := by
      constructor <;> (rintro c ⟨⟩; rfl)
    have whole : spanEscaped isPasswordChar (encode isUnreserved password)
        = (encode isUnreserved password, []) := by
      simpa using spanEscaped_encode plain_password (nothing_ends _)
    rw [passwordText, spanUser_encode named ends]
    simp [noColon, decode_encode plain_user, whole]

/-- A user is read back, with the password. -/
theorem takeUserInfo_text {info : UserInfo} (named : info.user ≠ "") (rest : List Char) :
    takeUserInfo (info.text ++ rest) = (some info, rest) := by
  have absent : '@' ∉ encode isUnreserved info.user ++ passwordText info.password := by
    have noMark : ∀ component, '@' ∉ encode isUnreserved component :=
      not_mem_encode rfl (by decide) rfl
    cases info.password <;> simp [passwordText, noMark]
  rw [text_userInfo, List.append_assoc, List.singleton_append, takeUserInfo, cutAt_append absent]
  simp only [readUserInfo_text named]

theorem spanUser_ne_nil {user : List Char} (taken : spanUser text = some (user, rest)) :
    user ≠ [] := by
  unfold spanUser at taken
  split at taken
  · rename_i found
    cases taken
    obtain ⟨inner, _, _, rfl, _⟩ := spanBrackets_eq_some_iff.1 found
    exact List.cons_ne_nil _ _
  · split at taken
    · cases taken
    · rename_i filled
      intro nothing
      exact filled rest (by rw [Option.some.inj taken, nothing])

/-- A user that has been read has a name. -/
theorem user_of_readUserInfo {info : UserInfo} (read : readUserInfo text = some info) :
    info.user ≠ "" := by
  unfold readUserInfo at read
  split at read
  · cases read
  split at read
  · cases read
  · rename_i user taken
    obtain ⟨name, decoded, rfl⟩ := Option.map_eq_some_iff.1 read
    exact Percent.decode_ne_empty decoded (spanUser_ne_nil taken)
  · rename_i user behind taken
    split at read
    · obtain ⟨name, decoded, made⟩ := Option.bind_eq_some_iff.1 read
      obtain ⟨password, _, same⟩ := Option.bind_eq_some_iff.1 made
      cases same
      exact Percent.decode_ne_empty decoded (spanUser_ne_nil taken)
    · cases read
  · cases read

theorem user_of_takeUserInfo {userInfo : Option UserInfo}
    (taken : takeUserInfo text = (userInfo, rest)) : ∀ info ∈ userInfo, info.user ≠ "" := by
  rintro info ⟨⟩
  unfold takeUserInfo at taken
  split at taken
  · cases taken
  · split at taken
    · rename_i read
      cases taken
      exact user_of_readUserInfo read
    · cases taken

/-! ## Headers -/

theorem plain_headerName : Percent.Plain isPlainInHeader isHeaderNameChar := by
  refine ⟨fun c kept => ?_, rfl⟩
  rcases Bool.or_eq_true_iff.1 kept with unreserved | plus
  · simp [isHeaderNameChar, unreserved]
  · rw [beq_iff_eq.1 plus]
    rfl

theorem plain_headerValue : Percent.Plain isPlainInHeader isHeaderValueChar :=
  plain_headerName.trans fun c kept => by simp [isHeaderValueChar, kept]

theorem takeHeader_headerText {header : String × String} (named : header.1 ≠ "")
    (ends : ∀ c ∈ rest.head?, c = '&') :
    takeHeader (headerText header ++ rest) = some (header, rest) := by
  obtain ⟨name, value⟩ := header
  have filled : encode isPlainInHeader name ≠ [] := mt encode_eq_nil_iff.1 named
  obtain ⟨c, more, begins⟩ := List.exists_cons_of_ne_nil filled
  have nameEnds : ∀ tail, Percent.Ends isHeaderNameChar ('=' :: tail) := by
    intro tail
    constructor <;> (rintro c ⟨⟩; rfl)
  have valueEnds : Percent.Ends isHeaderValueChar rest := by
    constructor <;> (intro c first; rw [ends c first]; rfl)
  unfold takeHeader headerText
  rw [List.append_assoc, List.cons_append, spanEscaped_encode plain_headerName (nameEnds _), begins]
  simp only [spanEscaped_encode plain_headerValue valueEnds]
  rw [← begins, decode_encode plain_headerName, decode_encode plain_headerValue]
  rfl

/-- Headers that have names, no two of them the same. -/
structure Named (headers : List (String × String)) : Prop where
  filled : ∀ header ∈ headers, header.1 ≠ ""
  distinct : (headers.map (·.1)).Nodup

theorem putHeader_of_new {headers : List (String × String)} {header : String × String}
    (new : header.1 ∉ headers.map (·.1)) : putHeader headers header = headers ++ [header] := by
  rw [putHeader, if_neg]
  simpa using new

theorem Named.putHeader {headers : List (String × String)} {header : String × String}
    (named : Named headers) (filled : header.1 ≠ "") : Named (putHeader headers header) := by
  by_cases known : header.1 ∈ headers.map (·.1)
  · have replaced : SipUri.putHeader headers header
        = headers.map fun old => if old.1 = header.1 then header else old := by
      rw [SipUri.putHeader, if_pos]
      simpa using known
    have names : (SipUri.putHeader headers header).map (·.1) = headers.map (·.1) := by
      rw [replaced, List.map_map]
      refine List.map_congr_left fun old _ => ?_
      simp only [Function.comp_apply]
      split
      · rename_i same
        exact same.symm
      · rfl
    refine ⟨fun other member => ?_, names ▸ named.distinct⟩
    have among : other.1 ∈ headers.map (·.1) := names ▸ List.mem_map_of_mem member
    obtain ⟨old, oldMember, same⟩ := List.mem_map.1 among
    exact same ▸ named.filled old oldMember
  · rw [putHeader_of_new known]
    constructor
    · intro other member
      rcases List.mem_append.1 member with old | new
      · exact named.filled other old
      · rw [List.mem_singleton.1 new]
        exact filled
    · rw [List.map_append, List.map_singleton]
      exact List.nodup_append.2 ⟨named.distinct, by simp,
        fun name old other new same => known (List.mem_singleton.1 new ▸ same ▸ old)⟩

theorem name_of_takeHeader {header : String × String}
    (taken : takeHeader text = some (header, rest)) :
    header.1 ≠ "" := by
  unfold takeHeader at taken
  split at taken
  · cases taken
  · rename_i name behind filled found
    obtain ⟨decodedName, decoded, made⟩ := Option.bind_eq_some_iff.1 taken
    obtain ⟨value, _, same⟩ := Option.bind_eq_some_iff.1 made
    cases same
    exact Percent.decode_ne_empty decoded filled
  · cases taken

theorem named_of_takeHeaders {headers done : List (String × String)} (known : Named done)
    (taken : takeHeaders done text = some (headers, left)) : Named headers := by
  fun_induction takeHeaders done text with
  | case1 => cases taken
  | case2 done text header rest found shorter inductionHypothesis =>
    exact inductionHypothesis (known.putHeader (name_of_takeHeader found)) taken
  | case3 => cases taken
  | case4 done text header rest noMore found =>
    cases taken
    exact known.putHeader (name_of_takeHeader found)

theorem Named.new {header : String × String} {headers done : List (String × String)}
    (named : Named (done ++ header :: headers)) : header.1 ∉ done.map (·.1) := by
  intro known
  have distinct := named.distinct
  rw [List.map_append, List.map_cons] at distinct
  exact (List.nodup_append.1 distinct).2.2 _ known _ List.mem_cons_self rfl

/-- Headers are read back, behind those that have been read already. -/
theorem takeHeaders_headersText (header : String × String) (headers done : List (String × String))
    (named : Named (done ++ header :: headers)) :
    takeHeaders done (List.intercalate ['&'] ((header :: headers).map headerText))
      = some (done ++ header :: headers, []) := by
  have filled : header.1 ≠ "" := named.filled header (by simp)
  induction headers generalizing header done with
  | nil =>
    have taken : takeHeader (headerText header ++ []) = some (header, []) :=
      takeHeader_headerText filled nofun
    rw [List.append_nil] at taken
    rw [List.map_singleton, List.intercalate_singleton, takeHeaders, taken]
    simp only [putHeader_of_new named.new]
  | cons next headers inductionHypothesis =>
    have put : putHeader done header = done ++ [header] := putHeader_of_new named.new
    have regrouped : done ++ header :: next :: headers = (done ++ [header]) ++ next :: headers := by
      simp
    have taken : ∀ tail,
        takeHeader (headerText header ++ '&' :: tail) = some (header, '&' :: tail) :=
      fun tail => takeHeader_headerText filled (by rintro c ⟨⟩; rfl)
    have whole : List.intercalate ['&'] ((header :: next :: headers).map headerText)
        = headerText header ++ '&' :: List.intercalate ['&'] ((next :: headers).map headerText) := by
      simp [List.intercalate_cons_cons]
    rw [regrouped] at named ⊢
    have more := inductionHypothesis next (done ++ [header]) named (named.filled next (by simp))
    rw [whole, takeHeaders, taken]
    simp only [put, more]
    rw [if_pos (by simp only [List.length_append, List.length_cons]; omega)]

/-- Headers are read back. -/
theorem takeHeaderPart_headersText {headers : List (String × String)} (named : Named headers) :
    takeHeaderPart (headersText headers) = some (headers, []) := by
  cases headers with
  | nil => rfl
  | cons header headers => exact takeHeaders_headersText header headers [] named

theorem named_of_takeHeaderPart {headers : List (String × String)}
    (taken : takeHeaderPart text = some (headers, left)) : Named headers := by
  unfold takeHeaderPart at taken
  split at taken
  · exact named_of_takeHeaders ⟨by simp, by simp⟩ taken
  · cases taken
    exact ⟨by simp, by simp⟩

theorem mark_headersText (headers : List (String × String)) :
    ∀ c ∈ (headersText headers).head?, c = '?' := by
  cases headers with
  | nil => simp [headersText]
  | cons header headers => simp [headersText]

/-! ## Whole addresses -/

/-- An address that was put together from parts that have been read. -/
structure Sound (uri : SipUri) : Prop where
  user : ∀ info ∈ uri.userInfo, info.user ≠ ""
  host : uri.host.Stable
  port : ∀ number ∈ uri.port, number ≤ maxPort
  params : ∀ param ∈ uri.params, param.isOther = true ∨ takeFixed param.text = some (param, [])
  headers : Named uri.headers

theorem small_of_takePort {port : Option Nat} (taken : takePort text = some (port, rest)) :
    ∀ number ∈ port, number ≤ maxPort := by
  rintro number ⟨⟩
  unfold takePort at taken
  split at taken
  · split at taken
    · split at taken
      · rename_i small
        cases taken
        exact small
      · cases taken
    · cases taken
  · cases taken

theorem sound_of_read {scheme : SipScheme} {uri : SipUri} (found : read scheme text = some uri) :
    uri.Sound := by
  obtain ⟨_, body, tail, middle, last, named, _, hosted, ported, listed, headed⟩ :=
    read_eq_some_iff.1 found
  exact ⟨user_of_takeUserInfo named, Host.stable_of_takeHost hosted, small_of_takePort ported,
    fixed_of_takeParamPart listed, named_of_takeHeaderPart headed⟩

/-- What an address shows behind its user. -/
def placeText (uri : SipUri) : List Char :=
  uri.host.text ++ (portText uri.port ++ (paramsText uri.params ++ headersText uri.headers))

theorem body_eq (uri : SipUri) :
    uri.body = (uri.userInfo.elim [] UserInfo.text) ++ uri.placeText := by
  obtain ⟨scheme, _ | info, host, port, params, headers⟩ := uri <;>
    simp [body, placeText, paramsText]

/-- An address that can be read from its written form: parameters are written without escapes, and
what they hold must not be taken for something else. -/
structure Legible (uri : SipUri) : Prop where
  /-- Each parameter without a fixed meaning is read back. -/
  params : ∀ param ∈ uri.params, param.isOther = true → param.Legible
  /-- Behind such a parameter, the address does not end in `=`. -/
  equals : (∃ param ∈ uri.params, param.isOther = true) → uri.body.getLast? ≠ some '='
  /-- If no port is written, no other colon is taken for its mark. -/
  colon : portText uri.port = [] → portFits uri.placeText = true
  /-- If there is no user, nothing is taken for one. -/
  user : uri.userInfo = none → (takeUserInfo uri.body).1 = none
  /-- The address does not end in a blank. -/
  blank : ∀ c ∈ uri.body.getLast?, isBlank c = false

theorem takeUserInfo_of_none (nobody : (takeUserInfo text).1 = none) :
    takeUserInfo text = (none, text) := by
  unfold takeUserInfo at nobody ⊢
  split at nobody
  · rfl
  · split at nobody
    · cases nobody
    · rfl

section

variable {uri : SipUri}

theorem Legible.takeUserInfo_body (legible : uri.Legible) (sound : uri.Sound) :
    takeUserInfo uri.body = (uri.userInfo, uri.placeText) := by
  cases info : uri.userInfo with
  | none =>
    rw [takeUserInfo_of_none (legible.user info), body_eq, info]
    rfl
  | some named =>
    rw [body_eq, info]
    exact takeUserInfo_text (sound.user named info) _

/-- What stands behind the user passes the check for a port, with a port written or without. -/
theorem Legible.portFits_placeText (legible : uri.Legible) (sound : uri.Sound)
    (ends : endsPort (paramsText uri.params ++ headersText uri.headers) = true) :
    portFits uri.placeText = true := by
  by_cases written : portText uri.port = []
  · exact legible.colon written
  · rw [placeText, ← List.append_assoc]
    exact portFits_of_port sound.host sound.port written ends

theorem Legible.param (legible : uri.Legible) (sound : uri.Sound) :
    ∀ param ∈ uri.params, param.Legible := by
  intro param member
  rcases sound.params param member with other | fixed
  · exact legible.params param member other
  · exact UriParam.legible_of_takeFixed fixed

theorem Legible.getLast?_ne (legible : uri.Legible) (sound : uri.Sound)
    (unfixed : ∃ param ∈ uri.params, takeFixed param.text = none) :
    (paramsText uri.params ++ headersText uri.headers).getLast? ≠ some '=' := by
  obtain ⟨param, member, unfixed⟩ := unfixed
  intro last
  rcases sound.params param member with other | fixed
  · refine legible.equals ⟨param, member, other⟩ ?_
    rw [body_eq, placeText, List.getLast?_append, List.getLast?_append, List.getLast?_append, last]
    rfl
  · rw [unfixed] at fixed
    cases fixed

/-- A legible address is read back, up to a port 0 and the names of parameters, and is written again
in the same way. -/
theorem read_body (sound : uri.Sound) (legible : uri.Legible) (scheme : SipScheme) :
    ∃ again : SipUri, read scheme uri.body = some again ∧ again.scheme = scheme ∧
      again.userInfo = uri.userInfo ∧ again.host = uri.host ∧ again.body = uri.body := by
  have mark := mark_headersText uri.headers
  have ends : endsPort (paramsText uri.params ++ headersText uri.headers) = true :=
    endsPort_paramsText (endsPort_of_mark mark) uri.params
  have named := legible.takeUserInfo_body sound
  have fits := legible.portFits_placeText sound ends
  have hosted : takeHost uri.placeText = some (uri.host,
      portText uri.port ++ (paramsText uri.params ++ headersText uri.headers)) :=
    takeHost_append (stops_portText uri.port ends) sound.host
  obtain ⟨port, ported, samePort⟩ := takePort_portText sound.port ends
  obtain ⟨params, listed, sameParams⟩ :=
    takeParamPart_paramsText mark (legible.param sound) (legible.getLast?_ne sound)
  have headed := takeHeaderPart_headersText sound.headers
  refine ⟨⟨scheme, uri.userInfo, uri.host, port, params, uri.headers⟩, ?_, rfl, rfl, rfl, ?_⟩
  · exact read_eq_some_iff.2 ⟨rfl, _, _, _, _, named, fits, hosted, ported, listed, headed⟩
  · rw [body_eq, body_eq, placeText, placeText, samePort, sameParams]

end

end SipUri
end CallFork
