import CallFork.Proofs.Escapes
import CallFork.Proofs.HostTexts

/-! # Parameters are read back

Parameters are written as they are, without escapes, so not every parameter that has been read is
read back: with `p=%2541` a value `%41` is read, which is written, and read, as something else.
`UriParam.Legible` says of one parameter that it is read back. The parameters with a fixed name
always are (`legible_of_takeFixed`), and if each one is, then all of them are, behind one another
and in front of headers (`takeParamPart_paramsText`). The reason is that each reader takes a whole
text again when something is put behind it at which parameters end, and refuses it again if it has
refused it (`Local`).
-/

namespace CallFork

open Numeral (decimal decimal? isHexDigit)
open Percent (spanEscaped spanEscaped_append)

namespace SipUri

variable {text rest left : List Char} {param : UriParam}

/-! ## Leads -/

theorem afterLead_append {lead : List Char} (found : afterLead lead text = some left)
    (rest : List Char) : afterLead lead (text ++ rest) = some (left ++ rest) := by
  unfold afterLead at found ⊢
  split at found
  · rename_i same
    cases found
    have long : lead.length ≤ text.length := by
      have lengths := congrArg List.length (beq_iff_eq.1 same)
      simp only [lower, List.length_map, List.length_take] at lengths
      omega
    rw [List.take_append_of_le_length long, if_pos same, List.drop_append_of_le_length long]
  · cases found

/-- A lead that is not there does not come to be there if something without its letters follows. -/
theorem afterLead_append_none {lead : List Char} (semicolon : ';' ∉ lower lead)
    (question : '?' ∉ lower lead) (ends : endsPort rest = true)
    (missing : afterLead lead text = none) :
    afterLead lead (text ++ rest) = none := by
  unfold afterLead at missing ⊢
  split at missing
  · cases missing
  rename_i different
  rw [if_neg]
  intro same
  by_cases long : lead.length ≤ text.length
  · rw [List.take_append_of_le_length long] at same
    exact different same
  cases rest with
  | nil =>
    rw [List.append_nil] at same
    exact different same
  | cons c rest =>
    have mark : c = ';' ∨ c = '?' := by simpa [endsPort] using ends
    have member : c ∈ (text ++ c :: rest).take lead.length := by
      rw [List.take_append]
      apply List.mem_append_right
      obtain ⟨more, missing⟩ : ∃ more, lead.length - text.length = more + 1 :=
        ⟨lead.length - text.length - 1, by omega⟩
      simp [missing]
    have lowered : c.toLower ∈ lower lead := by
      rw [beq_iff_eq.1 same]
      exact List.mem_map_of_mem member
    rcases mark with rfl | rfl
    · exact semicolon lowered
    · exact question lowered

theorem afterLead_self (lead rest : List Char) : afterLead lead (lead ++ rest) = some rest := by
  have same : sameLetters lead lead = true := beq_self_eq_true _
  rw [afterLead, List.take_left, if_pos same, List.drop_left]

/-- A few letters are enough to see that a lead is not there. -/
theorem afterLead_none {lead : List Char} (begin : List Char)
    (begins : text.take begin.length = begin)
    (long : begin.length ≤ lead.length) (different : lower (lead.take begin.length) ≠ lower begin) :
    afterLead lead text = none := by
  unfold afterLead
  rw [if_neg]
  intro same
  have first := congrArg (List.take begin.length) (beq_iff_eq.1 same)
  simp only [lower, ← List.map_take, List.take_take] at first
  rw [Nat.min_eq_left long, begins] at first
  exact different first

/-! ## Readers that do not look ahead -/

/-- A reader that takes a whole text, or none of it, in the same way when something follows at which
parameters end. -/
structure Local (take : List Char → Option (UriParam × List Char)) : Prop where
  taken : ∀ {text rest param}, endsPort rest = true → take text = some (param, []) →
    take (text ++ rest) = some (param, rest)
  untaken : ∀ {text rest}, endsPort rest = true → take text = none → take (text ++ rest) = none

theorem Local.orElse {first second : List Char → Option (UriParam × List Char)}
    (localFirst : Local first) (localSecond : Local second) :
    Local fun text => first text <|> second text := by
  constructor
  · intro text rest param ends found
    cases tried : first text with
    | some other =>
      simp only [tried] at found
      cases found
      simp only [localFirst.taken ends tried]
      rfl
    | none =>
      simp only [tried] at found
      simp only [localFirst.untaken ends tried]
      exact localSecond.taken ends found
  · intro text rest ends missing
    cases tried : first text with
    | some other =>
      simp only [tried] at missing
      cases missing
    | none =>
      simp only [tried] at missing
      simp only [localFirst.untaken ends tried]
      exact localSecond.untaken ends missing

/-- A reader that begins with a lead does not look ahead if it does not behind the lead. -/
theorem Local.behindLead {lead : List Char} {take : List Char → Option (UriParam × List Char)}
    (semicolon : ';' ∉ lower lead) (question : '?' ∉ lower lead) (behind : Local take) :
    Local fun text => (afterLead lead text).bind take := by
  constructor
  · intro text rest param ends found
    obtain ⟨follows, led, taken⟩ := Option.bind_eq_some_iff.1 found
    simp only [afterLead_append led rest, Option.bind_some, behind.taken ends taken]
  · intro text rest ends missing
    cases led : afterLead lead text with
    | none => simp only [afterLead_append_none semicolon question ends led, Option.bind_none]
    | some follows =>
      simp only [led, Option.bind_some] at missing
      simp only [afterLead_append led rest, Option.bind_some, behind.untaken ends missing]

theorem local_takeToken {lead : String} (make : String → UriParam)
    (semicolon : ';' ∉ lower lead.toList) (question : '?' ∉ lower lead.toList) :
    Local (takeToken lead make) := by
  refine Local.behindLead semicolon question ⟨?_, ?_⟩
  · intro text rest param ends found
    have tokenEnds : Stops isTokenChar rest := stops_of_endsPort ends rfl rfl
    rw [takeWhile_append _ tokenEnds, dropWhile_append _ tokenEnds]
    split at found
    · cases found
    · rename_i token filled
      obtain ⟨rfl, nothing⟩ := Prod.mk.inj (Option.some.inj found)
      rw [nothing, List.nil_append]
  · intro text rest ends missing
    have tokenEnds : Stops isTokenChar rest := stops_of_endsPort ends rfl rfl
    rw [takeWhile_append _ tokenEnds]
    split at missing
    · rfl
    · cases missing

theorem local_takeTtl : Local takeTtl := by
  refine Local.behindLead (by decide) (by decide) ⟨?_, ?_⟩
  · intro text rest param ends found
    have digitEnds : Stops Char.isDigit rest := stops_of_endsPort ends rfl rfl
    obtain ⟨hops, read, kept⟩ := Option.bind_eq_some_iff.1 found
    simp only [takeWhile_append _ digitEnds, dropWhile_append _ digitEnds, read,
      Option.bind_eq_bind,
      Option.bind_some]
    split at kept
    · rename_i small
      obtain ⟨rfl, nothing⟩ := Prod.mk.inj (Option.some.inj kept)
      rw [if_pos small, nothing, List.nil_append]
    · cases kept
  · intro text rest ends missing
    have digitEnds : Stops Char.isDigit rest := stops_of_endsPort ends rfl rfl
    simp only [takeWhile_append _ digitEnds, dropWhile_append _ digitEnds]
    cases read : decimal? (text.takeWhile Char.isDigit) with
    | none => rfl
    | some hops =>
      simp only [read, Option.bind_eq_bind, Option.bind_some] at missing ⊢
      split at missing
      · cases missing
      · rename_i large
        rw [if_neg large]

theorem local_takeMaddr : Local takeMaddr := by
  refine Local.behindLead (by decide) (by decide) ⟨?_, ?_⟩
  · intro text rest param ends found
    obtain ⟨⟨host, left⟩, taken, made⟩ := Option.bind_eq_some_iff.1 found
    cases host with
    | domain name =>
      cases made
      simp only [takeHost_append (name_of_endsPort ends) taken, Option.bind_eq_bind,
        Option.bind_some]
      rfl
    | address ip =>
      cases ip with
      | v4 a b c d =>
        cases made
        simp only [takeHost_append (name_of_endsPort ends) taken, Option.bind_eq_bind,
          Option.bind_some]
        rfl
      | v6 groups =>
        cases made
        simp only [takeHost_append (name_of_endsPort ends) taken, Option.bind_eq_bind,
          Option.bind_some]
        simp
  · intro text rest ends missing
    cases taken : takeHost text with
    | none => simp only [takeHost_append_none ends taken, Option.bind_eq_bind, Option.bind_none]
    | some found =>
      obtain ⟨host | ip, left⟩ := found
      · simp [taken] at missing
      · cases ip <;> simp [taken] at missing

theorem local_takeLooseRouting : Local takeLooseRouting := by
  constructor
  · intro text rest param ends found
    obtain ⟨follows, led, made⟩ := Option.map_eq_some_iff.1 found
    cases made
    rw [takeLooseRouting, afterLead_append led rest]
    rfl
  · intro text rest ends missing
    rw [takeLooseRouting, Option.map_eq_none_iff] at missing ⊢
    exact afterLead_append_none (by decide) (by decide) ends missing

/-- The parameter with a fixed name at the start, and what follows it. -/
def takeFixed (text : List Char) : Option (UriParam × List Char) :=
  takeToken "transport=" .transport text
    <|> takeToken "user=" .user text
    <|> takeToken "method=" .method text
    <|> takeTtl text
    <|> takeMaddr text
    <|> takeLooseRouting text

theorem local_takeFixed : Local takeFixed :=
  (local_takeToken _ (by decide) (by decide)).orElse <|
    (local_takeToken _ (by decide) (by decide)).orElse <|
      (local_takeToken _ (by decide) (by decide)).orElse <| local_takeTtl.orElse <|
        local_takeMaddr.orElse local_takeLooseRouting

theorem takeParam_eq (text : List Char) : takeParam text = (takeFixed text <|> takeOther text) := by
  unfold takeParam takeFixed
  simp only [Option.orElse_eq_orElse, Option.orElse_eq_or, Option.or_assoc]

/-! ## Other parameters -/

theorem component_ends (ends : endsPort rest = true) : Percent.Ends isParamChar rest :=
  ⟨stops_of_endsPort ends rfl rfl, stops_of_endsPort ends rfl rfl,
    stops_of_endsPort ends rfl rfl⟩

theorem takeComponent_append (ends : endsPort rest = true) (text : List Char) :
    takeComponent (text ++ rest)
      = (takeComponent text).map fun found => (found.1, found.2 ++ rest) := by
  unfold takeComponent
  rw [spanEscaped_append (component_ends ends)]
  generalize spanEscaped isParamChar text = found
  obtain ⟨_ | _, _⟩ := found
  · rfl
  · simp [Option.map_map, Function.comp_def]

theorem afterBreak_of_ne {c : Char} (noFeed : c ≠ '\n') (noReturn : c ≠ '\r') (text : List Char) :
    afterBreak (c :: text) = none := by
  unfold afterBreak
  split
  · rename_i same
    exact absurd (List.cons.inj same).1 noFeed
  · rename_i same
    exact absurd (List.cons.inj same).1 noReturn
  · rfl

theorem afterBreak_return {c : Char} (noFeed : c ≠ '\n') (text : List Char) :
    afterBreak ('\r' :: c :: text) = none := by
  unfold afterBreak
  split
  · rename_i same
    cases same
  · rename_i same
    exact absurd (List.cons.inj (List.cons.inj same).2).1 noFeed
  · rfl

theorem afterBreak_append (ends : endsPort rest = true) (text : List Char) :
    afterBreak (text ++ rest) = (afterBreak text).map (· ++ rest) := by
  -- a break that begins in `text` cannot be completed by `rest`
  have begins : rest = [] ∨ ∃ c more, rest = c :: more ∧ c ≠ '\n' ∧ c ≠ '\r' := by
    cases rest with
    | nil => exact .inl rfl
    | cons c more =>
      have mark : c = ';' ∨ c = '?' := by simpa [endsPort] using ends
      refine .inr ⟨c, more, rfl, ?_⟩
      rcases mark with rfl | rfl <;> decide
  cases text with
  | nil =>
    rcases begins with rfl | ⟨c, more, rfl, noFeed, noReturn⟩
    · rfl
    · exact afterBreak_of_ne noFeed noReturn more
  | cons c text =>
    by_cases feed : c = '\n'
    · subst feed
      rfl
    by_cases return' : c = '\r'
    · subst return'
      cases text with
      | nil =>
        rcases begins with rfl | ⟨c, more, rfl, noFeed, _⟩
        · rfl
        · exact afterBreak_return noFeed more
      | cons d text =>
        by_cases feed : d = '\n'
        · subst feed
          rfl
        · rw [List.cons_append, List.cons_append, afterBreak_return feed, afterBreak_return feed]
          rfl
    · rw [List.cons_append, afterBreak_of_ne feed return', afterBreak_of_ne feed return']
      rfl

theorem skipGap_append (ends : endsPort rest = true) (text : List Char) :
    skipGap (text ++ rest) = skipGap text ++ rest := by
  have spaceEnds : Stops isSpace rest := stops_of_endsPort ends rfl rfl
  unfold skipGap
  simp only [dropWhile_append _ spaceEnds, afterBreak_append ends]
  cases afterBreak (text.dropWhile isSpace) with
  | none => rfl
  | some behind =>
    cases behind with
    | nil =>
      -- the break would need a space behind it
      cases rest with
      | nil => rfl
      | cons c more => simp [spaceEnds c rfl]
    | cons c behind =>
      simp only [Option.map_some, List.cons_append]
      split
      · exact dropWhile_append _ spaceEnds
      · rfl

theorem takeValue_append (ends : endsPort rest = true) (text : List Char) :
    takeValue (text ++ rest) = (takeValue text).map fun found => (found.1, found.2 ++ rest) := by
  have noEquals : ∀ more, rest ≠ '=' :: more := by
    rintro more rfl
    cases ends
  unfold takeValue
  rw [skipGap_append ends]
  generalize skipGap text = behind
  match behind with
  | [] =>
    rw [List.nil_append]
    split
    · exact absurd rfl (noEquals _)
    · rfl
  | c :: behind =>
    by_cases equals : c = '='
    · subst equals
      simp only [List.cons_append, skipGap_append ends, takeComponent_append ends]
    · split
      · rename_i same
        exact absurd (List.cons.inj same).1 equals
      · split
        · rename_i same
          exact absurd (List.cons.inj same).1 equals
        · rfl

theorem takeOther_of_component {name : String} {behind : List Char}
    (head : text.head? ≠ some '=') (last : text.getLast? ≠ some '=')
    (named : takeComponent text = some (name, behind)) :
    takeOther text = match takeValue behind with
      | some (value, left) => some (.other name (some value), left)
      | none => some (.other name none, behind) := by
  rw [takeOther, if_neg (by simp only [head, last, decide_false, Bool.or_self, Bool.false_eq_true,
    not_false_eq_true]), named]
  rfl

/-- The last character of all that follows is looked at, but nothing else of it. -/
theorem takeOther_append (ends : endsPort rest = true) (taken : takeOther text = some (param, left))
    (last : (text ++ rest).getLast? ≠ some '=') :
    takeOther (text ++ rest) = some (param, left ++ rest) := by
  unfold takeOther at taken
  split at taken
  · cases taken
  rename_i fits
  simp only [Bool.or_eq_true, decide_eq_true_eq, not_or] at fits
  obtain ⟨⟨name, behind⟩, named, made⟩ := Option.bind_eq_some_iff.1 taken
  have filled : text ≠ [] := by
    rintro rfl
    cases named
  have head : (text ++ rest).head? ≠ some '=' := by
    rw [List.head?_append_of_ne_nil _ filled]
    exact fits.1
  have namedToo : takeComponent (text ++ rest) = some (name, behind ++ rest) := by
    rw [takeComponent_append ends, named]
    rfl
  rw [takeOther_of_component head last namedToo, takeValue_append ends]
  dsimp only at made
  cases valued : takeValue behind with
  | some found =>
    rw [valued] at made
    cases made
    rfl
  | none =>
    rw [valued] at made
    cases made
    rfl

theorem not_mem_of_plain {component : List Char} (plain : component.all isParamChar = true)
    {mark : Char} (refused : isParamChar mark = false) : mark ∉ component := by
  intro member
  rw [List.all_eq_true.1 plain _ member] at refused
  cases refused

theorem takeComponent_of_plain {component : String} (filled : component ≠ "")
    (plain : component.toList.all isParamChar = true) (ends : Percent.Ends isParamChar rest) :
    takeComponent (component.toList ++ rest) = some (component, rest) := by
  have unmarked : '%' ∉ component.toList := not_mem_of_plain plain (by decide)
  obtain ⟨c, more, begins⟩ := List.exists_cons_of_ne_nil (mt String.toList_eq_nil_iff.1 filled)
  rw [takeComponent, spanEscaped_append ends,
    Percent.spanEscaped_of_plain unmarked (List.all_eq_true.1 plain), begins]
  simp only [← begins, Percent.decode_of_unmarked unmarked, List.nil_append, Option.map_some]

/-! ## Reading a parameter again -/

theorem takeToken_none {lead : String} (make : String → UriParam)
    (missing : afterLead lead.toList text = none) : takeToken lead make text = none := by
  rw [takeToken, missing]
  rfl

theorem takeTtl_none (missing : afterLead "ttl=".toList text = none) : takeTtl text = none := by
  rw [takeTtl, missing]
  rfl

theorem takeMaddr_none (missing : afterLead "maddr=".toList text = none) :
    takeMaddr text = none := by
  rw [takeMaddr, missing]
  rfl

theorem takeToken_self {lead : String} {make : String → UriParam}
    (taken : takeToken lead make text = some (param, left)) : ∃ token, param = make token ∧
      takeToken lead make (lead.toList ++ token.toList) = some (make token, []) := by
  obtain ⟨behind, _, made⟩ := Option.bind_eq_some_iff.1 taken
  have all : ∀ c ∈ behind.takeWhile isTokenChar, isTokenChar c = true :=
    fun _ => List.mem_takeWhile_imp
  split at made
  · cases made
  · rename_i filled
    cases made
    refine ⟨_, rfl, ?_⟩
    rw [takeToken, afterLead_self, String.toList_ofList]
    simp only [Option.bind_eq_bind, Option.bind_some, takeWhile_of_all all, dropWhile_of_all all]

theorem takeTtl_self (taken : takeTtl text = some (param, left)) : ∃ hops, param = .ttl hops ∧
    takeTtl ("ttl=".toList ++ decimal hops) = some (.ttl hops, []) := by
  obtain ⟨behind, _, made⟩ := Option.bind_eq_some_iff.1 taken
  obtain ⟨hops, _, kept⟩ := Option.bind_eq_some_iff.1 made
  split at kept
  · rename_i small
    cases kept
    have digits : ∀ c ∈ decimal hops, c.isDigit = true := fun _ => Numeral.isDigit_of_mem_decimal
    have bounded : hops ≤ 255 := by simpa using (Bool.and_eq_true_iff.1 small).2
    have short : (decimal hops).length ≤ 3 := Numeral.decimal_length_le (by decide) (by omega)
    refine ⟨hops, rfl, ?_⟩
    rw [takeTtl, afterLead_self]
    simp [takeWhile_of_all digits, dropWhile_of_all digits, short, bounded]
  · cases kept

theorem takeMaddr_self (taken : takeMaddr text = some (param, left)) : ∃ host, param = .maddr host ∧
    takeMaddr ("maddr=".toList ++ host.toList) = some (.maddr host, []) := by
  obtain ⟨behind, _, made⟩ := Option.bind_eq_some_iff.1 taken
  obtain ⟨⟨host, after⟩, hosted, made⟩ := Option.bind_eq_some_iff.1 made
  have stable : takeHost host.text = some (host, []) := Host.stable_of_takeHost hosted
  cases host with
  | domain name =>
    cases made
    refine ⟨name, rfl, ?_⟩
    rw [takeMaddr, afterLead_self, Option.bind_eq_bind, Option.bind_some]
    exact Option.bind_eq_some_iff.2 ⟨_, stable, rfl⟩
  | address ip =>
    cases ip with
    | v4 a b c d =>
      cases made
      refine ⟨_, rfl, ?_⟩
      rw [takeMaddr, afterLead_self, Option.bind_eq_bind, Option.bind_some, Host.bare,
        String.toList_ofList]
      exact Option.bind_eq_some_iff.2 ⟨_, stable, rfl⟩
    | v6 groups =>
      cases made
      refine ⟨_, rfl, ?_⟩
      rw [takeMaddr, afterLead_self, Option.bind_eq_bind, Option.bind_some, String.toList_ofList]
      refine Option.bind_eq_some_iff.2 ⟨_, takeHost_read hosted, ?_⟩
      simp [List.take_take]

theorem takeFixed_eq_some_iff {found : UriParam × List Char} : takeFixed text = some found ↔
    takeToken "transport=" .transport text = some found ∨
      takeToken "transport=" .transport text = none ∧ (takeToken "user=" .user text = some found ∨
        takeToken "user=" .user text = none ∧ (takeToken "method=" .method text = some found ∨
          takeToken "method=" .method text = none ∧ (takeTtl text = some found ∨
            takeTtl text = none ∧ (takeMaddr text = some found ∨
              takeMaddr text = none ∧ takeLooseRouting text = some found)))) := by
  unfold takeFixed
  simp only [Option.orElse_eq_orElse, Option.orElse_eq_or, Option.or_eq_some_iff]

/-- A parameter with a fixed name is read back. -/
theorem takeFixed_self (taken : takeFixed text = some (param, left)) :
    takeFixed param.text = some (param, []) := by
  -- no other lead begins with the same two letters
  have noLead : ∀ (lead begin : List Char) {text : List Char}, text.take 2 = begin →
      begin.length = 2 → 2 ≤ lead.length → lower (lead.take 2) ≠ lower begin →
      afterLead lead text = none := by
    intro lead begin text begins two long different
    exact afterLead_none begin (two ▸ begins) (two ▸ long) (two ▸ different)
  rcases takeFixed_eq_some_iff.1 taken with
    transport | ⟨_, user | ⟨_, method | ⟨_, ttl | ⟨_, maddr | ⟨_, looseRouting⟩⟩⟩⟩⟩
  · obtain ⟨token, rfl, again⟩ := takeToken_self transport
    exact takeFixed_eq_some_iff.2 (.inl again)
  · obtain ⟨token, rfl, again⟩ := takeToken_self user
    refine takeFixed_eq_some_iff.2 (.inr ⟨?_, .inl again⟩)
    exact takeToken_none _ (noLead _ ['u', 's'] rfl rfl (by decide) (by decide))
  · obtain ⟨token, rfl, again⟩ := takeToken_self method
    refine takeFixed_eq_some_iff.2 (.inr ⟨?_, .inr ⟨?_, .inl again⟩⟩)
    · exact takeToken_none _ (noLead _ ['m', 'e'] rfl rfl (by decide) (by decide))
    · exact takeToken_none _ (noLead _ ['m', 'e'] rfl rfl (by decide) (by decide))
  · obtain ⟨hops, rfl, again⟩ := takeTtl_self ttl
    refine takeFixed_eq_some_iff.2 (.inr ⟨?_, .inr ⟨?_, .inr ⟨?_, .inl again⟩⟩⟩)
    · exact takeToken_none _ (noLead _ ['t', 't'] rfl rfl (by decide) (by decide))
    · exact takeToken_none _ (noLead _ ['t', 't'] rfl rfl (by decide) (by decide))
    · exact takeToken_none _ (noLead _ ['t', 't'] rfl rfl (by decide) (by decide))
  · obtain ⟨host, rfl, again⟩ := takeMaddr_self maddr
    refine takeFixed_eq_some_iff.2 (.inr ⟨?_, .inr ⟨?_, .inr ⟨?_, .inr ⟨?_, .inl again⟩⟩⟩⟩)
    · exact takeToken_none _ (noLead _ ['m', 'a'] rfl rfl (by decide) (by decide))
    · exact takeToken_none _ (noLead _ ['m', 'a'] rfl rfl (by decide) (by decide))
    · exact takeToken_none _ (noLead _ ['m', 'a'] rfl rfl (by decide) (by decide))
    · exact takeTtl_none (noLead _ ['m', 'a'] rfl rfl (by decide) (by decide))
  · obtain ⟨_, _, made⟩ := Option.map_eq_some_iff.1 looseRouting
    cases made
    rfl

/-! ## Lists of parameters -/

/-- Parameters as an address shows them. -/
def paramsText (params : List UriParam) : List Char :=
  params.flatMap fun param => ';' :: param.text

theorem paramsText_cons (param : UriParam) (params : List UriParam) :
    paramsText (param :: params) = ';' :: (param.text ++ paramsText params) := by
  rw [paramsText, List.flatMap_cons, List.cons_append]
  rfl

/-- The characters with which no parameter begins: those of a gap, and `=`. -/
def marks : List Char :=
  [' ', '\t', '\n', '\r', '=']

theorem not_isParamChar_of_marks {c : Char} (mark : c ∈ marks) : isParamChar c = false := by
  have all : marks.all (fun c => !isParamChar c) = true := by decide
  simpa using List.all_eq_true.1 all c mark

theorem takeParam_refused {c : Char} (mark : c ∈ marks) (text : List Char) :
    takeParam (c :: text) = none := by
  have different : ["transport=", "user=", "method=", "ttl=", "maddr=", "lr"].all (fun lead =>
      marks.all fun c => decide (1 ≤ lead.toList.length ∧ lower (lead.toList.take 1) ≠ lower [c]))
        = true := by decide
  have noLead : ∀ lead ∈ ["transport=", "user=", "method=", "ttl=", "maddr=", "lr"],
      afterLead lead.toList (c :: text) = none := by
    intro lead member
    have first := of_decide_eq_true
      (List.all_eq_true.1 (List.all_eq_true.1 different lead member) c mark)
    exact afterLead_none [c] rfl first.1 first.2
  have noFixed : takeFixed (c :: text) = none := by
    rw [takeFixed, takeToken_none _ (noLead _ (by decide)), takeToken_none _ (noLead _ (by decide)),
      takeToken_none _ (noLead _ (by decide)), takeTtl_none (noLead _ (by decide)),
      takeMaddr_none (noLead _ (by decide)), takeLooseRouting, noLead _ (by decide)]
    rfl
  have unmarked : c ≠ '%' := by
    rintro rfl
    exact absurd mark (by decide)
  have noName : takeComponent (c :: text) = none := by
    rw [takeComponent, Percent.spanEscaped_cons unmarked, not_isParamChar_of_marks mark]
    rfl
  have noOther : takeOther (c :: text) = none := by
    rw [takeOther, noName]
    split <;> rfl
  rw [takeParam_eq, noFixed, noOther]
  rfl

theorem takeParam_nil : takeParam [] = none := by
  decide +kernel

theorem skipGap_of_head {c : Char} (solid : c ∉ [' ', '\t', '\n', '\r']) (text : List Char) :
    skipGap (c :: text) = c :: text := by
  simp only [List.mem_cons, List.not_mem_nil, or_false, not_or] at solid
  have noSpace : isSpace c = false := by simp [isSpace, solid]
  rw [skipGap, List.dropWhile_cons_of_neg (by simp [noSpace]),
    afterBreak_of_ne solid.2.2.1 solid.2.2.2]

/-- What is read as a parameter does not begin with a mark. -/
theorem head_of_takeParam {found : UriParam × List Char} (taken : takeParam text = some found) :
    ∃ c more, text = c :: more ∧ c ∉ marks := by
  cases text with
  | nil =>
    rw [takeParam_nil] at taken
    cases taken
  | cons c more =>
    refine ⟨c, more, rfl, fun mark => ?_⟩
    rw [takeParam_refused mark] at taken
    cases taken

/-- No gap is skipped in front of a parameter. -/
theorem skipGap_of_takeParam {found : UriParam × List Char} (taken : takeParam text = some found)
    (rest : List Char) : skipGap (text ++ rest) = text ++ rest := by
  obtain ⟨c, more, rfl, noMark⟩ := head_of_takeParam taken
  exact skipGap_of_head (fun gap => noMark (List.mem_append_left ['='] gap)) _

/-- What follows a parameter does not matter, except that another parameter must not end in `=`. -/
theorem takeParam_append (ends : endsPort rest = true) (taken : takeParam text = some (param, []))
    (last : takeFixed text = none → (text ++ rest).getLast? ≠ some '=') :
    takeParam (text ++ rest) = some (param, rest) := by
  rw [takeParam_eq] at taken ⊢
  cases fixed : takeFixed text with
  | some found =>
    rw [fixed] at taken
    cases taken
    rw [local_takeFixed.taken ends fixed]
    rfl
  | none =>
    rw [fixed] at taken
    rw [local_takeFixed.untaken ends fixed]
    exact takeOther_append ends taken (last fixed)

end SipUri

namespace UriParam

open SipUri

/-- A parameter that is read back from its own text, and written again in the same way. -/
def Legible (param : UriParam) : Prop :=
  ∃ again, takeParam param.text = some (again, []) ∧ again.text = param.text

/-- Whether the name of a parameter has no fixed meaning. -/
def isOther : UriParam → Bool
  | other _ _ => true
  | _ => false

theorem legible_of_takeFixed {param : UriParam} (taken : takeFixed param.text = some (param, [])) :
    param.Legible := by
  refine ⟨param, ?_, rfl⟩
  rw [takeParam_eq, taken]
  rfl

/-- The first alternatives do not count if they take nothing. -/
theorem takeParam_of_unfixed {text : List Char} (unfixed : takeFixed text = none) :
    takeParam text = takeOther text := by
  rw [takeParam_eq, unfixed]
  rfl

/-- At the end of the text, a component of plain characters is read whole. -/
theorem takeComponent_whole {component : String} (filled : component ≠ "")
    (plain : component.toList.all isParamChar = true) :
    takeComponent component.toList = some (component, []) := by
  have ends : Percent.Ends isParamChar [] := ⟨nofun, nofun, nofun⟩
  have taken := takeComponent_of_plain filled plain ends
  rwa [List.append_nil] at taken

/-- At the end of the text, a value of plain characters is read whole. -/
theorem takeValue_whole {value : String} (filled : value ≠ "")
    (plain : value.toList.all isParamChar = true) :
    takeValue ('=' :: value.toList) = some (value, []) := by
  obtain ⟨c, more, begins⟩ := List.exists_cons_of_ne_nil (mt String.toList_eq_nil_iff.1 filled)
  have solid : skipGap value.toList = value.toList := by
    rw [begins]
    refine skipGap_of_head (fun gap => ?_) more
    have refused := not_isParamChar_of_marks (List.mem_append_left ['='] gap)
    exact not_mem_of_plain plain refused (begins ▸ List.mem_cons_self)
  have atEquals : skipGap ('=' :: value.toList) = '=' :: value.toList :=
    skipGap_of_head (by decide) _
  rw [takeValue, atEquals]
  simp only [solid, takeComponent_whole filled plain]

/-- Parameters of plain characters are read back, if they do not begin like a fixed one. -/
theorem legible_of_plain {name : String} {value : Option String} (named : name ≠ "")
    (valued : value ≠ some "") (plainName : name.toList.all isParamChar = true)
    (plainValue : ∀ text ∈ value, text.toList.all isParamChar = true)
    (unfixed : takeFixed (other name value).text = none) : (other name value).Legible := by
  have noEquals : '=' ∉ name.toList := not_mem_of_plain plainName (by decide)
  have head : ∀ rest, (name.toList ++ rest).head? ≠ some '=' := by
    intro rest first
    rw [List.head?_append_of_ne_nil _ (mt String.toList_eq_nil_iff.1 named)] at first
    exact noEquals (List.mem_of_head? first)
  refine ⟨other name value, (takeParam_of_unfixed unfixed).trans ?_, rfl⟩
  cases value with
  | none =>
    have last : (name.toList ++ []).getLast? ≠ some '=' := by
      intro last
      rw [List.append_nil] at last
      exact noEquals (List.mem_of_getLast? last)
    have taken := takeOther_of_component (head []) last
      (takeComponent_of_plain named plainName ⟨nofun, nofun, nofun⟩)
    rw [List.append_nil] at taken
    exact taken
  | some value =>
    have filled : value ≠ "" := fun empty => valued (congrArg some empty)
    have noEqualsToo : '=' ∉ value.toList := not_mem_of_plain (plainValue value rfl) (by decide)
    have ends : Percent.Ends isParamChar ('=' :: value.toList) := by
      constructor <;> (rintro c ⟨⟩; decide)
    have last : (name.toList ++ '=' :: value.toList).getLast? ≠ some '=' := by
      obtain ⟨c, more, begins⟩ := List.exists_cons_of_ne_nil (mt String.toList_eq_nil_iff.1 filled)
      intro last
      rw [begins, List.getLast?_append_of_ne_nil _ (List.cons_ne_nil _ _), List.getLast?_cons_cons,
        ← begins] at last
      exact noEqualsToo (List.mem_of_getLast? last)
    have taken := takeOther_of_component (head _) last
      (takeComponent_of_plain named plainName ends)
    rw [takeValue_whole filled (plainValue value rfl)] at taken
    exact taken

end UriParam

namespace SipUri

variable {rest left : List Char} {params : List UriParam}

theorem endsPort_paramsText (ends : endsPort rest = true) (params : List UriParam) :
    endsPort (paramsText params ++ rest) = true := by
  cases params with
  | nil => exact ends
  | cons param params => rfl

theorem endsPort_of_mark (mark : ∀ c ∈ rest.head?, c = '?') : endsPort rest = true := by
  cases rest with
  | nil => rfl
  | cons c rest => simp [endsPort, mark c rfl]

theorem takeParams_of_mark {text : List Char} (mark : ∀ c ∈ text.head?, c = '?') :
    takeParams text = ([], text) := by
  cases text with
  | nil => rw [takeParams]; rfl
  | cons c text =>
    obtain rfl : c = '?' := mark c rfl
    rw [takeParams]
    rfl

/-- Parameters are read back if each of them is. -/
theorem takeParams_paramsText (mark : ∀ c ∈ rest.head?, c = '?')
    (legible : ∀ param ∈ params, param.Legible)
    (last : (∃ param ∈ params, takeFixed param.text = none) →
      (paramsText params ++ rest).getLast? ≠ some '=') :
    ∃ again, takeParams (paramsText params ++ rest) = (again, rest) ∧
      paramsText again = paramsText params := by
  induction params with
  | nil => exact ⟨[], takeParams_of_mark mark, rfl⟩
  | cons param params inductionHypothesis =>
    have ends := endsPort_paramsText (endsPort_of_mark mark) params
    have whole : paramsText (param :: params) ++ rest
        = ';' :: (param.text ++ (paramsText params ++ rest)) := by
      rw [paramsText_cons, List.cons_append, List.append_assoc]
    obtain ⟨first, taken, same⟩ := legible param List.mem_cons_self
    have found : takeParam (param.text ++ (paramsText params ++ rest))
        = some (first, paramsText params ++ rest) := by
      refine takeParam_append ends taken fun unfixed equals => ?_
      refine last ⟨param, List.mem_cons_self, unfixed⟩ ?_
      rw [whole, List.getLast?_cons, equals]
      rfl
    have lastToo : (∃ param ∈ params, takeFixed param.text = none) →
        (paramsText params ++ rest).getLast? ≠ some '=' := by
      rintro ⟨other, member, unfixed⟩ equals
      refine last ⟨other, List.mem_cons_of_mem _ member, unfixed⟩ ?_
      rw [whole, List.getLast?_cons, List.getLast?_append, equals]
      rfl
    obtain ⟨more, listed, sameToo⟩ := inductionHypothesis
      (fun other member => legible other (List.mem_cons_of_mem _ member)) lastToo
    refine ⟨first :: more, ?_, ?_⟩
    · have shorter : (paramsText params ++ rest).length
          < (';' :: (param.text ++ (paramsText params ++ rest))).length := by
        simp only [List.length_cons, List.length_append]
        omega
      have atMark : ∀ text, skipGap (';' :: text) = ';' :: text := fun _ => rfl
      rw [whole, takeParams, atMark]
      simp only [skipGap_of_takeParam taken, found, if_pos shorter, listed]
    · rw [paramsText_cons, paramsText_cons, same, sameToo]

/-- Parameters are read back in front of headers. -/
theorem takeParamPart_paramsText (mark : ∀ c ∈ rest.head?, c = '?')
    (legible : ∀ param ∈ params, param.Legible)
    (last : (∃ param ∈ params, takeFixed param.text = none) →
      (paramsText params ++ rest).getLast? ≠ some '=') :
    ∃ again, takeParamPart (paramsText params ++ rest) = some (again, rest) ∧
      paramsText again = paramsText params := by
  obtain ⟨again, listed, same⟩ := takeParams_paramsText mark legible last
  cases params with
  | nil =>
    refine ⟨[], ?_, rfl⟩
    cases rest with
    | nil => rfl
    | cons c rest =>
      obtain rfl : c = '?' := mark c rfl
      rfl
  | cons param params =>
    refine ⟨again, ?_, same⟩
    obtain ⟨first, taken, _⟩ := legible param List.mem_cons_self
    rw [paramsText_cons, List.cons_append, List.append_assoc] at listed ⊢
    unfold takeParamPart
    split
    · -- a parameter would begin with `=`
      rename_i begins
      obtain ⟨c, name, text, noMark⟩ := head_of_takeParam taken
      rw [text] at begins
      cases begins
      exact absurd (by decide) noMark
    · rename_i begins
      rw [← begins, listed]
    · rename_i noMark
      exact absurd rfl (noMark _)

theorem isOther_of_takeOther {text : List Char} {param : UriParam}
    (taken : takeOther text = some (param, left)) : param.isOther = true := by
  unfold takeOther at taken
  split at taken
  · cases taken
  · obtain ⟨⟨name, behind⟩, _, made⟩ := Option.bind_eq_some_iff.1 taken
    dsimp only at made
    split at made <;> (cases made; rfl)

theorem fixed_of_takeParam {text : List Char} {param : UriParam}
    (taken : takeParam text = some (param, left)) :
    param.isOther = true ∨ takeFixed param.text = some (param, []) := by
  rw [takeParam_eq] at taken
  cases fixed : takeFixed text with
  | some found =>
    rw [fixed] at taken
    cases taken
    exact .inr (takeFixed_self fixed)
  | none =>
    rw [fixed] at taken
    exact .inl (isOther_of_takeOther taken)

/-- Of the parameters that are read, those with a fixed name are read back. -/
theorem fixed_of_takeParams (text : List Char) :
    ∀ param ∈ (takeParams text).1,
      param.isOther = true ∨ takeFixed param.text = some (param, []) := by
  fun_induction takeParams text with
  | case1 text after gap param rest taken shorter more left listed inductionHypothesis =>
    rw [listed] at inductionHypothesis
    exact List.forall_mem_cons.2 ⟨fixed_of_takeParam taken, inductionHypothesis⟩
  | _ => simp

theorem fixed_of_takeParamPart {text : List Char}
    (listed : takeParamPart text = some (params, left)) :
    ∀ param ∈ params, param.isOther = true ∨ takeFixed param.text = some (param, []) := by
  unfold takeParamPart at listed
  split at listed
  · cases listed
  · have same := (Prod.mk.inj (Option.some.inj listed)).1
    exact same ▸ fixed_of_takeParams _
  · cases listed
    simp

end SipUri
end CallFork
