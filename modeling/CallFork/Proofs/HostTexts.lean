import CallFork.Proofs.Cutting
import CallFork.Proofs.IpTexts
import CallFork.Sip.Grammar

/-! # Hosts and ports are read back

Of a host only its name without a final dot is kept, or its address (`bareName?`, `takeDomain_eq`).
So a host that has been read is found in its own text again, whatever it was written like
(`Host.Stable`, `stable_of_takeHost`), and in front of anything at which a host ends
(`takeHost_append`). A port is read back from its digits, and it is what the first colon in the text
stands for (`portFits_of_port`).
-/

namespace CallFork

open Numeral (decimal decimal? isHexDigit)

namespace SipUri

variable {text rest name bare : List Char} {host : Host} {left : List Char}

/-! ## What follows a host -/

theorem isNameChar_of (run : Char → Bool) (colon : run ':' = false) (semicolon : run ';' = false)
    (question : run '?' = false) {c : Char} (kept : run c = true) : isNameChar c = true := by
  by_contra mark
  rw [Bool.not_eq_true] at mark
  simp only [isNameChar, Bool.not_eq_false', Bool.or_eq_true, beq_iff_eq] at mark
  rcases mark with (rfl | rfl) | rfl
  · rw [colon] at kept
    cases kept
  · rw [semicolon] at kept
    cases kept
  · rw [question] at kept
    cases kept

/-- No run goes on at the end of a host if it cannot have the three marks. -/
theorem stops_of_name {run : Char → Bool} (ends : Stops isNameChar rest) (colon : run ':' = false)
    (semicolon : run ';' = false) (question : run '?' = false) : Stops run rest := by
  intro c first
  by_contra kept
  rw [Bool.not_eq_false] at kept
  have noMark := isNameChar_of run colon semicolon question kept
  rw [ends c first] at noMark
  cases noMark

/-- No run goes on at the end of a port if it cannot have the two marks. -/
theorem stops_of_endsPort {run : Char → Bool} (ends : endsPort rest = true)
    (semicolon : run ';' = false) (question : run '?' = false) : Stops run rest := by
  intro c first
  cases rest with
  | nil => cases first
  | cons d rest =>
    cases first
    have mark : c = ';' ∨ c = '?' := by simpa [endsPort] using ends
    rcases mark with rfl | rfl
    · exact semicolon
    · exact question

theorem name_of_endsPort (ends : endsPort rest = true) : Stops isNameChar rest :=
  stops_of_endsPort ends rfl rfl

/-! ## Names -/

theorem isLabelChar_of_isLabel {label : List Char} (isLabel : isLabel label = true) :
    ∀ c ∈ label, isLabelChar c = true := by
  simp only [SipUri.isLabel, Bool.and_eq_true, List.all_eq_true] at isLabel
  exact isLabel.1.1.2

/-- The name that is kept of the text in front of the first mark, if this is a name. -/
def bareName? (name : List Char) : Option (List Char) :=
  if name.contains '_' then none
  else if !name.contains '.' then
    if isLabel (name.takeWhile isLabelChar) then some name else none
  else if ((withoutFinalDot name).splitOn '.').all isLabel &&
      (IpAddress.readV4 (withoutFinalDot name)).isNone then some (withoutFinalDot name)
  else none

theorem takeDomain_eq (text : List Char) :
    takeDomain text = (bareName? (text.takeWhile isNameChar)).map fun bare =>
      (.domain (String.ofList bare),
        if (text.dropWhile isNameChar).isEmpty &&
            (text.takeWhile isNameChar).getLast? = some '.' then ['.']
        else text.dropWhile isNameChar) := by
  unfold takeDomain bareName?
  generalize text.takeWhile isNameChar = name
  generalize text.dropWhile isNameChar = after
  by_cases underscore : name.contains '_' = true
  · simp only [underscore, if_true, Option.map_none]
  by_cases dot : name.contains '.' = true
  · simp only [underscore, dot, Bool.not_true, if_false, Bool.false_eq_true]
    split <;> rfl
  · have noDot : name.getLast? ≠ some '.' := by
      intro last
      exact dot (by simpa using List.mem_of_getLast? last)
    simp only [underscore, dot, Bool.not_false, if_false, if_true, Bool.false_eq_true, noDot,
      decide_false, Bool.and_false]
    split <;> rfl

theorem withoutFinalDot_begins (name : List Char) : withoutFinalDot name <+: name := by
  unfold withoutFinalDot
  split
  · exact List.dropLast_prefix name
  · exact List.prefix_refl name

theorem bareName?_begins (found : bareName? name = some bare) : bare <+: name := by
  unfold bareName? at found
  split at found
  · cases found
  split at found
  · split at found
    · cases found
      exact List.prefix_refl name
    · cases found
  · split at found
    · cases found
      exact withoutFinalDot_begins name
    · cases found

/-- A text that has a dot at its end has an empty label. -/
theorem getLast?_of_labels (labels : (name.splitOn '.').all isLabel = true) :
    name.getLast? ≠ some '.' := by
  intro last
  obtain ⟨front, rfl⟩ := List.getLast?_eq_some_iff.1 last
  rw [List.splitOn_append_cons_self, List.all_append, List.splitOn_nil, Bool.and_eq_true] at labels
  cases labels.2

/-- The name that is kept has no final dot, and all of it is kept. -/
theorem bareName?_bare (found : bareName? name = some bare) :
    bareName? bare = some bare ∧ bare.getLast? ≠ some '.' := by
  have found' := found
  unfold bareName? at found
  split at found
  · cases found
  rename_i underscore
  split at found
  · rename_i noDot
    split at found
    · cases found
      refine ⟨found', fun last => ?_⟩
      simp [List.mem_of_getLast? last] at noDot
    · cases found
  · split at found
    · rename_i kept
      cases found
      have labels := (Bool.and_eq_true_iff.1 kept).1
      have noFinalDot := getLast?_of_labels labels
      -- so nothing more is taken off the second time
      have settled : withoutFinalDot (withoutFinalDot name) = withoutFinalDot name := by
        rw [withoutFinalDot]
        simp [noFinalDot]
      have plain : (withoutFinalDot name).contains '_' = false := by
        rw [Bool.not_eq_true] at underscore
        rw [List.contains_eq_mem, decide_eq_false_iff_not] at underscore ⊢
        exact fun member => underscore ((withoutFinalDot_begins name).subset member)
      refine ⟨?_, noFinalDot⟩
      by_cases dot : '.' ∈ withoutFinalDot name
      · unfold bareName?
        simp only [settled, plain, kept]
        simp [dot]
      · -- the final dot was the only one, and the name is read again as a single label
        rw [List.splitOn_eq_singleton dot, List.all_cons, List.all_nil, Bool.and_true] at labels
        unfold bareName?
        rw [takeWhile_of_all (isLabelChar_of_isLabel labels)]
        simp only [plain, labels]
        simp [dot]
    · cases found

theorem bareName?_ne_nil (found : bareName? name = some bare) : bare ≠ [] := by
  rintro rfl
  have nothing := (bareName?_bare found).1
  cases nothing

/-- A name begins with a letter, a digit or a hyphen. -/
theorem bareName?_cons {c : Char} (refused : isLabelChar c = false) (name : List Char) :
    bareName? (c :: name) = none := by
  have noLabel : ∀ label, isLabel (c :: label) = false := by
    intro label
    by_contra accepted
    rw [Bool.not_eq_false] at accepted
    have kept := isLabelChar_of_isLabel accepted c List.mem_cons_self
    rw [refused] at kept
    cases kept
  unfold bareName?
  split
  · rfl
  split
  · rw [List.takeWhile_cons_of_neg (by simp [refused])]
    rfl
  · obtain ⟨tail, begins⟩ : ∃ tail, withoutFinalDot (c :: name) = c :: tail := by
      unfold withoutFinalDot
      split
      · cases name with
        | nil => simp_all
        | cons d name => exact ⟨_, List.dropLast_cons_cons⟩
      · exact ⟨name, rfl⟩
    obtain ⟨first, others, split⟩ := List.exists_cons_of_ne_nil (List.splitOn_ne_nil '.' tail)
    have labels : ((c :: tail).splitOn '.').all isLabel = false := by
      rw [List.splitOn_cons_eq_if_modifyHead, split]
      split
      · rfl
      · simp [noLabel]
    simp only [begins, labels, Bool.false_and]
    rfl

/-! ## Domains -/

/-- A domain is found in its own name. -/
theorem takeDomain_self (taken : takeDomain text = some (host, left)) :
    ∃ bare, host = .domain (String.ofList bare) ∧ bare ≠ [] ∧
      (∀ c ∈ bare, isNameChar c = true) ∧ takeDomain bare = some (host, []) := by
  rw [takeDomain_eq, Option.map_eq_some_iff] at taken
  obtain ⟨bare, found, same⟩ := taken
  cases same
  have named : ∀ c ∈ bare, isNameChar c = true := fun c member =>
    List.mem_takeWhile_imp ((bareName?_begins found).subset member)
  obtain ⟨kept, noDot⟩ := bareName?_bare found
  refine ⟨bare, rfl, bareName?_ne_nil found, named, ?_⟩
  rw [takeDomain_eq, takeWhile_of_all named, dropWhile_of_all named, kept]
  simp [noDot]

/-- What follows a name does not matter. -/
theorem takeDomain_append (ends : Stops isNameChar rest)
    (taken : takeDomain text = some (host, [])) :
    takeDomain (text ++ rest) = some (host, rest) := by
  rw [takeDomain_eq, Option.map_eq_some_iff] at taken
  obtain ⟨bare, found, same⟩ := taken
  obtain ⟨rfl, nothing⟩ := Prod.mk.inj same
  have whole : text.dropWhile isNameChar = [] ∧
      (text.takeWhile isNameChar).getLast? ≠ some '.' := by
    split at nothing
    · cases nothing
    · rename_i noDot
      simpa [nothing] using noDot
  rw [takeDomain_eq, takeWhile_append text ends, dropWhile_append text ends, found, whole.1]
  simp [whole.2]

theorem takeDomain_append_none (ends : Stops isNameChar rest) (untaken : takeDomain text = none) :
    takeDomain (text ++ rest) = none := by
  rw [takeDomain_eq, Option.map_eq_none_iff] at untaken
  rw [takeDomain_eq, takeWhile_append text ends, untaken]
  rfl

/-! ## Addresses -/

theorem takeQuad_append (ends : Stops isQuadChar rest) (text : List Char) :
    takeQuad (text ++ rest) = (takeQuad text).map fun found => (found.1, found.2 ++ rest) := by
  unfold takeQuad
  rw [takeWhile_append text ends, dropWhile_append text ends]
  split
  · simp only [Option.bind_eq_bind, Option.map_bind, Function.comp_def, Option.pure_def,
      Option.map_some]
  · rfl

theorem takeQuad_host (taken : takeQuad text = some (host, left)) :
    ∃ a b c d, host = .address (.v4 a b c d) := by
  unfold takeQuad at taken
  split at taken
  · simp only [Option.bind_eq_bind, Option.bind_eq_some_iff] at taken
    obtain ⟨a, _, b, _, c, _, d, _, same⟩ := taken
    cases same
    exact ⟨a, b, c, d, rfl⟩
  · cases taken

theorem looseOctet?_decimal (octet : UInt8) : looseOctet? (decimal octet.toNat) = some octet := by
  have bounded : octet.toNat ≤ 255 := Nat.le_of_lt_succ octet.toNat_lt
  have short : (decimal octet.toNat).length ≤ 3 :=
    Numeral.decimal_length_le (by decide) (by omega)
  simp [looseOctet?, bounded, short]

theorem takeQuad_quad (a b c d : UInt8) :
    takeQuad (IpAddress.quad a b c d) = some (.address (.v4 a b c d), []) := by
  have all : ∀ character ∈ IpAddress.quad a b c d, isQuadChar character = true := by
    intro character member
    simpa [isQuadChar] using IpAddress.mem_quad member
  unfold takeQuad
  rw [takeWhile_of_all all, dropWhile_of_all all, IpAddress.splitOn_quad]
  simp [looseOctet?_decimal]

/-- A dotted quad is no name. -/
theorem takeDomain_quad (a b c d : UInt8) : takeDomain (IpAddress.quad a b c d) = none := by
  have named : ∀ character ∈ IpAddress.quad a b c d, isNameChar character = true := by
    intro character member
    refine isNameChar_of isQuadChar rfl rfl rfl ?_
    simpa [isQuadChar] using IpAddress.mem_quad member
  have dotted : (IpAddress.quad a b c d).contains '.' = true := by
    simp [IpAddress.quad, List.intercalate_cons_cons]
  have noFinalDot : (IpAddress.quad a b c d).getLast? ≠ some '.' := by
    intro last
    obtain ⟨digit, ends⟩ := Option.ne_none_iff_exists'.1
      (mt List.getLast?_eq_none_iff.1 (Numeral.decimal_ne_nil d.toNat))
    have isDigit := Numeral.isDigit_of_mem_decimal (List.mem_of_getLast? ends)
    simp only [IpAddress.quad, List.map_cons, List.map_nil, List.intercalate_cons_cons,
      List.intercalate_singleton, List.getLast?_append, ends, Option.some_or] at last
    cases last
    cases isDigit
  have whole : withoutFinalDot (IpAddress.quad a b c d) = IpAddress.quad a b c d := by
    simp [withoutFinalDot, noFinalDot]
  rw [takeDomain_eq, takeWhile_of_all named]
  unfold bareName?
  rw [dotted, whole, IpAddress.readV4_quad]
  simp

/-! ## Addresses in brackets -/

theorem spanBrackets_eq_some_iff {found : List Char} : spanBrackets text = some (found, left) ↔
    ∃ inner, inner ≠ [] ∧ (∀ c ∈ inner, isBracketed c = true) ∧
      found = '[' :: inner ++ [']'] ∧ text = found ++ left := by
  have closes : ∀ rest, Stops isBracketed (']' :: rest) := by
    rintro rest _ ⟨⟩
    rfl
  constructor
  · intro taken
    unfold spanBrackets at taken
    split at taken
    · rename_i inside
      have whole := List.takeWhile_append_dropWhile (p := isBracketed) (l := inside)
      have all : ∀ c ∈ inside.takeWhile isBracketed, isBracketed c = true :=
        fun _ => List.mem_takeWhile_imp
      split at taken
      · cases taken
      · rename_i closed filled
        cases taken
        rw [closed] at whole
        exact ⟨_, filled, all, rfl, congrArg (List.cons '[') (by simpa using whole.symm)⟩
      · cases taken
    · cases taken
  · rintro ⟨inner, filled, all, rfl, rfl⟩
    have reassociated : '[' :: inner ++ [']'] ++ left = '[' :: (inner ++ ']' :: left) := by simp
    rw [reassociated, spanBrackets, takeWhile_append inner (closes left), takeWhile_of_all all,
      dropWhile_append inner (closes left), dropWhile_of_all all]
    cases inner with
    | nil => exact absurd rfl filled
    | cons c inner => rfl

theorem spanBrackets_append {found : List Char} (taken : spanBrackets text = some (found, left))
    (rest : List Char) : spanBrackets (text ++ rest) = some (found, left ++ rest) := by
  obtain ⟨inner, filled, all, rfl, rfl⟩ := spanBrackets_eq_some_iff.1 taken
  exact spanBrackets_eq_some_iff.2 ⟨inner, filled, all, rfl, List.append_assoc _ _ _⟩

theorem spanBrackets_append_none (ends : endsPort rest = true)
    (untaken : spanBrackets text = none) :
    spanBrackets (text ++ rest) = none := by
  by_contra taken
  obtain ⟨⟨found, left⟩, taken⟩ := Option.ne_none_iff_exists'.1 taken
  obtain ⟨inner, filled, all, rfl, whole⟩ := spanBrackets_eq_some_iff.1 taken
  have inBrackets : ∀ c ∈ '[' :: inner ++ [']'], c = '[' ∨ c = ']' ∨ isBracketed c = true := by
    intro c member
    simp only [List.cons_append, List.mem_cons, List.mem_append, List.not_mem_nil, or_false]
      at member
    rcases member with opens | inside | closes
    · exact .inl opens
    · exact .inr (.inr (all c inside))
    · exact .inr (.inl closes)
  have nowhere : ∀ tail, text = '[' :: inner ++ [']'] ++ tail → False := by
    intro tail same
    have found := spanBrackets_eq_some_iff.2 ⟨inner, filled, all, rfl, same⟩
    rw [untaken] at found
    cases found
  rcases List.append_eq_append_iff.1 whole with ⟨tail, closing, follows⟩ | ⟨tail, same, _⟩
  · cases tail with
    | nil => exact nowhere [] (by rw [closing, List.append_nil, List.append_nil])
    | cons c tail =>
      -- the brackets would have to close behind a mark
      rw [follows] at ends
      have mark : c = ';' ∨ c = '?' := by simpa [endsPort] using ends
      have member : c ∈ '[' :: inner ++ [']'] := closing ▸ by simp
      rcases mark with rfl | rfl <;> rcases inBrackets _ member with h | h | h <;> cases h
  · exact nowhere tail same

theorem isBracketed_of_mem_text {ip : IpAddress} {c : Char} (member : c ∈ ip.text) :
    isBracketed c = true := by
  rcases IpAddress.mem_text member with digit | rfl | rfl
  · simp [isBracketed, digit]
  · rfl
  · rfl

theorem text_ne_nil (ip : IpAddress) : ip.text ≠ [] := by
  intro nothing
  have read := IpAddress.read_text ip
  rw [nothing] at read
  cases read

theorem takeBracketed_text (ip : IpAddress) :
    takeBracketed ('[' :: ip.text ++ [']']) = some (.address ip, []) := by
  have taken : spanBrackets ('[' :: ip.text ++ [']']) = some ('[' :: ip.text ++ [']'], []) :=
    spanBrackets_eq_some_iff.2
      ⟨ip.text, text_ne_nil ip, fun _ => isBracketed_of_mem_text, rfl, by simp⟩
  rw [takeBracketed, taken]
  simp [IpAddress.read_text]

theorem takeBracketed_append (taken : takeBracketed text = some (host, left)) (rest : List Char) :
    takeBracketed (text ++ rest) = some (host, left ++ rest) := by
  unfold takeBracketed at taken ⊢
  split at taken
  · rename_i bracketed after found
    rw [spanBrackets_append found rest]
    obtain ⟨ip, read, same⟩ := Option.map_eq_some_iff.1 taken
    cases same
    simp only [read, Option.map_some]
  · cases taken

theorem takeBracketed_append_none (ends : endsPort rest = true)
    (untaken : takeBracketed text = none) : takeBracketed (text ++ rest) = none := by
  unfold takeBracketed at untaken ⊢
  split at untaken
  · rename_i bracketed after found
    rw [spanBrackets_append found rest]
    rw [Option.map_eq_none_iff] at untaken
    simp only [untaken, Option.map_none]
  · rename_i nothing
    rw [spanBrackets_append_none ends nothing]

theorem takeBracketed_host (taken : takeBracketed text = some (host, left)) :
    ∃ ip, host = .address ip := by
  unfold takeBracketed at taken
  split at taken
  · obtain ⟨ip, _, same⟩ := Option.map_eq_some_iff.1 taken
    exact ⟨ip, (Prod.mk.inj same).1.symm⟩
  · cases taken

/-! ## Hosts -/

theorem takeHost_eq_some_iff {found : Host × List Char} : takeHost text = some found ↔
    takeDomain text = some found ∨ takeDomain text = none ∧ (takeQuad text = some found ∨
      takeQuad text = none ∧ takeBracketed text = some found) := by
  unfold takeHost
  cases takeDomain text <;> cases takeQuad text <;> simp

theorem takeHost_eq_none_iff : takeHost text = none ↔
    takeDomain text = none ∧ takeQuad text = none ∧ takeBracketed text = none := by
  unfold takeHost
  cases takeDomain text <;> cases takeQuad text <;> simp

/-- Nothing but an address begins with a bracket. -/
theorem takeHost_bracket (text : List Char) :
    takeHost ('[' :: text) = takeBracketed ('[' :: text) := by
  have noDomain : takeDomain ('[' :: text) = none := by
    rw [takeDomain_eq, List.takeWhile_cons_of_pos rfl, bareName?_cons rfl]
    rfl
  have noQuad : takeQuad ('[' :: text) = none := by
    rw [takeQuad, List.takeWhile_cons_of_neg (by decide)]
    rfl
  rw [takeHost, noDomain, noQuad]
  rfl

/-- An address in brackets is found in the text that was read for it. -/
theorem takeHost_read {groups : Vector UInt16 8}
    (taken : takeHost text = some (.address (.v6 groups), left)) :
    takeHost (text.take (text.length - left.length)) = some (.address (.v6 groups), []) := by
  rcases takeHost_eq_some_iff.1 taken with domain | ⟨_, quad | ⟨_, bracketed⟩⟩
  · obtain ⟨_, same, _⟩ := takeDomain_self domain
    cases same
  · obtain ⟨_, _, _, _, same⟩ := takeQuad_host quad
    cases same
  · unfold takeBracketed at bracketed
    split at bracketed
    · rename_i found
      obtain ⟨ip, read, same⟩ := Option.map_eq_some_iff.1 bracketed
      cases same
      obtain ⟨inner, filled, all, rfl, rfl⟩ := spanBrackets_eq_some_iff.1 found
      have alone := spanBrackets_eq_some_iff.2 ⟨inner, filled, all, rfl, (List.append_nil _).symm⟩
      rw [List.length_append, Nat.add_sub_cancel, List.take_left, List.cons_append,
        takeHost_bracket,
        takeBracketed, ← List.cons_append, alone]
      simp only [read, Option.map_some]
    · cases bracketed

/-- What follows a host does not matter. -/
theorem takeHost_append (ends : Stops isNameChar rest) (taken : takeHost text = some (host, [])) :
    takeHost (text ++ rest) = some (host, rest) := by
  have quadEnds : Stops isQuadChar rest := stops_of_name ends rfl rfl rfl
  rcases takeHost_eq_some_iff.1 taken with domain | ⟨noDomain, quad | ⟨noQuad, bracketed⟩⟩
  · exact takeHost_eq_some_iff.2 (.inl (takeDomain_append ends domain))
  · refine takeHost_eq_some_iff.2 (.inr ⟨takeDomain_append_none ends noDomain, .inl ?_⟩)
    rw [takeQuad_append quadEnds, quad]
    rfl
  · refine takeHost_eq_some_iff.2 (.inr ⟨takeDomain_append_none ends noDomain, .inr ⟨?_, ?_⟩⟩)
    · rw [takeQuad_append quadEnds, noQuad]
      rfl
    · exact takeBracketed_append bracketed rest

theorem takeHost_append_none (ends : endsPort rest = true) (untaken : takeHost text = none) :
    takeHost (text ++ rest) = none := by
  obtain ⟨noDomain, noQuad, noBrackets⟩ := takeHost_eq_none_iff.1 untaken
  refine takeHost_eq_none_iff.2 ⟨takeDomain_append_none (name_of_endsPort ends) noDomain, ?_,
    takeBracketed_append_none ends noBrackets⟩
  rw [takeQuad_append (stops_of_endsPort ends rfl rfl), noQuad]
  rfl

end SipUri

namespace Host

open SipUri

/-- A host that is read back from its own text. -/
def Stable (host : Host) : Prop :=
  takeHost host.text = some (host, [])

variable {host : Host} {text left : List Char}

theorem stable_address (ip : IpAddress) : Stable (.address ip) := by
  cases ip with
  | v4 a b c d =>
    exact takeHost_eq_some_iff.2 (.inr ⟨takeDomain_quad a b c d, .inl (takeQuad_quad a b c d)⟩)
  | v6 groups => exact (takeHost_bracket _).trans (takeBracketed_text _)

/-- Every host that has been read is read back. -/
theorem stable_of_takeHost (taken : takeHost text = some (host, left)) : host.Stable := by
  rcases takeHost_eq_some_iff.1 taken with domain | ⟨_, quad | ⟨_, bracketed⟩⟩
  · obtain ⟨bare, rfl, _, _, found⟩ := takeDomain_self domain
    refine takeHost_eq_some_iff.2 (.inl ?_)
    rw [Host.text, String.toList_ofList]
    exact found
  · obtain ⟨a, b, c, d, rfl⟩ := takeQuad_host quad
    exact stable_address _
  · obtain ⟨ip, rfl⟩ := takeBracketed_host bracketed
    exact stable_address ip

/-- What is read as a host is not empty. -/
theorem bare_ne_empty (taken : takeHost text = some (host, left)) (named : host.isIp = false) :
    host.bare ≠ "" := by
  rcases takeHost_eq_some_iff.1 taken with domain | ⟨_, quad | ⟨_, bracketed⟩⟩
  · obtain ⟨name, rfl, filled, _⟩ := takeDomain_self domain
    simpa [bare] using filled
  · obtain ⟨a, b, c, d, rfl⟩ := takeQuad_host quad
    cases named
  · obtain ⟨ip, rfl⟩ := takeBracketed_host bracketed
    cases named

/-- A host has no colon outside of brackets. -/
theorem colon_cases (stable : host.Stable) :
    ':' ∉ host.text ∨ ∃ groups, host = .address (.v6 groups) := by
  cases host with
  | domain name =>
    left
    rcases takeHost_eq_some_iff.1 stable with domain | ⟨_, quad | ⟨_, bracketed⟩⟩
    · obtain ⟨bare, same, _, named, _⟩ := takeDomain_self domain
      cases same
      intro member
      rw [text, String.toList_ofList] at member
      cases named ':' member
    · obtain ⟨_, _, _, _, same⟩ := takeQuad_host quad
      cases same
    · obtain ⟨_, same⟩ := takeBracketed_host bracketed
      cases same
  | address ip =>
    cases ip with
    | v4 a b c d =>
      left
      intro member
      rcases IpAddress.mem_quad member with digit | dot
      · cases digit
      · cases dot
    | v6 groups => exact .inr ⟨groups, rfl⟩

end Host

namespace SipUri

variable {host : Host} {port : Option Nat} {rest : List Char}

/-! ## Ports -/

theorem stops_portText (port : Option Nat) (ends : endsPort rest = true) :
    Stops isNameChar (portText port ++ rest) := by
  unfold portText
  split
  · split
    · exact name_of_endsPort ends
    · rintro c ⟨⟩
      rfl
  · exact name_of_endsPort ends

/-- A port is read back, except that 0 is no port. -/
theorem takePort_portText (small : ∀ number ∈ port, number ≤ maxPort)
    (ends : endsPort rest = true) :
    ∃ again, takePort (portText port ++ rest) = some (again, rest) ∧
      portText again = portText port := by
  have none : takePort rest = some (none, rest) := by
    unfold takePort
    split
    · cases ends
    · rfl
  cases port with
  | none => exact ⟨_, none, rfl⟩
  | some number =>
    by_cases zero : number = 0
    · subst zero
      exact ⟨_, none, rfl⟩
    · refine ⟨some number, ?_, rfl⟩
      have digits : ∀ c ∈ decimal number, c.isDigit = true :=
        fun _ => Numeral.isDigit_of_mem_decimal
      have bounded : number ≤ maxPort := small number rfl
      have digitEnds : Stops Char.isDigit rest := stops_of_endsPort ends rfl rfl
      rw [portText, if_neg zero, List.cons_append, takePort, takeWhile_append _ digitEnds,
        takeWhile_of_all digits, dropWhile_append _ digitEnds, dropWhile_of_all digits]
      simp [bounded]

/-- A port that is written is what the first colon stands for. -/
theorem portFits_of_port (stable : host.Stable) (small : ∀ number ∈ port, number ≤ maxPort)
    (written : portText port ≠ []) (ends : endsPort rest = true) :
    portFits (host.text ++ portText port ++ rest) = true := by
  obtain ⟨number, bounded, digits⟩ : ∃ number, number ≤ maxPort ∧
      portText port = ':' :: decimal number := by
    unfold portText at written ⊢
    split at written
    · rename_i number
      split at written
      · exact absurd rfl written
      · rename_i positive
        exact ⟨number, small number rfl, if_neg positive⟩
    · exact absurd rfl written
  have allDigits : ∀ c ∈ decimal number, c.isDigit = true := fun _ => Numeral.isDigit_of_mem_decimal
  have short : (decimal number).length ≤ 5 :=
    Numeral.decimal_length_le (by decide) (by unfold maxPort at bounded; omega)
  have digitEnds : Stops Char.isDigit rest := stops_of_endsPort ends rfl rfl
  rw [digits, List.append_assoc, List.cons_append]
  rcases Host.colon_cases stable with noColon | ⟨groups, rfl⟩
  · rw [portFits, cutAt_append noColon]
    simp only [takeWhile_append _ digitEnds, takeWhile_of_all allDigits,
      dropWhile_append _ digitEnds, dropWhile_of_all allDigits, Numeral.decimal?_decimal]
    simp [short, bounded, ends]
  · -- the first colon is one of the address, behind the opening bracket
    obtain ⟨⟨before, after⟩, cut⟩ := Option.ne_none_iff_exists'.1
      (mt cutAt_eq_none_iff.1 (not_not.2 (IpAddress.colon_mem_text groups)))
    obtain ⟨whole, noColon⟩ := cutAt_eq_some_iff.1 cut
    have unclosed : ']' ∉ before := by
      intro member
      have bracketed : isBracketed ']' = true :=
        isBracketed_of_mem_text (whole ▸ List.mem_append_left _ member)
      cases bracketed
    have grouped : (Host.address (.v6 groups)).text ++ ':' :: (decimal number ++ rest)
        = ('[' :: before) ++ ':' :: (after ++ ']' :: ':' :: (decimal number ++ rest)) := by
      rw [Host.text, whole]
      simp
    rw [grouped, portFits, cutAt_append (by simpa using noColon)]
    simp [isInBrackets, unclosed]

end SipUri
end CallFork
