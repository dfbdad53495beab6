import CallFork.Proofs.DirectionTexts
import CallFork.Proofs.Operands

/-! # Commands as they are written

`Spells` says with which words a command is written. A line of these words, however they are
spaced, is read as that command. The words that add a peer need care: hyphens are harmless behind
the first word of a name to show, and an address in brackets may have blanks in it. `NamesPeer` says
which peer some operands name, and by `parse_paradd` nothing else is read from them, so that a peer
never has brackets or blanks around its address (`NamesPeer.bare`).
-/

namespace CallFork

/-- What can stand for a group in a command, or for an address outside brackets. -/
structure IsName (name : String) : Prop where
  word : IsWord name.toList
  unhyphened : Unhyphened name

/-! ## Directions -/

namespace Stream

/-- How a direction is given to a stream. -/
def written (stream : Stream) (direction : Direction) : String :=
  String.ofList stream.key ++ "=" ++ direction.name

/-- The streams that have a direction, with their directions. -/
def given (audio video : Option Direction) : List (Stream × Direction) :=
  audio.toList.map (Stream.audio, ·) ++ video.toList.map (Stream.video, ·)

theorem mem_given {audio video : Option Direction} {stream : Stream} {direction : Direction} :
    (stream, direction) ∈ given audio video ↔ choice audio video stream = some direction := by
  cases stream <;> simp [given, choice]

theorem nodup_given (audio video : Option Direction) :
    ((given audio video).map (·.1)).Nodup := by
  cases audio <;> cases video <;> simp [given]

theorem unhyphened_written (stream : Stream) (direction : Direction) :
    Unhyphened (written stream direction) := by
  cases stream <;> simp [Unhyphened, written, key]

theorem gives_written (stream : Stream) (direction : Direction) :
    Command.Gives (written stream direction) stream direction := by
  refine ⟨direction.name.toList, ?_, Command.readDirection_iff_reads.1
    (Command.readDirection_name direction)⟩
  simp [written]

end Stream

namespace Command

theorem directed_given (audio video : Option Direction) :
    Directed ((Stream.given audio video).map fun pair => Stream.written pair.1 pair.2)
      audio video := by
  refine .pairs ?_ (Stream.nodup_given audio video) ?_
  · rw [List.forall₂_map_left_iff, List.forall₂_same]
    exact fun pair _ => Stream.gives_written pair.1 pair.2
  · intro stream direction
    exact Stream.mem_given.symm

/-! ## Addresses -/

/-- The text names this address, alone or in brackets behind a name to show. -/
inductive Locates : List Char → List Char → Option (List Char) → Prop where
  | bare {text : List Char} (unbracketed : '<' ∉ text) (solid : ∀ c ∈ text, isBlank c = false) :
      Locates text text none
  | bracketed {before inside : List Char} (outside : '<' ∉ before) (noOpening : '<' ∉ inside)
      (noClosing : '>' ∉ inside) (filled : ¬ Blank inside) :
      Locates (before ++ '<' :: (inside ++ ['>'])) (trim inside)
        (if Blank before then none else some (trim before))

theorem readAddress_eq_some_iff {text address : List Char} {name : Option (List Char)} :
    readAddress text = some (address, name) ↔ Locates text address name := by
  constructor
  · intro read
    unfold readAddress at read
    split at read
    · rename_i before after opened
      obtain ⟨rfl, outside⟩ := cutAt_eq_some_iff.1 opened
      split at read
      · rename_i inside closed
        obtain ⟨rfl, noClosing⟩ := cutAt_eq_some_iff.1 closed
        simp only [Option.ite_none_left_eq_some, Bool.or_eq_true, not_or, List.isEmpty_iff,
          trim_eq_nil_iff, List.contains_iff_mem, Option.some.injEq, Prod.mk.injEq] at read
        obtain ⟨⟨filled, noOpening⟩, rfl, rfl⟩ := read
        exact .bracketed outside (fun member => noOpening ((mem_trim rfl).2 member)) noClosing
          filled
      · cases read
    · rename_i unopened
      simp only [Option.ite_none_left_eq_some, Option.some.injEq, Prod.mk.injEq] at read
      obtain ⟨solid, rfl, rfl⟩ := read
      exact .bare (cutAt_eq_none_iff.1 unopened) (by simpa using solid)
  · intro located
    cases located with
    | bare unbracketed solid =>
      have all : text.any isBlank = false := by simpa using solid
      simp [readAddress, cutAt_eq_none_iff.2 unbracketed, all]
    | @bracketed before inside outside noOpening noClosing filled =>
      have opened : cutAt '<' (before ++ '<' :: (inside ++ ['>'])) = _ := cutAt_append outside
      have closed : cutAt '>' (inside ++ ['>']) = _ := cutAt_append noClosing
      have clean : '<' ∉ trim inside := fun member => noOpening (mem_of_mem_trim member)
      simp [readAddress, opened, closed, trim_eq_nil_iff, filled, clean]

/-- The operands behind `paradd` name a peer. -/
inductive NamesPeer : List String → Command → Prop where
  | peer {group : String} {words : List String} {address : List Char} {name : Option (List Char)}
      (some : words ≠ []) (located : Locates (joined " " words).toList address name) :
      NamesPeer (group :: words) (addPeer group (String.ofList address) (name.map String.ofList))

/-- The words with a closing bracket behind the last one. -/
def closed : List String → List String
  | [] => []
  | [last] => [last ++ ">"]
  | word :: rest => word :: closed rest

/-- The words in angle brackets. -/
def bracketed : List String → List String
  | [] => []
  | first :: rest => closed (("<" ++ first) :: rest)

theorem closed_ne_nil {words : List String} (some : words ≠ []) : closed words ≠ [] := by
  cases words with
  | nil => exact absurd rfl some
  | cons word rest => cases rest <;> simp [closed]

theorem bracketed_ne_nil {words : List String} (some : words ≠ []) : bracketed words ≠ [] := by
  cases words with
  | nil => exact absurd rfl some
  | cons first rest => exact closed_ne_nil (List.cons_ne_nil _ _)

theorem toList_joined_closed {words : List String} (some : words ≠ []) :
    (joined " " (closed words)).toList = (joined " " words).toList ++ ['>'] := by
  induction words with
  | nil => exact absurd rfl some
  | cons word rest inductionHypothesis =>
    cases rest with
    | nil => simp [closed, joined_singleton]
    | cons next others =>
      have more : next :: others ≠ [] := List.cons_ne_nil _ _
      rw [closed, toList_joined_cons (closed_ne_nil more), toList_joined_cons more,
        inductionHypothesis more, List.append_assoc]
      · rfl
      · simp

theorem toList_joined_bracketed {words : List String} (some : words ≠ []) :
    (joined " " (bracketed words)).toList = '<' :: ((joined " " words).toList ++ ['>']) := by
  cases words with
  | nil => exact absurd rfl some
  | cons first rest =>
    rw [bracketed, toList_joined_closed (List.cons_ne_nil _ _)]
    cases rest with
    | nil => simp [joined_singleton]
    | cons next others => simp [toList_joined_cons]

/-! ## Reading a line -/

/-- What is read from a line that begins with the word of a command. -/
theorem parse_of_verb {line : String} {verb : Verb} {operands : List String}
    (found : words (content line) = (verb.word :: operands).map String.toList) :
    parse line = match (verb.operandsOf operands).bind (ofOperands verb) with
      | some command => .ok command
      | none => .error (.badCommand verb.usage) := by
  have same : (operands.map String.toList).map String.ofList = operands := by
    simp [Function.comp_def]
  unfold parse
  rw [found, List.map_cons]
  simp only [Verb.select_word, String.ofList_toList, Verb.complaint_word, same]
  cases verb.operandsOf operands with
  | none => rfl
  | some operands => rfl

theorem parse_eq_ok_iff {line : String} {command : Command} :
    parse line = .ok command ↔ ∃ verb behind operands,
      Verb.Selects (words (content line)) verb behind ∧
      verb.operandsOf (behind.map String.ofList) = some operands ∧
      ofOperands verb operands = some command := by
  unfold parse
  cases found : words (content line) with
  | nil =>
    constructor
    · intro read
      cases read
    · rintro ⟨_, _, _, selects, _⟩
      cases selects
  | cons word rest =>
    simp only [← Verb.select_eq_some_iff]
    cases selected : Verb.select (word :: rest) with
    | none => simp
    | some pair =>
      obtain ⟨verb, behind⟩ := pair
      cases taken : verb.operandsOf (behind.map String.ofList) with
      | none => simp [taken]
      | some operands =>
        cases made : ofOperands verb operands with
        | none => simp [taken, made]
        | some other => simp [taken, made]

/-- If the operands are right in number, nothing but they decides what is read. -/
theorem parse_of_operands {line : String} {verb : Verb} {behind : List (List Char)}
    {operands : List String} (selects : Verb.Selects (words (content line)) verb behind)
    (taken : verb.operandsOf (behind.map String.ofList) = some operands) :
    parse line = match ofOperands verb operands with
      | some command => .ok command
      | none => .error (.badCommand verb.usage) := by
  have selected := Verb.select_eq_some_iff.2 selects
  unfold parse
  cases found : words (content line) with
  | nil =>
    rw [found] at selected
    cases selected
  | cons word rest =>
    rw [found] at selected
    cases made : ofOperands verb operands with
    | none => simp only [selected, taken, made]
    | some command => simp only [selected, taken, made]

/-- The operands are words of the line. -/
theorem isWord_of_operandsOf {line : String} {verb : Verb} {behind : List (List Char)}
    {operands : List String} (selects : Verb.Selects (words (content line)) verb behind)
    (taken : verb.operandsOf (behind.map String.ofList) = some operands) :
    ∀ word ∈ operands, IsWord word.toList := by
  intro word member
  obtain ⟨text, among, rfl⟩ := List.mem_map.1 ((Verb.operandsOf_sublist taken).subset member)
  rw [String.toList_ofList]
  exact isWord_of_mem_words (selects.suffix.subset among)

theorem ofOperands_paradd {operands : List String} {command : Command}
    (taken : Verb.paradd.takes operands.length = true) :
    ofOperands .paradd operands = some command ↔ NamesPeer operands command := by
  cases operands with
  | nil => cases taken
  | cons group words =>
    have some : words ≠ [] := by
      rintro rfl
      cases taken
    simp only [ofOperands, readPeer, Option.map_eq_some_iff, Prod.exists, readAddress_eq_some_iff]
    constructor
    · rintro ⟨address, name, located, rfl⟩
      exact .peer some located
    · intro names
      cases names with
      | peer _ located => exact ⟨_, _, located, rfl⟩

theorem ofOperands_verb {verb : Verb} {operands : List String} {command : Command}
    (made : ofOperands verb operands = some command) : command.verb = verb := by
  unfold ofOperands at made
  split at made
  case h_6 group words =>
    obtain ⟨_, _, rfl⟩ := Option.map_eq_some_iff.1 made
    rfl
  case h_7 group words =>
    obtain ⟨_, _, rfl⟩ := Option.map_eq_some_iff.1 made
    rfl
  case h_8 => cases made
  all_goals
    cases made
    rfl

/-- A peer is read only from operands that name it. -/
theorem namesPeer_of_parse {line : String} {group address : String} {name : Option String}
    (read : parse line = .ok (addPeer group address name)) :
    ∃ operands, (∀ word ∈ operands, IsWord word.toList) ∧
      NamesPeer operands (addPeer group address name) := by
  obtain ⟨verb, behind, operands, selects, taken, made⟩ := parse_eq_ok_iff.1 read
  obtain rfl : Verb.paradd = verb := ofOperands_verb made
  exact ⟨operands, isWord_of_operandsOf selects taken,
    (ofOperands_paradd (Verb.takes_of_operandsOf taken)).1 made⟩

/-- The text is not empty, has no blanks around it and no opening bracket in it. -/
structure Bare (text : String) : Prop where
  nonempty : text ≠ ""
  trimmed : Trimmed text.toList
  unbracketed : '<' ∉ text.toList

theorem bare_trim {text : List Char} (filled : ¬ Blank text) (unbracketed : '<' ∉ text) :
    Bare (String.ofList (trim text)) where
  nonempty empty := by
    have none := congrArg String.toList empty
    rw [String.toList_ofList] at none
    exact filled (trim_eq_nil_iff.1 none)
  trimmed := by
    rw [String.toList_ofList]
    exact trimmed_trim text
  unbracketed member := by
    rw [String.toList_ofList] at member
    exact unbracketed (mem_of_mem_trim member)

theorem NamesPeer.bare {operands : List String} {group address : String} {name : Option String}
    (each : ∀ word ∈ operands, IsWord word.toList)
    (names : NamesPeer operands (addPeer group address name)) :
    Bare address ∧ ∀ shown ∈ name, Bare shown := by
  generalize made : addPeer group address name = command at names
  cases names with
  | @peer group words text shown some located =>
    cases made
    generalize whole : (joined " " words).toList = line at located
    cases located with
    | bare unbracketed solid =>
      -- words are not empty, so neither is what they are joined to
      have filled := joined_nonempty (fun word member => each word (.tail _ member)) some
      rw [whole] at filled
      refine ⟨⟨?_, ?_, ?_⟩, by simp⟩
      · simpa using filled
      · rw [String.toList_ofList]
        exact ⟨fun c first => solid c (List.mem_of_head? first),
          fun c last => solid c (List.mem_of_getLast? last)⟩
      · rwa [String.toList_ofList]
    | bracketed outside noOpening noClosing filled =>
      refine ⟨bare_trim filled noOpening, ?_⟩
      intro shown given
      split at given
      · cases given
      · rename_i named
        cases given
        exact bare_trim named outside

/-! ## Commands and their texts -/

/-- The words with which a command is written. -/
inductive Spells : List String → Command → Prop where
  | createGroup {name : String} (named : IsName name) : Spells ["mkpar", name] (createGroup name)
  | removeGroup {name : String} (named : IsName name) : Spells ["rmpar", name] (removeGroup name)
  | clearGroups : Spells ["clrpar"] clearGroups
  | hangupGroup {name : String} (named : IsName name) :
      Spells ["parhangup", name] (hangupGroup name)
  | dump : Spells ["pardebug"] dump
  | startCall {group : String} {audio video : Option Direction} {words : List String}
      (named : IsName group)
      (given : words.Perm ((Stream.given audio video).map fun pair => Stream.written pair.1 pair.2)) :
      Spells ("parcall" :: group :: words) (startCall group audio video)
  | addAddress {group address : String} (named : IsName group) (addressed : IsName address)
      (noOpening : '<' ∉ address.toList) (noClosing : '>' ∉ address.toList) :
      Spells ["paradd", group, address] (addPeer group address none)
  /-- Any words may follow the first one of the name to show. -/
  | addShown {group : String} {shown address : List String} (named : IsName group)
      (each : ∀ word ∈ shown ++ address, IsWord word.toList)
      (first : ∀ word, shown.head? = some word → Unhyphened word)
      (noOpening : ∀ word ∈ shown ++ address, '<' ∉ word.toList)
      (noClosing : ∀ word ∈ address, '>' ∉ word.toList) (some : address ≠ []) :
      Spells ("paradd" :: group :: (shown ++ bracketed address))
        (addPeer group (joined " " address)
          (if shown = [] then none else Option.some (joined " " shown)))

theorem Spells.begins {words : List String} {command : Command} (spells : Spells words command) :
    ∃ operands, words = command.verb.word :: operands := by
  cases spells <;> exact ⟨_, rfl⟩

theorem unhyphened_bracketed {words : List String} {word : String}
    (first : (bracketed words).head? = some word) : Unhyphened word := by
  cases words with
  | nil => cases first
  | cons one rest =>
    have begins : word.toList.head? = some '<' := by
      cases rest <;> simp [bracketed, closed] at first <;> simp [← first]
    rw [Unhyphened, begins]
    decide

/-- The address and the name are found where they were written. -/
theorem locates_shown {shown address : List String}
    (each : ∀ word ∈ shown ++ address, IsWord word.toList)
    (noOpening : ∀ word ∈ shown ++ address, '<' ∉ word.toList)
    (noClosing : ∀ word ∈ address, '>' ∉ word.toList) (some : address ≠ []) :
    Locates (joined " " (shown ++ bracketed address)).toList (joined " " address).toList
      (if shown = [] then none else Option.some (joined " " shown).toList) := by
  have inner : ∀ word ∈ address, IsWord word.toList :=
    fun word member => each word (List.mem_append_right _ member)
  have outer : ∀ word ∈ shown, IsWord word.toList :=
    fun word member => each word (List.mem_append_left _ member)
  have openInside : '<' ∉ (joined " " address).toList :=
    not_mem_joined (by decide) fun word member => noOpening word (List.mem_append_right _ member)
  have openBefore : '<' ∉ (joined " " shown).toList :=
    not_mem_joined (by decide) fun word member => noOpening word (List.mem_append_left _ member)
  have closedInside : '>' ∉ (joined " " address).toList := not_mem_joined (by decide) noClosing
  have filled := not_blank_joined inner some
  cases shown with
  | nil =>
    have located := Locates.bracketed List.not_mem_nil openInside closedInside filled
    rw [(trimmed_joined inner).trim_eq, if_pos blank_nil] at located
    rw [List.nil_append, toList_joined_bracketed some]
    exact located
  | cons word rest =>
    have named : ¬ Blank ((joined " " (word :: rest)).toList ++ [' ']) := by
      intro blank
      exact not_blank_joined outer (List.cons_ne_nil _ _) fun c member =>
        blank c (List.mem_append_left _ member)
    have outside : '<' ∉ (joined " " (word :: rest)).toList ++ [' '] := by
      simpa using openBefore
    have located := Locates.bracketed outside openInside closedInside filled
    -- the space in front of the bracket is not shown
    have space : Blank [' '] := by decide
    have padded := (trimmed_joined outer).trim_padded blank_nil space
    rw [List.nil_append] at padded
    rw [(trimmed_joined inner).trim_eq, if_neg named, padded] at located
    have whole : (joined " " ((word :: rest) ++ bracketed address)).toList
        = (joined " " (word :: rest)).toList ++ [' ']
          ++ '<' :: ((joined " " address).toList ++ ['>']) := by
      rw [← toList_joined_bracketed some, joined,
        String.intercalate_append_of_ne_nil (List.cons_ne_nil _ _) (bracketed_ne_nil some)]
      simp [joined]
    rw [whole, if_neg (List.cons_ne_nil _ _)]
    exact located

/-- Operands that name a peer are taken as they are. -/
theorem made_of_locates {group : String} {words : List String} {address : List Char}
    {name : Option (List Char)} (named : Unhyphened group)
    (first : ∀ word, words.head? = some word → Unhyphened word) (some : words ≠ [])
    (located : Locates (joined " " words).toList address name) :
    (Verb.paradd.operandsOf (group :: words)).bind (ofOperands .paradd)
      = Option.some (addPeer group (String.ofList address) (name.map String.ofList)) := by
  have taken : Verb.paradd.takes (group :: words).length = true := by
    have length : 1 ≤ words.length := List.length_pos_iff.2 some
    simpa [Verb.takes] using length
  have all : Verb.paradd.operandsOf (group :: words) = Option.some (group :: words) := by
    rw [Verb.operandsOf, if_pos rfl, Verb.addressOperands_of_unhyphened named first]
    exact Option.filter_some_pos taken
  rw [all, Option.bind_some, ofOperands_paradd taken]
  exact .peer some located

/-- The words behind the first one are operands from which the command is made. -/
theorem Spells.made {word : String} {operands : List String} {command : Command}
    (spells : Spells (word :: operands) command) :
    (command.verb.operandsOf operands).bind (ofOperands command.verb) = some command := by
  have alone : ∀ {name : String}, IsName name → ∀ other ∈ [name], Unhyphened other := by
    intro name named other member
    rw [List.mem_singleton.1 member]
    exact named.unhyphened
  cases spells with
  | createGroup named | removeGroup named | hangupGroup named =>
    rw [verb, Verb.operandsOf_of_unhyphened (alone named)]
    rfl
  | clearGroups | dump => rfl
  | @startCall group audio video words named given =>
    -- the pairs may stand in any order
    have unhyphened : ∀ other ∈ group :: words, Unhyphened other := by
      intro other member
      rcases List.mem_cons.1 member with rfl | later
      · exact named.unhyphened
      · obtain ⟨pair, _, rfl⟩ := List.mem_map.1 (given.mem_iff.1 later)
        exact Stream.unhyphened_written pair.1 pair.2
    have read : readDirections words = some (audio, video) :=
      (readDirections_perm given).trans (readDirections_eq_some_iff.2 (directed_given audio video))
    rw [verb, Verb.operandsOf_of_unhyphened unhyphened]
    simp [Verb.takes, ofOperands, read]
  | @addAddress group address named addressed noOpening noClosing =>
    have located : Locates (joined " " [address]).toList address.toList none := by
      rw [joined_singleton]
      exact .bare noOpening addressed.word.solid
    have first : ∀ word, [address].head? = some word → Unhyphened word := by
      intro word same
      cases same
      exact addressed.unhyphened
    have made := made_of_locates named.unhyphened first (List.cons_ne_nil _ _) located
    rwa [String.ofList_toList] at made
  | @addShown group shown address named each first noOpening noClosing some =>
    have unhyphened : ∀ word, (shown ++ bracketed address).head? = Option.some word →
        Unhyphened word := by
      intro word begins
      cases shown with
      | nil => exact unhyphened_bracketed begins
      | cons other rest => exact first word begins
    have more : shown ++ bracketed address ≠ [] := by
      intro none
      exact bracketed_ne_nil some (List.append_eq_nil_iff.1 none).2
    have made := made_of_locates named.unhyphened unhyphened more
      (locates_shown each noOpening noClosing some)
    rw [String.ofList_toList] at made
    rw [verb, made]
    split <;> simp

theorem made_iff_namesPeer {operands : List String} {command : Command}
    (unhyphened : ∀ word ∈ operands, Unhyphened word) :
    (Verb.paradd.operandsOf operands).bind (ofOperands .paradd) = some command ↔
      NamesPeer operands command := by
  rw [Verb.operandsOf_of_unhyphened unhyphened]
  split
  · rename_i taken
    rw [Option.bind_some, ofOperands_paradd taken]
  · rename_i refused
    constructor
    · intro made
      cases made
    · intro names
      cases names with
      | @peer group words _ _ some =>
        have length : 1 ≤ words.length := List.length_pos_iff.2 some
        exact absurd (by simpa [Verb.takes] using length) refused

/-- A line that adds a peer and has no hyphens in front of its words is read as the peer that the
words name, and refused if they name none. -/
theorem parse_paradd {line : String} {operands : List String}
    (found : words (content line) = ("paradd" :: operands).map String.toList)
    (unhyphened : ∀ word ∈ operands, Unhyphened word) :
    (∀ command, parse line = .ok command ↔ NamesPeer operands command) ∧
    (parse line = .error (.badCommand Verb.paradd.usage) ↔
      ∀ command, ¬ NamesPeer operands command) := by
  have begun : words (content line) = (Verb.paradd.word :: operands).map String.toList := found
  simp only [parse_of_verb begun, ← made_iff_namesPeer unhyphened]
  cases (Verb.paradd.operandsOf operands).bind (ofOperands .paradd) with
  | none => simp
  | some command => simp

/-- What the words of a command say is read from a line of these words. A peer is never read
without a proper address, or with an improper name to show, and words that name no peer are refused
with the way to write them. -/
theorem commands_read_back :
    (∀ parts command line, Spells parts command → Typed (parts.map String.toList) line.toList →
      parse line = .ok command) ∧
    (∀ line group address name, parse line = .ok (addPeer group address name) →
      Bare address ∧ ∀ shown ∈ name, Bare shown) ∧
    (∀ line operands, words (content line) = ("paradd" :: operands).map String.toList →
      (∀ word ∈ operands, Unhyphened word) →
      (∀ command, parse line = .ok command ↔ NamesPeer operands command) ∧
      (parse line = .error (.badCommand Verb.paradd.usage) ↔
        ∀ command, ¬ NamesPeer operands command)) := by
  refine ⟨?spelled, ?named, fun _ _ found unhyphened => parse_paradd found unhyphened⟩
  case spelled =>
    intro parts command line spells typed
    obtain ⟨operands, rfl⟩ := spells.begins
    have plain : ∀ word, ((command.verb.word :: operands).map String.toList).head? = some word →
        word.head? ≠ some '/' := by
      intro word first
      cases first
      generalize command.verb = verb
      cases verb <;> decide
    rw [parse_of_verb (words_content typed plain), spells.made]
  case named =>
    intro line group address name read
    obtain ⟨operands, each, names⟩ := namesPeer_of_parse read
    exact names.bare each

theorem shown_name_read_back :
    parse "  /paradd\tG Anna  - >Lena <sip:a@x  y> "
      = .ok (addPeer "G" "sip:a@x y" (some "Anna - >Lena")) ∧
    Bare "sip:a@x y" ∧ Bare "Anna - >Lena" ∧
    ∀ command, ¬ NamesPeer ["G", "a", "b"] command := by
  have spells : Spells ["paradd", "G", "Anna", "-", ">Lena", "<sip:a@x", "y>"]
      (addPeer "G" "sip:a@x y" (some "Anna - >Lena")) := by
    have group : IsName "G" := ⟨by decide, by decide⟩
    have each : ∀ word ∈ ["Anna", "-", ">Lena"] ++ ["sip:a@x", "y"], IsWord word.toList := by
      decide
    have first : ∀ word, ["Anna", "-", ">Lena"].head? = some word → Unhyphened word := by
      intro word same
      cases same
      decide
    exact .addShown group each first (by decide) (by decide) (by decide)
  have typed : Typed (["paradd", "G", "Anna", "-", ">Lena", "<sip:a@x", "y>"].map String.toList)
      "  /paradd\tG Anna  - >Lena <sip:a@x  y> ".toList := by
    have before : Blank "  ".toList := by decide
    exact .slashed before (spaced_words "paradd\tG Anna  - >Lena <sip:a@x  y> ".toList)
  have read := commands_read_back.1 _ _ _ spells typed
  obtain ⟨address, shown⟩ := commands_read_back.2.1 _ _ _ _ read
  refine ⟨read, address, shown _ rfl, ?_⟩
  have refused := commands_read_back.2.2 "paradd G a b" ["G", "a", "b"] (by decide) (by decide)
  exact refused.2.1 (by decide)

end Command
end CallFork
