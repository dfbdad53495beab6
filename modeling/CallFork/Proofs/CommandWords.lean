import CallFork.Proofs.CommandTexts

/-! # The first word of a line

The first word of a line is read like the path of a program, so that it need not be the word of a
command. `EndsIn` says which name such a path ends in, and `Nameless` which paths name no file.
`Disguised` tells the lines that select a command without beginning with its word; these are the
lines, if their operands are right in number, that are not refused as they should be
(`firstWordRules_iff`).
-/

namespace CallFork
namespace Verb

/-! ## Paths -/

/-- The last part of the path is this name. Slashes and single dots behind it do not count. -/
inductive EndsIn (name : List Char) : List Char → Prop where
  | alone : EndsIn name name
  | inFolder (folder : List Char) : EndsIn name (folder ++ '/' :: name)
  | slash {path : List Char} (ends : EndsIn name path) : EndsIn name (path ++ '/' :: [])
  | dot {path : List Char} (ends : EndsIn name path) : EndsIn name (path ++ '/' :: ['.'])

/-- There are only slashes in the path, and single dots. -/
inductive Hollow : List Char → Prop where
  | nothing : Hollow []
  | here : Hollow ['.']
  | slash {path : List Char} (hollow : Hollow path) : Hollow (path ++ '/' :: [])
  | dot {path : List Char} (hollow : Hollow path) : Hollow (path ++ '/' :: ['.'])

/-- The path names no file. -/
def Nameless (path : List Char) : Prop :=
  Hollow path ∨ EndsIn ['.', '.'] path

/-- The parts of a path that count. -/
def parts (path : List Char) : List (List Char) :=
  (path.splitOn '/').filter fun part => part ≠ [] && part ≠ ['.']

/-- A part of a path that counts. -/
structure IsPart (name : List Char) : Prop where
  nonempty : name ≠ []
  notDot : name ≠ ['.']
  noSlash : '/' ∉ name

variable {path name : List Char}

/-- Everything about the parts follows from this: a path may be taken apart at any slash. -/
theorem parts_append (before after : List Char) :
    parts (before ++ '/' :: after) = parts before ++ parts after := by
  rw [parts, List.splitOn_append_cons_self, List.filter_append]
  rfl

theorem IsPart.parts_eq (part : IsPart name) : parts name = [name] := by
  rw [parts, List.splitOn_eq_singleton part.noSlash]
  simp [part.nonempty, part.notDot]

theorem Hollow.parts_eq (hollow : Hollow path) : parts path = [] := by
  induction hollow with
  | nothing | here => decide
  | slash _ inductionHypothesis | dot _ inductionHypothesis =>
    rw [parts_append, inductionHypothesis]
    decide

theorem EndsIn.getLast?_parts (ends : EndsIn name path) (part : IsPart name) :
    (parts path).getLast? = some name := by
  induction ends with
  | alone => rw [part.parts_eq]; rfl
  | inFolder folder => rw [parts_append, part.parts_eq, List.getLast?_concat]
  | slash _ inductionHypothesis | dot _ inductionHypothesis =>
    have nothing : parts [] = [] := by decide
    have dot : parts ['.'] = [] := by decide
    simpa only [parts_append, nothing, dot, List.append_nil] using inductionHypothesis

/-- A path is hollow or ends in a name. -/
theorem hollow_or_endsIn (path : List Char) :
    Hollow path ∨ ∃ name, IsPart name ∧ EndsIn name path := by
  cases cut : cutAtLast '/' path with
  | none =>
    have plain := cutAtLast_eq_none_iff.1 cut
    by_cases empty : path = []
    · exact .inl (empty ▸ .nothing)
    · by_cases dot : path = ['.']
      · exact .inl (dot ▸ .here)
      · exact .inr ⟨path, ⟨empty, dot, plain⟩, .alone⟩
  | some pair =>
    obtain ⟨before, after⟩ := pair
    obtain ⟨whole, plain⟩ := cutAtLast_eq_some_iff.1 cut
    -- if nothing that counts is behind the last slash, the path in front of it decides
    have shorter : before.length < path.length := by simp [whole]
    have front := hollow_or_endsIn before
    rw [whole]
    by_cases empty : after = []
    · subst empty
      exact front.imp .slash fun ⟨name, part, ends⟩ => ⟨name, part, ends.slash⟩
    · by_cases dot : after = ['.']
      · subst dot
        exact front.imp .dot fun ⟨name, part, ends⟩ => ⟨name, part, ends.dot⟩
      · exact .inr ⟨after, ⟨empty, dot, plain⟩, .inFolder before⟩
termination_by path.length

/-! ## The file of a path -/

theorem isPart_up : IsPart ['.', '.'] :=
  ⟨by decide, by decide, by decide⟩

/-- A path of nothing but slashes and dots names no file. -/
theorem fileName_of_hollow (hollow : Hollow path) : fileName path = none := by
  have none : (parts path).getLast? = none := by rw [hollow.parts_eq]; rfl
  unfold parts at none
  rw [fileName, none]

theorem fileName_of_endsIn (part : IsPart name) (ends : EndsIn name path) :
    fileName path = if name = ['.', '.'] then none else some name := by
  have last := ends.getLast?_parts part
  unfold parts at last
  rw [fileName, last]

theorem fileName_eq_some_iff :
    fileName path = some name ↔ IsPart name ∧ name ≠ ['.', '.'] ∧ EndsIn name path := by
  constructor
  · intro file
    rcases hollow_or_endsIn path with hollow | ⟨last, part, ends⟩
    · rw [fileName_of_hollow hollow] at file
      cases file
    · rw [fileName_of_endsIn part ends, Option.ite_none_left_eq_some] at file
      obtain ⟨notUp, same⟩ := file
      cases same
      exact ⟨part, notUp, ends⟩
  · rintro ⟨part, notUp, ends⟩
    rw [fileName_of_endsIn part ends, if_neg notUp]

theorem fileName_eq_none_iff : fileName path = none ↔ Nameless path := by
  constructor
  · intro file
    rcases hollow_or_endsIn path with hollow | ⟨last, part, ends⟩
    · exact .inl hollow
    · rw [fileName_of_endsIn part ends] at file
      split at file
      · rename_i up
        exact .inr (up ▸ ends)
      · cases file
  · rintro (hollow | ends)
    · exact fileName_of_hollow hollow
    · rw [fileName_of_endsIn isPart_up ends, if_pos rfl]

/-! ## Commands in paths -/

theorem no_dot_in_word (verb : Verb) : '.' ∉ verb.word.toList := by
  cases verb <;> decide

theorem word_ne_nil (verb : Verb) : verb.word.toList ≠ [] := by
  cases verb <;> decide

/-- The name is the word of the command, with an extension or without one. -/
def IsFileOf (verb : Verb) (name : List Char) : Prop :=
  name = verb.word.toList ∨ ∃ letters, '.' ∉ letters ∧ name = verb.word.toList ++ '.' :: letters

theorem stem_eq_iff {verb : Verb} : stem name = verb.word.toList ↔ verb.IsFileOf name := by
  have plain := no_dot_in_word verb
  have filled := word_ne_nil verb
  unfold IsFileOf stem
  generalize verb.word.toList = word at plain filled
  cases cut : cutAtLast '.' name with
  | none =>
    have absent := cutAtLast_eq_none_iff.1 cut
    constructor
    · exact .inl
    · rintro (same | ⟨letters, _, whole⟩)
      · exact same
      · exact absurd (by simp [whole]) absent
  | some pair =>
    obtain ⟨before, after⟩ := pair
    obtain ⟨whole, absent⟩ := cutAtLast_eq_some_iff.1 cut
    -- no word of a command has a dot in it, so what is in front of the last dot has to be the word
    have dotted : name ≠ word := by
      rintro rfl
      exact plain (by simp [whole])
    simp only [List.isEmpty_iff]
    constructor
    · intro same
      split at same
      · exact absurd same dotted
      · exact .inr ⟨after, absent, same ▸ whole⟩
    · rintro (same | ⟨letters, free, again⟩)
      · exact absurd same dotted
      · rw [again, cutAtLast_append free] at cut
        cases cut
        rw [if_neg filled]

/-- The words select this command and leave these words behind, but the first word is not the word
of the command. -/
inductive Disguised : List (List Char) → Verb → List (List Char) → Prop where
  | path {first name : List Char} {verb : Verb} {behind : List (List Char)}
      (other : first ≠ verb.word.toList) (noSlash : '/' ∉ name) (file : verb.IsFileOf name)
      (ends : EndsIn name first) : Disguised (first :: behind) verb behind
  | passed {first skipped : List Char} {verb : Verb} {behind : List (List Char)}
      (nameless : Nameless first) :
      Disguised (first :: skipped :: verb.word.toList :: behind) verb behind

theorem IsFileOf.isPart {verb : Verb} (file : verb.IsFileOf name) (noSlash : '/' ∉ name) :
    IsPart name ∧ name ≠ ['.', '.'] := by
  have begins : ∃ c rest, name = c :: rest ∧ c ≠ '.' := by
    have plain := no_dot_in_word verb
    have filled := word_ne_nil verb
    unfold IsFileOf at file
    generalize verb.word.toList = word at plain filled file
    cases word with
    | nil => exact absurd rfl filled
    | cons c rest =>
      have apart : c ≠ '.' := fun same => plain (same ▸ List.mem_cons_self)
      rcases file with rfl | ⟨letters, _, rfl⟩
      · exact ⟨c, rest, rfl, apart⟩
      · exact ⟨c, _, rfl, apart⟩
  obtain ⟨c, rest, rfl, apart⟩ := begins
  refine ⟨⟨List.cons_ne_nil _ _, ?_, noSlash⟩, ?_⟩
  · intro same
    exact apart (List.cons.inj same).1
  · intro same
    exact apart (List.cons.inj same).1

/-- A command is selected by its word, or by a word in disguise. -/
theorem selects_iff {words behind : List (List Char)} {verb : Verb} :
    Selects words verb behind ↔
      words = verb.word.toList :: behind ∨ Disguised words verb behind := by
  constructor
  · intro selects
    cases selects with
    | @named first name _ _ file own =>
      obtain ⟨part, _, ends⟩ := fileName_eq_some_iff.1 file
      by_cases same : first = verb.word.toList
      · exact .inl (same ▸ rfl)
      · exact .inr (.path same part.noSlash (stem_eq_iff.1 own) ends)
    | passed file => exact .inr (.passed (fileName_eq_none_iff.1 file))
  · rintro (rfl | disguised)
    · exact select_eq_some_iff.1 (select_word verb behind)
    · cases disguised with
      | path other noSlash file ends =>
        obtain ⟨part, notUp⟩ := file.isPart noSlash
        exact .named (fileName_eq_some_iff.2 ⟨part, notUp, ends⟩) (stem_eq_iff.2 file)
      | passed nameless => exact .passed (fileName_eq_none_iff.2 nameless)

theorem fileName_word (verb : Verb) : fileName verb.word.toList = some verb.word.toList := by
  cases verb <;> rfl

/-- No first word in disguise is the word of a command. -/
theorem Disguised.first_ne {first : List Char} {rest behind : List (List Char)} {verb : Verb}
    (disguised : Disguised (first :: rest) verb behind) (other : Verb) :
    first ≠ other.word.toList := by
  rintro rfl
  have own := fileName_word other
  cases disguised with
  | path apart noSlash file ends =>
    obtain ⟨part, notUp⟩ := file.isPart noSlash
    rw [fileName_eq_some_iff.2 ⟨part, notUp, ends⟩] at own
    cases own
    rcases file with same | ⟨letters, _, whole⟩
    · exact apart same
    · exact no_dot_in_word other (by simp [whole])
  | passed nameless =>
    rw [fileName_eq_none_iff.2 nameless] at own
    cases own

/-- A word in disguise has a slash or a dot in it. -/
theorem Disguised.mem {first : List Char} {rest behind : List (List Char)} {verb : Verb}
    (disguised : Disguised (first :: rest) verb behind) (filled : first ≠ []) :
    '/' ∈ first ∨ '.' ∈ first := by
  cases disguised with
  | path apart noSlash file ends =>
    cases ends with
    | alone =>
      rcases file with same | ⟨letters, _, whole⟩
      · exact absurd same apart
      · exact .inr (by simp [whole])
    | inFolder | slash | dot => exact .inl (by simp)
  | passed nameless =>
    rcases nameless with hollow | ends
    · cases hollow with
      | nothing => exact absurd rfl filled
      | here => exact .inr (by simp)
      | slash | dot => exact .inl (by simp)
    · cases ends with
      | alone => exact .inr (by simp)
      | inFolder | slash | dot => exact .inl (by simp)

end Verb

namespace Command

/-- The complaint about a line that begins with this word. -/
def unknown (word : List Char) : Error :=
  .badCommand ("unknown command: " ++ String.ofList word ++ "\n" ++ Verb.help)

/-- Only a line that begins with the word of a command is read as that command. -/
structure FirstWordRules (line : String) : Prop where
  empty : words (content line) = [] → parse line = .error (.badCommand Verb.help)
  accepted : ∀ command, parse line = .ok command →
    (words (content line)).head? = some command.verb.word.toList
  refused : ∀ word, (words (content line)).head? = some word →
    (∀ verb : Verb, word ≠ verb.word.toList) → parse line = .error (unknown word)

theorem parse_of_blank {line : String} (none : words (content line) = []) :
    parse line = .error (.badCommand Verb.help) := by
  unfold parse
  rw [none]

theorem complaint_of_ne {word : List Char} (other : ∀ verb : Verb, word ≠ verb.word.toList) :
    Error.badCommand (Verb.complaint (String.ofList word)) = unknown word := by
  have none : Verb.ofWord? (String.ofList word) = none := by
    rw [Option.eq_none_iff_forall_ne_some]
    intro verb found
    apply other verb
    rw [Verb.ofWord?_eq_some_iff.1 found, String.toList_ofList]
  rw [Verb.complaint, none]
  rfl

theorem joined_begins (separator word : String) (rest : List String) :
    ∃ more, (joined separator (word :: rest)).toList = word.toList ++ more := by
  cases rest with
  | nil => exact ⟨[], by simp [joined]⟩
  | cons next others => exact ⟨_, by rw [joined, String.intercalate_cons_cons,
      String.append_assoc, String.toList_append]⟩

/-- Nothing that is said of wrong operands is said of an unknown command. -/
theorem usage_ne_unknown (verb : Verb) (word : List Char) :
    Error.badCommand verb.usage ≠ unknown word := by
  intro same
  -- the second letters differ
  have second := congrArg (fun text => text.toList[1]?) (Error.badCommand.inj same)
  have expected : verb.usage.toList[1]? ≠ some 'n' := by
    cases verb with
    | parcall =>
      obtain ⟨more, whole⟩ := joined_begins "\n" _ _
      rw [Verb.usage, whole]
      simp
    | clrpar | pardebug =>
      obtain ⟨more, whole⟩ := joined_begins "\n" _ _
      rw [Verb.usage, Verb.help, whole]
      simp
    | _ => decide
  apply expected
  rw [second, String.toList_append, String.toList_append, String.toList_append, List.append_assoc,
    List.append_assoc]
  rfl

/-- A line is refused as unknown unless its first word is a command in disguise, with operands that
are right in number. -/
theorem parse_eq_unknown_iff {line : String} {word : List Char} {rest : List (List Char)}
    (found : words (content line) = word :: rest)
    (other : ∀ verb : Verb, word ≠ verb.word.toList) :
    parse line = .error (unknown word) ↔
      ∀ verb behind, Verb.Disguised (word :: rest) verb behind →
        verb.operandsOf (behind.map String.ofList) = none := by
  -- the word is that of no command, so what it selects it selects in disguise
  have selected : ∀ {verb behind}, Verb.Disguised (word :: rest) verb behind ↔
      Verb.select (word :: rest) = some (verb, behind) := by
    intro verb behind
    rw [Verb.select_eq_some_iff, Verb.selects_iff, or_iff_right]
    intro same
    exact other verb (List.cons.inj same).1
  simp only [selected]
  unfold parse
  rw [found]
  cases chosen : Verb.select (word :: rest) with
  | none => simp [chosen, complaint_of_ne other]
  | some pair =>
    obtain ⟨verb, behind⟩ := pair
    cases taken : verb.operandsOf (behind.map String.ofList) with
    | none => simp [chosen, taken, complaint_of_ne other]
    | some operands =>
      cases made : ofOperands verb operands with
      | none => simp [chosen, taken, made, usage_ne_unknown]
      | some command => simp [chosen, taken, made]

/-- The first word of a line is what it should be, except in a line that selects a command in
disguise and gives it operands that are right in number. -/
theorem firstWordRules_iff (line : String) :
    FirstWordRules line ↔ ∀ verb behind, Verb.Disguised (words (content line)) verb behind →
      verb.operandsOf (behind.map String.ofList) = none := by
  constructor
  · intro rules verb behind disguised
    cases found : words (content line) with
    | nil =>
      rw [found] at disguised
      cases disguised
    | cons word rest =>
      rw [found] at disguised
      have other := disguised.first_ne
      have refused := rules.refused word (by rw [found]; rfl) other
      exact (parse_eq_unknown_iff found other).1 refused verb behind disguised
  · intro plain
    refine ⟨parse_of_blank, ?_, ?_⟩
    · intro command read
      obtain ⟨verb, behind, operands, selects, taken, made⟩ := parse_eq_ok_iff.1 read
      rcases Verb.selects_iff.1 selects with found | disguised
      · rw [found, ofOperands_verb made]
        rfl
      · rw [plain verb behind disguised] at taken
        cases taken
    · intro word first other
      cases found : words (content line) with
      | nil =>
        rw [found] at first
        cases first
      | cons word rest =>
        rw [found] at first plain
        cases first
        exact (parse_eq_unknown_iff found other).2 plain

/-- Which lines are read by their first word as it stands: all that do not select a command in
disguise with operands that are right in number, and so all whose first word has no slash and no dot
in it. What is accepted otherwise is a command that the line selects in disguise. -/
theorem command_words_select (line : String) :
    (FirstWordRules line ↔ ∀ verb behind,
      Verb.Disguised (words (content line)) verb behind →
        verb.operandsOf (behind.map String.ofList) = none) ∧
    ((∀ word, (words (content line)).head? = some word → '/' ∉ word ∧ '.' ∉ word) →
      FirstWordRules line) ∧
    (∀ command, parse line = .ok command →
      (words (content line)).head? = some command.verb.word.toList ∨
        ∃ behind, Verb.Disguised (words (content line)) command.verb behind) := by
  refine ⟨firstWordRules_iff line, ?plain, ?accepted⟩
  case plain =>
    intro plain
    rw [firstWordRules_iff]
    intro verb behind disguised
    cases found : words (content line) with
    | nil =>
      rw [found] at disguised
      cases disguised
    | cons word rest =>
      have filled : word ≠ [] := (isWord_of_mem_words (found ▸ List.mem_cons_self)).nonempty
      rw [found] at disguised plain
      obtain ⟨noSlash, noDot⟩ := plain word rfl
      exact (disguised.mem filled).elim (absurd · noSlash) (absurd · noDot)
  case accepted =>
    intro command read
    obtain ⟨verb, behind, operands, selects, _, made⟩ := parse_eq_ok_iff.1 read
    rw [ofOperands_verb made]
    rcases Verb.selects_iff.1 selects with found | disguised
    · exact .inl (by rw [found]; rfl)
    · exact .inr ⟨behind, disguised⟩

theorem capital_word_refused :
    parse " /Mkpar G" = .error (unknown "Mkpar".toList) ∧
    ∃ behind, Verb.Disguised (words (content "..  x mkpar G")) .mkpar behind := by
  have first : (words (content " /Mkpar G")).head? = some "Mkpar".toList := by decide
  have plain : ∀ word, (words (content " /Mkpar G")).head? = some word →
      '/' ∉ word ∧ '.' ∉ word := by
    intro word same
    rw [first] at same
    cases same
    decide
  have other : ∀ verb : Verb, "Mkpar".toList ≠ verb.word.toList := by
    intro verb
    cases verb <;> decide
  refine ⟨((command_words_select " /Mkpar G").2.1 plain).refused _ first other, ?_⟩
  have read : parse "..  x mkpar G" = .ok (createGroup "G") := by decide
  rcases (command_words_select "..  x mkpar G").2.2 _ read with same | disguised
  · exact absurd same (by decide)
  · exact disguised

/-- A script named like a command is taken for the command. -/
theorem script_taken_for_command :
    (words (content "mkpar.sh g")).head? = some "mkpar.sh".toList ∧
    (∀ verb : Verb, "mkpar.sh" ≠ verb.word) ∧
    parse "mkpar.sh g" = .ok (createGroup "g") ∧
    parse "mkpar.sh" = .error (unknown "mkpar.sh".toList) ∧
    ¬ FirstWordRules "mkpar.sh g" := by
  have first : (words (content "mkpar.sh g")).head? = some "mkpar.sh".toList := by decide
  have other : ∀ verb : Verb, "mkpar.sh" ≠ verb.word := by
    intro verb
    cases verb <;> decide
  have read : parse "mkpar.sh g" = .ok (createGroup "g") := by decide
  refine ⟨first, other, read, rfl, ?_⟩
  intro rules
  have same := rules.accepted _ read
  rw [first] at same
  exact other .mkpar (String.toList_inj.1 (Option.some.inj same))

end Command
end CallFork
