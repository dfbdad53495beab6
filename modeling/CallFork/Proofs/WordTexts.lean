import CallFork.Command
import CallFork.Proofs.Cutting

/-! # The words of a line

Which words `words` finds in a text, however many blanks of whatever kind stand around them. All of
it follows from one equation, that a text may be taken apart at any blank (`words_append_blank`).
`Spaced` says which words stand in a text, without looking for them, and `Typed` the same of a line
that may begin with a slash; `words_content` says that these are the words that a command is read
from.
-/

namespace CallFork

/-- What can stand as a word in a text. -/
structure IsWord (text : List Char) : Prop where
  nonempty : text ≠ []
  solid : ∀ c ∈ text, isBlank c = false

instance (text : List Char) : Decidable (IsWord text) :=
  decidable_of_iff (text ≠ [] ∧ text.all (fun c => !isBlank c) = true) <| by
    constructor
    · rintro ⟨nonempty, solid⟩
      exact ⟨nonempty, by simpa using solid⟩
    · rintro ⟨nonempty, solid⟩
      exact ⟨nonempty, by simpa using solid⟩

variable {text before after word : List Char} {parts : List (List Char)}

/-! ## Taking a text apart -/

theorem words_append_blank {c : Char} (blank : isBlank c = true) (before after : List Char) :
    words (before ++ c :: after) = words before ++ words after := by
  unfold words
  rw [List.splitOnP_append_cons before after blank, List.filter_append]

theorem words_nil : words [] = [] := by
  simp [words]

theorem words_blanks_append (blank : Blank before) : words (before ++ text) = words text := by
  induction before with
  | nil => rfl
  | cons c rest inductionHypothesis =>
    have first : words ([] ++ c :: (rest ++ text)) = words [] ++ words (rest ++ text) :=
      words_append_blank (blank c List.mem_cons_self) [] _
    have others : Blank rest := fun d member => blank d (List.mem_cons_of_mem _ member)
    rw [words_nil, List.nil_append, List.nil_append, inductionHypothesis others] at first
    exact first

theorem words_of_blank (blank : Blank text) : words text = [] := by
  have all : words (text ++ []) = words [] := words_blanks_append blank
  rw [List.append_nil, words_nil] at all
  exact all

theorem words_append_blanks (blank : Blank after) : words (text ++ after) = words text := by
  cases after with
  | nil => rw [List.append_nil]
  | cons c rest =>
    have others : Blank rest := fun d member => blank d (List.mem_cons_of_mem _ member)
    rw [words_append_blank (blank c List.mem_cons_self), words_of_blank others, List.append_nil]

theorem words_trim (text : List Char) : words (trim text) = words text := by
  obtain ⟨before, started, left⟩ := trimStart_suffix text
  obtain ⟨after, ended, right⟩ := trimEnd_prefix (trimStart text)
  calc words (trim text)
      = words (trimEnd (trimStart text) ++ after) := (words_append_blanks right).symm
    _ = words (trimStart text) := by rw [← ended]
    _ = words (before ++ trimStart text) := (words_blanks_append left).symm
    _ = words text := by rw [← started]

theorem IsWord.words_eq (isWord : IsWord word) : words word = [word] := by
  unfold words
  rw [List.splitOnP_eq_singleton isWord.solid]
  have kept : (!word.isEmpty) = true := by simpa using isWord.nonempty
  simp [kept]

/-- A word is found in front of a text in which it does not go on. -/
theorem IsWord.words_append (isWord : IsWord word) (apart : Stops (fun c => !isBlank c) text) :
    words (word ++ text) = word :: words text := by
  cases text with
  | nil => rw [List.append_nil, isWord.words_eq, words_nil]
  | cons c rest =>
    have blank : isBlank c = true := by simpa using apart c rfl
    have same : words (c :: rest) = words rest := by
      have first := words_append_blank blank [] rest
      rw [words_nil] at first
      exact first
    rw [words_append_blank blank, isWord.words_eq, same]
    rfl

/-! ## Words with blanks between them -/

/-- These words stand in a text, with blanks between them and maybe around them. -/
inductive Spaced : List (List Char) → List Char → Prop where
  | none {blanks : List Char} (blank : Blank blanks) : Spaced [] blanks
  | word {blanks word rest : List Char} {parts : List (List Char)} (before : Blank blanks)
      (isWord : IsWord word) (apart : Stops (fun c => !isBlank c) rest)
      (more : Spaced parts rest) : Spaced (word :: parts) (blanks ++ word ++ rest)

theorem Spaced.words_eq (spaced : Spaced parts text) : words text = parts := by
  induction spaced with
  | none blank => exact words_of_blank blank
  | word before isWord apart _ inductionHypothesis =>
    rw [List.append_assoc, words_blanks_append before, isWord.words_append apart,
      inductionHypothesis]

theorem Spaced.isWord (spaced : Spaced parts text) : ∀ word ∈ parts, IsWord word := by
  induction spaced with
  | none => simp
  | word _ isWord _ _ inductionHypothesis =>
    intro other member
    cases member with
    | head => exact isWord
    | tail _ later => exact inductionHypothesis other later

theorem exists_spaced (text : List Char) : ∃ parts, Spaced parts text := by
  -- a word and the blanks in front of it are taken off, and less is left
  obtain ⟨blanks, whole, blank⟩ := trimStart_suffix text
  cases started : trimStart text with
  | nil =>
    rw [started, List.append_nil] at whole
    exact ⟨[], whole ▸ .none blank⟩
  | cons c rest =>
    have solid : isBlank c = false := trimStart_first text c (by rw [started]; rfl)
    obtain ⟨parts, spaced⟩ := exists_spaced (rest.dropWhile fun c => !isBlank c)
    have isWord : IsWord (c :: rest.takeWhile fun c => !isBlank c) := by
      refine ⟨List.cons_ne_nil _ _, fun d member => ?_⟩
      rcases List.mem_cons.1 member with rfl | later
      · exact solid
      · simpa using List.mem_takeWhile_imp later
    have apart : Stops (fun c => !isBlank c) (rest.dropWhile fun c => !isBlank c) := by
      intro d first
      cases left : rest.dropWhile fun c => !isBlank c with
      | nil => simp [left] at first
      | cons e others =>
        have stopped := List.head?_dropWhile_not (fun c => !isBlank c) rest
        rw [left] at first stopped
        cases first
        simpa using stopped
    have again : text = blanks ++ (c :: rest.takeWhile fun c => !isBlank c)
        ++ rest.dropWhile fun c => !isBlank c := by
      rw [List.append_assoc, List.cons_append, List.takeWhile_append_dropWhile, ← started, ← whole]
    rw [again]
    exact ⟨_, .word blank isWord apart spaced⟩
termination_by text.length
decreasing_by
  have shorter : (rest.dropWhile fun c => !isBlank c).length ≤ rest.length :=
    (List.dropWhile_suffix _).length_le
  have kept := congrArg List.length whole
  rw [started, List.length_append, List.length_cons] at kept
  omega

theorem spaced_words (text : List Char) : Spaced (words text) text := by
  obtain ⟨parts, spaced⟩ := exists_spaced text
  exact spaced.words_eq ▸ spaced

theorem isWord_of_mem_words (member : word ∈ words text) : IsWord word :=
  (spaced_words text).isWord word member

/-- A text that does not begin with a blank begins like its first word. -/
theorem Spaced.head (spaced : Spaced parts text) {c : Char} (first : text.head? = some c)
    (solid : isBlank c = false) : ∃ word, parts.head? = some word ∧ word.head? = some c := by
  cases spaced with
  | none blank =>
    have blank := blank c (List.mem_of_head? first)
    rw [solid] at blank
    cases blank
  | @word blanks word rest parts before isWord =>
    cases blanks with
    | nil =>
      refine ⟨word, rfl, ?_⟩
      cases word with
      | nil => exact absurd rfl isWord.nonempty
      | cons d others => exact first
    | cons d others =>
      have blank := before d List.mem_cons_self
      cases first
      rw [solid] at blank
      cases blank

/-! ## Words joined by spaces -/

theorem toList_joined_cons {word : String} {rest : List String} (more : rest ≠ []) :
    (joined " " (word :: rest)).toList = word.toList ++ ' ' :: (joined " " rest).toList := by
  rw [joined, String.intercalate_cons_of_ne_nil more, String.toList_append, String.toList_append,
    List.append_assoc]
  rfl

theorem joined_singleton (word : String) : joined " " [word] = word :=
  String.intercalate_singleton

theorem mem_of_mem_joined {parts : List String} {c : Char}
    (member : c ∈ (joined " " parts).toList) : c = ' ' ∨ ∃ word ∈ parts, c ∈ word.toList := by
  induction parts with
  | nil => simp [joined] at member
  | cons word rest inductionHypothesis =>
    cases rest with
    | nil =>
      rw [joined_singleton] at member
      exact .inr ⟨word, List.mem_cons_self, member⟩
    | cons next others =>
      rw [toList_joined_cons (List.cons_ne_nil _ _), List.mem_append, List.mem_cons] at member
      rcases member with own | same | later
      · exact .inr ⟨word, List.mem_cons_self, own⟩
      · exact .inl same
      · rcases inductionHypothesis later with same | ⟨other, among, inside⟩
        · exact .inl same
        · exact .inr ⟨other, List.mem_cons_of_mem _ among, inside⟩

theorem joined_nonempty {parts : List String} (each : ∀ word ∈ parts, IsWord word.toList)
    (some : parts ≠ []) : (joined " " parts).toList ≠ [] := by
  cases parts with
  | nil => exact absurd rfl some
  | cons word rest =>
    have filled := (each word List.mem_cons_self).nonempty
    cases rest with
    | nil => rwa [joined_singleton]
    | cons next others => simp [toList_joined_cons (List.cons_ne_nil _ _)]

theorem trimmed_joined {parts : List String} (each : ∀ word ∈ parts, IsWord word.toList) :
    Trimmed (joined " " parts).toList := by
  induction parts with
  | nil => exact ⟨by simp [joined], by simp [joined]⟩
  | cons word rest inductionHypothesis =>
    have isWord := each word List.mem_cons_self
    cases rest with
    | nil =>
      rw [joined_singleton]
      exact ⟨fun c first => isWord.solid c (List.mem_of_head? first),
        fun c last => isWord.solid c (List.mem_of_getLast? last)⟩
    | cons next others =>
      have later : ∀ word ∈ next :: others, IsWord word.toList :=
        fun other member => each other (List.mem_cons_of_mem _ member)
      rw [toList_joined_cons (List.cons_ne_nil _ _)]
      constructor
      · intro c first
        rw [List.head?_append, List.head?_eq_some_head isWord.nonempty, Option.some_or] at first
        exact isWord.solid c (Option.some_inj.1 first ▸ List.head_mem _)
      · intro c last
        have filled := joined_nonempty later (List.cons_ne_nil _ _)
        rw [List.getLast?_append, List.getLast?_cons_of_ne_nil filled,
          List.getLast?_eq_some_getLast filled, Option.some_or,
          ← List.getLast?_eq_some_getLast filled] at last
        exact (inductionHypothesis later).last c last

theorem not_mem_joined {parts : List String} {mark : Char} (other : mark ≠ ' ')
    (free : ∀ word ∈ parts, mark ∉ word.toList) : mark ∉ (joined " " parts).toList := by
  intro member
  rcases mem_of_mem_joined member with same | ⟨word, among, inside⟩
  · exact other same
  · exact free word among inside

theorem not_blank_joined {parts : List String} (each : ∀ word ∈ parts, IsWord word.toList)
    (some : parts ≠ []) : ¬ Blank (joined " " parts).toList := by
  intro blank
  rw [← trim_eq_nil_iff, (trimmed_joined each).trim_eq] at blank
  exact joined_nonempty each some blank

/-! ## Lines -/

/-- A line that consists of these words, with a slash in front of them or without one. -/
inductive Typed (parts : List (List Char)) : List Char → Prop where
  | plain {text : List Char} (spaced : Spaced parts text) : Typed parts text
  | slashed {blanks text : List Char} (before : Blank blanks) (spaced : Spaced parts text) :
      Typed parts (blanks ++ '/' :: text)

theorem trim_cons_append {c : Char} (solid : isBlank c = false) (blank : Blank before)
    (text : List Char) :
    ∃ blanks rest, trim (before ++ c :: text) = c :: rest ∧ rest ++ blanks = text ∧
      Blank blanks := by
  obtain ⟨blanks, whole, right⟩ := trimEnd_prefix (c :: text)
  have started : trimStart (before ++ c :: text) = c :: text := by
    rw [trimStart_append blank, trimStart_of_first]
    rintro d first
    cases first
    exact solid
  cases left : trimEnd (c :: text) with
  | nil =>
    rw [left, List.nil_append] at whole
    have blank := right c (whole ▸ List.mem_cons_self)
    rw [solid] at blank
    cases blank
  | cons d rest =>
    rw [left, List.cons_append, List.cons.injEq] at whole
    obtain ⟨rfl, rest⟩ := whole
    exact ⟨blanks, _, by rw [trim, started, left], rest.symm, right⟩

namespace Command

/-- A command is read from the words that were typed. Only a slash in front of the first word is not
part of it. -/
theorem words_content {line : String} (typed : Typed parts line.toList)
    (plain : ∀ word, parts.head? = some word → word.head? ≠ some '/') :
    words (content line) = parts := by
  unfold content
  generalize line.toList = text at typed
  cases typed with
  | plain spaced =>
    have found := (words_trim text).trans spaced.words_eq
    split
    · -- a slash at the start would be part of the first word
      rename_i rest trimmed
      have again := found ▸ spaced_words (trim text)
      obtain ⟨word, first, begins⟩ := again.head (c := '/') (by rw [trimmed]; rfl) rfl
      exact absurd begins (plain word first)
    · exact found
  | @slashed blanks text before spaced =>
    obtain ⟨after, rest, trimmed, whole, blank⟩ := trim_cons_append (c := '/') rfl before text
    have found : words rest = words text := by rw [← whole, words_append_blanks blank]
    rw [trimmed]
    exact found.trans spaced.words_eq

end Command
end CallFork
