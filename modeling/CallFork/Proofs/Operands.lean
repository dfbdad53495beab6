import CallFork.Command.Verb

/-! # Commands and their operands

Which command some words select, and which of the words behind it are its operands. `Selects` says
how a first word selects a command (`select_eq_some_iff`). Operands are words of the line in their
order (`operandsOf_sublist`); words that no hyphen begins are all operands, and `paradd` looks for
hyphens only up to the first word behind the group (`addressOperands_of_unhyphened`).
-/

namespace CallFork

/-- No hyphen begins the word. -/
def Unhyphened (word : String) : Prop :=
  word.toList.head? ≠ some '-'

instance (word : String) : Decidable (Unhyphened word) :=
  inferInstanceAs (Decidable (_ ≠ _))

namespace Verb

variable {word : String} {words found : List String}

/-! ## Operands -/

theorem ne_dashes_of_unhyphened (unhyphened : Unhyphened word) : word ≠ "--" := by
  rintro rfl
  exact unhyphened rfl

theorem isOption_of_unhyphened (unhyphened : Unhyphened word) : isOption word = false := by
  unfold isOption
  split
  · rename_i begins
    exact absurd (by rw [begins]; rfl) unhyphened
  · rfl

theorem asksHelp_of_unhyphened (unhyphened : Unhyphened word) : asksHelp word = false := by
  unfold Unhyphened at unhyphened
  unfold asksHelp
  generalize word.toList = text at unhyphened
  cases text with
  | nil => rfl
  | cons c rest =>
    have other : c ≠ '-' := by simpa using unhyphened
    simp [other, Ne.symm other, List.isPrefixOf]

theorem operands_of_unhyphened (each : ∀ word ∈ words, Unhyphened word) :
    operands words = some words := by
  induction words with
  | nil => rfl
  | cons word rest inductionHypothesis =>
    have first := each word List.mem_cons_self
    rw [operands, if_neg (ne_dashes_of_unhyphened first), isOption_of_unhyphened first,
      inductionHypothesis fun other later => each other (List.mem_cons_of_mem _ later)]
    rfl

/-- Only the first of the words behind the group must have no hyphen in front. -/
theorem addressOperands_of_unhyphened {group : String} (named : Unhyphened group)
    (first : ∀ word, words.head? = some word → Unhyphened word) :
    addressOperands (group :: words) = some (group :: words) := by
  have trailing : trailingOperands words = some words := by
    cases words with
    | nil => rfl
    | cons word rest =>
      have first := first word rfl
      rw [trailingOperands, if_neg (ne_dashes_of_unhyphened first), asksHelp_of_unhyphened first]
      rfl
  rw [addressOperands, if_neg (ne_dashes_of_unhyphened named), isOption_of_unhyphened named,
    trailing]
  rfl

theorem operandsOf_of_unhyphened {verb : Verb} (each : ∀ word ∈ words, Unhyphened word) :
    verb.operandsOf words = if verb.takes words.length then some words else none := by
  have found : (if verb = paradd then addressOperands words else operands words) = some words := by
    split
    · cases words with
      | nil => rfl
      | cons group rest =>
        apply addressOperands_of_unhyphened (each group List.mem_cons_self)
        intro word first
        exact each word (List.mem_cons_of_mem _ (List.mem_of_head? first))
    · exact operands_of_unhyphened each
  rw [operandsOf, found, Option.filter_some]

theorem operands_sublist (read : operands words = some found) : found.Sublist words := by
  induction words generalizing found with
  | nil =>
    cases read
    exact .slnil
  | cons word rest inductionHypothesis =>
    unfold operands at read
    split at read
    · cases read
      exact List.sublist_cons_self word rest
    · split at read
      · cases read
      · obtain ⟨others, later, rfl⟩ := Option.map_eq_some_iff.1 read
        exact (inductionHypothesis later).cons_cons word

theorem trailingOperands_sublist (read : trailingOperands words = some found) :
    found.Sublist words := by
  cases words with
  | nil =>
    cases read
    exact .slnil
  | cons word rest =>
    rw [trailingOperands] at read
    split at read
    · cases read
      exact List.sublist_cons_self word _
    · split at read
      · cases read
      · cases read
        exact List.Sublist.refl _

theorem addressOperands_sublist (read : addressOperands words = some found) :
    found.Sublist words := by
  cases words with
  | nil =>
    cases read
    exact .slnil
  | cons word rest =>
    rw [addressOperands] at read
    split at read
    · cases read
      exact List.sublist_cons_self word _
    · split at read
      · cases read
      · obtain ⟨others, later, rfl⟩ := Option.map_eq_some_iff.1 read
        exact (trailingOperands_sublist later).cons_cons word

theorem operandsOf_sublist {verb : Verb} (read : verb.operandsOf words = some found) :
    found.Sublist words := by
  obtain ⟨read, _⟩ := Option.filter_eq_some_iff.1 read
  split at read
  · exact addressOperands_sublist read
  · exact operands_sublist read

theorem takes_of_operandsOf {verb : Verb} (read : verb.operandsOf words = some found) :
    verb.takes found.length = true :=
  (Option.filter_eq_some_iff.1 read).2

/-! ## The word of a command -/

theorem ofWord?_eq_some_iff {verb : Verb} : ofWord? word = some verb ↔ verb.word = word := by
  constructor
  · intro found
    unfold ofWord? at found
    simpa using List.find?_some found
  · rintro rfl
    cases verb <;> rfl

/-- The words select this command, and these words are behind it. -/
inductive Selects : List (List Char) → Verb → List (List Char) → Prop where
  | named {first name : List Char} {verb : Verb} {behind : List (List Char)}
      (file : fileName first = some name) (own : stem name = verb.word.toList) :
      Selects (first :: behind) verb behind
  | passed {first skipped : List Char} {verb : Verb} {behind : List (List Char)}
      (file : fileName first = none) :
      Selects (first :: skipped :: verb.word.toList :: behind) verb behind

theorem select_eq_some_iff {words behind : List (List Char)} {verb : Verb} :
    select words = some (verb, behind) ↔ Selects words verb behind := by
  constructor
  · intro selected
    cases words with
    | nil => cases selected
    | cons first rest =>
      unfold select at selected
      cases file : fileName first with
      | some name =>
        simp only [file, Option.map_eq_some_iff] at selected
        obtain ⟨_, own, same⟩ := selected
        cases same
        exact .named file (by rw [ofWord?_eq_some_iff.1 own, String.toList_ofList])
      | none =>
        match rest with
        | skipped :: word :: others =>
          simp only [file, Option.map_eq_some_iff] at selected
          obtain ⟨_, own, same⟩ := selected
          cases same
          have written : word = verb.word.toList := by
            rw [ofWord?_eq_some_iff.1 own, String.toList_ofList]
          exact written ▸ .passed file
        | [] | [_] =>
          simp only [file] at selected
          cases selected
  · intro selects
    cases selects with
    | named file own =>
      simp only [select, file, own, String.ofList_toList, ofWord?_eq_some_iff.2 rfl,
        Option.map_some]
    | passed file =>
      simp only [select, file, String.ofList_toList, ofWord?_eq_some_iff.2 rfl, Option.map_some]

theorem select_word (verb : Verb) (rest : List (List Char)) :
    select (verb.word.toList :: rest) = some (verb, rest) := by
  cases verb <;> rfl

theorem complaint_word (verb : Verb) : complaint verb.word = verb.usage := by
  cases verb <;> rfl

theorem Selects.suffix {words behind : List (List Char)} {verb : Verb}
    (selects : Selects words verb behind) : behind <:+ words := by
  cases selects with
  | named => exact List.suffix_cons _ _
  | passed => exact ⟨[_, _, _], rfl⟩

end Verb
end CallFork
