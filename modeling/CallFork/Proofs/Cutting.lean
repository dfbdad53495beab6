import CallFork.Address
import Mathlib.Data.List.TakeWhile

/-! # Where texts are cut

What `trim`, `cutAt` and `cutAtLast` find in a text that is put together from parts, and from this
where `Address.spec` finds an address: in a text without brackets it is the whole text, and in
brackets it is what stands between the first opening and the last closing one. Runs of characters
end where they would have ended if what follows does not go on with them (`Stops`).
-/

namespace CallFork

/-! ## Blanks -/

/-- Nothing but blanks. -/
def Blank (text : List Char) : Prop :=
  ∀ c ∈ text, isBlank c = true

instance (text : List Char) : Decidable (Blank text) :=
  decidable_of_iff (text.all isBlank = true) List.all_eq_true

theorem blank_nil : Blank [] :=
  List.forall_mem_nil _

/-- Neither the first character nor the last one is a blank. -/
structure Trimmed (text : List Char) : Prop where
  first : ∀ c ∈ text.head?, isBlank c = false
  last : ∀ c ∈ text.getLast?, isBlank c = false

theorem toLower_of_isBlank {c : Char} (blank : isBlank c = true) : c.toLower = c := by
  unfold Char.toLower
  rw [dif_neg]
  rintro ⟨low, high⟩
  have low : 65 ≤ c.toNat := low
  have high : c.toNat ≤ 90 := high
  simp [isBlank, blankRanges] at blank
  omega

variable {text before after : List Char}

theorem trimStart_of_first (first : ∀ c ∈ text.head?, isBlank c = false) :
    trimStart text = text := by
  cases text with
  | nil => rfl
  | cons c rest =>
    have plain : isBlank c = false := first c rfl
    exact List.dropWhile_cons_of_neg (by simp [plain])

theorem trimEnd_of_last (last : ∀ c ∈ text.getLast?, isBlank c = false) :
    trimEnd text = text := by
  have reversed : trimStart text.reverse = text.reverse := by
    apply trimStart_of_first
    rw [List.head?_reverse]
    exact last
  unfold trimStart at reversed
  rw [trimEnd, reversed, List.reverse_reverse]

theorem Trimmed.trim_eq (trimmed : Trimmed text) : trim text = text := by
  rw [trim, trimStart_of_first trimmed.first, trimEnd_of_last trimmed.last]

theorem trimStart_first (text : List Char) : ∀ c ∈ (trimStart text).head?, isBlank c = false := by
  intro c first
  cases kept : trimStart text with
  | nil => simp [kept] at first
  | cons d rest =>
    rw [kept] at first
    cases first
    have stops := List.head?_dropWhile_not isBlank text
    rw [← trimStart, kept] at stops
    simpa using stops

theorem trimEnd_last : ∀ c ∈ (trimEnd text).getLast?, isBlank c = false := by
  intro c last
  rw [trimEnd, List.getLast?_reverse] at last
  exact trimStart_first _ c last

/-- Blanks are taken away at the end, and what is left begins as before. -/
theorem trimEnd_prefix (text : List Char) :
    ∃ blanks, text = trimEnd text ++ blanks ∧ Blank blanks := by
  refine ⟨(text.reverse.takeWhile isBlank).reverse, ?_, ?_⟩
  · rw [trimEnd, ← List.reverse_append, List.takeWhile_append_dropWhile, List.reverse_reverse]
  · intro c member
    exact List.mem_takeWhile_imp (List.mem_reverse.1 member)

theorem trimStart_suffix (text : List Char) :
    ∃ blanks, text = blanks ++ trimStart text ∧ Blank blanks :=
  ⟨text.takeWhile isBlank, List.takeWhile_append_dropWhile.symm,
    fun _ member => List.mem_takeWhile_imp member⟩

/-- A text is what is left of it with blanks around it. -/
theorem exists_padding (text : List Char) :
    ∃ before after, text = before ++ trim text ++ after ∧ Blank before ∧ Blank after := by
  obtain ⟨before, started, left⟩ := trimStart_suffix text
  obtain ⟨after, ended, right⟩ := trimEnd_prefix (trimStart text)
  refine ⟨before, after, ?_, left, right⟩
  rw [List.append_assoc, trim, ← ended]
  exact started

theorem mem_of_mem_trim {c : Char} (member : c ∈ trim text) : c ∈ text := by
  obtain ⟨before, after, whole, _, _⟩ := exists_padding text
  rw [whole]
  exact List.mem_append_left _ (List.mem_append_right _ member)

theorem trimmed_trim (text : List Char) : Trimmed (trim text) := by
  refine ⟨?_, trimEnd_last⟩
  intro c first
  obtain ⟨blanks, whole, _⟩ := trimEnd_prefix (trimStart text)
  apply trimStart_first text c
  rw [whole]
  rw [trim] at first
  rw [List.head?_append, first]
  rfl

theorem trim_eq_iff : trim text = text ↔ Trimmed text := by
  constructor
  · intro same
    exact same ▸ trimmed_trim text
  · exact Trimmed.trim_eq

theorem trimStart_append (blank : Blank before) : trimStart (before ++ text) = trimStart text :=
  List.dropWhile_append_of_pos blank

theorem trimEnd_append (blank : Blank after) : trimEnd (text ++ after) = trimEnd text := by
  have reversed : Blank after.reverse := fun c member => blank c (List.mem_reverse.1 member)
  unfold trimEnd
  rw [List.reverse_append, List.dropWhile_append_of_pos reversed]

/-- Of a text with blanks around it, the text is left. -/
theorem Trimmed.trim_padded (trimmed : Trimmed text) (left : Blank before) (right : Blank after) :
    trim (before ++ text ++ after) = text := by
  cases text with
  | nil =>
    have blank : Blank (before ++ [] ++ after) := by
      intro c member
      rw [List.append_nil] at member
      exact (List.mem_append.1 member).elim (left c) (right c)
    rw [trim, trimStart, List.dropWhile_eq_nil_iff.2 blank]
    rfl
  | cons c rest =>
    rw [trim, List.append_assoc, trimStart_append left, trimStart_of_first, trimEnd_append right,
      trimEnd_of_last trimmed.last]
    exact trimmed.first

theorem trim_eq_nil_iff {text : List Char} : trim text = [] ↔ Blank text := by
  constructor
  · intro empty
    obtain ⟨before, after, whole, left, right⟩ := exists_padding text
    intro c member
    rw [whole, empty, List.append_nil] at member
    exact (List.mem_append.1 member).elim (left c) (right c)
  · intro blank
    have nothing : Trimmed [] := ⟨by simp, by simp⟩
    have padded := nothing.trim_padded blank (List.forall_mem_nil _)
    simpa using padded

theorem mem_trim {c : Char} (solid : isBlank c = false) {text : List Char} :
    c ∈ trim text ↔ c ∈ text := by
  refine ⟨mem_of_mem_trim, fun member => ?_⟩
  obtain ⟨before, after, whole, left, right⟩ := exists_padding text
  rw [whole, List.mem_append, List.mem_append] at member
  rcases member with (blank | own) | blank
  · exact absurd (left c blank) (by simp [solid])
  · exact own
  · exact absurd (right c blank) (by simp [solid])

/-! ## Marks -/

variable {mark : Char}

theorem cutAt_eq_some_iff :
    cutAt mark text = some (before, after) ↔ text = before ++ mark :: after ∧ mark ∉ before := by
  induction text generalizing before with
  | nil => simp [cutAt]
  | cons c rest inductionHypothesis =>
    unfold cutAt
    split
    · rename_i same
      subst same
      cases before <;> simp
      grind
    · rename_i different
      cases before with
      | nil => simpa using fun same _ => different same
      | cons d before =>
        simp only [Option.map_eq_some_iff, Prod.mk.injEq, List.cons.injEq, List.cons_append,
          List.mem_cons, not_or, Prod.exists]
        constructor
        · rintro ⟨front, back, cut, ⟨rfl, rfl⟩, rfl⟩
          obtain ⟨rfl, absent⟩ := inductionHypothesis.1 cut
          exact ⟨⟨rfl, rfl⟩, Ne.symm different, absent⟩
        · rintro ⟨⟨rfl, rfl⟩, _, absent⟩
          exact ⟨before, after, inductionHypothesis.2 ⟨rfl, absent⟩, ⟨rfl, rfl⟩, rfl⟩

theorem cutAt_append (absent : mark ∉ before) :
    cutAt mark (before ++ mark :: after) = some (before, after) :=
  cutAt_eq_some_iff.2 ⟨rfl, absent⟩

theorem cutAt_eq_none_iff : cutAt mark text = none ↔ mark ∉ text := by
  induction text with
  | nil => simp [cutAt]
  | cons c rest inductionHypothesis =>
    unfold cutAt
    split
    · rename_i same
      simp [same]
    · rename_i different
      simp [inductionHypothesis, Ne.symm different]

theorem cutAtLast_eq_some_iff :
    cutAtLast mark text = some (before, after) ↔ text = before ++ mark :: after ∧ mark ∉ after := by
  simp only [cutAtLast, Option.map_eq_some_iff, Prod.exists, cutAt_eq_some_iff, Prod.mk.injEq]
  constructor
  · rintro ⟨back, front, ⟨whole, absent⟩, rfl, rfl⟩
    refine ⟨?_, by simpa using absent⟩
    rw [← List.reverse_inj, whole]
    simp
  · rintro ⟨rfl, absent⟩
    exact ⟨after.reverse, before.reverse, ⟨by simp, by simpa using absent⟩, by simp, by simp⟩

theorem cutAtLast_append (absent : mark ∉ after) :
    cutAtLast mark (before ++ mark :: after) = some (before, after) :=
  cutAtLast_eq_some_iff.2 ⟨rfl, absent⟩

theorem cutAtLast_eq_none_iff : cutAtLast mark text = none ↔ mark ∉ text := by
  unfold cutAtLast
  rw [Option.map_eq_none_iff, cutAt_eq_none_iff, List.mem_reverse]

/-! ## Runs -/

section

variable {run : Char → Bool} {text rest : List Char}

/-- No run of such characters goes on in this text. -/
def Stops (run : Char → Bool) (rest : List Char) : Prop :=
  ∀ c ∈ rest.head?, run c = false

theorem takeWhile_of_stops (stops : Stops run rest) : rest.takeWhile run = [] := by
  cases rest with
  | nil => rfl
  | cons c rest => exact List.takeWhile_cons_of_neg (by simp [stops c rfl])

theorem dropWhile_of_stops (stops : Stops run rest) : rest.dropWhile run = rest := by
  cases rest with
  | nil => rfl
  | cons c rest => exact List.dropWhile_cons_of_neg (by simp [stops c rfl])

theorem takeWhile_append (text : List Char) (stops : Stops run rest) :
    (text ++ rest).takeWhile run = text.takeWhile run := by
  induction text with
  | nil => exact takeWhile_of_stops stops
  | cons c text inductionHypothesis =>
    simp only [List.cons_append, List.takeWhile_cons, inductionHypothesis]

theorem dropWhile_append (text : List Char) (stops : Stops run rest) :
    (text ++ rest).dropWhile run = text.dropWhile run ++ rest := by
  induction text with
  | nil => exact dropWhile_of_stops stops
  | cons c text inductionHypothesis =>
    simp only [List.cons_append, List.dropWhile_cons, inductionHypothesis]
    split <;> rfl

theorem takeWhile_of_all (all : ∀ c ∈ text, run c = true) : text.takeWhile run = text := by
  simpa using all

theorem dropWhile_of_all (all : ∀ c ∈ text, run c = true) : text.dropWhile run = [] :=
  List.dropWhile_eq_nil_iff.2 all

end

/-! ## The address in a text -/

namespace Address

/-- No opening bracket has a closing one behind it. -/
def Unbracketed (text : List Char) : Prop :=
  ∀ before after, cutAt '<' text = some (before, after) → '>' ∉ after

theorem unbracketed_of_not_mem (absent : '<' ∉ text) : Unbracketed text := by
  intro before after cut
  rw [cutAt_eq_none_iff.2 absent] at cut
  cases cut

theorem spec_of_unbracketed (unbracketed : Unbracketed (trim text)) : spec text = trim text := by
  unfold spec
  split
  · rename_i before after cut
    rw [cutAtLast_eq_none_iff.2 (unbracketed before after cut)]
  · rfl

/-- What stands in the brackets, if blanks are all that follows them. -/
theorem spec_bracketed {inside : List Char} (absent : '<' ∉ before) (blank : Blank after) :
    spec (before ++ '<' :: inside ++ '>' :: after) = trim inside := by
  obtain ⟨blanks, whole, left⟩ := trimStart_suffix before
  have trimmed : Trimmed (trimStart before ++ '<' :: (inside ++ ['>'])) := by
    constructor
    · intro c first
      cases name : trimStart before with
      | nil =>
        rw [name] at first
        cases first
        rfl
      | cons d rest =>
        apply trimStart_first before c
        rw [name] at first ⊢
        exact first
    · intro c last
      rw [← List.cons_append, ← List.append_assoc, List.getLast?_concat] at last
      cases last
      rfl
  have padded := trimmed.trim_padded left blank
  have regrouped : before ++ '<' :: inside ++ '>' :: after
      = blanks ++ (trimStart before ++ '<' :: (inside ++ ['>'])) ++ after := by
    calc before ++ '<' :: inside ++ '>' :: after
        = (blanks ++ trimStart before) ++ '<' :: inside ++ '>' :: after := by rw [← whole]
      _ = blanks ++ (trimStart before ++ '<' :: (inside ++ ['>'])) ++ after := by simp
  have outside : '<' ∉ trimStart before := by
    intro member
    exact absent (whole ▸ List.mem_append_right blanks member)
  unfold spec
  rw [regrouped, padded, cutAt_append outside]
  simp only [cutAtLast_append List.not_mem_nil]

end Address
end CallFork
