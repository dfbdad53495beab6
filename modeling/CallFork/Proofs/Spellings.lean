import CallFork.Proofs.DuplicateTargets

/-! # Spellings of an address

An address without a scheme can be written in many ways: with `sip:` in front, in brackets, behind a
name, with blanks around. `Address.spec` and `Address.splitScheme` take all of this away, and what
is left is the address, to be read under the scheme `sip` (`Spelling.split`). So all spellings are
completed alike, called from the same account, and in a group they are one target.
-/

namespace CallFork

/-- The address alone, or behind `sip:` in any case. -/
inductive Schemed (address : List Char) : List Char → Prop where
  | without : Schemed address address
  | behind {word : List Char} (sip : lower word = "sip".toList) :
      Schemed address (word ++ ':' :: address)

/-- A way to write an address: with or without its scheme, and if in brackets, with anything in
front of them. -/
inductive Spelling (address : List Char) : List Char → Prop where
  | plain {text left right : List Char} (schemed : Schemed address text) (before : Blank left)
      (after : Blank right) : Spelling address (left ++ text ++ right)
  | bracketed {text name left right after : List Char} (schemed : Schemed address text)
      (unbracketed : '<' ∉ name) (inLeft : Blank left) (inRight : Blank right)
      (behind : Blank after) :
      Spelling address (name ++ '<' :: (left ++ text ++ right) ++ '>' :: after)

/-- An address that has spellings: no blanks around it, no opening bracket in it, and no scheme. A
closing one may be in it, because it is the last that counts. -/
structure Schemeless (address : List Char) : Prop where
  trimmed : trim address = address
  opens : '<' ∉ address
  unschemed : Address.splitScheme address = none

/-! ## What is left of a spelling -/

section

variable {address text word : List Char}

theorem not_mem_of_lower_eq_sip (sip : lower word = "sip".toList) {c : Char}
    (other : c.toLower ∉ "sip".toList) : c ∉ word := by
  intro member
  exact other (sip ▸ List.mem_map_of_mem member)

theorem Schemed.trimmed (schemed : Schemed address text) (trimmed : Trimmed address) :
    Trimmed text := by
  cases schemed with
  | without => exact trimmed
  | @behind word sip =>
    constructor
    · intro c first
      cases word with
      | nil => cases sip
      | cons d rest =>
        cases first
        -- the letters of the word are no blanks
        by_contra notPlain
        have blank : isBlank c = true := by simpa using notPlain
        refine not_mem_of_lower_eq_sip sip (c := c) ?_ List.mem_cons_self
        rw [toLower_of_isBlank blank]
        intro letter
        simp only [String.reduceToList, List.mem_cons, List.not_mem_nil, or_false] at letter
        rcases letter with rfl | rfl | rfl <;> cases blank
    · intro c last
      rw [List.getLast?_append] at last
      cases address with
      | nil =>
        cases last
        rfl
      | cons d rest =>
        apply trimmed.last
        simpa using last

theorem Schemed.not_mem (schemed : Schemed address text) (absent : '<' ∉ address) :
    '<' ∉ text := by
  cases schemed with
  | without => exact absent
  | behind sip =>
    have outside := not_mem_of_lower_eq_sip sip (c := '<') (by decide)
    simp [outside, absent]

/-- With the scheme or without it, the address is read under the scheme `sip`. -/
theorem Schemed.split (schemed : Schemed address text)
    (unschemed : Address.splitScheme address = none) :
    Address.splitScheme text = none ∧ text = address ∨
      Address.splitScheme text = some (.sip .sip, address) := by
  cases schemed with
  | without => exact .inl ⟨unschemed, rfl⟩
  | @behind word sip =>
    right
    have before := not_mem_of_lower_eq_sip sip (c := ':') (by decide)
    rw [Address.splitScheme, cutAt_append before]
    change (Address.schemeOf (String.ofList (lower word)) address).bind _ = _
    rw [sip]
    rfl

theorem Spelling.spec_eq (spelled : Spelling address text) (schemeless : Schemeless address) :
    Schemed address (Address.spec text) := by
  have trimmed := trim_eq_iff.1 schemeless.trimmed
  cases spelled with
  | plain schemed before after =>
    have padded := (schemed.trimmed trimmed).trim_padded before after
    rw [Address.spec_of_unbracketed, padded]
    · exact schemed
    · rw [padded]
      exact Address.unbracketed_of_not_mem (schemed.not_mem schemeless.opens)
  | bracketed schemed unbracketed inLeft inRight behind =>
    rw [Address.spec_bracketed unbracketed behind,
      (schemed.trimmed trimmed).trim_padded inLeft inRight]
    exact schemed

end

/-! ## One target -/

/-- The same error, said of a target as it was written there. -/
def Error.quoting (target : String) : Error → Error
  | .invalidTarget _ reason => .invalidTarget target reason
  | error => error

namespace Spelling

variable {address : List Char} {given : String}

theorem completeSpec_eq (spelled : Spelling address given.toList) (schemeless : Schemeless address)
    (account : Account) :
    Target.completeSpec account (Address.spec given.toList)
      = Target.completeSpec.readAt account .sip address := by
  unfold Target.completeSpec
  rcases (spelled.spec_eq schemeless).split schemeless.unschemed with ⟨none, same⟩ | split
  · rw [none, same]
  · rw [split]

theorem accountFor_eq (spelled : Spelling address given.toList) (schemeless : Schemeless address)
    (table : AccountTable) :
    table.accountFor given = table.choose (AccountTable.domainOf address) := by
  unfold AccountTable.accountFor
  rcases (spelled.spec_eq schemeless).split schemeless.unschemed with ⟨none, same⟩ | split
  · simp only [same, schemeless.unschemed]
  · simp only [split]

theorem self (address : List Char) : Spelling address address := by
  have plain : Spelling address ([] ++ address ++ []) := .plain .without nofun nofun
  simpa using plain

/-- What is found does not depend on the spelling; only an error quotes it. -/
theorem complete_eq (spelled : Spelling address given.toList) (schemeless : Schemeless address)
    (account : Account) :
    Target.complete account given
      = (Target.complete account (String.ofList address)).mapError (·.quoting (trimmed given)) := by
  have same : Spelling address (String.ofList address).toList := by
    rw [String.toList_ofList]
    exact self address
  unfold Target.complete
  rw [spelled.completeSpec_eq schemeless, same.completeSpec_eq schemeless]
  cases Target.completeSpec.readAt account .sip address <;> rfl

end Spelling

/-! ## Along a run -/

namespace Switchboard

variable {σ : Type}

theorem accounts_perform (engine : Engine σ) (board : Switchboard) (operation : Operation)
    (state : σ) : (board.perform engine operation state).1.board.accounts = board.accounts := by
  cases operation with
  | beginTurn | shutdown | reclaim => rfl
  | event event =>
    have same := handleEvent_board engine board event state
    simp only [perform, Outcome.map, same]
  | request request =>
    have handled := handled engine board request state
    simp only [perform, Outcome.map]
    generalize board.handleRequest engine request state = done at handled ⊢
    cases handled <;> rfl

end Switchboard

theorem Reach.accounts {σ : Type} {engine : Engine σ} {steps : List Step} {board : Switchboard}
    {state : σ} (reached : Reach engine steps board state) :
    ∀ step ∈ steps, step.before.accounts = board.accounts := by
  induction reached with
  | start =>
    intro step member
    exact absurd member List.not_mem_nil
  | step before operation inductionHypothesis =>
    rw [Switchboard.accounts_perform]
    intro step member
    rcases List.mem_append.1 member with old | new
    · exact inductionHypothesis step old
    · rw [List.mem_singleton.1 new]

/-- All spellings of an address are one target. They are completed to the same address, or refused
for the same reason, and they are called from the same account. If the address was added to a group
without a name to show, in whatever spelling, then as long as the group is not ended it is refused
as a repetition when it is added without one in any other spelling. -/
theorem Spelling.same_target {address : List Char} (schemeless : Schemeless address) :
    (∀ given : String, Spelling address given.toList →
      (∀ account, Target.complete account given
        = (Target.complete account (String.ofList address)).mapError (·.quoting (trimmed given))) ∧
      ∀ table : AccountTable, table.accountFor given = table.accountFor (String.ofList address)) ∧
    ∀ {σ : Type} (engine : Engine σ) (earlier later : List Step) (first : Step)
      (board : Switchboard) (state : σ) (name given again target : String)
      (displayName other : Option String),
      Reach engine (earlier ++ first :: later) board state →
      Spelling address given.toList → Spelling address again.toList →
      Target.Shows displayName none → Target.Shows other none →
      first.operation = .request (.addPeer name given displayName) →
      first.outcome.result = .answer (.ok (.added name target)) →
      (∀ step ∈ later, ¬ step.Ends name) →
      board.perform engine (.request (.addPeer name again other)) state
        = (⟨.answer (.error (.duplicateTarget name target)), board, []⟩, state) := by
  constructor
  · intro given spelled
    have same : Spelling address (String.ofList address).toList := by
      rw [String.toList_ofList]
      exact self address
    refine ⟨spelled.complete_eq schemeless, fun table => ?_⟩
    rw [spelled.accountFor_eq schemeless, same.accountFor_eq schemeless]
  · intro σ engine earlier later first board state name given again target displayName other
      reached spelled respelled unnamed unnamedToo asked answered lasts
    have member : first ∈ earlier ++ first :: later := by simp
    obtain ⟨address', displayName', account, asked', known, made⟩ :=
      reached.canonical_of_accepted member (Step.accepted_of_answered answered)
    rw [asked] at asked'
    cases asked'
    obtain ⟨uri, completed, rfl⟩ := Target.completed_of_canonical made
    rw [Target.shownName_eq_iff.2 unnamed] at answered ⊢
    have lists : first.Lists name none uri := ⟨given, displayName, account, asked, known, completed,
      unnamed, answered⟩
    obtain ⟨group, found, present⟩ := reached.exists_of_listed (reached.listed_of_lists lists lasts)
    have knownToo : board.accounts.accountFor again = some account := by
      rw [respelled.accountFor_eq schemeless, ← spelled.accountFor_eq schemeless,
        ← reached.accounts first member]
      exact known
    have completedToo : Target.complete account again = .ok uri := by
      obtain ⟨whole, read, rfl⟩ := Target.text_of_completed completed
      rw [spelled.completeSpec_eq schemeless, ← respelled.completeSpec_eq schemeless] at read
      rw [Target.complete, read]
    have madeToo := Target.canonical_of_completed completedToo other
    rw [Target.shownName_eq_iff.2 unnamedToo] at madeToo
    have refused := Switchboard.addPeer_of_present found knownToo madeToo present
    simp only [Switchboard.perform, Switchboard.handleRequest, refused]
    rfl

/-! ## A sample run -/

namespace Respelled

/-- An address is added to a group with its scheme in capitals. -/
def operations : List Switchboard.Operation :=
  [.request (.createGroup "G"), .request (.addPeer "G" "SIP:bob" none)]

def steps : List Step := Rematch.board.history EngineScript.engine operations {}

def last : Switchboard := (Rematch.board.run EngineScript.engine operations {}).2.1

theorem reached : ∃ state, Reach EngineScript.engine (steps.take 1 ++ steps[1] :: []) last state :=
  ⟨_, (Reach.start Rematch.started ({} : EngineScript)).extend operations⟩

theorem schemeless : Schemeless "bob".toList :=
  ⟨by decide, by decide, rfl⟩

theorem spelled : Spelling "bob".toList "SIP:bob".toList := by
  have schemed : Schemed "bob".toList ("SIP".toList ++ ':' :: "bob".toList) := .behind (by decide)
  exact @Spelling.plain _ _ [] [] schemed nofun nofun

/-- Anything may stand in front of the brackets, also a closing one. -/
theorem respelled : Spelling "bob".toList "a > b < siP:bob\t> ".toList := by
  have schemed : Schemed "bob".toList ("siP".toList ++ ':' :: "bob".toList) := .behind (by decide)
  exact @Spelling.bracketed _ _ "a > b ".toList [' '] ['\t'] [' '] schemed (by decide) (by decide)
    (by decide) (by decide)

/-- A name to show that is blank is none. -/
theorem same_target_in_brackets :
    last.accounts.accountFor "a > b < siP:bob\t> " = last.accounts.accountFor "bob" ∧
      ∃ state, last.perform EngineScript.engine
          (.request (.addPeer "G" "a > b < siP:bob\t> " (some "  "))) state
        = (⟨.answer (.error (.duplicateTarget "G" "sip:bob@x")), last, []⟩, state) := by
  obtain ⟨alike, refused⟩ := Spelling.same_target schemeless
  obtain ⟨state, reached⟩ := reached
  refine ⟨(alike _ respelled).2 last.accounts, state, ?_⟩
  have blank : Blank "  ".toList := by decide
  exact refused _ _ _ _ _ _ _ _ _ _ none _ reached spelled respelled .absent (.blank blank) rfl
    rfl (by simp)

end Respelled
end CallFork
