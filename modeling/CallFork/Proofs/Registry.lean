import CallFork.Proofs.Operations
import CallFork.Proofs.Verdicts
import Mathlib.Data.String.Basic

/-! # The registered groups over a run

The answers to requests say all that happens to the registered groups: which are created, removed
or cleared away, and which targets are added to them. `Registration.Takes` is the step from one table
to the next, and along a run the table holds what the answers say (`Reach.registered_iff`): a group
is registered if its creation was granted and nothing has ended it since, with the targets that were
added since.

A creation is more than its name. The number of a group stays with it as long as it is registered,
and is never registered again once the group has gone (`Reach.isRegistered_iff`).
-/

namespace CallFork

/-! ## What the answers say -/

inductive Registration where
  | created (name : String)
  | removed (name : String)
  | cleared
  | added (name target : String)
deriving DecidableEq

/-- The target that is added to the group of this name, if one is. -/
def Registration.accepted? (name : String) : Registration → Option String
  | added other target => if other = name then some target else none
  | created _ | removed _ | cleared => none

/-- What an answer says about the groups. -/
def Answer.registration? : Answer → Option Registration
  | created name _ => some (.created name)
  | removed name => some (.removed name)
  | cleared _ => some .cleared
  | added name target => some (.added name target)
  | started _ | hungUp _ _ | dumped _ | shutDown => none

/-- A shutdown clears all groups away as well. -/
def Switchboard.Report.registration? : Switchboard.Report → Option Registration
  | .answer (.ok given) => given.registration?
  | .dropped => some .cleared
  | .answer (.error _) | .turn _ | .resolution _ | .released _ => none

namespace Step

def registration? (step : Step) : Option Registration :=
  step.outcome.result.registration?

/-- A group of this name is created. -/
def Creates (step : Step) (name : String) : Prop :=
  step.registration? = some (.created name)

/-- No group of this name is left, be it removed or cleared away with all others. -/
def Ends (step : Step) (name : String) : Prop :=
  step.registration? = some (.removed name) ∨ step.registration? = some .cleared

/-- The target that is added to the group of this name, if one is. -/
def accepted? (name : String) (step : Step) : Option String :=
  step.registration?.bind (·.accepted? name)

end Step

/-! ## The table -/

namespace GroupTable

theorem insertByName_perm (group : Group) (groups : List Group) :
    (insertByName group groups).Perm (group :: groups) := by
  induction groups with
  | nil => exact .refl _
  | cons first rest inductionHypothesis =>
    unfold insertByName
    split
    · exact (inductionHypothesis.cons first).trans (.swap group first rest)
    · exact .refl _

theorem pairwise_insertByName {group : Group} {groups : List Group}
    (sorted : groups.Pairwise fun first second => first.name < second.name)
    (free : ∀ other ∈ groups, other.name ≠ group.name) :
    (insertByName group groups).Pairwise fun first second => first.name < second.name := by
  induction sorted with
  | nil => exact List.pairwise_singleton _ _
  | @cons first rest least sorted inductionHypothesis =>
    have others := inductionHypothesis fun other member =>
      free other (List.mem_cons_of_mem _ member)
    unfold insertByName
    split
    · rename_i less
      refine .cons ?_ others
      intro other member
      rcases List.mem_cons.1 ((insertByName_perm group rest).mem_iff.1 member) with rfl | member
      · exact less
      · exact least other member
    · rename_i notLess
      have less : group.name < first.name :=
        lt_of_le_of_ne (not_lt.1 notLess) (free first List.mem_cons_self).symm
      refine .cons ?_ (.cons least sorted)
      intro other member
      rcases List.mem_cons.1 member with rfl | member
      · exact less
      · exact less.trans (least other member)

/-- The groups are listed by name, no two have the same number, and later numbers will be new. -/
structure Numbered (table : GroupTable) : Prop where
  sorted : table.groups.Pairwise fun first second => first.name < second.name
  distinct : (table.groups.map (·.id)).Nodup
  issued : ∀ group ∈ table.groups, group.id.number ≤ table.issued

theorem numbered_empty : ({} : GroupTable).Numbered :=
  ⟨.nil, List.nodup_nil, by simp⟩

theorem Numbered.find?_of_mem {table : GroupTable} (numbered : table.Numbered) {group : Group}
    (member : group ∈ table.groups) : table.find? group.name = some group := by
  obtain ⟨groups, issued⟩ := table
  have sorted := numbered.sorted
  clear numbered
  simp only [find?] at *
  induction sorted with
  | nil => cases member
  | @cons first rest least _ inductionHypothesis =>
    rcases List.mem_cons.1 member with rfl | later
    · simp
    · have different : first.name ≠ group.name := (least group later).ne
      simpa [different] using inductionHypothesis later

theorem mem_of_find? {table : GroupTable} {name : String} {group : Group}
    (found : table.find? name = some group) : group ∈ table.groups :=
  List.mem_of_find?_eq_some found

theorem isRegistered_iff {table : GroupTable} {id : GroupId} :
    table.isRegistered id = true ↔ ∃ group ∈ table.groups, group.id = id := by
  simp [isRegistered]

end GroupTable

/-! ## What a registration does to the table -/

/-- The step from one table of groups to the next. -/
inductive Registration.Takes : Option Registration → GroupTable → GroupTable → Prop where
  | nothing (table : GroupTable) : Takes none table table
  | created {table : GroupTable} {name : String} (free : table.find? name = none) :
      Takes (some (.created name)) table
        ⟨GroupTable.insertByName ⟨⟨table.issued + 1⟩, name, []⟩ table.groups, table.issued + 1⟩
  | removed (table : GroupTable) (name : String) :
      Takes (some (.removed name)) table
        { table with groups := table.groups.filter fun other => other.name ≠ name }
  | cleared (table : GroupTable) : Takes (some .cleared) table table.clear
  | added {table : GroupTable} {name : String} {group : Group}
      (found : table.find? name = some group) (peer : Peer) :
      Takes (some (.added name peer.target)) table { table with
        groups := table.groups.map fun other =>
          if other.name = name then { group with peers := group.peers ++ [peer] } else other }

namespace Switchboard

variable {σ : Type}

theorem takes_perform (engine : Engine σ) (board : Switchboard) (operation : Operation)
    (state : σ) :
    Registration.Takes (board.perform engine operation state).1.result.registration? board.groups
      (board.perform engine operation state).1.board.groups := by
  cases operation with
  | beginTurn | reclaim => exact .nothing _
  | shutdown => exact .cleared _
  | event event =>
    have same := handleEvent_board engine board event state
    simp only [perform, Outcome.map, same]
    exact .nothing _
  | request request =>
    cases request with
    | createGroup name =>
      simp only [perform, handleRequest, createGroup, GroupTable.create]
      cases free : board.groups.find? name with
      | some group => exact .nothing _
      | none => exact .created free
    | removeGroup name =>
      simp only [perform, handleRequest, removeGroup, GroupTable.remove]
      cases board.groups.find? name with
      | none => exact .nothing _
      | some group => exact .removed _ _
    | clearGroups => exact .cleared _
    | dump => exact .nothing _
    | startCall name media =>
      rcases perform_start_cases engine board name media state with
        ⟨error, refused⟩ | ⟨_, _, _, _, _, _, started⟩
      · rw [refused]
        exact .nothing _
      · rw [started]
        exact .nothing _
    | hangupGroup name =>
      simp only [perform, handleRequest, hangupGroup]
      cases board.groups.find name <;> exact .nothing _
    | addPeer name address displayName =>
      simp only [perform, handleRequest]
      rcases board.addPeer_cases name address displayName with
        ⟨error, _, refused⟩ | ⟨group, account, target, found, _, _, added⟩
      · rw [refused]
        exact .nothing _
      · rw [added]
        exact .added found ⟨target, account⟩

/-- A target gets into a group as the canonical form of what an operator has asked for. -/
theorem canonical_of_added {engine : Engine σ} {board : Switchboard} {operation : Operation}
    {state : σ} {name target : String}
    (added : (board.perform engine operation state).1.result.registration?
      = some (.added name target)) :
    ∃ address displayName account, operation = .request (.addPeer name address displayName) ∧
      board.accounts.accountFor address = some account ∧
      Target.canonical account address displayName = .ok target := by
  -- no other request is answered in this way
  have unlike : ∀ {α : Type} (result : Except Error α) (answer : α → Answer),
      (∀ value, (answer value).registration? ≠ some (.added name target)) →
        (Report.answer (result.map answer)).registration? ≠ some (.added name target) := by
    intro α result answer other
    cases result with
    | error error => nofun
    | ok value => exact other value
  cases operation with
  | beginTurn | reclaim | shutdown | event => cases added
  | request request =>
    cases request with
    | clearGroups | dump => cases added
    | createGroup group =>
      exact absurd added (unlike (board.createGroup group).result (.created group) nofun)
    | removeGroup group =>
      exact absurd added (unlike (board.removeGroup group).result (fun _ => .removed group) nofun)
    | startCall group media =>
      exact absurd added (unlike (board.startCall engine group media state).1.result .started nofun)
    | hangupGroup group =>
      exact absurd added
        (unlike (board.hangupGroup engine group state).1.result (.hungUp group) nofun)
    | addPeer group address displayName =>
      simp only [perform, handleRequest] at added
      rcases board.addPeer_cases group address displayName with
        ⟨error, _, refused⟩ | ⟨_, account, canonical, _, known, made, accepted⟩
      · rw [refused] at added
        cases added
      · rw [accepted] at added
        cases added
        exact ⟨address, displayName, account, rfl, known, made⟩

end Switchboard

/-! ## What becomes of a group -/

namespace Registration.Takes

variable {registration : Option Registration} {table after : GroupTable} {name : String}

theorem numbered (takes : Takes registration table after) (numbered : table.Numbered) :
    after.Numbered := by
  have old := numbered
  obtain ⟨sorted, distinct, issued⟩ := numbered
  cases takes with
  | nothing => exact old
  | cleared => exact ⟨.nil, List.nodup_nil, by simp [GroupTable.clear]⟩
  | removed name =>
    exact ⟨sorted.filter _, distinct.sublist (List.filter_sublist.map _),
      fun group member => issued group (List.mem_filter.1 member).1⟩
  | @created _ name free =>
    have apart : ∀ other ∈ table.groups, other.name ≠ name := by
      intro other member same
      exact List.find?_eq_none.1 free other member (decide_eq_true same)
    have inserted := GroupTable.insertByName_perm ⟨⟨table.issued + 1⟩, name, []⟩ table.groups
    refine ⟨GroupTable.pairwise_insertByName sorted apart, ?_, ?_⟩
    · rw [(inserted.map _).nodup_iff, List.map_cons, List.nodup_cons]
      refine ⟨?_, distinct⟩
      intro member
      obtain ⟨group, present, same⟩ := List.mem_map.1 member
      have given := issued group present
      rw [same] at given
      exact absurd given (Nat.not_succ_le_self _)
    · intro group member
      rcases List.mem_cons.1 (inserted.mem_iff.1 member) with rfl | present
      · exact Nat.le_refl _
      · exact Nat.le_succ_of_le (issued group present)
  | @added _ name group found peer =>
    -- the group of the name is the only one that changes, and it keeps its name and its number
    have kept : ∀ other ∈ table.groups,
        (if other.name = name then { group with peers := group.peers ++ [peer] } else other).name
          = other.name ∧
        (if other.name = name then { group with peers := group.peers ++ [peer] } else other).id
          = other.id := by
      intro other member
      split
      · rename_i named
        have again := old.find?_of_mem member
        rw [named, found] at again
        cases again
        exact ⟨rfl, rfl⟩
      · exact ⟨rfl, rfl⟩
    have names := List.map_congr_left fun other member => (kept other member).1
    have ids := List.map_congr_left fun other member => (kept other member).2
    refine ⟨?_, ?_, ?_⟩
    · rw [← List.pairwise_map, List.map_map]
      exact names ▸ List.pairwise_map.2 sorted
    · rw [List.map_map]
      exact ids ▸ distinct
    · intro other member
      obtain ⟨former, present, rfl⟩ := List.mem_map.1 member
      rw [(kept former present).2]
      exact issued former present

theorem find?_of_created (takes : Takes (some (.created name)) table after) :
    table.find? name = none ∧ after.find? name = some ⟨⟨table.issued + 1⟩, name, []⟩ := by
  cases takes with
  | created free =>
    refine ⟨free, ?_⟩
    unfold GroupTable.find? at free ⊢
    rw [GroupTable.find?_insertByName free, if_pos rfl]

theorem find?_of_ended (takes : Takes registration table after)
    (ended : registration = some (.removed name) ∨ registration = some .cleared) :
    after.find? name = none := by
  rcases ended with rfl | rfl
  · cases takes
    simp [GroupTable.find?, List.find?_filter]
  · cases takes
    rfl

/-- A group that is neither created nor ended keeps its number and its targets, and may get one
more. -/
theorem find?_of_kept (takes : Takes registration table after)
    (uncreated : registration ≠ some (.created name))
    (unended : ¬ (registration = some (.removed name) ∨ registration = some .cleared)) :
    (after.find? name).map (fun group => (group.id, group.targets))
      = (table.find? name).map fun group =>
          (group.id, group.targets ++ (registration.bind (·.accepted? name)).toList) := by
  cases takes with
  | nothing => simp
  | cleared => exact absurd (.inr rfl) unended
  | removed _ other =>
    have different : other ≠ name := by
      rintro rfl
      exact unended (.inl rfl)
    have same : (table.groups.filter fun group => group.name ≠ other).find?
        (fun group => group.name = name) = table.groups.find? fun group => group.name = name := by
      rw [List.find?_filter]
      congr 1
      funext group
      by_cases here : group.name = name <;> simp [here, different.symm]
    unfold GroupTable.find?
    rw [same]
    simp [Registration.accepted?]
  | @created _ other free =>
    have different : name ≠ other := by
      rintro rfl
      exact uncreated rfl
    unfold GroupTable.find? at free ⊢
    rw [GroupTable.find?_insertByName free, if_neg different]
    simp [Registration.accepted?]
  | @added _ other group found peer =>
    have named := GroupTable.name_of_find? found
    rw [GroupTable.find?_replace found]
    · by_cases here : name = other
      · rw [here, if_pos rfl, found]
        simp [Registration.accepted?, Group.targets]
      · simp [Registration.accepted?, here, Ne.symm here]
    · exact named

/-- No number is registered but those that were, and the next one. -/
theorem id_of_mem (takes : Takes registration table after) {group : Group}
    (member : group ∈ after.groups) :
    (∃ former ∈ table.groups, former.id = group.id) ∨ group.id = ⟨table.issued + 1⟩ := by
  cases takes with
  | nothing => exact .inl ⟨group, member, rfl⟩
  | cleared => cases member
  | removed => exact .inl ⟨group, (List.mem_filter.1 member).1, rfl⟩
  | @created _ name free =>
    have inserted := GroupTable.insertByName_perm ⟨⟨table.issued + 1⟩, name, []⟩ table.groups
    rcases List.mem_cons.1 (inserted.mem_iff.1 member) with rfl | old
    · exact .inr rfl
    · exact .inl ⟨group, old, rfl⟩
  | @added _ _ other found peer =>
    obtain ⟨former, present, rfl⟩ := List.mem_map.1 member
    split
    · exact .inl ⟨other, GroupTable.mem_of_find? found, rfl⟩
    · exact .inl ⟨former, present, rfl⟩

theorem issued_le (takes : Takes registration table after) : table.issued ≤ after.issued := by
  cases takes with
  | created => exact Nat.le_succ _
  | nothing | cleared | removed | added => exact Nat.le_refl _

/-- A number that was given out and has gone does not come back. -/
theorem stays_gone (takes : Takes registration table after) {id : GroupId}
    (gone : table.isRegistered id = false) (given : id.number ≤ table.issued) :
    after.isRegistered id = false := by
  rw [← Bool.not_eq_true, GroupTable.isRegistered_iff] at gone ⊢
  rintro ⟨group, member, rfl⟩
  rcases takes.id_of_mem member with old | new
  · exact gone old
  · rw [new] at given
    exact absurd given (Nat.not_succ_le_self _)

/-- A number goes with the group that has it. -/
theorem gone_of_ended (takes : Takes registration table after) (numbered : table.Numbered)
    {group : Group} (found : table.find? name = some group)
    (ended : registration = some (.removed name) ∨ registration = some .cleared) :
    after.isRegistered group.id = false := by
  rw [← Bool.not_eq_true, GroupTable.isRegistered_iff]
  rintro ⟨other, member, same⟩
  rcases ended with rfl | rfl
  · cases takes
    obtain ⟨present, different⟩ := List.mem_filter.1 member
    have only := List.inj_on_of_nodup_map numbered.distinct present
      (GroupTable.mem_of_find? found) same
    simp [only, GroupTable.name_of_find? found] at different
  · cases takes
    cases member

end Registration.Takes

/-! ## Along a run -/

/-- The group of this name was created in these steps and not ended since, and these targets were
added to it in this order. -/
def Registered (steps : List Step) (name : String) (targets : List String) : Prop :=
  ∃ earlier creation later, steps = earlier ++ creation :: later ∧ creation.Creates name ∧
    (∀ step ∈ later, ¬ step.Ends name) ∧ targets = later.filterMap (·.accepted? name)

theorem registered_append_singleton {steps : List Step} {step : Step} {name : String}
    {targets : List String} :
    Registered (steps ++ [step]) name targets ↔
      step.Creates name ∧ targets = [] ∨
        ¬ step.Ends name ∧ ∃ others, Registered steps name others ∧
          targets = others ++ (step.accepted? name).toList := by
  constructor
  · rintro ⟨earlier, creation, later, whole, created, lasts, rfl⟩
    rcases List.eq_nil_or_concat later with rfl | ⟨rest, last, rfl⟩
    · obtain ⟨_, same⟩ := List.append_inj' whole rfl
      rw [List.singleton_inj] at same
      exact .inl ⟨same ▸ created, rfl⟩
    · rw [List.concat_eq_append, ← List.cons_append, ← List.append_assoc] at whole
      obtain ⟨rfl, same⟩ := List.append_inj' whole rfl
      obtain rfl := List.singleton_inj.1 same
      refine .inr ⟨lasts step (by simp), _, ⟨earlier, creation, rest, rfl, created, ?_, rfl⟩, ?_⟩
      · exact fun other member => lasts other (by simp [member])
      · cases accepted : step.accepted? name <;> simp [accepted]
  · rintro (⟨created, rfl⟩ | ⟨lasts, _, ⟨earlier, creation, later, rfl, created, before, rfl⟩, rfl⟩)
    · exact ⟨steps, step, [], rfl, created, by simp, rfl⟩
    · refine ⟨earlier, creation, later ++ [step], by simp, created, ?_, ?_⟩
      · intro other member
        rcases List.mem_append.1 member with old | new
        · exact before other old
        · exact List.mem_singleton.1 new ▸ lasts
      · cases accepted : step.accepted? name <;> simp [accepted]

namespace Reach

variable {σ : Type} {engine : Engine σ} {steps : List Step} {board : Switchboard} {state : σ}

theorem numbered (reached : Reach engine steps board state) : board.groups.Numbered := by
  induction reached with
  | start started =>
    rw [Switchboard.start_eq started]
    exact GroupTable.numbered_empty
  | step _ operation inductionHypothesis =>
    exact (Switchboard.takes_perform engine _ operation _).numbered inductionHypothesis

/-- The registered groups and their targets are what the answers say. -/
theorem registered_iff (reached : Reach engine steps board state) {name : String}
    {targets : List String} :
    (board.groups.find? name).map (·.targets) = some targets ↔ Registered steps name targets := by
  induction reached generalizing targets with
  | start started =>
    rw [Switchboard.start_eq started]
    constructor
    · intro found
      cases found
    · rintro ⟨_, _, _, whole, _⟩
      simp at whole
  | @step steps board state before operation inductionHypothesis =>
    have takes := Switchboard.takes_perform engine board operation state
    rw [registered_append_singleton]
    generalize (board.perform engine operation state).1 = outcome at takes ⊢
    change _ ↔ outcome.result.registration? = some (.created name) ∧ _ ∨
      ¬ (outcome.result.registration? = some (.removed name) ∨
        outcome.result.registration? = some .cleared) ∧ _
    by_cases created : outcome.result.registration? = some (.created name)
    · rw [created] at takes
      obtain ⟨free, found⟩ := takes.find?_of_created
      have never : ∀ others, ¬ Registered steps name others := by
        intro others registered
        have present := inductionHypothesis.2 registered
        rw [free] at present
        cases present
      simp [created, found, never, Group.targets, eq_comm]
    · by_cases ended : outcome.result.registration? = some (.removed name) ∨
          outcome.result.registration? = some .cleared
      · simp [takes.find?_of_ended ended, created, ended]
      · have kept := congrArg (Option.map Prod.snd) (takes.find?_of_kept created ended)
        rw [Option.map_map, Option.map_map] at kept
        have grown : (outcome.board.groups.find? name).map (·.targets)
            = ((board.groups.find? name).map (·.targets)).map fun targets =>
                targets ++ (outcome.result.registration?.bind (·.accepted? name)).toList := by
          rw [Option.map_map]
          exact kept
        change (outcome.board.groups.find? name).map (·.targets) = _ ↔ _
        rw [grown]
        simp only [created, ended, false_and, false_or, not_false_eq_true, true_and,
          ← inductionHypothesis]
        rw [Option.map_eq_some_iff]
        simp only [eq_comm, Step.accepted?, Step.registration?]

theorem canonical_of_accepted (reached : Reach engine steps board state) {step : Step}
    (member : step ∈ steps) {name target : String} (accepted : step.accepted? name = some target) :
    ∃ address displayName account, step.operation = .request (.addPeer name address displayName) ∧
      step.before.accounts.accountFor address = some account ∧
      Target.canonical account address displayName = .ok target := by
  obtain ⟨earlier, later, rfl⟩ := List.append_of_mem member
  obtain ⟨_, _, came⟩ := reached.split
  obtain ⟨registration, said, shown⟩ := Option.bind_eq_some_iff.1 accepted
  cases registration with
  | created | removed | cleared => cases shown
  | added other given =>
    simp only [Registration.accepted?, Option.ite_none_right_eq_some, Option.some.injEq] at shown
    obtain ⟨rfl, rfl⟩ := shown
    unfold Step.registration? at said
    rw [came] at said
    exact Switchboard.canonical_of_added said

/-- The number of a group stays registered until the group of its name is ended, and is never
registered again, even if a group of that name is. -/
theorem isRegistered_iff {earlier later : List Step} {first : Step} {name : String} {group : Group}
    (reached : Reach engine (earlier ++ first :: later) board state)
    (found : first.after.groups.find? name = some group) :
    board.groups.isRegistered group.id = true ↔ ∀ step ∈ later, ¬ step.Ends name := by
  have lasts := reached.onwards (fun later board =>
    (∀ step ∈ later, ¬ step.Ends name) ∧
        (board.groups.find? name).map (·.id) = some group.id ∨
      (∃ step ∈ later, step.Ends name) ∧ board.groups.isRegistered group.id = false ∧
        group.id.number ≤ board.groups.issued)
    (.inl ⟨by simp, by simp [found]⟩) ?_
  · rcases lasts with ⟨never, present⟩ | ⟨⟨step, member, ends⟩, gone, _⟩
    · obtain ⟨other, there, same⟩ := Option.map_eq_some_iff.1 present
      exact iff_of_true
        (GroupTable.isRegistered_iff.2 ⟨other, GroupTable.mem_of_find? there, same⟩) never
    · exact iff_of_false (by simp [gone]) fun never => never step member ends
  · rintro between step state before came known
    have takes := Switchboard.takes_perform engine step.before step.operation state
    rw [← came] at takes
    change Registration.Takes step.registration? step.before.groups step.after.groups at takes
    rcases known with ⟨never, present⟩ | ⟨⟨other, member, ends⟩, gone, given⟩
    · obtain ⟨other, there, same⟩ := Option.map_eq_some_iff.1 present
      by_cases ended : step.Ends name
      · refine .inr ⟨⟨step, by simp, ended⟩, ?_, ?_⟩
        · rw [← same]
          exact takes.gone_of_ended before.numbered there ended
        · have given := before.numbered.issued other (GroupTable.mem_of_find? there)
          rw [same] at given
          exact given.trans takes.issued_le
      · refine .inl ⟨?_, ?_⟩
        · simp only [List.forall_mem_append, List.forall_mem_singleton]
          exact ⟨never, ended⟩
        · have kept := takes.find?_of_kept ?_ ended
          · have number := congrArg (Option.map Prod.fst) kept
            rw [Option.map_map, Option.map_map] at number
            exact number.trans present
          · intro created
            rw [created] at takes
            rw [takes.find?_of_created.1] at there
            cases there
    · exact .inr ⟨⟨other, by simp [member], ends⟩, takes.stays_gone gone given,
        given.trans takes.issued_le⟩

end Reach
end CallFork
