import CallFork.Proofs.Operations
import Mathlib.Logic.Function.Basic

/-! # Groups of the same name do not meet

A group that is removed and created again is another group, and so is each group that is created
under a name that was free. `Lineage` keeps track of that from outside: it counts the requests to
create a group that were granted, and derives from the operations and their answers alone which of
them a name, a tracked call or a pending release goes back to. It never looks at a group number.

`Traced` says that the group numbers in the tables agree with it. It is kept by every operation, so
answers and requests to hang up a group only ever reach calls of the same creation.
-/

namespace CallFork

/-! ## Keeping track of creations -/

/-- Which creation of a group the names, the tracked calls and the pending releases go back to. -/
structure Lineage where
  creations : Nat := 0
  names : String → Option Nat := fun _ => none
  calls : CallId → Option Nat := fun _ => none
  releases : Ticket → Option Nat := fun _ => none

namespace Lineage

/-- A call that was superseded is pending under the ticket that was posted for it. -/
def putAside (lineage : Lineage) (ticket : Ticket) (id : CallId) : Lineage :=
  { lineage with
    calls := Function.update lineage.calls id none
    releases := Function.update lineage.releases ticket (lineage.calls id) }

/-- Superseded calls with their tickets, one after the other. -/
def putAsideEach (lineage : Lineage) : List (Ticket × CallId) → Lineage
  | [] => lineage
  | (ticket, id) :: rest => (lineage.putAside ticket id).putAsideEach rest

/-- The lineage after a request. A call goes back to the creation of the group it was placed for. -/
def afterRequest (lineage : Lineage) (request : Request) (report : Switchboard.Report) : Lineage :=
  match request, report with
  | .createGroup name, .answer (.ok _) =>
    { lineage with
      creations := lineage.creations + 1
      names := Function.update lineage.names name (some (lineage.creations + 1)) }
  | .removeGroup name, .answer (.ok _) =>
    { lineage with names := Function.update lineage.names name none }
  | .clearGroups, _ => { lineage with names := fun _ => none }
  | .startCall name _, .answer (.ok (.started report)) =>
    { lineage with
      calls := fun id =>
        if id ∈ report.placed.map (·.id) then lineage.names name else lineage.calls id }
  | _, _ => lineage

/-- The lineage after an operation, by its outcome. -/
def after (lineage : Lineage) (operation : Switchboard.Operation)
    (outcome : Outcome Switchboard.Report) : Lineage :=
  match operation with
  | .beginTurn => lineage
  | .request request => lineage.afterRequest request outcome.result
  | .event (.progress _) => lineage
  | .event (.closed id _) => { lineage with calls := Function.update lineage.calls id none }
  | .event (.established _) =>
    match outcome.result with
    | .resolution (some resolution) =>
      lineage.putAsideEach ((Effect.tickets outcome.effects).zip resolution.superseded)
    | _ => lineage
  | .reclaim ticket =>
    match outcome.result with
    | .released (some _) =>
      { lineage with releases := Function.update lineage.releases ticket none }
    | _ => lineage
  | .shutdown => { creations := lineage.creations }

/-- The lineage after some steps. -/
def ofSteps (steps : List Step) : Lineage :=
  steps.foldl (fun lineage step => lineage.after step.operation step.outcome) {}

/-- The group numbers in the tables agree with the lineage. -/
structure Traced (lineage : Lineage) (board : Switchboard) : Prop where
  creations : lineage.creations = board.groups.issued
  names : ∀ name, lineage.names name = (board.groups.find? name).map (·.id.number)
  calls : ∀ id, lineage.calls id = (board.calls.find? id).map (·.groupId.number)
  releases : ∀ ticket,
    lineage.releases ticket = (board.releases.find? ticket).map (·.call.groupId.number)

variable {σ : Type} {engine : Engine σ} {lineage : Lineage} {board : Switchboard} {state : σ}

/-! ## The operations -/

theorem traced_empty {config : Config} {accounts : AccountTable} :
    Traced {} { config, accounts } :=
  ⟨rfl, fun _ => rfl, fun _ => rfl, fun _ => rfl⟩

theorem traced_createGroup (traced : Traced lineage board) (name : String) :
    Traced (lineage.after (.request (.createGroup name))
        (board.perform engine (.request (.createGroup name)) state).1)
      (board.perform engine (.request (.createGroup name)) state).1.board := by
  simp only [Switchboard.perform, Switchboard.handleRequest, Switchboard.createGroup, Outcome.map]
  cases created : board.groups.create name with
  | error error => exact traced
  | ok made =>
    obtain ⟨id, grown⟩ := made
    have issued : grown.issued = board.groups.issued + 1 := by
      unfold GroupTable.create at created
      split at created
      · cases created
      · cases created
        rfl
    obtain ⟨creations, names, calls, releases⟩ := traced
    refine ⟨?_, ?_, calls, releases⟩
    · change lineage.creations + 1 = grown.issued
      rw [creations, issued]
    · intro other
      have registered := congrArg (Option.map GroupId.number)
        (GroupTable.find?_create created other)
      rw [Option.map_map] at registered
      change Function.update lineage.names name (some (lineage.creations + 1)) other
        = (grown.find? other).map (GroupId.number ∘ Group.id)
      rw [registered, Function.update_apply]
      split
      · rw [creations]
        rfl
      · rw [names, Option.map_map]
        rfl

theorem traced_removeGroup (traced : Traced lineage board) (name : String) :
    Traced (lineage.after (.request (.removeGroup name))
        (board.perform engine (.request (.removeGroup name)) state).1)
      (board.perform engine (.request (.removeGroup name)) state).1.board := by
  simp only [Switchboard.perform, Switchboard.handleRequest, Switchboard.removeGroup, Outcome.map]
  cases removed : board.groups.remove name with
  | error error => exact traced
  | ok taken =>
    obtain ⟨group, rest⟩ := taken
    have issued : rest.issued = board.groups.issued := by
      unfold GroupTable.remove at removed
      split at removed
      · cases removed
      · cases removed
        rfl
    obtain ⟨creations, names, calls, releases⟩ := traced
    refine ⟨creations.trans issued.symm, ?_, calls, releases⟩
    intro other
    change Function.update lineage.names name none other = (rest.find? other).map _
    rw [GroupTable.find?_remove removed, Function.update_apply]
    split
    · rfl
    · exact names other

theorem traced_addPeer (traced : Traced lineage board) (group address : String)
    (displayName : Option String) :
    Traced lineage
      (board.perform engine (.request (.addPeer group address displayName)) state).1.board := by
  simp only [Switchboard.perform, Switchboard.handleRequest, Outcome.map]
  rcases board.addPeer_cases group address displayName with
    ⟨error, _, refused⟩ | ⟨registered, account, target, found, _, _, added⟩
  · rw [refused]
    exact traced
  · rw [added]
    obtain ⟨creations, names, calls, releases⟩ := traced
    refine ⟨creations, fun name => (names name).trans ?_, calls, releases⟩
    have named := GroupTable.name_of_find? found
    dsimp only
    rw [GroupTable.find?_replace found]
    · -- the group keeps its number
      split
      · rename_i same
        rw [same, found]
        rfl
      · rfl
    · exact named

/-- New calls belong to the group that is called, whatever it is registered under later on. -/
theorem traced_startCall (traced : Traced lineage board) (sound : board.Sound) (name : String)
    (media : Media) :
    Traced (lineage.after (.request (.startCall name media))
        (board.perform engine (.request (.startCall name media)) state).1)
      (board.perform engine (.request (.startCall name media)) state).1.board := by
  have distinct := (Switchboard.sound_perform engine sound (.request (.startCall name media))
    state).distinct
  rcases Switchboard.perform_start_cases engine board name media state with
    ⟨error, refused⟩ | ⟨group, attempts, grown, next, found, dialed, started⟩
  · rw [refused]
    exact traced
  · rw [started] at distinct ⊢
    obtain ⟨creations, names, calls, releases⟩ := traced
    refine ⟨creations, names, ?_, releases⟩
    intro id
    change (if id ∈ (FanOut.report group media attempts).placed.map (·.id) then lineage.names name
      else lineage.calls id) = (grown.find? id).map _
    rw [names, found, calls, FanOut.report_placed]
    obtain ⟨grows, belong⟩ := FanOut.dialEach_calls dialed
    split
    · -- a call of the report is in the table, and in no other place of it
      rename_i placed
      obtain ⟨call, tracked, rfl⟩ := List.mem_map.1 placed
      have member : call ∈ grown.calls := by
        rw [grows]
        exact List.mem_append_right _ tracked
      rw [CallTable.find?_of_mem distinct member, Option.map_some, Option.map_some,
        (belong call tracked).1]
    · rename_i old
      have absent : (attempts.filterMap (·.tracked?)).find? (fun call => call.id = id) = none := by
        rw [List.find?_eq_none]
        intro call tracked same
        exact old (List.mem_map.2 ⟨call, tracked, of_decide_eq_true same⟩)
      unfold CallTable.find?
      rw [grows, List.find?_append, absent, Option.or_none]

theorem traced_putAside (traced : Traced lineage board) (ticketed : board.releases.Ticketed)
    {loser : TrackedCall} (tracked : board.calls.find? loser.id = some loser) :
    Traced (lineage.putAside ⟨board.releases.issued + 1⟩ loser.id)
      { board with
        calls := board.calls.erase loser.id
        releases := (board.releases.defer loser board.turn).2 } := by
  obtain ⟨creations, names, calls, releases⟩ := traced
  refine ⟨creations, names, ?_, ?_⟩
  · intro id
    change Function.update lineage.calls loser.id none id = _
    rw [CallTable.find?_erase, Function.update_apply]
    split
    · rfl
    · exact calls id
  · intro ticket
    change Function.update lineage.releases ⟨board.releases.issued + 1⟩
      (lineage.calls loser.id) ticket = _
    rw [ReleaseTable.find?_defer ticketed, Function.update_apply]
    split
    · rw [calls, tracked]
      rfl
    · exact releases ticket

theorem traced_putAsideEach (traced : Traced lineage board) (ticketed : board.releases.Ticketed)
    (losers : List TrackedCall) (distinct : (losers.map (·.id)).Nodup)
    (tracked : ∀ loser ∈ losers, board.calls.find? loser.id = some loser) :
    Traced
      (lineage.putAsideEach ((Effect.tickets (board.releases.deferAll board.turn losers).1).zip
        (losers.map (·.id))))
      { board with
        calls := board.calls.eraseAll (losers.map (·.id))
        releases := (board.releases.deferAll board.turn losers).2 } := by
  induction losers generalizing board lineage with
  | nil => exact traced
  | cons loser rest inductionHypothesis =>
    rw [List.map_cons, List.nodup_cons] at distinct
    rw [ReleaseTable.deferAll, Effect.tickets_append]
    have first := traced_putAside traced ticketed (tracked loser List.mem_cons_self)
    refine inductionHypothesis first (ReleaseTable.ticketed_defer ticketed loser board.turn)
      distinct.2 ?_
    intro other member
    have different : other.id ≠ loser.id := by
      intro same
      exact distinct.1 (same ▸ List.mem_map_of_mem member)
    rw [CallTable.find?_erase, if_neg different]
    exact tracked other (List.mem_cons_of_mem _ member)

theorem traced_answer (traced : Traced lineage board) (sound : board.Sound) (id : CallId) :
    Traced (lineage.after (.event (.established id))
        (board.perform engine (.event (.established id)) state).1)
      (board.perform engine (.event (.established id)) state).1.board := by
  rcases Switchboard.perform_answer_cases engine board id state with
    ⟨winner, found, _, outcome⟩ | ⟨_, effects, outcome, _⟩
  · have tracked := CallTable.find?_self found
    obtain ⟨creations, names, calls, releases⟩ := traced_putAsideEach traced sound.ticketed
      (board.calls.siblings winner.id) (CallTable.siblings_distinct sound.distinct winner.id)
      (CallTable.find?_sibling sound.distinct tracked)
    rw [outcome]
    change Traced (lineage.putAsideEach
      ((Effect.tickets (board.supersede engine winner state).1.effects).zip
        ((board.calls.siblings winner.id).map (·.id))))
      (board.supersede engine winner state).1.board
    rw [Switchboard.tickets_supersede]
    refine ⟨creations, names, ?_, releases⟩
    intro other
    simp only [Switchboard.supersede]
    -- the winner goes on belonging to its group as well
    rw [calls, CallTable.eraseAll_establish, CallTable.find?_establish, Option.map_map]
    congr 1
    funext call
    simp only [Function.comp_apply]
    split <;> rfl
  · rw [outcome]
    exact traced

theorem traced_closed (traced : Traced lineage board) (id : CallId) (reason : Option String) :
    Traced { lineage with calls := Function.update lineage.calls id none }
      (board.perform engine (.event (.closed id reason)) state).1.board := by
  obtain ⟨creations, names, calls, releases⟩ := traced
  simp only [Switchboard.perform, Switchboard.handleEvent, Switchboard.hungUp, Outcome.map]
  cases found : board.calls.find? id with
  | none =>
    -- a report on a call that is not tracked takes nothing away
    refine ⟨creations, names, ?_, releases⟩
    intro other
    change Function.update lineage.calls id none other = _
    rw [Function.update_apply]
    split
    · rename_i same
      rw [same, found]
      rfl
    · exact calls other
  | some call =>
    refine ⟨creations, names, ?_, releases⟩
    intro other
    change Function.update lineage.calls id none other = _
    rw [Function.update_apply, CallTable.find?_erase]
    split
    · rfl
    · exact calls other

theorem traced_reclaim (traced : Traced lineage board) (ticket : Ticket) :
    Traced (lineage.after (.reclaim ticket) (board.perform engine (.reclaim ticket) state).1)
      (board.perform engine (.reclaim ticket) state).1.board := by
  simp only [Switchboard.perform, Switchboard.reclaim, ReleaseTable.release, Outcome.map]
  split
  · exact traced
  · split
    · exact traced
    · obtain ⟨creations, names, calls, releases⟩ := traced
      refine ⟨creations, names, calls, ?_⟩
      intro other
      change Function.update lineage.releases ticket none other
        = (ReleaseTable.find? { board.releases with
            pending := board.releases.pending.filter fun entry => entry.ticket ≠ ticket }
          other).map _
      rw [ReleaseTable.find?_release, Function.update_apply]
      split
      · rfl
      · exact releases other

theorem traced_perform (engine : Engine σ) (traced : Traced lineage board) (sound : board.Sound)
    (operation : Switchboard.Operation) (state : σ) :
    Traced (lineage.after operation (board.perform engine operation state).1)
      (board.perform engine operation state).1.board := by
  cases operation with
  | beginTurn => exact ⟨traced.creations, traced.names, traced.calls, traced.releases⟩
  | request request =>
    cases request with
    | createGroup name => exact traced_createGroup traced name
    | removeGroup name => exact traced_removeGroup traced name
    | clearGroups => exact ⟨traced.creations, fun _ => rfl, traced.calls, traced.releases⟩
    | addPeer group address displayName => exact traced_addPeer traced group address displayName
    | startCall name media => exact traced_startCall traced sound name media
    | hangupGroup name =>
      rcases Switchboard.perform_hangup_cases engine board name state with
        ⟨_, error, refused⟩ | ⟨group, answer, effects, _, outcome, _⟩
      · rw [refused]
        exact traced
      · rw [outcome]
        exact traced
    | dump => exact traced
  | event event =>
    cases event with
    | progress id => exact traced
    | established id => exact traced_answer traced sound id
    | closed id reason => exact traced_closed traced id reason
  | reclaim ticket => exact traced_reclaim traced ticket
  | shutdown => exact ⟨traced.creations, fun _ => rfl, fun _ => rfl, fun _ => rfl⟩

end Lineage

/-! ## Along a run -/

namespace Reach

variable {σ : Type} {engine : Engine σ} {steps : List Step} {board : Switchboard} {state : σ}

theorem traced (reached : Reach engine steps board state) :
    (Lineage.ofSteps steps).Traced board := by
  induction reached with
  | start started =>
    rw [Switchboard.start_eq started]
    exact Lineage.traced_empty
  | step before operation inductionHypothesis =>
    unfold Lineage.ofSteps
    rw [List.foldl_append]
    exact Lineage.traced_perform engine inductionHypothesis before.sound operation _

end Reach

namespace Lineage

variable {σ : Type} {engine : Engine σ} {lineage : Lineage} {step : Step} {state : σ}

/-- Two tracked calls have the same group number exactly if they go back to the same creation. -/
theorem Traced.same_group_iff (traced : Traced lineage step.before) {id : CallId}
    {call other : TrackedCall} (found : step.before.calls.find? id = some call)
    (tracked : step.before.calls.find? other.id = some other) :
    other.groupId = call.groupId ↔ lineage.calls other.id = lineage.calls id := by
  rw [traced.calls, traced.calls, found, tracked, Option.map_some, Option.map_some,
    Option.some.injEq]
  constructor
  · intro same
    rw [same]
  · intro same
    exact GroupId.eq_of_number same

/-- An answer that wins supersedes the other tracked calls of the same creation. -/
theorem superseded_iff (traced : Traced lineage step.before) (sound : step.before.Sound)
    (came : step.outcome = (step.before.perform engine step.operation state).1) {id : CallId}
    {resolution : Resolution} (answer : step.operation = .event (.established id))
    (resolved : step.outcome.result = .resolution (some resolution)) :
    (Effect.hangups step.outcome.effects).map (·.call.id) = resolution.superseded ∧
      (∃ creation, lineage.calls id = some creation) ∧
      ∀ other, other ∈ resolution.superseded ↔
        other ≠ id ∧ lineage.calls other = lineage.calls id := by
  rw [came, answer] at resolved
  obtain ⟨winner, found, rings⟩ := Switchboard.resolves_iff.1 ⟨resolution, resolved⟩
  rw [Switchboard.perform_answer_of_rings found rings] at resolved
  have superseded : resolution.superseded = (step.before.calls.siblings winner.id).map (·.id) := by
    cases resolved
    rfl
  have named := (CallTable.mem_of_find? found).2
  refine ⟨?_, ?_, ?_⟩
  · rw [came, answer, Switchboard.perform_answer_of_rings found rings, superseded]
    change (Effect.hangups (step.before.supersede engine winner state).1.effects).map _ = _
    rw [Switchboard.hangups_supersede, List.map_map]
    rfl
  · exact ⟨winner.groupId.number, by rw [traced.calls, found]; rfl⟩
  · intro other
    rw [superseded, List.mem_map]
    constructor
    · rintro ⟨loser, sibling, rfl⟩
      have self := CallTable.find?_self found
      have tracked := CallTable.find?_sibling sound.distinct self loser sibling
      obtain ⟨_, same, different⟩ := (CallTable.mem_siblings self).1 sibling
      exact ⟨named ▸ different, (traced.same_group_iff found tracked).1 same⟩
    · rintro ⟨different, same⟩
      cases there : step.before.calls.find? other with
      | none =>
        -- an untracked call goes back to no creation
        rw [traced.calls, traced.calls, there, found] at same
        cases same
      | some loser =>
        obtain ⟨member, rfl⟩ := CallTable.mem_of_find? there
        have self := CallTable.find?_self found
        refine ⟨loser, (CallTable.mem_siblings self).2 ⟨member, ?_, ?_⟩, rfl⟩
        · exact (traced.same_group_iff found there).2 same
        · rw [named]
          exact different

/-- A request to hang up a group reaches the tracked calls of the creation that is registered. -/
theorem hungUp_iff (traced : Traced lineage step.before) (sound : step.before.Sound)
    (came : step.outcome = (step.before.perform engine step.operation state).1) {name : String}
    (request : step.operation = .request (.hangupGroup name)) (id : CallId) :
    (∃ request ∈ Effect.hangups step.outcome.effects, request.call.id = id) ↔
      ∃ creation, lineage.names name = some creation ∧ lineage.calls id = some creation := by
  rw [came, request, traced.names, traced.calls]
  rcases Switchboard.perform_hangup_cases engine step.before name state with
    ⟨absent, error, refused⟩ | ⟨group, answer, effects, found, outcome, hangups⟩
  · rw [refused, absent]
    simp [Effect.hangups]
  · rw [outcome, hangups, found]
    constructor
    · rintro ⟨_, asked, rfl⟩
      obtain ⟨call, member, rfl⟩ := List.mem_map.1 asked
      obtain ⟨tracked, same⟩ := CallTable.mem_inGroup.1 member
      refine ⟨group.id.number, rfl, ?_⟩
      change (step.before.calls.find? call.id).map _ = _
      rw [CallTable.find?_of_mem sound.distinct tracked, Option.map_some, same]
    · rintro ⟨creation, registered, belongs⟩
      obtain ⟨call, tracked, same⟩ := Option.map_eq_some_iff.1 belongs
      obtain ⟨member, named⟩ := CallTable.mem_of_find? tracked
      refine ⟨_, List.mem_map.2 ⟨call, CallTable.mem_inGroup.2 ⟨member, ?_⟩, rfl⟩, named⟩
      rw [Option.map_some, Option.some.injEq] at registered
      exact GroupId.eq_of_number (same.trans registered.symm)

end Lineage

namespace Reach

variable {σ : Type} {engine : Engine σ} {steps : List Step} {board : Switchboard} {state : σ}

/-- Creations of groups do not meet, whatever their names. At any point of a run, every tracked call
and every pending release goes back to the creation that its group number stands for. An answer that
wins supersedes, and hangs up, exactly the other tracked calls of the same creation, registered or
not; and a request to hang up a group reaches exactly the tracked calls of the creation that the
name is registered under. -/
theorem creations_isolated (reached : Reach engine steps board state) :
    (Lineage.ofSteps steps).Traced board ∧
    ∀ earlier step later, steps = earlier ++ step :: later →
      (∀ id resolution, step.operation = .event (.established id) →
        step.outcome.result = .resolution (some resolution) →
        (Effect.hangups step.outcome.effects).map (·.call.id) = resolution.superseded ∧
        (∃ creation, (Lineage.ofSteps earlier).calls id = some creation) ∧
        ∀ other, other ∈ resolution.superseded ↔
          other ≠ id ∧
            (Lineage.ofSteps earlier).calls other = (Lineage.ofSteps earlier).calls id) ∧
      (∀ name, step.operation = .request (.hangupGroup name) → ∀ id,
        (∃ request ∈ Effect.hangups step.outcome.effects, request.call.id = id) ↔
          ∃ creation, (Lineage.ofSteps earlier).names name = some creation ∧
            (Lineage.ofSteps earlier).calls id = some creation) := by
  refine ⟨reached.traced, ?_⟩
  rintro earlier step later rfl
  obtain ⟨state, begun, came⟩ := reached.split
  constructor
  · intro id resolution answer resolved
    exact Lineage.superseded_iff begun.traced begun.sound came answer resolved
  · intro name request id
    exact Lineage.hungUp_iff begun.traced begun.sound came request id

end Reach

/-! ## A sample run -/

namespace Recreation

/-- A group with two calls is removed and created again with one call. The new group is hung up,
and then a call of the old one is answered. -/
def operations : List Switchboard.Operation :=
  [.request (.createGroup "G"), .request (.addPeer "G" "sip:a@x" none),
    .request (.addPeer "G" "sip:b@x" none), .request (.startCall "G" {}),
    .request (.removeGroup "G"), .request (.createGroup "G"),
    .request (.addPeer "G" "sip:a@x" none), .request (.startCall "G" {}),
    .request (.hangupGroup "G"), .event (.established ⟨"call-1"⟩)]

def steps : List Step := Rematch.board.history EngineScript.engine operations {}

theorem reached : ∃ board state, Reach EngineScript.engine steps board state :=
  ⟨_, _, (Reach.start Rematch.started ({} : EngineScript)).extend operations⟩

/-- Only the call of the new group is hung up with it, and only the other call of the old group is
superseded. -/
theorem creations_isolated_by_name :
    (∃ request ∈ Effect.hangups steps[8].outcome.effects, request.call.id = ⟨"call-3"⟩) ∧
      (¬ ∃ request ∈ Effect.hangups steps[8].outcome.effects, request.call.id = ⟨"call-1"⟩) ∧
      ∃ resolution, steps[9].outcome.result = .resolution (some resolution) ∧
        ⟨"call-2"⟩ ∈ resolution.superseded ∧ ⟨"call-3"⟩ ∉ resolution.superseded := by
  obtain ⟨_, _, reached⟩ := reached
  obtain ⟨_, along⟩ := reached.creations_isolated
  have hangup : steps = steps.take 8 ++ steps[8] :: steps.drop 9 := rfl
  have answer : steps = steps.take 9 ++ steps[9] :: [] := rfl
  have named : (Lineage.ofSteps (steps.take 8)).names "G" = some 2 := by decide +kernel
  have old : (Lineage.ofSteps (steps.take 8)).calls ⟨"call-1"⟩ = some 1 := by decide +kernel
  have new : (Lineage.ofSteps (steps.take 8)).calls ⟨"call-3"⟩ = some 2 := by decide +kernel
  have reaches := (along _ _ _ hangup).2 "G" rfl
  refine ⟨(reaches _).2 ⟨2, named, new⟩, ?_, ?_⟩
  · rw [reaches]
    rintro ⟨creation, registered, belongs⟩
    rw [named] at registered
    rw [old, ← registered] at belongs
    cases belongs
  · rw [answer] at reached
    obtain ⟨_, _, came⟩ := reached.split
    have rings : steps[9].before.calls.find? ⟨"call-1"⟩
        = some ⟨⟨⟨"call-1"⟩, "sip:a@x"⟩, ⟨1⟩, "G", "sip:a@x", .dialing⟩ := by decide +kernel
    obtain ⟨resolution, resolved⟩ := Switchboard.resolves_iff.2 ⟨_, rings, rfl⟩
    have won : steps[9].outcome.result = .resolution (some resolution) := by
      rw [came]
      exact resolved
    obtain ⟨_, _, members⟩ := (along _ _ _ answer).1 ⟨"call-1"⟩ resolution rfl won
    have first : (Lineage.ofSteps (steps.take 9)).calls ⟨"call-1"⟩ = some 1 := by decide +kernel
    have second : (Lineage.ofSteps (steps.take 9)).calls ⟨"call-2"⟩ = some 1 := by decide +kernel
    have third : (Lineage.ofSteps (steps.take 9)).calls ⟨"call-3"⟩ = some 2 := by decide +kernel
    refine ⟨resolution, won, (members _).2 ⟨by decide, second.trans first.symm⟩, ?_⟩
    rw [members, first, third]
    decide

end Recreation
end CallFork
