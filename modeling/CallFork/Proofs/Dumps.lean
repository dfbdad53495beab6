import CallFork.Proofs.Holders
import CallFork.Proofs.Lineage
import CallFork.Proofs.Registry
import CallFork.Proofs.TableOrder

/-! # What the debug dump tells of a run

The dump shows what the run has left behind, and nothing else: the groups that were created and are
still there, and every call that was placed and is tracked or waits for its release, with the group
that placed it. A call is marked exactly if the creation of the group that placed it has been ended
since, whatever has been registered under the name then.

Two things carry the proof. A call that is held goes back to a step that has placed it
(`Reach.origin`), and from that step on the events say where it stands (`Reach.standing_since`). An
engine that gives out no identifier twice leaves no doubt which step that is.
-/

namespace CallFork

/-! ## Calls that are held -/

namespace Switchboard

variable {board after : Switchboard}

/-- The calls that are tracked or wait for their release. -/
def held (board : Switchboard) : List TrackedCall :=
  board.calls.calls ++ board.releases.pending.map (·.call)

/-- A change that places no call of this identifier at most answers it. -/
theorem former_of_change {event : Event} (change : Change board event after) {call : TrackedCall}
    (member : call ∈ after.held) (other : event.placed? ≠ some call.id) :
    ∃ former ∈ board.held, call = { former with state := call.state } := by
  have itself : ∀ call ∈ board.held,
      ∃ former ∈ board.held, call = { former with state := call.state } :=
    fun call member => ⟨call, member, rfl⟩
  unfold held at member
  rw [List.mem_append] at member
  cases change with
  | @placed calls new media inserted rings =>
    obtain ⟨_, rfl⟩ := CallTable.insert_eq_ok.1 inserted
    rcases member with tracked | pending
    · rcases List.mem_append.1 tracked with old | last
      · exact itself call (List.mem_append_left _ old)
      · rw [List.mem_singleton.1 last] at other
        exact absurd rfl other
    · exact itself call (List.mem_append_right _ pending)
  | @won winner superseded tracked rings alone =>
    rcases member with answered | pending
    · obtain ⟨former, old, rfl⟩ := List.mem_map.1 answered
      refine ⟨former, List.mem_append_left _ old, ?_⟩
      split <;> rfl
    · exact itself call (List.mem_append_right _ pending)
  | @lost loser tracked =>
    rcases member with kept | pending
    · exact itself call (List.mem_append_left _ (List.mem_filter.1 kept).1)
    · simp only [ReleaseTable.defer, List.map_append, List.map_singleton, List.mem_append,
        List.mem_singleton] at pending
      rcases pending with old | rfl
      · exact itself call (List.mem_append_right _ old)
      · exact itself call (List.mem_append_left _ (CallTable.mem_of_find? tracked).1)
  | @hungUp closed reason tracked =>
    rcases member with kept | pending
    · exact itself call (List.mem_append_left _ (List.mem_filter.1 kept).1)
    · exact itself call (List.mem_append_right _ pending)
  | @released entry kept later =>
    rcases member with tracked | pending
    · exact itself call (List.mem_append_left _ tracked)
    · obtain ⟨waiting, present, rfl⟩ := List.mem_map.1 pending
      exact itself waiting.call
        (List.mem_append_right _ (List.mem_map_of_mem (List.mem_filter.1 present).1))
  | unrelated nobody => exact itself call (List.mem_append.2 member)

theorem mem_dump_calls (board : Switchboard) (view : CallView) :
    view ∈ board.dump.calls ↔ ∃ call ∈ board.calls.calls, board.view call = view := by
  simp only [dump, CallTable.listed, List.mem_map, List.mem_mergeSort]

theorem mem_dump_pending (board : Switchboard) (view : CallView) :
    view ∈ board.dump.pending ↔ ∃ entry ∈ board.releases.pending, board.view entry.call = view := by
  simp [dump, ReleaseTable.listed]

theorem former_of_changes {events : List Event} (changes : Changes board events after)
    {call : TrackedCall} (member : call ∈ after.held)
    (others : call.id ∉ events.filterMap Event.placed?) :
    ∃ former ∈ board.held, call = { former with state := call.state } := by
  induction changes generalizing call with
  | refl => exact ⟨call, member, rfl⟩
  | unseen _ calls releases inductionHypothesis =>
    refine inductionHypothesis ?_ others
    unfold held at member ⊢
    rw [← calls, ← releases]
    exact member
  | @told middle after events event before change inductionHypothesis =>
    rw [List.filterMap_append, List.mem_append, not_or] at others
    have other : event.placed? ≠ some call.id := by
      intro placed
      exact others.2 (by simp [placed])
    obtain ⟨between, present, same⟩ := former_of_change change member other
    have id : between.id = call.id := by rw [same]; rfl
    obtain ⟨former, old, again⟩ := inductionHypothesis present (id ▸ others.1)
    refine ⟨former, old, ?_⟩
    rw [same, again]

end Switchboard

/-! ## Placing calls -/

namespace FanOut

variable {σ : Type}

theorem dialEach_targets {engine : Engine σ} {policy : HangupPolicy} {group : Group}
    {media : Media} {peers : List Peer} {calls grown : CallTable} {state next : σ}
    {attempts : List DialAttempt}
    (dialed : dialEach engine policy group media peers calls state = (attempts, grown, next)) :
    ∀ attempt ∈ attempts, attempt.request.target ∈ peers.map (·.target) ∧
      ∀ call, attempt.tracked? = some call → call.target = attempt.request.target := by
  induction peers generalizing calls state attempts with
  | nil =>
    simp only [dialEach, Prod.mk.injEq] at dialed
    obtain ⟨rfl, _⟩ := dialed
    simp
  | cons peer rest inductionHypothesis =>
    obtain ⟨first, later, between, middle, rfl, here, others⟩ := dialEach_cons dialed
    intro attempt member
    rcases List.mem_cons.1 member with rfl | member
    · obtain ⟨target, ⟨skipped, _⟩ | ⟨call, tracked, _⟩⟩ := dial_cases here
      · simp [target, skipped]
      · simp [target, tracked]
    · obtain ⟨target, same⟩ := inductionHypothesis others attempt member
      exact ⟨List.mem_cons_of_mem _ target, same⟩

end FanOut

namespace Step

/-- A group of this name is called, and reports that this call was placed. -/
def Places (step : Step) (name : String) (placed : PlacedCall) : Prop :=
  ∃ media report, step.operation = .request (.startCall name media) ∧
    step.outcome.result = .answer (.ok (.started report)) ∧ placed ∈ report.placed

theorem mem_placedIds {steps : List Step} {id : CallId} :
    id ∈ placedIds steps ↔ ∃ step ∈ steps, id ∈ placedIds [step] := by
  simp only [placedIds, Effect.placements, List.filterMap_flatMap, List.map_flatMap,
    List.mem_flatMap, List.mem_singleton, exists_eq_left]

/-- What is known of a step that has placed a call. -/
structure Placing (step : Step) (name : String) (placed : PlacedCall) (group : Group)
    (call : TrackedCall) : Prop where
  found : step.before.groups.find? name = some group
  groups : step.after.groups = step.before.groups
  releases : step.after.releases = step.before.releases
  tracked : step.after.calls.find? placed.id = some call
  number : call.groupId = group.id
  name : call.groupName = name
  target : call.target = placed.target
  rings : call.state = .dialing
  peer : placed.target ∈ group.targets
  given : placed.id ∈ placedIds [step]

variable {σ : Type} {engine : Engine σ} {step : Step} {state : σ} {name : String}

theorem exists_placing (sound : step.before.Sound)
    (came : step.outcome = (step.before.perform engine step.operation state).1)
    {placed : PlacedCall} (places : step.Places name placed) :
    ∃ group call, step.Placing name placed group call := by
  obtain ⟨media, report, start, answered, member⟩ := places
  have distinct := (Switchboard.sound_perform engine sound step.operation state).distinct
  rw [start] at came distinct
  rcases Switchboard.perform_start_cases engine step.before name media state with
    ⟨error, refused⟩ | ⟨group, attempts, grown, next, found, dialed, started⟩
  · rw [came, refused] at answered
    cases answered
  · rw [started] at came distinct
    rw [came] at answered
    cases answered
    obtain ⟨attempt, present, shown⟩ := List.mem_filterMap.1 member
    rw [DialAttempt.placed?_eq] at shown
    obtain ⟨call, tracked, rfl⟩ := Option.map_eq_some_iff.1 shown
    obtain ⟨grows, belong⟩ := FanOut.dialEach_calls dialed
    have new : call ∈ attempts.filterMap (·.tracked?) :=
      List.mem_filterMap.2 ⟨attempt, present, tracked⟩
    obtain ⟨number, named, rings⟩ := belong call new
    obtain ⟨peer, target⟩ := FanOut.dialEach_targets dialed attempt present
    refine ⟨group, call, found, by rw [Step.after, came], by rw [Step.after, came], ?_, number, ?_,
      target call tracked, rings, peer, ?_⟩
    · rw [Step.after, came]
      refine CallTable.find?_of_mem distinct ?_
      rw [grows]
      exact List.mem_append_right _ new
    · rw [named]
      exact GroupTable.name_of_find? found
    · simp only [placedIds, List.flatMap_cons, List.flatMap_nil, List.append_nil, came]
      refine List.mem_map.2 ⟨(attempt.request, call.call), ?_, rfl⟩
      exact DialAttempt.mem_placements.2
        ⟨attempt, present, DialAttempt.placement?_of_tracked tracked⟩

/-- An engine that gives out no identifier twice places a call in one step only. -/
theorem placed_once {earlier later : List Step} {placing : Step} {id : CallId}
    (fresh : (placedIds (earlier ++ placing :: later)).Nodup) (given : id ∈ placedIds [placing]) :
    id ∉ placedIds earlier ∧ ∀ step ∈ later, id ∉ placedIds [step] := by
  have whole : placedIds (earlier ++ placing :: later)
      = placedIds earlier ++ (placedIds [placing] ++ placedIds later) := by
    simp [placedIds]
  rw [whole, List.nodup_append, List.nodup_append] at fresh
  obtain ⟨_, ⟨_, _, behind⟩, ahead⟩ := fresh
  refine ⟨fun old => ?_, fun step member again => ?_⟩
  · exact ahead id old id (List.mem_append_left _ given) rfl
  · exact behind id given id (mem_placedIds.2 ⟨step, member, again⟩) rfl

theorem placing_unique {earlier later before behind : List Step} {placing other : Step}
    {id : CallId} (fresh : (placedIds (earlier ++ placing :: later)).Nodup)
    (given : id ∈ placedIds [placing]) (again : id ∈ placedIds [other])
    (same : earlier ++ placing :: later = before ++ other :: behind) :
    placing = other ∧ later = behind := by
  obtain ⟨first, last⟩ := placed_once fresh given
  rcases List.append_eq_append_iff.1 same with ⟨between, rfl, rest⟩ | ⟨between, rfl, rest⟩
  · cases between with
    | nil => simpa using rest
    | cons head tail =>
      -- the other step would be one of the later ones
      obtain ⟨_, rfl⟩ := List.cons.inj rest
      exact absurd again (last other (by simp))
  · cases between with
    | nil => simpa [eq_comm] using rest
    | cons head tail =>
      obtain ⟨rfl, _⟩ := List.cons.inj rest
      exact absurd (mem_placedIds.2 ⟨other, by simp, again⟩) first

end Step

/-! ## Where a held call comes from -/

/-- The call was placed in a step of a run, and these steps followed. -/
def Step.Origin (steps : List Step) (call : TrackedCall) (later : List Step) : Prop :=
  ∃ earlier placing, steps = earlier ++ placing :: later ∧
    (∀ step ∈ later, step.operation ≠ .shutdown) ∧
    placing.Places call.groupName ⟨call.id, call.target⟩ ∧
    placing.after.calls.find? call.id = some { call with state := .dialing }

namespace Reach

variable {σ : Type} {engine : Engine σ} {steps earlier later : List Step} {placing : Step}
  {board : Switchboard} {state : σ}

theorem origin (reached : Reach engine steps board state) {call : TrackedCall}
    (member : call ∈ board.held) : ∃ later, Step.Origin steps call later := by
  induction reached generalizing call with
  | start started =>
    rw [Switchboard.start_eq started] at member
    cases member
  | @step steps board state before operation inductionHypothesis =>
    by_cases running : operation = .shutdown
    · subst running
      cases member
    have carried : ∀ former ∈ board.held, call = { former with state := call.state } →
        ∃ later, Step.Origin
          (steps ++ [⟨board, operation, (board.perform engine operation state).1⟩]) call later := by
      intro former old same
      obtain ⟨later, earlier, placing, rfl, before, places, found⟩ := inductionHypothesis old
      refine ⟨later ++ [_], earlier, placing, List.append_assoc _ _ _, ?_, ?_, ?_⟩
      · rw [List.forall_mem_append, List.forall_mem_singleton]
        exact ⟨before, running⟩
      · rw [same]
        exact places
      · rw [same]
        exact found
    by_cases start : operation.IsStart
    · obtain ⟨name, media, rfl⟩ := start
      have distinct := (Switchboard.sound_perform engine before.sound
        (.request (.startCall name media)) state).distinct
      rcases Switchboard.perform_start_cases engine board name media state with
        ⟨error, refused⟩ | ⟨group, attempts, grown, next, found, dialed, started⟩
      · rw [refused] at member
        exact carried call member rfl
      · rw [started] at member distinct
        obtain ⟨grows, belong⟩ := FanOut.dialEach_calls dialed
        simp only [Switchboard.held, grows, List.mem_append] at member
        rcases member with (old | new) | pending
        · exact carried call (List.mem_append_left _ old) rfl
        · -- this is the step that has placed the call
          obtain ⟨attempt, present, tracked⟩ := List.mem_filterMap.1 new
          obtain ⟨_, named, rings⟩ := belong call new
          have target := (FanOut.dialEach_targets dialed attempt present).2 call tracked
          have own : call.groupName = name := named.trans (GroupTable.name_of_find? found)
          refine ⟨[], steps, _, rfl, by simp,
            ⟨media, FanOut.report group media attempts, ?_, ?_, ?_⟩, ?_⟩
          · rw [own]
          · simp only [started]
          · refine List.mem_filterMap.2 ⟨attempt, present, ?_⟩
            rw [DialAttempt.placed?_eq, tracked, target]
            rfl
          · have recorded : { call with state := .dialing } = call := by rw [← rings]
            simp only [Step.after, started, recorded]
            refine CallTable.find?_of_mem distinct ?_
            rw [grows]
            exact List.mem_append_right _ new
        · exact carried call (List.mem_append_right _ pending) rfl
    · obtain ⟨former, old, same⟩ := Switchboard.former_of_changes
        (Switchboard.changes_perform engine before.sound.distinct running state) member
        (by rw [Switchboard.placed_of_not_start engine board start]; simp)
      exact carried former old same

theorem exists_placing (reached : Reach engine (earlier ++ placing :: later) board state)
    {name : String} {placed : PlacedCall} (places : placing.Places name placed) :
    ∃ group call, placing.Placing name placed group call := by
  obtain ⟨_, before, came⟩ := reached.split
  exact Step.exists_placing before.sound came places

/-- What observers have been told since a call was placed says where it stands. -/
theorem standing_since (reached : Reach engine (earlier ++ placing :: later) board state)
    (fresh : (Step.placedIds (earlier ++ placing :: later)).Nodup)
    (running : ∀ step ∈ later, step.operation ≠ .shutdown) {name : String} {placed : PlacedCall}
    (places : placing.Places name placed) :
    Standing board placed.id (.callPlaced name placed.id placed.target {}
      :: (Step.published later).filter fun event => event.callId? = some placed.id) := by
  obtain ⟨group, call, known⟩ := reached.exists_placing places
  obtain ⟨unplaced, others⟩ := Step.placed_once fresh known.given
  have free : placing.after.releases.ofCall placed.id = [] := by
    obtain ⟨_, before, _⟩ := reached.split
    rw [known.releases, List.eq_nil_iff_forall_not_mem]
    -- a call that waits for its release was placed before
    intro entry waits
    obtain ⟨pending, named⟩ := List.mem_filter.1 waits
    obtain ⟨_, ahead, former, rfl, _, again, _⟩ :=
      before.origin (List.mem_append_right _ (List.mem_map_of_mem pending))
    rw [List.append_assoc] at reached
    obtain ⟨_, _, old⟩ := reached.exists_placing again
    refine unplaced (Step.mem_placedIds.2 ⟨former, by simp, ?_⟩)
    rw [← of_decide_eq_true named]
    exact old.given
  have start : Standing placing.after placed.id [.callPlaced name placed.id placed.target {}] := by
    refine .tracked known.tracked free ?_
    rw [known.rings, known.name]
    exact .dialing placed.target {}
  refine reached.onwards (fun between board =>
    (∀ step ∈ between, step.operation ≠ .shutdown ∧ placed.id ∉ Step.placedIds [step]) →
      Standing board placed.id (.callPlaced name placed.id placed.target {}
        :: (Step.published between).filter fun event => event.callId? = some placed.id))
    (fun _ => start) ?_ fun step member => ⟨running step member, others step member⟩
  intro between step state before came standing along
  rw [List.forall_mem_append, List.forall_mem_singleton] at along
  obtain ⟨along, goesOn, unplaced⟩ := along
  rw [Step.published_append, Step.published_singleton, List.filter_append, ← List.cons_append,
    Step.after, came]
  refine (standing along).changes before.sound
    (Switchboard.changes_perform engine before.sound.distinct goesOn state) ?_
  intro placedAgain
  refine absurd ?_ unplaced
  rw [Step.placedIds, List.flatMap_singleton, came]
  exact (Switchboard.placed_sublist_perform engine step.before step.operation state).subset
    placedAgain

end Reach

/-! ## Views -/

/-- The view is of a call that was placed for a target of a group, whose creation was still standing
then; and it shows what has become of the call and of that creation in the steps since then. -/
structure CallView.Shows (view : CallView) (steps later : List Step) : Prop where
  placed : ∃ earlier creation between placing,
    steps = earlier ++ creation :: (between ++ placing :: later) ∧
    creation.Creates view.group ∧ (∀ step ∈ between, ¬ step.Ends view.group) ∧
    view.target ∈ between.filterMap (·.accepted? view.group) ∧
    placing.Places view.group ⟨view.id, view.target⟩
  running : ∀ step ∈ later, step.operation ≠ .shutdown
  orphaned : view.isOrphaned = true ↔ ∃ step ∈ later, step.Ends view.group
  state : view.state = .established ↔
    ∃ superseded, .raceWon view.group view.id superseded ∈ Step.published later

theorem Event.Tracked.established_iff {group : String} {id : CallId} {state : CallState}
    {life : List Event} (tracked : Tracked group id state life) :
    state = .established ↔ ∃ superseded, .raceWon group id superseded ∈ life := by
  cases tracked <;> simp

namespace Reach

variable {σ : Type} {engine : Engine σ} {steps : List Step} {board : Switchboard} {state : σ}

/-- What is known of a held call: the steps since it was placed, and what was told of it. -/
theorem exists_shows (reached : Reach engine steps board state)
    (fresh : (Step.placedIds steps).Nodup) {call : TrackedCall} (member : call ∈ board.held) :
    ∃ later, (board.view call).Shows steps later ∧
      Standing board call.id (.callPlaced call.groupName call.id call.target {}
        :: (Step.published later).filter fun event => event.callId? = some call.id) := by
  obtain ⟨later, earlier, placing, rfl, running, places, found⟩ := reached.origin member
  have standing := reached.standing_since fresh running places
  obtain ⟨group, record, known⟩ := reached.exists_placing places
  have number : call.groupId = group.id := by
    rw [← known.number, Option.some.inj (known.tracked.symm.trans found)]
  refine ⟨later, ⟨?_, running, ?_, ?_⟩, standing⟩
  · -- the group was registered, so its creation had not been ended yet
    obtain ⟨_, before, _⟩ := reached.split
    have registered : (placing.before.groups.find? call.groupName).map (·.targets)
        = some group.targets := by rw [known.found]; rfl
    obtain ⟨first, creation, between, rfl, created, lasts, targets⟩ :=
      before.registered_iff.1 registered
    exact ⟨first, creation, between, placing, by simp, created, lasts, targets ▸ known.peer, places⟩
  · have registered := reached.isRegistered_iff (known.groups ▸ known.found)
    rw [← number] at registered
    change (!board.groups.isRegistered call.groupId) = true ↔ _
    rw [Bool.not_eq_true', ← Bool.not_eq_true, registered]
    simp only [not_forall, not_not, exists_prop]
    exact Iff.rfl
  · change call.state = .established ↔
      ∃ superseded, Event.raceWon call.groupName call.id superseded ∈ Step.published later
    rcases List.mem_append.1 member with tracked | pending
    · obtain ⟨_, told⟩ := standing.of_tracked
        (CallTable.find?_of_mem reached.sound.distinct tracked)
      simpa [Event.callId?] using told.established_iff
    · obtain ⟨entry, waits, rfl⟩ := List.mem_map.1 pending
      obtain ⟨_, _, begun, told, life⟩ :=
        standing.of_pending (List.mem_filter.2 ⟨waits, by simp⟩ : entry ∈ _)
      have shown : ∀ superseded, .raceWon entry.call.groupName entry.call.id superseded ∈ begun ↔
          .raceWon entry.call.groupName entry.call.id superseded ∈ Step.published later := by
        intro superseded
        have same := congrArg
          (.raceWon entry.call.groupName entry.call.id superseded ∈ ·) life
        simpa [Event.callId?, eq_comm] using same
      simpa only [shown] using told.established_iff

/-- A call is shown in one way only. -/
theorem shows_unique (reached : Reach engine steps board state)
    (fresh : (Step.placedIds steps).Nodup) {first second : CallView} {later behind : List Step}
    (shows : first.Shows steps later) (again : second.Shows steps behind)
    (same : first.id = second.id) : first = second ∧ later = behind := by
  obtain ⟨⟨_, creation, between, placing, whole, _, _, _, places⟩, _, orphaned, answered⟩ := shows
  obtain ⟨⟨_, made, since, other, parts, _, _, _, placesToo⟩, _, marked, won⟩ := again
  rw [← List.cons_append, ← List.append_assoc] at whole parts
  obtain ⟨group, call, known⟩ := (whole ▸ reached).exists_placing places
  obtain ⟨_, record, knownToo⟩ := (parts ▸ reached).exists_placing placesToo
  -- it is one step that has placed the call, and there it is one record
  obtain ⟨rfl, rfl⟩ := Step.placing_unique (whole ▸ fresh) known.given (same ▸ knownToo.given)
    (whole.symm.trans parts)
  have recorded : call = record := by
    have found := knownToo.tracked
    rw [← same, known.tracked] at found
    exact Option.some.inj found
  have named : first.group = second.group := by rw [← known.name, ← knownToo.name, recorded]
  have target : first.target = second.target := by
    have here := known.target
    have there := knownToo.target
    rw [recorded] at here
    exact here.symm.trans there
  refine ⟨?_, rfl⟩
  rw [named] at orphaned answered
  rw [same] at answered
  have mark : first.isOrphaned = second.isOrphaned := Bool.eq_iff_iff.2 (orphaned.trans marked.symm)
  have reachedSame : first.state = second.state := by
    have both := answered.trans won.symm
    cases here : first.state <;> cases there : second.state <;> simp_all
  cases first
  cases second
  simp_all

theorem standing_of_shows (reached : Reach engine steps board state)
    (fresh : (Step.placedIds steps).Nodup) {view : CallView} {later : List Step}
    (shows : view.Shows steps later) :
    Standing board view.id (.callPlaced view.group view.id view.target {}
      :: (Step.published later).filter fun event => event.callId? = some view.id) := by
  obtain ⟨⟨ahead, creation, between, placing, rfl, _, _, _, places⟩, running, _, _⟩ := shows
  rw [← List.cons_append, ← List.append_assoc] at reached fresh
  exact reached.standing_since fresh running places

/-! ## The dump -/

theorem mem_dump_groups (reached : Reach engine steps board state) (view : GroupView) :
    view ∈ board.dump.groups ↔ Registered steps view.name view.targets := by
  rw [← reached.registered_iff, Option.map_eq_some_iff, Switchboard.dump, List.mem_map]
  constructor
  · rintro ⟨group, member, rfl⟩
    exact ⟨group, reached.numbered.find?_of_mem member, rfl⟩
  · rintro ⟨group, found, targets⟩
    refine ⟨group, GroupTable.mem_of_find? found, ?_⟩
    rw [GroupTable.name_of_find? found, targets]

theorem mem_dump_calls (reached : Reach engine steps board state)
    (fresh : (Step.placedIds steps).Nodup) (view : CallView) :
    view ∈ board.dump.calls ↔ ∃ later, view.Shows steps later ∧
      ∀ group reason isLocal, .callClosed group view.id reason isLocal ∉ Step.published later := by
  rw [board.mem_dump_calls]
  constructor
  · rintro ⟨call, tracked, rfl⟩
    obtain ⟨later, shows, standing⟩ := reached.exists_shows fresh (List.mem_append_left _ tracked)
    have present : board.calls.contains call.id = true := by
      rw [CallTable.contains_eq_isSome, CallTable.find?_of_mem reached.sound.distinct tracked]
      rfl
    refine ⟨later, shows, fun group reason isLocal told => ?_⟩
    exact (standing.contains_iff.1 present).2 group reason isLocal
      (List.mem_cons_of_mem _ (List.mem_filter.2 ⟨told, by simp [Event.callId?]⟩))
  · rintro ⟨later, shows, unclosed⟩
    have standing := reached.standing_of_shows fresh shows
    have present : board.calls.contains view.id = true := by
      refine standing.contains_iff.2 ⟨⟨_, _, _, List.mem_cons_self⟩, ?_⟩
      intro group reason isLocal told
      refine unclosed group reason isLocal ?_
      simpa [Event.callId?] using told
    rw [CallTable.contains_eq_isSome, Option.isSome_iff_exists] at present
    obtain ⟨call, found⟩ := present
    obtain ⟨tracked, named⟩ := CallTable.mem_of_find? found
    obtain ⟨_, own, _⟩ := reached.exists_shows fresh (List.mem_append_left _ tracked)
    exact ⟨call, tracked, (reached.shows_unique fresh own shows named).1⟩

theorem mem_dump_pending (reached : Reach engine steps board state)
    (fresh : (Step.placedIds steps).Nodup) (view : CallView) :
    view ∈ board.dump.pending ↔ ∃ later, view.Shows steps later ∧
      .callClosed view.group view.id (some rejectedLocally) true ∈ Step.published later ∧
      ∀ deferredTurn releasedTurn,
        .callReleased view.id deferredTurn releasedTurn ∉ Step.published later := by
  rw [board.mem_dump_pending]
  constructor
  · rintro ⟨entry, waits, rfl⟩
    obtain ⟨later, shows, standing⟩ :=
      reached.exists_shows fresh (List.mem_append_right _ (List.mem_map_of_mem waits))
    have own : entry ∈ board.releases.ofCall entry.call.id :=
      List.mem_filter.2 ⟨waits, by simp⟩
    obtain ⟨_, _, begun, _, life⟩ := standing.of_pending own
    have unreleased := (standing.isPending_iff.1
      (ReleaseTable.isPending_iff.2 (List.ne_nil_of_mem own))).2
    refine ⟨later, shows, ?_, fun deferredTurn releasedTurn told => ?_⟩
    · change Event.callClosed entry.call.groupName entry.call.id (some rejectedLocally) true
        ∈ Step.published later
      have closed : .callClosed entry.call.groupName entry.call.id (some rejectedLocally) true
          ∈ Event.callPlaced entry.call.groupName entry.call.id entry.call.target {}
            :: (Step.published later).filter fun event => event.callId? = some entry.call.id := by
        rw [life]
        exact List.mem_append_right _ List.mem_cons_self
      simpa [Event.callId?] using closed
    · exact unreleased deferredTurn releasedTurn
        (List.mem_cons_of_mem _ (List.mem_filter.2 ⟨told, by simp [Event.callId?]⟩))
  · rintro ⟨later, shows, closed, unreleased⟩
    have standing := reached.standing_of_shows fresh shows
    have pending : board.releases.isPending view.id = true := by
      refine standing.isPending_iff.2 ⟨⟨view.group, ?_⟩, fun deferredTurn releasedTurn told => ?_⟩
      · simpa [Event.callId?] using closed
      · refine unreleased deferredTurn releasedTurn ?_
        simpa [Event.callId?] using told
    obtain ⟨entry, waits, named⟩ := List.any_eq_true.1 pending
    obtain ⟨_, own, _⟩ :=
      reached.exists_shows fresh (List.mem_append_right _ (List.mem_map_of_mem waits))
    exact ⟨entry, waits, (reached.shows_unique fresh own shows (of_decide_eq_true named)).1⟩

/-- A call that waits for its release waits once, and is not tracked. -/
theorem pending_apart (reached : Reach engine steps board state)
    (fresh : (Step.placedIds steps).Nodup) {entry : PendingRelease}
    (waits : entry ∈ board.releases.pending) :
    board.calls.find? entry.call.id = none ∧
      board.releases.ofCall entry.call.id = [entry] := by
  obtain ⟨_, _, standing⟩ :=
    reached.exists_shows fresh (List.mem_append_right _ (List.mem_map_of_mem waits))
  obtain ⟨untracked, only, _⟩ := standing.of_pending (List.mem_filter.2 ⟨waits, by simp⟩)
  exact ⟨untracked, only⟩

theorem pending_distinct (reached : Reach engine steps board state)
    (fresh : (Step.placedIds steps).Nodup) :
    ((board.releases.pending.map (·.call)).map (·.id)).Nodup := by
  rw [List.map_map, List.nodup_iff_count_le_one]
  intro id
  have held : (board.releases.pending.map ((·.id) ∘ (·.call))).count id
      = (board.releases.ofCall id).length := by
    rw [ReleaseTable.ofCall, ← List.countP_eq_length_filter, List.count, List.countP_map]
    rfl
  rw [held]
  cases waiting : board.releases.ofCall id with
  | nil => exact Nat.zero_le 1
  | cons entry rest =>
    have first : entry ∈ board.releases.ofCall id := waiting ▸ List.mem_cons_self
    obtain ⟨waits, named⟩ := List.mem_filter.1 first
    have only := (reached.pending_apart fresh waits).2
    rw [of_decide_eq_true named, waiting] at only
    rw [only]
    exact Nat.le_refl 1

/-- The dump is a faithful view of the run. It lists the groups that were created and not ended
since, with the canonical forms of their targets in the order in which they were added; the calls
that were placed and not closed since; and the calls that lost a race and were not released since.
Each list is in strictly ascending order, byte by byte, and no call is in both lists of calls. -/
theorem dump_faithful (reached : Reach engine steps board state)
    (fresh : (Step.placedIds steps).Nodup) :
    (board.perform engine (.request .dump) state).1.result
      = .answer (.ok (.dumped board.dump)) ∧
    (board.dump.groups.Pairwise fun first second => utf8 first.name < utf8 second.name) ∧
    (∀ view, view ∈ board.dump.groups ↔ Registered steps view.name view.targets) ∧
    (∀ step ∈ steps, ∀ name target, step.accepted? name = some target →
      ∃ address displayName account, step.operation = .request (.addPeer name address displayName) ∧
        step.before.accounts.accountFor address = some account ∧
        Target.canonical account address displayName = .ok target) ∧
    (board.dump.calls.Pairwise fun first second => utf8 first.id.text < utf8 second.id.text) ∧
    (board.dump.pending.Pairwise fun first second => utf8 first.id.text < utf8 second.id.text) ∧
    (∀ view ∈ board.dump.calls, ∀ other ∈ board.dump.pending, view.id ≠ other.id) ∧
    (∀ view, view ∈ board.dump.calls ↔ ∃ later, view.Shows steps later ∧
      ∀ group reason isLocal, .callClosed group view.id reason isLocal ∉ Step.published later) ∧
    ∀ view, view ∈ board.dump.pending ↔ ∃ later, view.Shows steps later ∧
      .callClosed view.group view.id (some rejectedLocally) true ∈ Step.published later ∧
      ∀ deferredTurn releasedTurn,
        .callReleased view.id deferredTurn releasedTurn ∉ Step.published later := by
  refine ⟨rfl, List.pairwise_map.2 (reached.numbered.sorted.imp utf8_lt), reached.mem_dump_groups,
    fun step member name target => reached.canonical_of_accepted member,
    List.pairwise_map.2 (TrackedCall.pairwise_mergeSort reached.sound.distinct),
    List.pairwise_map.2 (TrackedCall.pairwise_mergeSort (reached.pending_distinct fresh)), ?_,
    reached.mem_dump_calls fresh, reached.mem_dump_pending fresh⟩
  intro view shown other waiting same
  obtain ⟨call, tracked, rfl⟩ := (board.mem_dump_calls view).1 shown
  obtain ⟨entry, waits, rfl⟩ := (board.mem_dump_pending other).1 waiting
  have untracked := (reached.pending_apart fresh waits).1
  rw [show entry.call.id = call.id from same.symm,
    CallTable.find?_of_mem reached.sound.distinct tracked] at untracked
  cases untracked

end Reach

namespace Recreation

def board : Switchboard := (Rematch.board.run EngineScript.engine operations {}).2.1

theorem reached_board : ∃ state, Reach EngineScript.engine steps board state :=
  ⟨_, (Reach.start Rematch.started ({} : EngineScript)).extend operations⟩

/-- After a group was removed and created again, the calls of the first creation are marked, tracked
or not, and the call of the second one is not. -/
theorem dump_faithful_after_recreation :
    Registered steps "G" ["sip:a@x"] ∧
    (∃ later, CallView.Shows ⟨⟨"call-1"⟩, "G", true, "sip:a@x", .established⟩ steps later) ∧
    (∃ later, CallView.Shows ⟨⟨"call-2"⟩, "G", true, "sip:b@x", .dialing⟩ steps later) ∧
    ∃ later, CallView.Shows ⟨⟨"call-3"⟩, "G", false, "sip:a@x", .dialing⟩ steps later := by
  have fresh : (Step.placedIds steps).Nodup := by decide +kernel
  obtain ⟨_, reached⟩ := reached_board
  obtain ⟨_, _, groups, _, _, _, _, calls, pending⟩ := reached.dump_faithful fresh
  obtain ⟨later, first, _⟩ := (calls ⟨⟨"call-1"⟩, "G", true, "sip:a@x", .established⟩).1
    ((board.mem_dump_calls _).2 (by decide +kernel))
  obtain ⟨since, second, _⟩ := (pending ⟨⟨"call-2"⟩, "G", true, "sip:b@x", .dialing⟩).1
    ((board.mem_dump_pending _).2 (by decide +kernel))
  obtain ⟨behind, third, _⟩ := (calls ⟨⟨"call-3"⟩, "G", false, "sip:a@x", .dialing⟩).1
    ((board.mem_dump_calls _).2 (by decide +kernel))
  exact ⟨(groups ⟨"G", ["sip:a@x"]⟩).1 (by decide +kernel), ⟨later, first⟩, ⟨since, second⟩,
    ⟨behind, third⟩⟩

end Recreation
end CallFork
