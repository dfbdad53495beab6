import CallFork.Proofs.FirstAnswer

/-! # A later round ends the call that has won an earlier one

A call that has won is not told apart from its siblings afterwards. If its group is called again
while the call is still tracked, and one of the new calls is answered, then the earlier winner is
hung up and put aside like any other loser. `winner_lost_iff` says that this is the only way: apart
from it, a winner is tracked until it is reported closed or until the shutdown.
-/

namespace CallFork

/-- An answer by which another call of the winner's group wins. -/
def Step.Overtakes (step : Step) (winner : TrackedCall) : Prop :=
  ∃ id rival, step.operation = .event (.established id) ∧
    step.before.calls.find? id = some rival ∧ rival.state = .dialing ∧
    rival.groupId = winner.groupId

namespace Switchboard

variable {σ : Type} {board after : Switchboard}

/-! ## Keeping a winner -/

/-- A winner is tracked, and stays as it is, while observers are not told that it is closed. -/
theorem find?_change {event : Event} (change : Change board event after) {id : CallId}
    {winner : TrackedCall} (tracked : board.calls.find? id = some winner)
    (won : winner.state = .established)
    (silent : ∀ group reason isLocal, event ≠ .callClosed group id reason isLocal) :
    after.calls.find? id = some winner := by
  cases change with
  | @placed calls call media inserted rings =>
    -- no call is placed under an identifier that is tracked
    have new : id ≠ call.id := by
      rintro rfl
      rw [(CallTable.insert_eq_ok.1 inserted).1] at tracked
      cases tracked
    rw [CallTable.find?_insert inserted, if_neg new]
    exact tracked
  | won =>
    rw [CallTable.find?_establish, tracked, Option.map_some, ← won]
    split <;> rfl
  | @lost call _ =>
    have other : id ≠ call.id := by
      rintro rfl
      exact silent _ _ _ rfl
    rw [CallTable.find?_erase, if_neg other]
    exact tracked
  | @hungUp call _ _ =>
    have other : id ≠ call.id := by
      rintro rfl
      exact silent _ _ _ rfl
    rw [CallTable.find?_erase, if_neg other]
    exact tracked
  | released | unrelated => exact tracked

theorem find?_changes {events : List Event} (changes : Changes board events after) {id : CallId}
    {winner : TrackedCall} (tracked : board.calls.find? id = some winner)
    (won : winner.state = .established)
    (silent : ∀ group reason isLocal, .callClosed group id reason isLocal ∉ events) :
    after.calls.find? id = some winner := by
  induction changes with
  | refl => exact tracked
  | unseen _ calls _ inductionHypothesis =>
    rw [calls]
    exact inductionHypothesis silent
  | told _ change inductionHypothesis =>
    refine find?_change change (inductionHypothesis ?_) won ?_
    · intro group reason isLocal member
      exact silent group reason isLocal (List.mem_append_left _ member)
    · intro group reason isLocal same
      exact silent group reason isLocal (List.mem_append_right _ (same ▸ List.mem_cons_self))

theorem hasWinner_changes {events : List Event} (changes : Changes board events after)
    {group : GroupId} {id : CallId} (wins : after.HasWinner group id) :
    board.HasWinner group id ∨ ∃ name superseded, .raceWon name id superseded ∈ events := by
  induction changes with
  | refl => exact .inl wins
  | unseen _ calls _ inductionHypothesis =>
    unfold HasWinner at wins
    rw [calls] at wins
    exact inductionHypothesis wins
  | told _ change inductionHypothesis =>
    rcases hasWinner_change change wins with old | ⟨⟨name, superseded, rfl⟩, _⟩
    · rcases inductionHypothesis old with older | ⟨name, superseded, member⟩
      · exact .inl older
      · exact .inr ⟨name, superseded, List.mem_append_left _ member⟩
    · exact .inr ⟨name, superseded, List.mem_append_right _ List.mem_cons_self⟩

end Switchboard

namespace Step

variable {σ : Type} {engine : Engine σ} {state : σ} {step : Step} {id : CallId}
  {winner : TrackedCall}

/-! ## What an answer does to a winner -/

/-- An answer wins for a call that rings, or changes nothing and asks nothing of the engine. -/
theorem answer_cases (came : step.outcome = (step.before.perform engine step.operation state).1)
    {answered : CallId} (answer : step.operation = .event (.established answered)) :
    (∃ call, step.before.calls.find? answered = some call ∧ call.state = .dialing ∧
        step.outcome = (step.before.supersede engine call state).1.map fun resolution =>
          .resolution (some resolution)) ∨
      (∀ call, step.before.calls.find? answered = some call → call.state = .established) ∧
        step.after = step.before ∧ Effect.events step.outcome.effects = [] ∧
        Effect.hangups step.outcome.effects = [] := by
  rw [answer] at came
  rw [after, came]
  rcases Switchboard.perform_answer_cases engine step.before answered state with
    rings | ⟨quiet, effects, outcome, events, hangups⟩
  · exact .inl rings
  · rw [outcome]
    exact .inr ⟨quiet, rfl, events, hangups⟩

/-- A winner is overtaken exactly if it is a sibling of the call that wins now. -/
theorem overtakes_iff_of_rings (tracked : step.before.calls.find? id = some winner)
    (won : winner.state = .established) {answered : CallId} {call : TrackedCall}
    (answer : step.operation = .event (.established answered))
    (found : step.before.calls.find? answered = some call) (rings : call.state = .dialing) :
    step.Overtakes winner ↔ winner ∈ step.before.calls.siblings call.id := by
  obtain ⟨member, _⟩ := CallTable.mem_of_find? tracked
  have named := (CallTable.mem_of_find? found).2
  rw [CallTable.mem_siblings (CallTable.find?_self found)]
  constructor
  · rintro ⟨other, rival, operation, foundRival, _, same⟩
    rw [answer] at operation
    cases operation
    rw [found, Option.some.injEq] at foundRival
    refine ⟨member, foundRival ▸ same.symm, ?_⟩
    intro equal
    -- of the two calls, only one rings
    have clash := CallTable.find?_self tracked
    rw [equal, named, found, Option.some.injEq] at clash
    rw [← clash, rings] at won
    cases won
  · rintro ⟨_, same, _⟩
    exact ⟨answered, call, answer, found, rings, same.symm⟩

theorem not_overtakes_of_quiet {answered : CallId}
    (answer : step.operation = .event (.established answered))
    (quiet : ∀ call, step.before.calls.find? answered = some call → call.state = .established) :
    ¬ step.Overtakes winner := by
  rintro ⟨other, rival, operation, found, rings, _⟩
  rw [answer] at operation
  cases operation
  rw [quiet rival found] at rings
  cases rings

/-- The sibling with the identifier of a tracked call is that call. -/
theorem exists_sibling_iff (distinct : step.before.calls.Distinct)
    (tracked : step.before.calls.find? id = some winner) {call : TrackedCall}
    (found : step.before.calls.find? call.id = some call) :
    (∃ loser ∈ step.before.calls.siblings call.id, loser.id = id) ↔
      winner ∈ step.before.calls.siblings call.id := by
  constructor
  · rintro ⟨loser, sibling, named⟩
    have present := CallTable.find?_sibling distinct found loser sibling
    rw [named, tracked, Option.some.injEq] at present
    rw [present]
    exact sibling
  · intro sibling
    exact ⟨winner, sibling, (CallTable.mem_of_find? tracked).2⟩

/-- The hangup of a winner is requested exactly if it is overtaken. -/
theorem hangup_iff_overtakes (distinct : step.before.calls.Distinct)
    (came : step.outcome = (step.before.perform engine step.operation state).1)
    (tracked : step.before.calls.find? id = some winner) (won : winner.state = .established)
    {answered : CallId} (answer : step.operation = .event (.established answered)) :
    (∃ request ∈ Effect.hangups step.outcome.effects, request.call.id = id) ↔
      step.Overtakes winner := by
  rcases answer_cases came answer with ⟨call, found, rings, outcome⟩ | ⟨quiet, _, _, hangups⟩
  · have self := CallTable.find?_self found
    rw [overtakes_iff_of_rings tracked won answer found rings,
      ← exists_sibling_iff distinct tracked self, outcome]
    change (∃ request ∈ Effect.hangups (step.before.supersede engine call state).1.effects, _) ↔ _
    rw [Switchboard.hangups_supersede]
    simp [TrackedCall.id]
  · have safe : ¬ step.Overtakes winner := not_overtakes_of_quiet answer quiet
    simp [hangups, safe]

/-- It is announced closed exactly if it is overtaken. -/
theorem announced_iff_overtakes (distinct : step.before.calls.Distinct)
    (came : step.outcome = (step.before.perform engine step.operation state).1)
    (tracked : step.before.calls.find? id = some winner) (won : winner.state = .established)
    {answered : CallId} (answer : step.operation = .event (.established answered)) :
    (∃ group reason, .callClosed group id reason true ∈ Effect.events step.outcome.effects) ↔
      step.Overtakes winner := by
  rcases answer_cases came answer with ⟨call, found, rings, outcome⟩ | ⟨quiet, _, events, _⟩
  · have self := CallTable.find?_self found
    rw [overtakes_iff_of_rings tracked won answer found rings,
      ← exists_sibling_iff distinct tracked self, outcome]
    change (∃ group reason, .callClosed group id reason true
      ∈ Effect.events (step.before.supersede engine call state).1.effects) ↔ _
    rw [Switchboard.events_supersede]
    constructor
    · rintro ⟨group, reason, member⟩
      rcases List.mem_append.1 member with lost | won
      · obtain ⟨loser, sibling, same⟩ := List.mem_map.1 lost
        simp only [Event.callClosed.injEq] at same
        exact ⟨loser, sibling, same.2.1⟩
      · cases List.mem_singleton.1 won
    · rintro ⟨loser, sibling, rfl⟩
      exact ⟨_, _, List.mem_append_left _ (List.mem_map.2 ⟨loser, sibling, rfl⟩)⟩
  · have safe : ¬ step.Overtakes winner := not_overtakes_of_quiet answer quiet
    simp [events, safe]

/-- It gets a pending release exactly if it is overtaken. -/
theorem handed_iff_overtakes (ticketed : step.before.releases.Ticketed)
    (came : step.outcome = (step.before.perform engine step.operation state).1)
    (tracked : step.before.calls.find? id = some winner) (won : winner.state = .established)
    {answered : CallId} (answer : step.operation = .event (.established answered)) :
    (∃ ticket, step.before.releases.find? ticket = none ∧
        step.after.releases.find? ticket = some ⟨ticket, winner, step.before.turn⟩) ↔
      step.Overtakes winner := by
  rcases answer_cases came answer with ⟨call, found, rings, outcome⟩ | ⟨quiet, unchanged, _, _⟩
  · rw [overtakes_iff_of_rings tracked won answer found rings,
      ← ReleaseTable.handed_deferAll ticketed step.before.turn]
    unfold after
    rw [outcome]
    rfl
  · have safe : ¬ step.Overtakes winner := not_overtakes_of_quiet answer quiet
    rw [unchanged]
    simp only [safe, iff_false]
    rintro ⟨ticket, absent, kept⟩
    rw [absent] at kept
    cases kept

/-! ## When a winner is lost -/

theorem lost_of_overtakes
    (came : step.outcome = (step.before.perform engine step.operation state).1)
    (tracked : step.before.calls.find? id = some winner) (won : winner.state = .established)
    (overtaken : step.Overtakes winner) : step.after.calls.find? id = none := by
  obtain ⟨answered, rival, answer, found, rings, same⟩ := overtaken
  have sibling := (overtakes_iff_of_rings tracked won answer found rings).1
    ⟨answered, rival, answer, found, rings, same⟩
  unfold after
  rw [came, answer, Switchboard.perform_answer_of_rings found rings]
  have gone := Switchboard.find?_supersede engine step.before rival state id
  rw [if_pos (List.mem_map.2 ⟨winner, sibling, (CallTable.mem_of_find? tracked).2⟩)] at gone
  exact gone

/-- A winner that is not reported closed, not overtaken and not dropped stays as it is. -/
theorem kept_of_safe (distinct : step.before.calls.Distinct)
    (came : step.outcome = (step.before.perform engine step.operation state).1)
    (tracked : step.before.calls.find? id = some winner) (won : winner.state = .established)
    (unclosed : ∀ reason, step.operation ≠ .event (.closed id reason))
    (running : step.operation ≠ .shutdown) (safe : ¬ step.Overtakes winner) :
    step.after.calls.find? id = some winner := by
  have changes := Switchboard.changes_perform engine distinct running state
  rw [← came] at changes
  refine Switchboard.find?_changes changes tracked won ?_
  intro group reason isLocal member
  have cause := Switchboard.causes_perform engine step.before step.operation state
    (.callClosed group id reason isLocal) (came ▸ member)
  -- only the report itself and an answer to a rival tell that it is closed
  cases cause with
  | hungUp closed => exact unclosed reason closed
  | lost answer =>
    exact safe ((announced_iff_overtakes distinct came tracked won answer).1 ⟨_, _, member⟩)
  | unrelated nobody => cases nobody

theorem settles_of_won (engine : Engine σ) (state : σ) (step : Step)
    (came : step.outcome = (step.before.perform engine step.operation state).1)
    {group : GroupId} (wins : step.after.HasWinner group id)
    {name : String} {superseded : Nat}
    (told : .raceWon name id superseded ∈ Effect.events step.outcome.effects) :
    step.operation = .event (.established id) ∧ step.Settles group := by
  have cause := Switchboard.causes_perform engine step.before step.operation state
    (.raceWon name id superseded) (came ▸ told)
  have answer : step.operation = .event (.established id) := by
    cases cause with
    | won answer => exact answer
    | unrelated nobody => cases nobody
  refine ⟨answer, ?_⟩
  rcases answer_cases came answer with ⟨call, found, _, outcome⟩ | ⟨_, _, silent, _⟩
  · obtain ⟨winner, tracked, same, _⟩ := wins
    have group : call.groupId = group := by
      unfold after at tracked
      rw [outcome] at tracked
      change (step.before.supersede engine call state).1.board.calls.find? id = _ at tracked
      rw [Switchboard.find?_supersede] at tracked
      split at tracked
      · cases tracked
      · rw [found, Option.map_some, Option.some.injEq] at tracked
        rw [← same, ← tracked]
        split <;> rfl
    refine ⟨id, call, (step.before.supersede engine call state).1.result, answer, found, group, ?_⟩
    rw [outcome]
    rfl
  · rw [silent] at told
    cases told

end Step

namespace Reach

variable {σ : Type} {engine : Engine σ} {steps : List Step} {board : Switchboard} {state : σ}

/-- Each winner has won by an answer to it. -/
theorem exists_settles (reached : Reach engine steps board state) {group : GroupId} {id : CallId}
    (wins : board.HasWinner group id) :
    ∃ before first between, steps = before ++ first :: between ∧
      first.operation = .event (.established id) ∧ first.Settles group := by
  induction reached with
  | start started =>
    rw [Switchboard.start_eq started] at wins
    obtain ⟨_, tracked, _⟩ := wins
    cases tracked
  | @step steps board state earlier operation inductionHypothesis =>
    by_cases running : operation = .shutdown
    · subst running
      obtain ⟨_, tracked, _⟩ := wins
      cases tracked
    · have changes := Switchboard.changes_perform engine earlier.sound.distinct running state
      rcases Switchboard.hasWinner_changes changes wins with old | ⟨name, superseded, told⟩
      · -- it had won before this step
        obtain ⟨before, first, between, rfl, answer, settles⟩ := inductionHypothesis old
        refine ⟨before, first,
          between ++ [⟨board, operation, (board.perform engine operation state).1⟩],
          ?_, answer, settles⟩
        rw [List.append_assoc, List.cons_append]
      · obtain ⟨answer, settles⟩ := Step.settles_of_won engine state
          ⟨board, operation, (board.perform engine operation state).1⟩ rfl wins told
        exact ⟨steps, _, [], rfl, answer, settles⟩

/-- What becomes of a call that has won. At an answer to any call, the winner is hung up, announced
closed and put aside exactly if another call of its group that rings is answered. It leaves the
table by being overtaken like that, by being reported closed, or by the shutdown, and stays as it is
otherwise. It can be overtaken only if, after it had won, its group was called again and at least
one call was placed. -/
theorem winner_lost_iff {earlier later : List Step} {step : Step}
    (reached : Reach engine (earlier ++ step :: later) board state) {id : CallId}
    {winner : TrackedCall} (tracked : step.before.calls.find? id = some winner)
    (won : winner.state = .established) :
    (∀ answered, step.operation = .event (.established answered) →
      ((∃ request ∈ Effect.hangups step.outcome.effects, request.call.id = id) ↔
        step.Overtakes winner) ∧
      ((∃ group reason, .callClosed group id reason true ∈ Effect.events step.outcome.effects) ↔
        step.Overtakes winner) ∧
      ((∃ ticket, step.before.releases.find? ticket = none ∧
          step.after.releases.find? ticket = some ⟨ticket, winner, step.before.turn⟩) ↔
        step.Overtakes winner)) ∧
    (step.after.calls.find? id = none ↔
      (∃ reason, step.operation = .event (.closed id reason)) ∨ step.operation = .shutdown ∨
        step.Overtakes winner) ∧
    (step.after.calls.find? id ≠ none → step.after.calls.find? id = some winner) ∧
    ∃ before first between, earlier = before ++ first :: between ∧
      first.operation = .event (.established id) ∧ first.Settles winner.groupId ∧
      (step.Overtakes winner → ∃ dial ∈ between, dial.Dials winner.groupId) := by
  obtain ⟨_, begun, came⟩ := reached.split
  obtain ⟨distinct, ticketed⟩ := begun.sound
  have lost : (∃ reason, step.operation = .event (.closed id reason)) ∨
      step.operation = .shutdown ∨ step.Overtakes winner → step.after.calls.find? id = none := by
    rintro (⟨reason, closed⟩ | dropped | overtaken)
    · unfold Step.after
      rw [came, closed]
      simp only [Switchboard.perform, Switchboard.handleEvent, Switchboard.hungUp, tracked,
        Outcome.map, CallTable.find?_erase, if_pos]
    · unfold Step.after
      rw [came, dropped]
      rfl
    · exact Step.lost_of_overtakes came tracked won overtaken
  have kept : ¬ ((∃ reason, step.operation = .event (.closed id reason)) ∨
      step.operation = .shutdown ∨ step.Overtakes winner) →
      step.after.calls.find? id = some winner := by
    intro safe
    rw [not_or, not_or, not_exists] at safe
    exact Step.kept_of_safe distinct came tracked won safe.1 safe.2.1 safe.2.2
  refine ⟨?_, ⟨?_, lost⟩, ?_, ?_⟩
  · intro answered answer
    exact ⟨Step.hangup_iff_overtakes distinct came tracked won answer,
      Step.announced_iff_overtakes distinct came tracked won answer,
      Step.handed_iff_overtakes ticketed came tracked won answer⟩
  · intro gone
    apply Classical.byContradiction
    intro safe
    rw [kept safe] at gone
    cases gone
  · intro present
    exact kept fun leaves => present (lost leaves)
  · obtain ⟨before, first, between, rfl, answer, settles⟩ :=
      begun.exists_settles ⟨winner, tracked, rfl, won⟩
    refine ⟨before, first, between, rfl, answer, settles, ?_⟩
    rintro ⟨answered, rival, _, found, rings, same⟩
    apply Classical.byContradiction
    intro never
    rw [List.append_assoc, List.cons_append] at reached
    -- if nobody had been called again, no rival would ring
    have settled := reached.settled_before settles fun step member dials =>
      never ⟨step, member, dials⟩
    rw [settled rival (CallTable.mem_of_find? found).1 same] at rings
    cases rings

end Reach

namespace Rematch

def firstWinner : TrackedCall :=
  ⟨⟨⟨"call-1"⟩, "sip:a@x"⟩, ⟨1⟩, "G", "sip:a@x", .established⟩

/-- In the second round it is overtaken, and lost by that. -/
theorem winner_lost_to_rival :
    steps[6].Overtakes firstWinner ∧ steps[6].after.calls.find? ⟨"call-1"⟩ = none ∧
      ∃ request ∈ Effect.hangups steps[6].outcome.effects, request.call.id = ⟨"call-1"⟩ := by
  obtain ⟨_, _, reached⟩ := reached
  have whole : steps = steps.take 6 ++ steps[6] :: steps.drop 7 := rfl
  rw [whole] at reached
  have tracked : steps[6].before.calls.find? ⟨"call-1"⟩ = some firstWinner := by decide +kernel
  have rival : steps[6].before.calls.find? ⟨"call-2"⟩
      = some ⟨⟨⟨"call-2"⟩, "sip:a@x"⟩, ⟨1⟩, "G", "sip:a@x", .dialing⟩ := by decide +kernel
  have overtaken : steps[6].Overtakes firstWinner := ⟨_, _, rfl, rival, rfl, rfl⟩
  obtain ⟨atAnswer, leaves, _⟩ := reached.winner_lost_iff tracked rfl
  exact ⟨overtaken, leaves.2 (.inr (.inr overtaken)),
    (atAnswer ⟨"call-2"⟩ rfl).1.2 overtaken⟩

/-- So a call that has won is hung up, announced closed and put aside at the answer to another call
of its group, and nobody has reported it closed. -/
theorem winner_torn_down_at_answer :
    steps[6].operation = .event (.established ⟨"call-2"⟩) ∧
      steps[6].before.calls.find? ⟨"call-1"⟩ = some firstWinner ∧
      firstWinner.state = .established ∧
      Effect.hangups steps[6].outcome.effects
        = [⟨⟨⟨"call-1"⟩, "sip:a@x"⟩, board.config.supersede⟩] ∧
      Effect.events steps[6].outcome.effects
        = [.callClosed "G" ⟨"call-1"⟩ (some rejectedLocally) true,
          .raceWon "G" ⟨"call-2"⟩ 1] ∧
      steps[6].after.releases.isPending ⟨"call-1"⟩ = true ∧
      steps[6].after.calls.find? ⟨"call-1"⟩ = none := by
  refine ⟨rfl, ?_, rfl, ?_, ?_, ?_, ?_⟩ <;> decide +kernel

end Rematch
end CallFork
