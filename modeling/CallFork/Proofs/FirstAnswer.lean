import CallFork.Proofs.Operations

/-! # The first answer wins

Nothing records that a group has a winner. Still there is never more than one: an answer can only
win for a call that rings, and leaves no other call of the group behind. After that the group is
`Settled`, all its tracked calls have been answered, and it stays so until it is called again. This
holds for any engine, also for one that gives out identifiers twice.
-/

namespace CallFork

/-! ## Steps that begin and end a round -/

namespace Step

/-- An answer by which a call of the group has won. -/
def Settles (step : Step) (group : GroupId) : Prop :=
  ∃ id call resolution, step.operation = .event (.established id) ∧
    step.before.calls.find? id = some call ∧ call.groupId = group ∧
    step.outcome.result = .resolution (some resolution)

/-- A request to call the group by which at least one call was placed. -/
def Dials (step : Step) (group : GroupId) : Prop :=
  ∃ name media called report, step.operation = .request (.startCall name media) ∧
    step.before.groups.find? name = some called ∧ called.id = group ∧
    step.outcome.result = .answer (.ok (.started report)) ∧ report.placed ≠ []

end Step

namespace Switchboard

/-- A call of the group has been answered and is still tracked. -/
def HasWinner (board : Switchboard) (group : GroupId) (id : CallId) : Prop :=
  ∃ call, board.calls.find? id = some call ∧ call.groupId = group ∧ call.state = .established

/-- No group has two winners. -/
def OneWinner (board : Switchboard) : Prop :=
  ∀ group first second, board.HasWinner group first → board.HasWinner group second →
    first = second

/-- No tracked call of the group rings. -/
def Settled (group : GroupId) (board : Switchboard) : Prop :=
  ∀ call ∈ board.calls.calls, call.groupId = group → call.state = .established

variable {σ : Type} {board after : Switchboard}

/-! ## One winner -/

/-- A winner has won before, or it has won right now and is alone. -/
theorem hasWinner_change {event : Event} (change : Change board event after) {group : GroupId}
    {id : CallId} (wins : after.HasWinner group id) :
    board.HasWinner group id ∨ (∃ name superseded, event = .raceWon name id superseded) ∧
      ∀ other, after.HasWinner group other → other = id := by
  obtain ⟨winner, found, same, answered⟩ := wins
  cases change with
  | @placed calls call media inserted rings =>
    rw [CallTable.find?_insert inserted] at found
    split at found
    · -- a call that was placed right now rings
      rw [Option.some.injEq] at found
      rw [← found, rings] at answered
      cases answered
    · exact .inl ⟨winner, found, same, answered⟩
  | @won call superseded tracked rings alone =>
    rw [CallTable.find?_establish, Option.map_eq_some_iff] at found
    obtain ⟨old, found, rfl⟩ := found
    by_cases here : id = call.id
    · -- it has won right now, and all other calls of its group are gone
      refine .inr ⟨⟨_, _, congrArg (Event.raceWon _ · _) here.symm⟩, ?_⟩
      intro other wins
      obtain ⟨rival, foundRival, sameRival, _⟩ := wins
      rw [CallTable.find?_establish, Option.map_eq_some_iff] at foundRival
      obtain ⟨oldRival, foundRival, rfl⟩ := foundRival
      rw [here, tracked, Option.some.injEq] at found
      obtain ⟨member, named⟩ := CallTable.mem_of_find? foundRival
      have group : oldRival.groupId = call.groupId := by
        rw [found]
        split at same <;> split at sameRival <;> exact sameRival.trans same.symm
      rw [here, ← named]
      exact alone oldRival member group
    · rw [if_neg here] at same answered
      exact .inl ⟨old, found, same, answered⟩
  | lost | hungUp =>
    rw [CallTable.find?_erase] at found
    split at found
    · cases found
    · exact .inl ⟨winner, found, same, answered⟩
  | released | unrelated => exact .inl ⟨winner, found, same, answered⟩

theorem oneWinner_change {event : Event} (unique : board.OneWinner)
    (change : Change board event after) : after.OneWinner := by
  intro group first second winsFirst winsSecond
  rcases hasWinner_change change winsFirst with old | ⟨_, alone⟩
  · rcases hasWinner_change change winsSecond with older | ⟨_, alone⟩
    · exact unique group first second old older
    · exact alone first winsFirst
  · exact (alone second winsSecond).symm

theorem oneWinner_changes {events : List Event} (unique : board.OneWinner)
    (changes : Changes board events after) : after.OneWinner := by
  induction changes with
  | refl => exact unique
  | unseen _ calls _ inductionHypothesis =>
    unfold OneWinner HasWinner at inductionHypothesis ⊢
    rw [calls]
    exact inductionHypothesis
  | told _ change inductionHypothesis => exact oneWinner_change inductionHypothesis change

theorem oneWinner_of_empty (empty : board.calls = {}) : board.OneWinner := by
  intro group first second wins _
  obtain ⟨call, found, _⟩ := wins
  rw [empty] at found
  cases found

theorem oneWinner_perform (engine : Engine σ) (sound : board.Sound) (unique : board.OneWinner)
    (operation : Operation) (state : σ) :
    (board.perform engine operation state).1.board.OneWinner := by
  by_cases running : operation = .shutdown
  · subst running
    exact oneWinner_of_empty rfl
  · exact oneWinner_changes unique (changes_perform engine sound.distinct running state)

/-- With one winner at most, one established call at most is in the list of the group's calls. -/
theorem length_established_le_one (distinct : board.calls.Distinct) (unique : board.OneWinner)
    (group : GroupId) :
    ((board.calls.inGroup group).filter fun call => call.state = .established).length ≤ 1 := by
  have sublist : List.Sublist
      ((board.calls.inGroup group).filter fun call => call.state = .established)
      board.calls.calls := List.filter_sublist.trans List.filter_sublist
  have apart := distinct.sublist (sublist.map _)
  have wins : ∀ call ∈ (board.calls.inGroup group).filter fun call => call.state = .established,
      board.HasWinner group call.id := by
    intro call member
    obtain ⟨member, answered⟩ := List.mem_filter.1 member
    obtain ⟨tracked, same⟩ := CallTable.mem_inGroup.1 member
    exact ⟨call, CallTable.find?_of_mem distinct tracked, same, by simpa using answered⟩
  -- two entries would be winners with different identifiers
  cases listed : (board.calls.inGroup group).filter fun call => call.state = .established with
  | nil => exact Nat.zero_le _
  | cons first rest =>
    cases rest with
    | nil => exact Nat.le_refl _
    | cons second rest =>
      rw [listed] at apart wins
      have equal := unique group first.id second.id (wins first (by simp)) (wins second (by simp))
      simp [equal] at apart

/-! ## Settled groups -/

theorem settled_change {event : Event} {group : GroupId} (settled : board.Settled group)
    (change : Change board event after) (quiet : event.placed? = none) : after.Settled group := by
  intro call member same
  cases change with
  | placed => cases quiet
  | won =>
    obtain ⟨old, tracked, rfl⟩ := List.mem_map.1 member
    split
    · rfl
    · rename_i other
      rw [if_neg other] at same
      exact settled old tracked same
  | lost | hungUp => exact settled call (List.mem_filter.1 member).1 same
  | released | unrelated => exact settled call member same

theorem settled_changes {events : List Event} {group : GroupId} (settled : board.Settled group)
    (changes : Changes board events after) (quiet : events.filterMap Event.placed? = []) :
    after.Settled group := by
  induction changes with
  | refl => exact settled
  | unseen _ calls _ inductionHypothesis =>
    have before := inductionHypothesis quiet
    unfold Settled at before ⊢
    rw [calls]
    exact before
  | told _ change inductionHypothesis =>
    rw [List.filterMap_append, List.append_eq_nil_iff] at quiet
    refine settled_change (inductionHypothesis quiet.1) change ?_
    simpa using quiet.2

theorem settled_supersede (engine : Engine σ) {winner : TrackedCall}
    (tracked : board.calls.find? winner.id = some winner) (state : σ) :
    (board.supersede engine winner state).1.board.Settled winner.groupId := by
  intro call member same
  simp only [supersede] at member
  obtain ⟨member, spared⟩ := CallTable.mem_eraseAll.1 member
  obtain ⟨old, present, rfl⟩ := List.mem_map.1 member
  by_cases here : old.id = winner.id
  · rw [if_pos here]
  · -- any other call of the group would have been superseded
    rw [if_neg here] at same spared
    have sibling := (CallTable.mem_siblings tracked).2 ⟨present, same, here⟩
    exact absurd (List.mem_map_of_mem sibling) spared

end Switchboard

namespace Step

variable {σ : Type} {engine : Engine σ} {state : σ} {step : Step} {group : GroupId}

theorem settled_after
    (came : step.outcome = (step.before.perform engine step.operation state).1)
    (settles : step.Settles group) : step.after.Settled group := by
  obtain ⟨id, call, resolution, operation, tracked, rfl, resolved⟩ := settles
  rw [came, operation] at resolved
  obtain ⟨ringing, found, rings⟩ := Switchboard.resolves_iff.1 ⟨resolution, resolved⟩
  rw [tracked, Option.some.injEq] at found
  subst found
  unfold after
  rw [came, operation, Switchboard.perform_answer_of_rings tracked rings]
  exact Switchboard.settled_supersede engine (CallTable.find?_self tracked) state

/-- As long as a settled group is not called, it stays settled. -/
theorem settled_of_quiet (distinct : step.before.calls.Distinct)
    (came : step.outcome = (step.before.perform engine step.operation state).1)
    (quiet : ¬ step.Dials group) (settled : step.before.Settled group) :
    step.after.Settled group := by
  unfold after
  by_cases start : step.operation.IsStart
  · obtain ⟨name, media, operation⟩ := start
    rcases Switchboard.perform_start_cases engine step.before name media state with
      ⟨error, refused⟩ | ⟨called, attempts, grown, next, found, dialed, started⟩
    · rw [came, operation, refused]
      exact settled
    · rw [came, operation, started]
      obtain ⟨grows, belong⟩ := FanOut.dialEach_calls dialed
      by_cases same : called.id = group
      · -- the group itself was called, so nothing was placed
        have none : (FanOut.report called media attempts).placed = [] := by
          apply Classical.byContradiction
          intro some
          refine quiet ⟨name, media, called, _, operation, found, same, ?_, some⟩
          rw [came, operation, started]
        have placed := FanOut.report_placed called media attempts
        rw [none, List.map_nil, eq_comm, List.map_eq_nil_iff] at placed
        rw [placed, List.append_nil] at grows
        intro call member
        rw [grows] at member
        exact settled call member
      · -- another group was called, and the new calls belong to that one
        intro call member sameGroup
        rw [grows] at member
        rcases List.mem_append.1 member with old | new
        · exact settled call old sameGroup
        · exact absurd ((belong call new).1.symm.trans sameGroup) same
  · rw [came]
    by_cases running : step.operation = .shutdown
    · rw [running]
      intro call member
      cases member
    · exact Switchboard.settled_changes settled
        (Switchboard.changes_perform engine distinct running state)
        (Switchboard.placed_of_not_start engine step.before start state)

end Step

/-! ## Along a run -/

namespace Reach

variable {σ : Type} {engine : Engine σ} {steps : List Step} {board : Switchboard} {state : σ}

theorem oneWinner (reached : Reach engine steps board state) : board.OneWinner := by
  induction reached with
  | start started =>
    rw [Switchboard.start_eq started]
    exact Switchboard.oneWinner_of_empty rfl
  | step before operation inductionHypothesis =>
    exact Switchboard.oneWinner_perform engine before.sound inductionHypothesis operation _

/-- After an answer has won, no call of its group rings until the group is called again. -/
theorem settled_before {earlier between later : List Step} {first last : Step}
    (reached : Reach engine (earlier ++ first :: (between ++ last :: later)) board state)
    {group : GroupId} (settles : first.Settles group)
    (quiet : ∀ step ∈ between, ¬ step.Dials group) : last.before.Settled group := by
  obtain ⟨_, _, came⟩ := reached.split
  refine reached.carry (first.settled_after came settles) ?_
  intro step member state sound came
  exact step.settled_of_quiet sound.distinct came (quiet step member)

/-- An answer wins exactly if it is to a tracked call that rings. At most one call of a group has
been answered and is still tracked; and between two answers by which calls of the same group win,
the group is called again, and at least one call is placed. -/
theorem first_answer_wins (reached : Reach engine steps board state) :
    (∀ group : GroupId,
      ((board.calls.inGroup group).filter fun call => call.state = .established).length ≤ 1) ∧
    (∀ earlier first between second later,
      steps = earlier ++ first :: (between ++ second :: later) → ∀ group : GroupId,
        first.Settles group → second.Settles group → ∃ step ∈ between, step.Dials group) ∧
    (∀ step ∈ steps, ∀ id, step.operation = .event (.established id) →
      ((∃ resolution, step.outcome.result = .resolution (some resolution)) ↔
        ∃ call, step.before.calls.find? id = some call ∧ call.state = .dialing)) := by
  refine ⟨?_, ?_, ?_⟩
  · intro group
    exact Switchboard.length_established_le_one reached.sound.distinct reached.oneWinner group
  · rintro earlier first between second later rfl group settlesFirst settlesSecond
    apply Classical.byContradiction
    intro never
    have quiet : ∀ step ∈ between, ¬ step.Dials group := by
      intro step member dials
      exact never ⟨step, member, dials⟩
    have settled := reached.settled_before settlesFirst quiet
    -- the second answer has won, so its call rang
    obtain ⟨id, call, resolution, operation, tracked, same, resolved⟩ := settlesSecond
    rw [← List.cons_append, ← List.append_assoc] at reached
    obtain ⟨state, _, came⟩ := reached.split
    rw [came, operation] at resolved
    obtain ⟨ringing, found, rings⟩ := Switchboard.resolves_iff.1 ⟨resolution, resolved⟩
    obtain ⟨member, _⟩ := CallTable.mem_of_find? found
    rw [tracked, Option.some.injEq] at found
    rw [settled ringing member (found ▸ same)] at rings
    cases rings
  · intro step member id operation
    obtain ⟨earlier, later, rfl⟩ := List.append_of_mem member
    obtain ⟨state, _, came⟩ := reached.split
    rw [came, operation]
    exact Switchboard.resolves_iff

/-- In the sample run a call of the group wins twice, and in between the group is called again. -/
theorem first_answer_wins_twice :
    Rematch.steps[4].Settles ⟨1⟩ ∧ Rematch.steps[6].Settles ⟨1⟩ ∧
      ∃ step ∈ [Rematch.steps[5]], step.Dials ⟨1⟩ := by
  obtain ⟨_, _, reached⟩ := Rematch.reached
  obtain ⟨_, between, answers⟩ := reached.first_answer_wins
  have first : Rematch.steps[4].before.calls.find? ⟨"call-1"⟩
      = some ⟨⟨⟨"call-1"⟩, "sip:a@x"⟩, ⟨1⟩, "G", "sip:a@x", .dialing⟩ := by decide +kernel
  have second : Rematch.steps[6].before.calls.find? ⟨"call-2"⟩
      = some ⟨⟨⟨"call-2"⟩, "sip:a@x"⟩, ⟨1⟩, "G", "sip:a@x", .dialing⟩ := by decide +kernel
  obtain ⟨_, wonFirst⟩ :=
    (answers Rematch.steps[4] (List.getElem_mem _) ⟨"call-1"⟩ rfl).2 ⟨_, first, rfl⟩
  obtain ⟨_, wonSecond⟩ :=
    (answers Rematch.steps[6] (List.getElem_mem _) ⟨"call-2"⟩ rfl).2 ⟨_, second, rfl⟩
  have settlesFirst : Rematch.steps[4].Settles ⟨1⟩ := ⟨_, _, _, rfl, first, rfl, wonFirst⟩
  have settlesSecond : Rematch.steps[6].Settles ⟨1⟩ := ⟨_, _, _, rfl, second, rfl, wonSecond⟩
  have whole : Rematch.steps = Rematch.steps.take 4 ++ Rematch.steps[4] ::
      ([Rematch.steps[5]] ++ Rematch.steps[6] :: Rematch.steps.drop 7) := rfl
  exact ⟨settlesFirst, settlesSecond, between _ _ _ _ _ whole _ settlesFirst settlesSecond⟩

end Reach
end CallFork
