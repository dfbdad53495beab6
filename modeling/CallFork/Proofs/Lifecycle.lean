import CallFork.Proofs.History

/-! # The life of a call

Over any run without a shutdown, what observers are told of one call is the beginning of a whole
life: it is placed, it may win, and then it is either hung up, or it loses its race and is released
later, once. This holds as long as the engine gives out no identifier twice.

`Standing` is the invariant: it lists the stages of a life, each with what was told so far and where
the call is kept. `standing_change` takes it through the five changes of `Change`.
-/

namespace CallFork

/-! ## Whole lives -/

namespace Event

/-- What is told of a tracked call: it was placed, and it has won if it is established. -/
inductive Tracked (group : String) (id : CallId) : CallState → List Event → Prop where
  | dialing (target : String) (media : Media) :
      Tracked group id .dialing [.callPlaced group id target media]
  | established (target : String) (media : Media) (superseded : Nat) :
      Tracked group id .established
        [.callPlaced group id target media, .raceWon group id superseded]

/-- All that is ever told of a call of some group. -/
inductive WholeLife (id : CallId) : List Event → Prop where
  /-- The engine reports the call closed. -/
  | hungUp {group : String} {state : CallState} {life : List Event}
      (tracked : Tracked group id state life) (reason : Option String) :
      WholeLife id (life ++ [.callClosed group id reason false])
  /-- The call loses a race, is announced closed, and is forgotten on a later turn. -/
  | superseded {group : String} {state : CallState} {life : List Event}
      (tracked : Tracked group id state life) {deferredTurn releasedTurn : Nat}
      (later : deferredTurn < releasedTurn) :
      WholeLife id (life ++ [.callClosed group id (some rejectedLocally) true,
        .callReleased id deferredTurn releasedTurn])

theorem Tracked.placed {group : String} {id : CallId} {state : CallState} {life : List Event}
    (tracked : Tracked group id state life) :
    ∃ target media rest, life = .callPlaced group id target media :: rest ∧
      ∀ event ∈ rest, ∃ superseded, event = .raceWon group id superseded := by
  cases tracked with
  | dialing target media => exact ⟨target, media, [], rfl, by simp⟩
  | established target media superseded =>
    exact ⟨target, media, [.raceWon group id superseded], rfl, by simp⟩

end Event

/-! ## Pending releases of a call -/

namespace ReleaseTable

def ofCall (table : ReleaseTable) (id : CallId) : List PendingRelease :=
  table.pending.filter fun entry => entry.call.id = id

theorem isPending_iff {table : ReleaseTable} {id : CallId} :
    table.isPending id = true ↔ table.ofCall id ≠ [] := by
  simp [isPending, ofCall]

theorem ofCall_defer (table : ReleaseTable) (call : TrackedCall) (turn : Nat) (id : CallId) :
    (table.defer call turn).2.ofCall id = table.ofCall id
      ++ if call.id = id then [⟨⟨table.issued + 1⟩, call, turn⟩] else [] := by
  unfold defer ofCall
  rw [List.filter_append, List.filter_singleton]
  simp

theorem ofCall_release {table : ReleaseTable} (ticketed : table.Ticketed) {entry : PendingRelease}
    (kept : table.find? entry.ticket = some entry) {id : CallId} (different : entry.call.id ≠ id) :
    ofCall { table with
        pending := table.pending.filter fun other => other.ticket ≠ entry.ticket } id
      = table.ofCall id := by
  unfold ofCall
  rw [List.filter_filter]
  apply List.filter_congr
  intro other member
  by_cases named : other.call.id = id
  · have apart : other.ticket ≠ entry.ticket := by
      intro same
      have found := find?_of_mem ticketed member
      rw [same, kept] at found
      exact different ((Option.some.inj found) ▸ named)
    simp [named, apart]
  · simp [named]

end ReleaseTable

/-! ## Where a call stands -/

/-- The stages in the life of a call: what was told of it, and where it is kept. -/
inductive Standing (board : Switchboard) (id : CallId) : List Event → Prop where
  | unplaced (untracked : board.calls.find? id = none) (free : board.releases.ofCall id = []) :
      Standing board id []
  | tracked {call : TrackedCall} {life : List Event} (found : board.calls.find? id = some call)
      (free : board.releases.ofCall id = [])
      (told : Event.Tracked call.groupName id call.state life) : Standing board id life
  | hungUp {group : String} {state : CallState} {life : List Event} {reason : Option String}
      (untracked : board.calls.find? id = none) (free : board.releases.ofCall id = [])
      (told : Event.Tracked group id state life) :
      Standing board id (life ++ [.callClosed group id reason false])
  | superseded {group : String} {state : CallState} {life : List Event} {entry : PendingRelease}
      (untracked : board.calls.find? id = none) (kept : board.releases.ofCall id = [entry])
      (same : entry.call.groupName = group ∧ entry.call.state = state)
      (told : Event.Tracked group id state life) :
      Standing board id (life ++ [.callClosed group id (some rejectedLocally) true])
  | released {group : String} {state : CallState} {life : List Event}
      {deferredTurn releasedTurn : Nat} (untracked : board.calls.find? id = none)
      (free : board.releases.ofCall id = []) (told : Event.Tracked group id state life)
      (later : deferredTurn < releasedTurn) :
      Standing board id (life ++ [.callClosed group id (some rejectedLocally) true,
        .callReleased id deferredTurn releasedTurn])

namespace Standing

variable {board after : Switchboard} {id : CallId} {life : List Event}

theorem transport (standing : Standing board id life)
    (calls : after.calls.find? id = board.calls.find? id)
    (releases : after.releases.ofCall id = board.releases.ofCall id) : Standing after id life := by
  cases standing with
  | unplaced untracked free => exact .unplaced (calls.trans untracked) (releases.trans free)
  | tracked found free told => exact .tracked (calls.trans found) (releases.trans free) told
  | hungUp untracked free told => exact .hungUp (calls.trans untracked) (releases.trans free) told
  | superseded untracked kept same told =>
    exact .superseded (calls.trans untracked) (releases.trans kept) same told
  | released untracked free told later =>
    exact .released (calls.trans untracked) (releases.trans free) told later

/-- Nothing is told only of a call that is neither tracked nor pending. -/
theorem of_nil (standing : Standing board id life) (silent : life = []) :
    board.calls.find? id = none ∧ board.releases.ofCall id = [] := by
  cases standing with
  | unplaced untracked free => exact ⟨untracked, free⟩
  | tracked found free told =>
    obtain ⟨_, _, _, rfl, _⟩ := told.placed
    cases silent
  | hungUp untracked free told => simp at silent
  | superseded untracked kept same told => simp at silent
  | released untracked free told later => simp at silent

/-- Of a tracked call no more is told than that it was placed, and whether it has won. -/
theorem of_tracked (standing : Standing board id life) {call : TrackedCall}
    (found : board.calls.find? id = some call) :
    board.releases.ofCall id = [] ∧ Event.Tracked call.groupName id call.state life := by
  cases standing with
  | tracked again free told =>
    rw [found, Option.some.injEq] at again
    subst again
    exact ⟨free, told⟩
  | unplaced untracked | hungUp untracked | superseded untracked | released untracked =>
    rw [untracked] at found
    cases found

/-- A call with a pending release has lost its race, and no other release of it is pending. -/
theorem of_pending (standing : Standing board id life) {entry : PendingRelease}
    (pending : entry ∈ board.releases.ofCall id) :
    board.calls.find? id = none ∧ board.releases.ofCall id = [entry] ∧
      ∃ begun, Event.Tracked entry.call.groupName id entry.call.state begun ∧
        life = begun ++ [.callClosed entry.call.groupName id (some rejectedLocally) true] := by
  cases standing with
  | @superseded group state begun other untracked kept same told =>
    rw [kept, List.mem_singleton] at pending
    subst pending
    obtain ⟨rfl, rfl⟩ := same
    exact ⟨untracked, kept, begun, told, rfl⟩
  | unplaced _ free | tracked _ free | hungUp _ free | released _ free =>
    rw [free] at pending
    cases pending

theorem exists_placed (standing : Standing board id life) (known : life ≠ []) :
    ∃ event ∈ life, event.placed? = some id := by
  cases standing with
  | unplaced => exact absurd rfl known
  | tracked _ _ told =>
    obtain ⟨_, _, _, rfl, _⟩ := told.placed
    exact ⟨_, List.mem_cons_self, rfl⟩
  | hungUp _ _ told | superseded _ _ _ told | released _ _ told _ =>
    obtain ⟨_, _, _, rfl, _⟩ := told.placed
    exact ⟨_, List.mem_append_left _ List.mem_cons_self, rfl⟩

/-- A change that tells of another call leaves this one where it is. -/
theorem change_other {event : Event} (sound : board.Sound) (standing : Standing board id life)
    (change : Change board event after) (other : event.callId? ≠ some id) :
    Standing after id life := by
  cases change with
  | @placed calls call media inserted rings =>
    have different : id ≠ call.id := fun same => other (congrArg some same.symm)
    refine standing.transport ?_ rfl
    rw [CallTable.find?_insert inserted, if_neg different]
  | @won call superseded tracked rings alone =>
    have different : id ≠ call.id := fun same => other (congrArg some same.symm)
    refine standing.transport ?_ rfl
    rw [CallTable.find?_establish]
    simp [different]
  | @lost call tracked =>
    have different : id ≠ call.id := fun same => other (congrArg some same.symm)
    refine standing.transport ?_ ?_
    · rw [CallTable.find?_erase, if_neg different]
    · rw [ReleaseTable.ofCall_defer, if_neg different.symm, List.append_nil]
  | @hungUp call reason tracked =>
    have different : id ≠ call.id := fun same => other (congrArg some same.symm)
    refine standing.transport ?_ rfl
    rw [CallTable.find?_erase, if_neg different]
  | @released entry kept later =>
    have different : entry.call.id ≠ id := fun same => other (congrArg some same)
    exact standing.transport rfl (ReleaseTable.ofCall_release sound.ticketed kept different)
  | unrelated nobody => exact standing

/-- A change that tells of the call takes it to the next stage. -/
theorem change_own {event : Event} (standing : Standing board id life)
    (change : Change board event after) (own : event.callId? = some id)
    (fresh : event.placed? = some id → life = []) : Standing after id (life ++ [event]) := by
  cases change with
  | @placed calls call media inserted rings =>
    obtain rfl : call.id = id := Option.some.inj own
    -- the identifier is new, so the life begins here
    have silent := fresh rfl
    obtain ⟨_, free⟩ := standing.of_nil silent
    have found : calls.find? call.id = some call := by
      rw [CallTable.find?_insert inserted, if_pos rfl]
    subst silent
    refine .tracked found free ?_
    rw [rings]
    exact .dialing call.target media
  | @won call superseded tracked rings alone =>
    obtain rfl : call.id = id := Option.some.inj own
    obtain ⟨free, told⟩ := standing.of_tracked tracked
    have found : (board.calls.establish call.id).find? call.id
        = some { call with state := .established } := by
      rw [CallTable.find?_establish, tracked]
      simp
    refine .tracked found free ?_
    rw [rings] at told
    cases told with
    | dialing target media => exact .established target media superseded
  | @lost call tracked =>
    obtain rfl : call.id = id := Option.some.inj own
    obtain ⟨free, told⟩ := standing.of_tracked tracked
    have kept : (board.releases.defer call board.turn).2.ofCall call.id
        = [⟨⟨board.releases.issued + 1⟩, call, board.turn⟩] := by
      rw [ReleaseTable.ofCall_defer, free, if_pos rfl, List.nil_append]
    refine .superseded ?_ kept ⟨rfl, rfl⟩ told
    rw [CallTable.find?_erase, if_pos rfl]
  | @hungUp call reason tracked =>
    obtain rfl : call.id = id := Option.some.inj own
    obtain ⟨free, told⟩ := standing.of_tracked tracked
    refine .hungUp ?_ free told
    rw [CallTable.find?_erase, if_pos rfl]
  | @released entry kept later =>
    obtain rfl : entry.call.id = id := Option.some.inj own
    have pending : entry ∈ board.releases.ofCall entry.call.id :=
      List.mem_filter.2 ⟨(ReleaseTable.mem_of_find? kept).1, by simp⟩
    obtain ⟨untracked, only, begun, told, rfl⟩ := standing.of_pending pending
    rw [List.append_assoc, List.singleton_append]
    refine .released untracked ?_ told later
    -- the entry that goes was the only one of the call
    unfold ReleaseTable.ofCall at only ⊢
    rw [List.filter_filter]
    simp only [Bool.and_comm]
    rw [← List.filter_filter, only]
    simp
  | unrelated nobody =>
    rw [nobody] at own
    cases own

/-- What was told of a call up to a change, and with the change. -/
theorem change {event : Event} (sound : board.Sound) (standing : Standing board id life)
    (change : Change board event after) (fresh : event.placed? = some id → life = []) :
    Standing after id (life ++ [event].filter fun told => told.callId? = some id) := by
  by_cases own : event.callId? = some id
  · simpa [own] using standing.change_own change own fresh
  · simpa [own] using standing.change_other sound change own

/-! ### What a standing says -/

/-- What was told so far is the beginning of a whole life. -/
theorem isPrefix (standing : Standing board id life) :
    ∃ whole, Event.WholeLife id whole ∧ life <+: whole := by
  cases standing with
  | unplaced =>
    -- nothing was told yet, so any life will do
    have begun : Event.Tracked "" id .dialing [.callPlaced "" id "" {}] := .dialing "" {}
    exact ⟨_, .hungUp begun none, List.nil_prefix⟩
  | tracked _ _ told => exact ⟨_, .hungUp told none, List.prefix_append _ _⟩
  | hungUp _ _ told => exact ⟨_, .hungUp told _, List.prefix_rfl⟩
  | superseded _ _ _ told =>
    refine ⟨_, .superseded told (Nat.lt_succ_self 0), ?_⟩
    rw [List.prefix_append_right_inj]
    exact ⟨_, rfl⟩
  | released _ _ told later => exact ⟨_, .superseded told later, List.prefix_rfl⟩

theorem contains_iff (standing : Standing board id life) :
    board.calls.contains id = true ↔
      (∃ group target media, .callPlaced group id target media ∈ life) ∧
        ∀ group reason isLocal, .callClosed group id reason isLocal ∉ life := by
  rw [CallTable.contains_eq_isSome]
  cases standing with
  | unplaced untracked => simp [untracked]
  | @tracked call _ found _ told =>
    generalize call.state = reached at told
    cases told <;> simp [found]
  | hungUp untracked _ told | superseded untracked _ _ told | released untracked _ told _ =>
    cases told <;> simp [untracked]

theorem established_iff (standing : Standing board id life) {call : TrackedCall}
    (found : board.calls.find? id = some call) :
    call.state = .established ↔ ∃ group superseded, .raceWon group id superseded ∈ life := by
  obtain ⟨_, told⟩ := standing.of_tracked found
  generalize call.state = reached at told ⊢
  cases told <;> simp

theorem isPending_iff (standing : Standing board id life) :
    board.releases.isPending id = true ↔
      (∃ group, .callClosed group id (some rejectedLocally) true ∈ life) ∧
        ∀ deferredTurn releasedTurn, .callReleased id deferredTurn releasedTurn ∉ life := by
  rw [ReleaseTable.isPending_iff]
  cases standing with
  | unplaced _ free => simp [free]
  | superseded _ kept _ told => cases told <;> simp [kept]
  | @tracked call _ _ free told =>
    generalize call.state = reached at told
    cases told <;> simp [free]
  | hungUp _ free told | released _ free told _ => cases told <;> simp [free]

/-- What is told of a call goes on from where it stands, if it is placed at most once and not
again. -/
theorem changes {after : Switchboard} {events : List Event} (standing : Standing board id life)
    (sound : board.Sound) (changes : Changes board events after)
    (once : id ∈ events.filterMap Event.placed? →
      life = [] ∧ (events.filterMap Event.placed?).Nodup) :
    Standing after id (life ++ events.filter fun event => event.callId? = some id) := by
  induction changes with
  | refl => simpa using standing
  | unseen _ calls releases inductionHypothesis =>
    exact (inductionHypothesis once).transport (by rw [calls]) (by rw [releases])
  | @told middle after events event before change inductionHypothesis =>
    rw [List.filterMap_append, List.mem_append, List.nodup_append] at once
    have begun := inductionHypothesis fun placed =>
      ⟨(once (.inl placed)).1, (once (.inl placed)).2.1⟩
    rw [List.filter_append, ← List.append_assoc]
    refine begun.change (Switchboard.sound_changes sound before) change ?_
    -- had anything been told of the call, its placement would have been told already
    intro placed
    obtain ⟨rfl, _, _, apart⟩ := once (.inr (by simp [placed]))
    by_contra known
    obtain ⟨earlier, member, same⟩ := begun.exists_placed known
    have told : id ∈ events.filterMap Event.placed? :=
      List.mem_filterMap.2 ⟨earlier, (List.mem_filter.1 member).1, same⟩
    exact apart id told id (by simp [placed]) rfl

end Standing

/-! ## Along a run -/

namespace Switchboard

/-- No call is tracked, and none waits for its release. -/
structure Idle (board : Switchboard) : Prop where
  calls : board.calls = {}
  releases : board.releases = {}

/-- If no call is placed twice, each call stands where the events say. -/
theorem standing_changes {board after : Switchboard} {events : List Event} (idle : board.Idle)
    (changes : Changes board events after) (fresh : (events.filterMap Event.placed?).Nodup)
    (id : CallId) :
    Standing after id (events.filter fun event => event.callId? = some id) := by
  obtain ⟨calls, releases⟩ := idle
  have sound : board.Sound :=
    ⟨calls ▸ CallTable.distinct_empty, releases ▸ ReleaseTable.ticketed_empty⟩
  have start : Standing board id [] := .unplaced (by rw [calls]; rfl) (by rw [releases]; rfl)
  exact start.changes sound changes fun _ => ⟨rfl, fresh⟩

end Switchboard

namespace Reach

variable {σ : Type} {engine : Engine σ} {steps : List Step} {board : Switchboard} {state : σ}

/-- Without a shutdown, what was published accounts for all that became of the calls. -/
theorem changes (reached : Reach engine steps board state)
    (running : ∀ step ∈ steps, step.operation ≠ .shutdown) :
    ∃ first : Switchboard, first.Idle ∧ Changes first (Step.published steps) board := by
  induction reached with
  | @start config accounts board started state =>
    rw [Switchboard.start_eq started]
    exact ⟨_, ⟨rfl, rfl⟩, .refl _⟩
  | @step steps board state before operation inductionHypothesis =>
    obtain ⟨first, idle, changes⟩ :=
      inductionHypothesis fun step member => running step (List.mem_append_left _ member)
    have runs := running _ (List.mem_append_right _ List.mem_cons_self)
    rw [Step.published_append, Step.published_singleton]
    exact ⟨first, idle, changes.trans
      (Switchboard.changes_perform engine before.sound.distinct runs state)⟩

theorem placed_sublist (reached : Reach engine steps board state) :
    ((Step.published steps).filterMap Event.placed?).Sublist (Step.placedIds steps) := by
  induction reached with
  | start => exact .slnil
  | @step steps board state before operation inductionHypothesis =>
    rw [Step.published_append, Step.published_singleton, Step.placedIds_append,
      List.filterMap_append]
    exact inductionHypothesis.append (Switchboard.placed_sublist_perform engine board operation _)

/-- The life of a call over any run without a shutdown, if the engine gives out no identifier twice.
What observers are told of the call is the beginning of a whole life; and at any point the call is
tracked, established or pending exactly if they have been told so. -/
theorem call_lifecycle (reached : Reach engine steps board state)
    (running : ∀ step ∈ steps, step.operation ≠ .shutdown)
    (fresh : (Step.placedIds steps).Nodup) (id : CallId) :
    (∃ life, Event.WholeLife id life ∧
      (Step.published steps).filter (fun event => event.callId? = some id) <+: life) ∧
    (board.calls.contains id = true ↔
      (∃ group target media, .callPlaced group id target media ∈ Step.published steps) ∧
        ∀ group reason isLocal, .callClosed group id reason isLocal ∉ Step.published steps) ∧
    (∀ call, board.calls.find? id = some call →
      (call.state = .established ↔
        ∃ group superseded, .raceWon group id superseded ∈ Step.published steps)) ∧
    (board.releases.isPending id = true ↔
      (∃ group, .callClosed group id (some rejectedLocally) true ∈ Step.published steps) ∧
        ∀ deferredTurn releasedTurn,
          .callReleased id deferredTurn releasedTurn ∉ Step.published steps) := by
  obtain ⟨first, idle, changes⟩ := reached.changes running
  have standing := Switchboard.standing_changes idle changes
    (fresh.sublist reached.placed_sublist) id
  refine ⟨standing.isPrefix, ?_, ?_, ?_⟩
  · simpa [Event.callId?] using standing.contains_iff
  · intro call found
    simpa [Event.callId?] using standing.established_iff found
  · simpa [Event.callId?] using standing.isPending_iff

/-- In the sample run, a call has won, has lost after all, and was released. -/
theorem call_lifecycle_of_loser :
    ∃ life, Event.WholeLife ⟨"call-1"⟩ life ∧
      [.callPlaced "G" ⟨"call-1"⟩ "sip:a@x" {}, .raceWon "G" ⟨"call-1"⟩ 0,
        .callClosed "G" ⟨"call-1"⟩ (some rejectedLocally) true,
        .callReleased ⟨"call-1"⟩ 1 2] <+: life := by
  obtain ⟨_, _, reached⟩ := Rematch.reached
  have running : ∀ step ∈ Rematch.steps, step.operation ≠ .shutdown := by decide +kernel
  have fresh : (Step.placedIds Rematch.steps).Nodup := by decide +kernel
  have told : (Step.published Rematch.steps).filter (fun event => event.callId? = some ⟨"call-1"⟩)
      = [.callPlaced "G" ⟨"call-1"⟩ "sip:a@x" {}, .raceWon "G" ⟨"call-1"⟩ 0,
        .callClosed "G" ⟨"call-1"⟩ (some rejectedLocally) true,
        .callReleased ⟨"call-1"⟩ 1 2] := by decide +kernel
  obtain ⟨begins, _⟩ := reached.call_lifecycle running fresh ⟨"call-1"⟩
  rw [told] at begins
  exact begins

end Reach
end CallFork
