import CallFork.Proofs.Lifecycle
import CallFork.Proofs.Operations

/-! # Who holds an identifier

A call is held under its identifier in two places: while it is tracked, and after it has lost its
race until its release. The table of tracked calls never holds an identifier twice, whatever the
engine gives out, as a new call under a tracked identifier is turned down. The pending releases are
not asked, though. An engine that gives out the identifier of a call that waits for its release has
the new call tracked beside the old one, and this is the only way in which two calls ever share an
identifier.

The proof counts holders. Every change but a placement leaves the number of holders of an identifier
as it is or lowers it.
-/

namespace CallFork

/-! ## What is placed -/

namespace DialAttempt

theorem placement?_of_tracked {attempt : DialAttempt} {call : TrackedCall}
    (tracked : attempt.tracked? = some call) :
    attempt.placement? = some (attempt.request, call.call) := by
  unfold tracked? at tracked
  unfold placement? answer
  cases result : attempt.result with
  | placed placed =>
    rw [result] at tracked
    rw [Option.some.inj tracked]
  | refused cause | reused placed hangup =>
    rw [result] at tracked
    cases tracked

theorem placement?_eq_some {attempt : DialAttempt} {placement : PlaceRequest × CallHandle}
    (placed : attempt.placement? = some placement) : attempt.answer = .ok placement.2 := by
  unfold placement? at placed
  cases answered : attempt.answer with
  | ok call =>
    rw [answered] at placed
    rw [← Option.some.inj placed]
  | error cause =>
    rw [answered] at placed
    cases placed

end DialAttempt

namespace Switchboard

variable {σ : Type}

theorem placements_of_not_start (engine : Engine σ) (board : Switchboard) {operation : Operation}
    (other : ¬ operation.IsStart) (state : σ) :
    Effect.placements (board.perform engine operation state).1.effects = [] := by
  cases operation with
  | beginTurn | shutdown => rfl
  | reclaim ticket =>
    simp only [perform, reclaim, Outcome.map]
    cases (board.releases.release ticket board.turn).1 <;> rfl
  | event event =>
    cases event with
    | progress id => rfl
    | closed id reason =>
      simp only [perform, handleEvent, hungUp, Outcome.map]
      split <;> rfl
    | established id =>
      simp only [perform, handleEvent, answered, Outcome.map]
      split
      · split <;> rfl
      · split
        · rfl
        · exact placements_supersede _ state
  | request request =>
    have handled := handled engine board request state
    simp only [perform, Outcome.map]
    generalize board.handleRequest engine request state = done at handled ⊢
    cases handled with
    | refused => rfl
    | registered => simp [Effect.placements, Effect.placement?, Function.comp_def]
    | @called name media => exact absurd ⟨name, media, rfl⟩ other
    | hungUp => exact HangupAttempt.placements_flatMap _ _

end Switchboard

/-! ## Turning down a tracked identifier -/

namespace FanOut

variable {σ : Type}

/-- What comes of an attempt whose call the engine has placed, with these calls tracked already. -/
theorem dial_answered {engine : Engine σ} {policy : HangupPolicy} {group : Group} {media : Media}
    {peer : Peer} {calls grown : CallTable} {state next : σ} {attempt : DialAttempt}
    (dialed : dial engine policy group media peer calls state = (attempt, grown, next))
    {call : CallHandle} (answered : attempt.answer = .ok call) :
    calls.contains call.id = true ∧ attempt.error? = some (.duplicateCall call.id) ∧
        attempt.tracked? = none ∨
      calls.contains call.id = false ∧ attempt.error? = none ∧
        attempt.tracked? = some ⟨call, group.id, group.name, peer.target, .dialing⟩ := by
  simp only [dial] at dialed
  split at dialed
  · -- the engine has refused
    simp only [Prod.mk.injEq] at dialed
    obtain ⟨rfl, _, _⟩ := dialed
    cases answered
  · rename_i placed _
    cases known : calls.contains placed.id with
    | false =>
      simp only [CallTable.insert, TrackedCall.id, known, Bool.false_eq_true, if_false,
        Prod.mk.injEq] at dialed
      obtain ⟨rfl, _, _⟩ := dialed
      obtain rfl : placed = call := Except.ok.inj answered
      exact .inr ⟨known, rfl, rfl⟩
    | true =>
      simp only [CallTable.insert, TrackedCall.id, known, if_true, Prod.mk.injEq] at dialed
      obtain ⟨rfl, _, _⟩ := dialed
      obtain rfl : placed = call := Except.ok.inj answered
      exact .inl ⟨known, rfl, rfl⟩

/-- The tracked calls behind these attempts. -/
def behind (calls : CallTable) (attempts : List DialAttempt) : CallTable :=
  ⟨calls.calls ++ attempts.filterMap (·.tracked?)⟩

/-- An attempt finds the calls that were tracked before and those of the attempts ahead of it. -/
theorem dialEach_split {engine : Engine σ} {policy : HangupPolicy} {group : Group} {media : Media}
    {peers : List Peer} {calls grown : CallTable} {state next : σ}
    {earlier later : List DialAttempt} {attempt : DialAttempt}
    (dialed : dialEach engine policy group media peers calls state
      = (earlier ++ attempt :: later, grown, next)) :
    ∃ peer state after next, dial engine policy group media peer (behind calls earlier) state
      = (attempt, after, next) := by
  induction peers generalizing calls state earlier with
  | nil => simp [dialEach] at dialed
  | cons peer rest inductionHypothesis =>
    obtain ⟨first, others, between, middle, whole, dialedFirst, dialedOthers⟩ :=
      dialEach_cons dialed
    cases earlier with
    | nil =>
      obtain ⟨rfl, rfl⟩ := List.cons.inj whole
      exact ⟨peer, state, between, middle, by simpa [behind] using dialedFirst⟩
    | cons head ahead =>
      obtain ⟨rfl, rfl⟩ := List.cons.inj whole
      obtain ⟨peer, state, after, next, here⟩ := inductionHypothesis dialedOthers
      refine ⟨peer, state, after, next, ?_⟩
      rw [← here]
      congr 1
      unfold behind
      obtain ⟨_, ⟨skipped, rfl⟩ | ⟨call, tracked, inserted⟩⟩ := dial_cases dialedFirst
      · rw [List.filterMap_cons, skipped]
      · obtain ⟨_, rfl⟩ := CallTable.insert_eq_ok.1 inserted
        rw [List.filterMap_cons, tracked]
        simp

/-- Every identifier that the engine has given out is tracked in the end, be it for the new call or
for an older one. -/
theorem tracked_of_answered {engine : Engine σ} {policy : HangupPolicy} {group : Group}
    {media : Media} {peers : List Peer} {calls grown : CallTable} {state next : σ}
    {attempts : List DialAttempt}
    (dialed : dialEach engine policy group media peers calls state = (attempts, grown, next))
    {attempt : DialAttempt} (member : attempt ∈ attempts) {call : CallHandle}
    (answered : attempt.answer = .ok call) : ∃ tracked ∈ grown.calls, tracked.id = call.id := by
  obtain ⟨earlier, later, rfl⟩ := List.append_of_mem member
  obtain ⟨peer, _, _, _, here⟩ := dialEach_split dialed
  rw [(dialEach_calls dialed).1]
  rcases dial_answered here answered with ⟨known, _⟩ | ⟨_, _, tracked⟩
  · obtain ⟨other, present, same⟩ := List.any_eq_true.1 known
    refine ⟨other, ?_, of_decide_eq_true same⟩
    rw [List.filterMap_append, ← List.append_assoc]
    exact List.mem_append_left _ present
  · exact ⟨_, List.mem_append_right _ (List.mem_filterMap.2 ⟨attempt, member, tracked⟩), rfl⟩

end FanOut

/-! ## Counting holders -/

namespace Switchboard

variable {board after : Switchboard}

/-- All calls of an identifier that are tracked or wait for their release. -/
def holders (board : Switchboard) (id : CallId) : List TrackedCall :=
  (board.calls.calls ++ board.releases.pending.map (·.call)).filter fun call => call.id = id

/-- No identifier is held twice. -/
def Unshared (board : Switchboard) : Prop :=
  ∀ id, (board.holders id).length ≤ 1

theorem length_holders (distinct : board.calls.Distinct) (id : CallId) :
    (board.holders id).length
      = (board.calls.find? id).toList.length + (board.releases.ofCall id).length := by
  unfold holders ReleaseTable.ofCall
  rw [List.filter_append, List.length_append, CallTable.filter_id_eq distinct, List.filter_map,
    List.length_map]
  rfl

/-- Nothing but a placement gives an identifier one more holder. -/
theorem holders_change_le {event : Event} (sound : board.Sound) (change : Change board event after)
    (kind : event.placed? = none) (id : CallId) :
    (after.holders id).length ≤ (board.holders id).length := by
  have soundAfter := sound_change sound change
  rw [length_holders soundAfter.distinct, length_holders sound.distinct]
  cases change with
  | placed => cases kind
  | @won call superseded tracked rings alone =>
    rw [CallTable.find?_establish]
    cases board.calls.find? id <;> exact Nat.le_refl _
  | @lost call tracked =>
    rw [CallTable.find?_erase, ReleaseTable.ofCall_defer]
    by_cases same : id = call.id
    · -- the call changes hands
      subst same
      simp [tracked, Nat.add_comm]
    · simp [same, Ne.symm same]
  | @hungUp call reason tracked =>
    rw [CallTable.find?_erase]
    by_cases same : id = call.id
    · simp [same]
    · simp [same]
  | @released entry kept later =>
    apply Nat.add_le_add_left
    unfold ReleaseTable.ofCall
    exact (List.filter_sublist.filter _).length_le
  | unrelated nobody => exact Nat.le_refl _

theorem holders_changes_le {events : List Event} (sound : board.Sound)
    (changes : Changes board events after) (kinds : events.filterMap Event.placed? = [])
    (id : CallId) : (after.holders id).length ≤ (board.holders id).length := by
  induction changes with
  | refl => exact Nat.le_refl _
  | @unseen middle after _ _ calls releases inductionHypothesis =>
    have same : after.holders id = middle.holders id := by
      unfold holders
      rw [calls, releases]
    rw [same]
    exact inductionHypothesis kinds
  | told before change inductionHypothesis =>
    rw [List.filterMap_append, List.append_eq_nil_iff] at kinds
    have last := holders_change_le (sound_changes sound before) change (by simpa using kinds.2) id
    exact Nat.le_trans last (inductionHypothesis kinds.1)

variable {σ : Type}

theorem holders_perform_le (engine : Engine σ) (sound : board.Sound) {operation : Operation}
    (other : ¬ operation.IsStart) (state : σ) (id : CallId) :
    ((board.perform engine operation state).1.board.holders id).length
      ≤ (board.holders id).length := by
  by_cases running : operation = .shutdown
  · subst running
    exact Nat.zero_le _
  · exact holders_changes_le sound (changes_perform engine sound.distinct running state)
      (placed_of_not_start engine board other state) id

/-! ## Calling a group -/

/-- Calling a group gives an identifier a second holder exactly if the engine gives it out while a
call of that identifier waits for its release. -/
theorem unshared_start_iff {engine : Engine σ} (sound : board.Sound) (unshared : board.Unshared)
    {operation : Operation} (start : operation.IsStart) (state : σ) :
    (board.perform engine operation state).1.board.Unshared ↔
      ∀ placement ∈ Effect.placements (board.perform engine operation state).1.effects,
        board.releases.isPending placement.2.id = false := by
  obtain ⟨name, media, rfl⟩ := start
  -- after the request each identifier is tracked once at most, so only a pending one can be shared
  have soundAfter := sound_perform engine sound (.request (.startCall name media)) state
  rcases perform_start_cases engine board name media state with
    ⟨error, refused⟩ | ⟨group, attempts, grown, next, found, dialed, done⟩
  · rw [refused]
    exact ⟨fun _ => by simp [Effect.placements], fun _ => unshared⟩
  · rw [done] at soundAfter ⊢
    constructor
    · intro apart placement member
      obtain ⟨attempt, present, placed⟩ := DialAttempt.mem_placements.1 member
      obtain ⟨call, tracked, same⟩ := FanOut.tracked_of_answered dialed present
        (DialAttempt.placement?_eq_some placed)
      -- the call that is tracked is the only holder
      have only : 1 + (board.releases.ofCall placement.2.id).length ≤ 1 := by
        have held := apart call.id
        rw [length_holders soundAfter.distinct, CallTable.find?_of_mem soundAfter.distinct tracked,
          same] at held
        exact held
      rw [← Bool.not_eq_true, ReleaseTable.isPending_iff]
      intro pending
      have waits := List.length_pos_of_ne_nil pending
      omega
    · intro free id
      rw [length_holders soundAfter.distinct]
      by_cases pending : board.releases.isPending id = true
      · -- no call was placed under the identifier, so its holders are the same
        have old : grown.find? id = board.calls.find? id := by
          unfold CallTable.find?
          rw [(FanOut.dialEach_calls dialed).1, List.find?_append]
          have new : (attempts.filterMap (·.tracked?)).find? (fun call => call.id = id)
              = none := by
            apply List.find?_eq_none.2
            intro call member same
            obtain ⟨attempt, present, tracked⟩ := List.mem_filterMap.1 member
            have placed := free _ (DialAttempt.mem_placements.2
              ⟨attempt, present, DialAttempt.placement?_of_tracked tracked⟩)
            rw [show call.call.id = id from of_decide_eq_true same, pending] at placed
            cases placed
          rw [new, Option.or_none]
        have before := unshared id
        rw [length_holders sound.distinct] at before
        rw [old]
        exact before
      · rw [ReleaseTable.isPending_iff, not_not] at pending
        have least : (grown.find? id).toList.length ≤ 1 := by
          cases grown.find? id <;> simp
        simp only [pending, List.length_nil, Nat.add_zero]
        exact least

theorem unshared_perform_iff {engine : Engine σ} (sound : board.Sound) (unshared : board.Unshared)
    (operation : Operation) (state : σ) :
    (board.perform engine operation state).1.board.Unshared ↔
      ∀ placement ∈ Effect.placements (board.perform engine operation state).1.effects,
        board.releases.isPending placement.2.id = false := by
  by_cases start : operation.IsStart
  · exact unshared_start_iff sound unshared start state
  · rw [placements_of_not_start engine board start state]
    refine ⟨fun _ => by simp, fun _ id => ?_⟩
    exact Nat.le_trans (holders_perform_le engine sound start state id) (unshared id)

end Switchboard

/-! ## Along a run -/

namespace Reach

variable {σ : Type} {engine : Engine σ} {steps : List Step} {board : Switchboard} {state : σ}

theorem unshared (reached : Reach engine steps board state)
    (along : ∀ step ∈ steps, step.after.Unshared) : board.Unshared := by
  cases reached with
  | start started =>
    rw [Switchboard.start_eq started]
    exact fun id => Nat.zero_le 1
  | step before operation => exact along _ (List.mem_append_right _ List.mem_cons_self)

/-- Identifiers stay unshared exactly as long as the engine gives out none that waits for its
release. -/
theorem unshared_iff (reached : Reach engine steps board state) :
    (∀ step ∈ steps, step.after.Unshared) ↔
      ∀ step ∈ steps, ∀ placement ∈ Effect.placements step.outcome.effects,
        step.before.releases.isPending placement.2.id = false := by
  induction reached with
  | start => simp
  | @step steps board state before operation inductionHypothesis =>
    rw [List.forall_mem_append, List.forall_mem_append, ← inductionHypothesis]
    refine and_congr_right fun along => ?_
    rw [List.forall_mem_singleton, List.forall_mem_singleton]
    exact Switchboard.unshared_perform_iff before.sound (before.unshared along) operation state

/-- The table of tracked calls holds no identifier twice, whatever the engine gives out, and all
that it turns down or takes in while a group is called is decided by that table alone. No identifier
is held twice, counting the pending releases, exactly as long as the engine gives out none of a call
that waits for its release. -/
theorem identifiers_held (reached : Reach engine steps board state) :
    (∀ step ∈ steps, step.before.calls.Distinct ∧ step.after.calls.Distinct) ∧
    (∀ step ∈ steps, ∀ name media report,
      step.operation = .request (.startCall name media) →
      step.outcome.result = .answer (.ok (.started report)) →
      ∃ attempts : List DialAttempt,
        step.outcome.effects = attempts.flatMap (·.effects report.group) ∧
        report.placed = attempts.filterMap (·.placed?) ∧
        report.failed = attempts.filterMap (·.error?) ∧
        step.after = { step.before with calls := FanOut.behind step.before.calls attempts } ∧
        ∀ earlier attempt later call, attempts = earlier ++ attempt :: later →
          attempt.answer = .ok call →
          (attempt.error? = some (.duplicateCall call.id) ↔
            (FanOut.behind step.before.calls earlier).contains call.id = true) ∧
          ((∃ tracked, attempt.tracked? = some tracked ∧ tracked.call = call) ↔
            (FanOut.behind step.before.calls earlier).contains call.id = false)) ∧
    ((∀ step ∈ steps, step.after.Unshared) ↔
      ∀ step ∈ steps, ∀ placement ∈ Effect.placements step.outcome.effects,
        step.before.releases.isPending placement.2.id = false) := by
  refine ⟨?_, ?_, reached.unshared_iff⟩
  · intro step member
    obtain ⟨earlier, later, rfl⟩ := List.append_of_mem member
    obtain ⟨state, before, came⟩ := reached.split
    refine ⟨before.sound.distinct, ?_⟩
    rw [Step.after, came]
    exact (Switchboard.sound_perform engine before.sound step.operation state).distinct
  · intro step member name media report start answered
    obtain ⟨earlier, later, rfl⟩ := List.append_of_mem member
    obtain ⟨state, before, came⟩ := reached.split
    rw [start] at came
    rcases Switchboard.perform_start_cases engine step.before name media state with
      ⟨error, refused⟩ | ⟨group, attempts, grown, next, found, dialed, done⟩
    · rw [came, refused] at answered
      cases answered
    · rw [came, done] at answered
      cases answered
      rw [Step.after, came, done]
      obtain ⟨grows, _⟩ := FanOut.dialEach_calls dialed
      refine ⟨attempts, rfl, rfl, rfl, ?_, ?_⟩
      · unfold FanOut.behind
        rw [← grows]
      · rintro ahead attempt rest call rfl placed
        obtain ⟨peer, _, _, _, here⟩ := FanOut.dialEach_split dialed
        rcases FanOut.dial_answered here placed with
          ⟨known, failed, skipped⟩ | ⟨unknown, failed, tracked⟩
        · simp [known, failed, skipped]
        · simp [unknown, failed, tracked]

end Reach

/-! ## A sample run -/

namespace Reuse

/-- A call of the first group loses its race. Before it is released a second group is called, and
then the engine reports the lost call closed. -/
def operations : List Switchboard.Operation :=
  [.request (.createGroup "G"), .request (.addPeer "G" "sip:a@x" none),
    .request (.addPeer "G" "sip:b@x" none), .request (.createGroup "H"),
    .request (.addPeer "H" "sip:c@x" none), .request (.startCall "G" {}), .beginTurn,
    .event (.established ⟨"call-1"⟩), .request (.startCall "H" {}),
    .event (.closed ⟨"call-2"⟩ none)]

/-- The call of the second group gets the identifier of the lost one. -/
def script : EngineScript := { nextIds := [⟨"call-1"⟩, ⟨"call-2"⟩, ⟨"call-2"⟩] }

def steps : List Step := Rematch.board.history EngineScript.engine operations script

theorem reached : ∃ board state, Reach EngineScript.engine steps board state :=
  ⟨_, _, (Reach.start Rematch.started script).extend operations⟩

/-- The new call is tracked and reported as placed while the lost one still waits. When the lost one
is reported closed, the new one is forgotten. -/
theorem identifier_shared_after_reuse :
    (∃ board state, Reach EngineScript.engine steps board state) ∧
      steps[8].before.releases.isPending ⟨"call-2"⟩ = true ∧
      (steps[8].after.holders ⟨"call-2"⟩).map (·.target) = ["sip:c@x", "sip:b@x"] ∧
      (∃ report, steps[8].outcome.result = .answer (.ok (.started report)) ∧
        report.placed = [⟨⟨"call-2"⟩, "sip:c@x"⟩] ∧ report.failed = []) ∧
      steps[9].after.calls.find? ⟨"call-2"⟩ = none := by
  refine ⟨reached, by decide +kernel, by decide +kernel, ⟨_, rfl, ?_, ?_⟩, by decide +kernel⟩
  · decide +kernel
  · decide +kernel

/-- The table of tracked calls does not hold the identifier twice, but the switchboard does. -/
theorem identifiers_held_after_reuse :
    steps[8].after.calls.Distinct ∧ ¬ ∀ step ∈ steps, step.after.Unshared := by
  obtain ⟨_, _, reached⟩ := reached
  obtain ⟨distinct, _, unshared⟩ := reached.identifiers_held
  refine ⟨(distinct _ (List.getElem_mem _)).2, ?_⟩
  rw [unshared]
  intro free
  have placed : (Effect.placements steps[8].outcome.effects).map (·.2.id) = [⟨"call-2"⟩] := by
    decide +kernel
  have waits : steps[8].before.releases.isPending ⟨"call-2"⟩ = true := by decide +kernel
  obtain ⟨placement, member, same⟩ := List.mem_map.1 (placed ▸ List.mem_singleton_self _)
  have unheld := free _ (List.getElem_mem _) placement member
  rw [same, waits] at unheld
  cases unheld

end Reuse
end CallFork
