import CallFork.Engine.Simulated
import CallFork.Proofs.Turns

/-! # Engines that close what they hang up

The simulated engine with `autoClose` posts a closed event for each hangup, and it gives out each
identifier once. Over such an engine a tracked call that was ever asked to hang up still has its
closed event in the mailbox, so nothing that is tracked was hung up when the mailbox is empty
(`Session.unasked`).

The simulated engine can be told at any time to refuse a target. `Engine.Simulates` leaves that
open: which targets are refused may change from one placement to the next.
-/

namespace CallFork

/-- The reply of an engine whose states are seen as other ones. -/
def Reply.seenAs {σ τ α : Type} (view : σ → τ) (reply : Reply σ α) : Reply τ α :=
  ⟨reply.answer, reply.posted, view reply.engine⟩

/-- Seen from outside, the engine is a simulated one, where any targets may be refused at any
time. -/
structure Engine.Simulates {σ : Type} (engine : Engine σ) (view : σ → Simulation) : Prop where
  place (request : PlaceRequest) (state : σ) : ∃ refusedTargets,
    (engine.place request state).seenAs view
      = Simulation.place request { view state with refusedTargets }
  hangup (request : HangupRequest) (state : σ) :
    (engine.hangup request state).seenAs view = Simulation.hangup request (view state)

namespace Simulation

theorem simulates : engine.Simulates id where
  place _ state := ⟨state.refusedTargets, rfl⟩
  hangup _ _ := rfl

theorem callId_injective {first second : Nat} (same : callId first = callId second) :
    first = second := by
  simp only [callId, CallId.mk.injEq, String.append_right_inj] at same
  -- the digits can be read back
  have digits : Nat.toDigits 10 first = Nat.toDigits 10 second := by
    rw [← Nat.toList_repr, ← Nat.toList_repr]
    exact congrArg String.toList same
  rw [← Nat.ofDigitChars_ten_toDigits (n := first), digits, Nat.ofDigitChars_ten_toDigits]

/-- The identifier is one of those that were given out. -/
def Given (simulation : Simulation) (id : CallId) : Prop :=
  ∃ number ≤ simulation.placed.length, id = callId number

theorem Given.mono {before after : Simulation} {id : CallId} (given : before.Given id)
    (more : before.placed.length ≤ after.placed.length) : after.Given id := by
  obtain ⟨number, least, rfl⟩ := given
  exact ⟨number, Nat.le_trans least more, rfl⟩

theorem not_given_next (simulation : Simulation) :
    ¬ simulation.Given (callId (simulation.placed.length + 1)) := by
  rintro ⟨number, least, same⟩
  have := callId_injective same
  omega

/-- What of a simulated engine is as it was, whatever it is asked. -/
structure Continues (before after : Simulation) : Prop where
  fixedId : after.fixedId = before.fixedId
  autoClose : after.autoClose = before.autoClose
  placed : before.placed.length ≤ after.placed.length

theorem Continues.refl (simulation : Simulation) : Continues simulation simulation :=
  ⟨rfl, rfl, Nat.le_refl _⟩

theorem Continues.trans {first second third : Simulation} (begun : Continues first second)
    (goesOn : Continues second third) : Continues first third where
  fixedId := goesOn.fixedId.trans begun.fixedId
  autoClose := goesOn.autoClose.trans begun.autoClose
  placed := Nat.le_trans begun.placed goesOn.placed

end Simulation

variable {σ : Type} {engine : Engine σ} {view : σ → Simulation}

/-! ## The engine goes on -/

namespace Engine.Simulates

theorem continues_place (simulates : engine.Simulates view) (request : PlaceRequest) (state : σ) :
    Simulation.Continues (view state) (view (engine.place request state).engine) := by
  obtain ⟨refusedTargets, reply⟩ := simulates.place request state
  have seen : view (engine.place request state).engine = _ := congrArg Reply.engine reply
  rw [seen, Simulation.place]
  split
  · exact ⟨rfl, rfl, Nat.le_refl _⟩
  · exact ⟨rfl, rfl, by simp⟩

theorem continues_hangUp (simulates : engine.Simulates view) (policy : HangupPolicy)
    (call : CallHandle) (state : σ) :
    Simulation.Continues (view state) (view (engine.hangUp policy call state).2) := by
  have seen : view (engine.hangUp policy call state).2 = _ :=
    congrArg Reply.engine (simulates.hangup ⟨call, policy⟩ state)
  rw [seen]
  exact ⟨rfl, rfl, Nat.le_refl _⟩

theorem continues_hangUpEach (simulates : engine.Simulates view) (policy : HangupPolicy)
    (calls : List TrackedCall) (state : σ) :
    Simulation.Continues (view state) (view (engine.hangUpEach policy calls state).2) := by
  induction calls generalizing state with
  | nil => exact .refl _
  | cons call rest inductionHypothesis =>
    exact (simulates.continues_hangUp policy call.call state).trans (inductionHypothesis _)

theorem continues_dial (simulates : engine.Simulates view) (policy : HangupPolicy) (group : Group)
    (media : Media) (peer : Peer) (calls : CallTable) (state : σ) :
    Simulation.Continues (view state)
      (view (FanOut.dial engine policy group media peer calls state).2.2) := by
  have placed := simulates.continues_place ⟨peer.account, peer.target, media⟩ state
  simp only [FanOut.dial]
  split
  · exact placed
  · split
    · exact placed
    · exact placed.trans (simulates.continues_hangUp policy _ _)

theorem continues_dialEach (simulates : engine.Simulates view) (policy : HangupPolicy)
    (group : Group) (media : Media) (peers : List Peer) (calls : CallTable) (state : σ) :
    Simulation.Continues (view state)
      (view (FanOut.dialEach engine policy group media peers calls state).2.2) := by
  induction peers generalizing calls state with
  | nil => exact .refl _
  | cons peer rest inductionHypothesis =>
    exact (simulates.continues_dial policy group media peer calls state).trans
      (inductionHypothesis _ _)

theorem continues_perform (simulates : engine.Simulates view) (board : Switchboard)
    (operation : Switchboard.Operation) (state : σ) :
    Simulation.Continues (view state) (view (board.perform engine operation state).2) := by
  cases operation with
  | beginTurn | reclaim | shutdown => exact .refl _
  | event event =>
    cases event with
    | progress | closed => exact .refl _
    | established id =>
      simp only [Switchboard.perform, Switchboard.handleEvent, Switchboard.answered]
      split
      · exact .refl _
      · split
        · exact .refl _
        · exact simulates.continues_hangUpEach _ _ _
  | request request =>
    have handled := Switchboard.handled engine board request state
    simp only [Switchboard.perform]
    generalize board.handleRequest engine request state = done at handled ⊢
    cases handled with
    | refused | registered => exact .refl _
    | @called name media group attempts grown next found dialed =>
      have continues := simulates.continues_dialEach board.config.supersede group media group.peers
        board.calls state
      rw [dialed] at continues
      exact continues
    | @hungUp name group attempts next found hung =>
      have continues := simulates.continues_hangUpEach board.config.groupHangup
        (board.calls.inGroup group.id) state
      rw [hung] at continues
      exact continues

end Engine.Simulates

/-! ## Hanging up -/

namespace HangupAttempt

/-- A hangup that is accepted, and upon which the call is reported closed. -/
def closing (policy : HangupPolicy) (call : TrackedCall) : HangupAttempt :=
  ⟨⟨call.call, policy⟩, none, [.closed call.id policy.reason]⟩

theorem effects_closing (policy : HangupPolicy) (warning : CallId → EngineError → Warning)
    (call : TrackedCall) : (closing policy call).effects warning
      = [.hangup ⟨call.call, policy⟩ none, .post (.closed call.id policy.reason)] :=
  rfl

/-- Each request to hang up a call comes with the report that it is closed. -/
theorem posted_of_closing {policy : HangupPolicy} {calls : List TrackedCall}
    (warning : CallId → EngineError → Warning) {request : HangupRequest}
    (member : request ∈ Effect.hangups
      ((calls.map (closing policy)).flatMap (·.effects warning))) :
    ∃ call ∈ calls, call.id = request.call.id ∧
      .post (.closed call.id policy.reason)
        ∈ (calls.map (closing policy)).flatMap (·.effects warning) := by
  rw [hangups_flatMap, List.map_map] at member
  obtain ⟨call, present, rfl⟩ := List.mem_map.1 member
  refine ⟨call, present, rfl, ?_⟩
  apply List.mem_flatMap.2
  exact ⟨closing policy call, List.mem_map_of_mem present, by simp [effects_closing]⟩

end HangupAttempt

theorem Engine.Simulates.hangUpEach_eq (simulates : engine.Simulates view) (policy : HangupPolicy)
    (calls : List TrackedCall) {state : σ} (closes : (view state).autoClose = true) :
    (engine.hangUpEach policy calls state).1 = calls.map (HangupAttempt.closing policy) := by
  induction calls generalizing state with
  | nil => rfl
  | cons call rest inductionHypothesis =>
    have first : (engine.hangUp policy call.call state).1 = HangupAttempt.closing policy call := by
      have reply := simulates.hangup ⟨call.call, policy⟩ state
      simp only [Reply.seenAs, Simulation.hangup, closes, if_true, Reply.mk.injEq] at reply
      simp only [Engine.hangUp, reply]
      rfl
    have others := inductionHypothesis
      ((simulates.continues_hangUp policy call.call state).autoClose.trans closes)
    simp only [Engine.hangUpEach, first, others, List.map_cons]

/-! ## Placing calls -/

namespace FanOut

variable {policy : HangupPolicy} {group : Group} {media : Media} {calls grown : CallTable}
  {state next : σ}

/-- The engine never gives out the identifier of a tracked call, so no new call has to go. -/
theorem fresh_dial (simulates : engine.Simulates view) (unfixed : (view state).fixedId = none)
    (given : ∀ call ∈ calls.calls, (view state).Given call.id) {peer : Peer}
    {attempt : DialAttempt}
    (dialed : dial engine policy group media peer calls state = (attempt, grown, next)) :
    Effect.hangups attempt.cleanup = [] ∧ ∀ call, attempt.tracked? = some call →
      ¬ (view state).Given call.id ∧ (view next).Given call.id := by
  obtain ⟨refusedTargets, reply⟩ := simulates.place ⟨peer.account, peer.target, media⟩ state
  simp only [Reply.seenAs, Simulation.place, Simulation.nextId, unfixed, Option.getD_none] at reply
  simp only [dial] at dialed
  split at reply
  · -- the target is refused
    simp only [Reply.mk.injEq] at reply
    simp only [reply.1, Prod.mk.injEq] at dialed
    obtain ⟨rfl, _, _⟩ := dialed
    refine ⟨rfl, fun call tracked => ?_⟩
    cases tracked
  · simp only [Reply.mk.injEq] at reply
    obtain ⟨answer, _, seen⟩ := reply
    have new := (view state).not_given_next
    have absent : calls.contains (Simulation.callId ((view state).placed.length + 1)) = false := by
      simp only [CallTable.contains, List.any_eq_false, decide_eq_true_eq]
      intro call member same
      exact new (same ▸ given call member)
    simp only [answer, CallTable.insert, TrackedCall.id, absent, Bool.false_eq_true, if_false,
      Prod.mk.injEq] at dialed
    obtain ⟨rfl, _, rfl⟩ := dialed
    refine ⟨rfl, fun call tracked => ?_⟩
    obtain rfl := Option.some.inj tracked
    refine ⟨new, (view state).placed.length + 1, ?_, rfl⟩
    simp [seen]

theorem fresh_dialEach (simulates : engine.Simulates view)
    (unfixed : (view state).fixedId = none)
    (given : ∀ call ∈ calls.calls, (view state).Given call.id) {peers : List Peer}
    {attempts : List DialAttempt}
    (dialed : dialEach engine policy group media peers calls state = (attempts, grown, next)) :
    (∀ attempt ∈ attempts, Effect.hangups attempt.cleanup = []) ∧
      ∀ call ∈ attempts.filterMap (·.tracked?),
        ¬ (view state).Given call.id ∧ (view next).Given call.id := by
  induction peers generalizing calls state attempts with
  | nil =>
    simp only [dialEach, Prod.mk.injEq] at dialed
    obtain ⟨rfl, _, _⟩ := dialed
    exact ⟨by simp, by simp⟩
  | cons peer rest inductionHypothesis =>
    obtain ⟨attempt, later, between, middle, rfl, first, others⟩ := dialEach_cons dialed
    have begun := simulates.continues_dial policy group media peer calls state
    have goesOn := simulates.continues_dialEach policy group media rest between middle
    rw [first] at begun
    rw [others] at goesOn
    obtain ⟨keptFirst, freshFirst⟩ := fresh_dial simulates unfixed given first
    have known : ∀ call ∈ between.calls, (view middle).Given call.id := by
      intro call member
      obtain ⟨_, ⟨_, rfl⟩ | ⟨placed, tracked, inserted⟩⟩ := dial_cases first
      · exact (given call member).mono begun.placed
      · obtain ⟨_, rfl⟩ := CallTable.insert_eq_ok.1 inserted
        rcases List.mem_append.1 member with old | new
        · exact (given call old).mono begun.placed
        · obtain rfl := List.mem_singleton.1 new
          exact (freshFirst _ tracked).2
    obtain ⟨kept, fresh⟩ := inductionHypothesis (begun.fixedId.trans unfixed) known others
    constructor
    · intro other member
      rcases List.mem_cons.1 member with rfl | member
      · exact keptFirst
      · exact kept other member
    · intro call member
      obtain ⟨other, present, same⟩ := List.mem_filterMap.1 member
      rcases List.mem_cons.1 present with rfl | present
      · obtain ⟨new, placed⟩ := freshFirst call same
        exact ⟨new, placed.mono goesOn.placed⟩
      · -- what is new later on was new before
        obtain ⟨new, placed⟩ := fresh call (List.mem_filterMap.2 ⟨other, present, same⟩)
        exact ⟨fun old => new (old.mono begun.placed), placed⟩

end FanOut

/-! ## Operations -/

namespace Switchboard

variable {board : Switchboard} {state : σ}

/-- What an operation comes to while the engine goes from one state to another: whatever is tracked
was tracked before or is new, and whatever is hung up was placed before and is reported closed. -/
structure Follows (board : Switchboard) (before after : Simulation) (outcome : Outcome Report) :
    Prop where
  tracked : ∀ call ∈ outcome.board.calls.calls, (∃ old ∈ board.calls.calls, old.id = call.id) ∨
    ¬ before.Given call.id ∧ after.Given call.id
  posted : ∀ request ∈ Effect.hangups outcome.effects, before.Given request.call.id ∧
    ∃ reason, .post (.closed request.call.id reason) ∈ outcome.effects

theorem Follows.of_quiet {before after : Simulation} {outcome : Outcome Report}
    (tracked : ∀ call ∈ outcome.board.calls.calls, ∃ old ∈ board.calls.calls, old.id = call.id)
    (quiet : Effect.hangups outcome.effects = []) : board.Follows before after outcome where
  tracked call member := .inl (tracked call member)
  posted := by simp [quiet]

/-- Hanging up tracked calls, whatever else is done that asks nothing of the engine. -/
theorem Follows.of_hangups (simulates : engine.Simulates view)
    (closes : (view state).autoClose = true)
    (given : ∀ call ∈ board.calls.calls, (view state).Given call.id) {policy : HangupPolicy}
    {calls : List TrackedCall} (among : ∀ call ∈ calls, call ∈ board.calls.calls)
    (warning : CallId → EngineError → Warning) {after : Switchboard} {report : Report}
    {others : List Effect} (quiet : Effect.hangups others = [])
    (tracked : ∀ call ∈ after.calls.calls, ∃ old ∈ board.calls.calls, old.id = call.id)
    (next : Simulation) :
    board.Follows (view state) next
      ⟨report, after, (engine.hangUpEach policy calls state).1.flatMap (·.effects warning)
        ++ others⟩ := by
  refine ⟨fun call member => .inl (tracked call member), ?_⟩
  intro request member
  simp only [simulates.hangUpEach_eq policy calls closes, Effect.hangups_append, quiet,
    List.append_nil] at member ⊢
  obtain ⟨call, present, same, posted⟩ := HangupAttempt.posted_of_closing warning member
  rw [← same]
  exact ⟨given call (among call present), policy.reason, List.mem_append_left _ posted⟩

theorem follows_perform (simulates : engine.Simulates view)
    (unfixed : (view state).fixedId = none) (closes : (view state).autoClose = true)
    (given : ∀ call ∈ board.calls.calls, (view state).Given call.id) (operation : Operation) :
    board.Follows (view state) (view (board.perform engine operation state).2)
      (board.perform engine operation state).1 := by
  have same : ∀ call ∈ board.calls.calls, ∃ old ∈ board.calls.calls, old.id = call.id :=
    fun call member => ⟨call, member, rfl⟩
  cases operation with
  | beginTurn => exact .of_quiet same rfl
  | shutdown => exact .of_quiet nofun rfl
  | reclaim ticket =>
    refine .of_quiet same ?_
    simp only [perform, reclaim, Outcome.map]
    cases (board.releases.release ticket board.turn).1 <;> rfl
  | event event =>
    cases event with
    | progress id => exact .of_quiet same rfl
    | closed id reason =>
      simp only [perform, handleEvent, hungUp, Outcome.map]
      split
      · exact .of_quiet same rfl
      · exact .of_quiet (fun call member => ⟨call, (List.mem_filter.1 member).1, rfl⟩) rfl
    | established id =>
      simp only [perform, handleEvent, answered, Outcome.map]
      split
      · refine .of_quiet same ?_
        split <;> rfl
      · rename_i call found
        split
        · exact .of_quiet same rfl
        · simp only [supersede, List.append_assoc]
          refine .of_hangups simulates closes given ?_ _ ?_ ?_ _
          · exact fun other member =>
              ((CallTable.mem_siblings (CallTable.find?_self found)).1 member).1
          · rw [Effect.hangups_append, ReleaseTable.hangups_deferAll]
            rfl
          · -- the winner keeps its identifier
            intro other member
            obtain ⟨present, _⟩ := CallTable.mem_eraseAll.1 member
            obtain ⟨old, tracked, rfl⟩ := List.mem_map.1 present
            refine ⟨old, tracked, ?_⟩
            split <;> rfl
  | request request =>
    have handled := handled engine board request state
    simp only [perform]
    generalize board.handleRequest engine request state = done at handled ⊢
    cases handled with
    | refused => exact .of_quiet same rfl
    | registered =>
      refine .of_quiet same ?_
      simp [Outcome.map, Effect.hangups, Effect.hangup?, Function.comp_def]
    | called found dialed =>
      obtain ⟨kept, fresh⟩ := FanOut.fresh_dialEach simulates unfixed given dialed
      constructor
      · intro call member
        simp only [Outcome.map, (FanOut.dialEach_calls dialed).1] at member
        rcases List.mem_append.1 member with old | new
        · exact .inl (same call old)
        · exact .inr (fresh call new)
      · intro request member
        simp only [Outcome.map, Effect.hangups, List.filterMap_flatMap] at member
        obtain ⟨attempt, present, asked⟩ := List.mem_flatMap.1 member
        change request ∈ Effect.hangups (attempt.effects _) at asked
        rw [DialAttempt.hangups_effects, kept attempt present] at asked
        cases asked
    | @hungUp name group attempts next found hung =>
      have among : ∀ call ∈ board.calls.inGroup group.id, call ∈ board.calls.calls :=
        fun call member => (CallTable.mem_inGroup.1 member).1
      have follows : board.Follows (view state) (view next) ⟨.answer (.ok (.hungUp name
          (attempts.countP (·.isAccepted)))), board, (engine.hangUpEach board.config.groupHangup
            (board.calls.inGroup group.id) state).1.flatMap (·.effects fun id cause =>
              .groupHangupFailed id name cause) ++ []⟩ :=
        .of_hangups simulates closes given among _ rfl same _
      rw [hung, List.append_nil] at follows
      exact follows

/-- A call that is reported closed is not tracked any more. -/
theorem untracked_of_closed (engine : Engine σ) (board : Switchboard) (id : CallId)
    (reason : Option String) (state : σ) :
    ∀ call ∈ (board.perform engine (.event (.closed id reason)) state).1.board.calls.calls,
      call.id ≠ id := by
  intro call member
  simp only [perform, handleEvent, hungUp, Outcome.map] at member
  split at member
  · rename_i absent
    simpa using List.find?_eq_none.1 absent call member
  · simpa using (List.mem_filter.1 member).2

end Switchboard

/-! ## Along a session -/

/-- The call was asked to hang up on one of the turns. -/
def Turn.Asked (turns : List (Turn σ)) (id : CallId) : Prop :=
  ∃ turn ∈ turns, ∃ request ∈ Effect.hangups turn.log.effects, request.call.id = id

theorem Turn.asked_append {turns : List (Turn σ)} {turn : Turn σ} {id : CallId} :
    Asked (turns ++ [turn]) id ↔
      Asked turns id ∨ ∃ request ∈ Effect.hangups turn.log.effects, request.call.id = id := by
  simp [Asked, or_and_right, exists_or]

variable {turns : List (Turn σ)} {service : Service σ}

/-- How the calls of a service, its mailbox and what the engine was asked fit together. -/
structure Attended (view : σ → Simulation) (turns : List (Turn σ)) (service : Service σ) :
    Prop where
  tracked : ∀ call ∈ service.board.calls.calls, (view service.engine).Given call.id
  asked : ∀ id, Turn.Asked turns id → (view service.engine).Given id
  /-- A tracked call that was asked to hang up will be reported closed. -/
  waiting : ∀ call ∈ service.board.calls.calls, Turn.Asked turns call.id →
    ∃ reason, .event (.closed call.id reason) ∈ service.mailbox

namespace Attended

variable {next : Service σ} {log : TurnLog}

/-- A client's message only adds to what waits. -/
theorem send (attended : Attended view turns service) {message : Message}
    {ahead behind : List Message} (arrives : message.Arrives turns service ahead behind)
    (nextSlot : Nat) : Attended view turns (service.receive ahead message behind nextSlot) where
  tracked := attended.tracked
  asked := attended.asked
  waiting call member asked := by
    obtain ⟨reason, waits⟩ := attended.waiting call member asked
    rw [arrives.mailbox] at waits
    rcases List.mem_append.1 waits with before | after
    · exact ⟨reason, List.mem_append_left _ before⟩
    · exact ⟨reason, List.mem_append_right _ (List.mem_cons_of_mem _ after)⟩

theorem handle (attended : Attended view turns service) (simulates : engine.Simulates view)
    (unfixed : (view service.engine).fixedId = none)
    (closes : (view service.engine).autoClose = true) (connected : service.isConnected = true)
    {message : Message} {rest : List Message} (waiting : service.mailbox = message :: rest)
    (running : message.operation ≠ .shutdown)
    (handled : { service with board := service.board.beginTurn, mailbox := rest }.handle engine
      message = (log, next)) : Attended view (turns ++ [⟨service, log⟩]) next := by
  obtain ⟨rfl, effects⟩ := Service.handled_eq connected running handled
  have goesOn := simulates.continues_perform service.board.beginTurn message.operation
    service.engine
  have given : ∀ call ∈ service.board.beginTurn.calls.calls, (view service.engine).Given call.id :=
    attended.tracked
  have follows := Switchboard.follows_perform simulates unfixed closes given message.operation
  constructor
  · intro call member
    rcases follows.tracked call member with ⟨old, present, same⟩ | ⟨_, given⟩
    · exact same ▸ (attended.tracked old present).mono goesOn.placed
    · exact given
  · intro id asked
    rcases Turn.asked_append.1 asked with old | ⟨request, member, rfl⟩
    · exact (attended.asked id old).mono goesOn.placed
    · rw [effects] at member
      exact (follows.posted request member).1.mono goesOn.placed
  · intro call member asked
    rcases Turn.asked_append.1 asked with old | ⟨request, hungUp, same⟩
    · rcases follows.tracked call member with ⟨before, present, same⟩ | ⟨new, _⟩
      · -- its closed event waits, and it is not the message of this turn
        obtain ⟨reason, waits⟩ := attended.waiting before present (same ▸ old)
        rw [waiting, same] at waits
        rcases List.mem_cons.1 waits with taken | later
        · subst taken
          exact absurd rfl (service.board.beginTurn.untracked_of_closed engine call.id reason
            service.engine call member)
        · exact ⟨reason, List.mem_append_left _ later⟩
      · exact absurd (attended.asked call.id old) new
    · rw [effects] at hungUp
      obtain ⟨_, reason, posted⟩ := follows.posted request hungUp
      rw [same] at posted
      refine ⟨reason, List.mem_append_right _ ?_⟩
      exact List.mem_filterMap.2 ⟨_, posted, rfl⟩

end Attended

namespace Session

theorem attended (session : Session engine turns service) (simulates : engine.Simulates view)
    (connected : service.isConnected = true) (unfixed : (view service.engine).fixedId = none)
    (closes : (view service.engine).autoClose = true) : Attended view turns service := by
  induction session with
  | start started =>
    obtain ⟨board, made, rfl⟩ := Service.start_eq started
    rw [Switchboard.start_eq made]
    exact ⟨nofun, fun id asked => by simp [Turn.Asked] at asked, nofun⟩
  | send _ arrives nextSlot inductionHypothesis =>
    exact (inductionHypothesis connected unfixed closes).send arrives nextSlot
  | disconnect => cases connected
  | @turn turns service next log before turned inductionHypothesis =>
    have present := Service.turn?_isConnected turned ▸ connected
    rcases (Service.turn?_cases turned).2 with ⟨_, gone, _⟩ | ⟨message, rest, waiting, handled⟩
    · rw [gone] at present
      cases present
    · -- the engine was set up the same way before the turn
      have state := Service.handle_engine engine
        { service with board := service.board.beginTurn, mailbox := rest } message
      have goesOn := simulates.continues_perform service.board.beginTurn message.operation
        service.engine
      rw [handled] at state
      rw [← state] at goesOn
      rw [goesOn.fixedId] at unfixed
      rw [goesOn.autoClose] at closes
      have attended := inductionHypothesis present unfixed closes
      cases message with
      | request | event | reclaim =>
        exact attended.handle simulates unfixed closes present waiting nofun handled
      | shutdown slot =>
        obtain ⟨rfl, rfl⟩ := Prod.mk.inj handled
        refine ⟨nofun, fun id asked => ?_, nofun⟩
        rcases Turn.asked_append.1 asked with old | ⟨_, hungUp, _⟩
        · exact attended.asked id old
        · cases hungUp

/-- When the mailbox is empty, no tracked call was ever asked to hang up. -/
theorem unasked (session : Session engine turns service) (simulates : engine.Simulates view)
    (connected : service.isConnected = true) (unfixed : (view service.engine).fixedId = none)
    (closes : (view service.engine).autoClose = true) (idle : service.mailbox = [])
    {call : TrackedCall} (tracked : call ∈ service.board.calls.calls) :
    ¬ Turn.Asked turns call.id := by
  intro asked
  obtain ⟨reason, waits⟩ :=
    (session.attended simulates connected unfixed closes).waiting call tracked asked
  rw [idle] at waits
  cases waits

end Session
end CallFork
