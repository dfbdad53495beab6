import CallFork.Service.Mailbox

/-!
# Running until the mailbox is empty

`Service.settle` takes turns as long as there are messages. It comes to an end whatever the engine
does, because each turn makes one of these smaller and leaves those before it as they are:

1. whether the service runs;
2. the requests in the mailbox, which no turn adds to;
3. the calls that still ring: only the winner of a race makes the engine hang up calls and post
   events, and it does not ring any more;
4. the messages in the mailbox, together with the turns for which tickets come back too early.
-/

namespace CallFork

/-! ## Calls that ring -/

namespace TrackedCall

def isDialing (tracked : TrackedCall) : Bool :=
  tracked.state = .dialing

end TrackedCall

namespace CallTable

/-- How many tracked calls still ring. -/
def dialing (table : CallTable) : Nat :=
  table.calls.countP (·.isDialing)

theorem dialing_erase_le (table : CallTable) (id : CallId) :
    (table.erase id).dialing ≤ table.dialing := by
  simpa [dialing, erase] using List.filter_sublist.countP_le

theorem dialing_eraseAll_le (table : CallTable) (ids : List CallId) :
    (table.eraseAll ids).dialing ≤ table.dialing := by
  induction ids generalizing table with
  | nil => exact Nat.le_refl _
  | cons id rest ih => exact Nat.le_trans (ih (table.erase id)) (dialing_erase_le table id)

theorem dialing_establish_lt {table : CallTable} {id : CallId} {tracked : TrackedCall}
    (found : table.find? id = some tracked) (rings : tracked.state = .dialing) :
    (table.establish id).dialing < table.dialing := by
  obtain ⟨calls⟩ := table
  simp only [find?, dialing, establish] at *
  have weaker : ∀ call : TrackedCall,
      (if call.id = id then { call with state := CallState.established } else call).isDialing
        → call.isDialing := by
    intro call
    split <;> simp_all [TrackedCall.isDialing]
  induction calls with
  | nil => simp at found
  | cons first rest ih =>
    rw [List.map_cons, List.countP_cons, List.countP_cons]
    by_cases same : first.id = id
    · simp only [List.find?_cons, same, decide_true, Option.some.injEq] at found
      subst found
      have le : List.countP (·.isDialing) (rest.map fun tracked =>
          if tracked.id = id then { tracked with state := CallState.established } else tracked)
          ≤ List.countP (·.isDialing) rest := by
        rw [List.countP_map]
        exact List.countP_mono_left fun call _ => weaker call
      simp only [same, if_true, TrackedCall.isDialing, rings] at le ⊢
      simpa [TrackedCall.isDialing] using Nat.lt_succ_of_le le
    · simp only [List.find?_cons, same, decide_false] at found
      have := ih found
      simp only [same, if_false]
      omega

end CallTable

/-! ## Tickets that come back too early -/

namespace ReleaseTable

/-- For how many turns after `turn` tickets may come back too early. -/
def earliness (table : ReleaseTable) (turn : Nat) : Nat :=
  table.pending.foldr (fun entry total => entry.deferredTurn + 1 - turn + total) 0

theorem earliness_succ_le (table : ReleaseTable) (turn : Nat) :
    table.earliness (turn + 1) ≤ table.earliness turn := by
  obtain ⟨pending, _⟩ := table
  simp only [earliness]
  induction pending with
  | nil => exact Nat.le_refl _
  | cons entry rest ih => simp only [List.foldr_cons]; omega

theorem earliness_succ_lt {table : ReleaseTable} {entry : PendingRelease} {turn : Nat}
    (kept : entry ∈ table.pending) (early : turn + 1 ≤ entry.deferredTurn) :
    table.earliness (turn + 1) < table.earliness turn := by
  obtain ⟨pending, issued⟩ := table
  simp only [earliness] at *
  induction pending with
  | nil => cases kept
  | cons first rest ih =>
    simp only [List.foldr_cons]
    have := earliness_succ_le ⟨rest, issued⟩ turn
    simp only [earliness] at this
    rcases List.mem_cons.1 kept with rfl | later
    · omega
    · have := ih later
      omega

theorem earliness_filter_le (table : ReleaseTable) (keep : PendingRelease → Bool) (turn : Nat) :
    earliness { table with pending := table.pending.filter keep } turn
      ≤ table.earliness turn := by
  obtain ⟨pending, _⟩ := table
  simp only [earliness]
  induction pending with
  | nil => exact Nat.le_refl _
  | cons entry rest ih =>
    by_cases kept : keep entry
    · simp only [List.filter_cons, kept, if_true, List.foldr_cons]; omega
    · simp only [List.filter_cons, kept, Bool.false_eq_true, if_false, List.foldr_cons]
      omega

/-- A ticket that comes back is posted again at most as often as it may come back too early. -/
theorem earliness_release (table : ReleaseTable) (ticket : Ticket) (turn : Nat) :
    ((table.release ticket (turn + 1)).1.rescheduled ticket).length
        + (table.release ticket (turn + 1)).2.earliness (turn + 1)
      ≤ table.earliness turn := by
  unfold release
  cases found : table.find? ticket with
  | none => simpa [Delivery.rescheduled] using earliness_succ_le table turn
  | some entry =>
    by_cases early : turn + 1 ≤ entry.deferredTurn
    · have := earliness_succ_lt (List.mem_of_find?_eq_some found) early
      simp only [early, if_true, Delivery.rescheduled, List.length_singleton]
      omega
    · have kept := earliness_filter_le table (fun other => other.ticket ≠ ticket) (turn + 1)
      simp only [early, if_false, Delivery.rescheduled, List.length_nil, Nat.zero_add]
      exact Nat.le_trans kept (earliness_succ_le table turn)

end ReleaseTable

/-! ## What a turn posts -/

namespace Message

/-- The message is a request of an operator, or a shutdown. -/
def isCommand (message : Message) : Bool :=
  message.slot?.isSome

theorem isCommand_of_effect {effect : Effect} {message : Message}
    (posted : ofEffect? effect = some message) : message.isCommand = false := by
  cases effect <;> simp only [ofEffect?, Option.some.injEq, reduceCtorEq] at posted
    <;> subst posted <;> rfl

theorem countP_isCommand_posted (effects : List Effect) :
    (effects.filterMap ofEffect?).countP isCommand = 0 := by
  rw [List.countP_eq_zero]
  intro message posted
  obtain ⟨effect, _, same⟩ := List.mem_filterMap.1 posted
  simp [isCommand_of_effect same]

end Message

namespace Switchboard

variable {σ : Type}

/-- An event either ends the ringing of a call, or posts nothing. -/
theorem handleEvent_quiet (engine : Engine σ) (board : Switchboard) (event : CallEvent)
    (state : σ) (outcome : Outcome (Option Resolution))
    (same : (board.handleEvent engine event state).1 = outcome) :
    outcome.board.calls.dialing < board.calls.dialing ∨
      outcome.board.calls.dialing ≤ board.calls.dialing
        ∧ outcome.effects.filterMap Message.ofEffect? = []
        ∧ outcome.board.releases = board.releases ∧ outcome.board.turn = board.turn := by
  subst same
  cases event with
  | progress id => exact .inr ⟨Nat.le_refl _, rfl, rfl, rfl⟩
  | closed id reason =>
    simp only [handleEvent, hungUp]
    split
    · exact .inr ⟨Nat.le_refl _, rfl, rfl, rfl⟩
    · exact .inr ⟨CallTable.dialing_erase_le _ _, rfl, rfl, rfl⟩
  | established id =>
    simp only [handleEvent, answered]
    split
    · refine .inr ⟨Nat.le_refl _, ?_, rfl, rfl⟩
      split <;> rfl
    · rename_i call found
      split
      · exact .inr ⟨Nat.le_refl _, rfl, rfl, rfl⟩
      · rename_i rings
        left
        have same : call.id = id := by
          simpa using List.find?_some found
        refine Nat.lt_of_le_of_lt (CallTable.dialing_eraseAll_le _ _) ?_
        exact CallTable.dialing_establish_lt (same ▸ found) rings

/-- A ticket that comes back posts nothing but itself, if it is too early. -/
theorem reclaim_posted (board : Switchboard) (ticket : Ticket) :
    ((board.reclaim ticket).effects.filterMap Message.ofEffect?).length
      = ((board.releases.release ticket board.turn).1.rescheduled ticket).length := by
  simp only [reclaim]
  cases (board.releases.release ticket board.turn).1 <;> rfl

end Switchboard

/-! ## Settling -/

namespace Service

variable {σ : Type}

/-- What is left to do, as four numbers of which each turn makes one smaller. -/
def workload (service : Service σ) : Nat × Nat × Nat × Nat :=
  (service.isRunning.toNat, service.mailbox.countP Message.isCommand,
    service.board.calls.dialing,
    service.mailbox.length + service.board.releases.earliness service.board.turn)

theorem countP_isCommand_absorb {α : Type} (service : Service σ) (outcome : Outcome α)
    (state : σ) :
    (service.absorb outcome state).mailbox.countP Message.isCommand
      = service.mailbox.countP Message.isCommand := by
  simp only [absorb, List.countP_append]
  split
  · rw [Message.countP_isCommand_posted, Nat.add_zero]
  · rfl

theorem length_absorb_le {α : Type} (service : Service σ) (outcome : Outcome α) (state : σ) :
    (service.absorb outcome state).mailbox.length
      ≤ service.mailbox.length + (outcome.effects.filterMap Message.ofEffect?).length := by
  simp only [absorb, List.length_append]
  split
  · exact Nat.le_refl _
  · simp

/-- A stopped service has less to do than a running one. -/
theorem workload_lt_of_stopped {service next : Service σ} (running : service.isRunning = true)
    (stopped : next.isRunning = false) :
    WellFoundedRelation.rel next.workload service.workload :=
  Prod.Lex.left _ _ (by rw [running, stopped]; exact Nat.zero_lt_one)

/-- A service with fewer requests in its mailbox has less to do. -/
theorem workload_lt_of_commands {service next : Service σ}
    (same : next.isRunning = service.isRunning)
    (fewer : next.mailbox.countP Message.isCommand < service.mailbox.countP Message.isCommand) :
    WellFoundedRelation.rel next.workload service.workload := by
  unfold workload
  rw [same]
  exact Prod.Lex.right _ (Prod.Lex.left _ _ fewer)

/-- A service with as many requests and fewer calls that ring has less to do. -/
theorem workload_lt_of_dialing {service next : Service σ}
    (same : next.isRunning = service.isRunning)
    (commands : next.mailbox.countP Message.isCommand = service.mailbox.countP Message.isCommand)
    (fewer : next.board.calls.dialing < service.board.calls.dialing) :
    WellFoundedRelation.rel next.workload service.workload := by
  unfold workload
  rw [same, commands]
  exact Prod.Lex.right _ (Prod.Lex.right _ (Prod.Lex.left _ _ fewer))

/-- A service with as many requests, no more calls that ring, and fewer messages and early tickets
has less to do. -/
theorem workload_lt_of_length {service next : Service σ}
    (same : next.isRunning = service.isRunning)
    (commands : next.mailbox.countP Message.isCommand = service.mailbox.countP Message.isCommand)
    (ringing : next.board.calls.dialing ≤ service.board.calls.dialing)
    (fewer : next.mailbox.length + next.board.releases.earliness next.board.turn
      < service.mailbox.length + service.board.releases.earliness service.board.turn) :
    WellFoundedRelation.rel next.workload service.workload := by
  rcases Nat.lt_or_eq_of_le ringing with less | equal
  · exact workload_lt_of_dialing same commands less
  · unfold workload
    rw [same, commands, equal]
    exact Prod.Lex.right _ (Prod.Lex.right _ (Prod.Lex.right _ fewer))

/-- Handling a message leaves less to do than there was with the message in the mailbox. -/
theorem workload_lt_of_handle (engine : Engine σ) (service : Service σ) (message : Message)
    (rest : List Message) (running : service.isRunning = true)
    (waiting : service.mailbox = message :: rest) :
    WellFoundedRelation.rel
      ({ service with board := service.board.beginTurn, mailbox := rest }.handle
        engine message).2.workload service.workload := by
  have commands : service.mailbox.countP Message.isCommand
      = rest.countP Message.isCommand + if message.isCommand then 1 else 0 := by
    rw [waiting, List.countP_cons]
  have length : service.mailbox.length = rest.length + 1 := by
    rw [waiting, List.length_cons]
  cases message with
  -- the first two need no look at what was posted
  | shutdown slot => exact workload_lt_of_stopped running rfl
  | request request slot =>
    refine workload_lt_of_commands rfl ?_
    simp only [handle, countP_isCommand_absorb]
    rw [commands]
    exact Nat.lt_succ_self _
  | event event =>
    -- a winner stops ringing; any other event posts nothing
    have kept : rest.countP Message.isCommand = service.mailbox.countP Message.isCommand :=
      commands.symm
    rcases Switchboard.handleEvent_quiet engine service.board.beginTurn event service.engine _ rfl
      with fewer | ⟨ringing, silent, releases, turn⟩
    · refine workload_lt_of_dialing rfl ?_ fewer
      simp only [handle, countP_isCommand_absorb]
      exact kept
    · refine workload_lt_of_length rfl ?_ ringing ?_
      · simp only [handle, countP_isCommand_absorb]
        exact kept
      · have le := length_absorb_le { service with board := service.board.beginTurn, mailbox := rest }
          (service.board.beginTurn.handleEvent engine event service.engine).1
          (service.board.beginTurn.handleEvent engine event service.engine).2
        have later := service.board.releases.earliness_succ_le service.board.turn
        simp only [handle]
        rw [silent, List.length_nil] at le
        simp only [absorb, releases, turn] at le ⊢
        simp only [Switchboard.beginTurn] at le later ⊢
        omega
  | reclaim ticket =>
    -- the ticket is posted again at most for the turns it comes too early
    have kept : rest.countP Message.isCommand = service.mailbox.countP Message.isCommand :=
      commands.symm
    refine workload_lt_of_length rfl ?_ (Nat.le_refl _) ?_
    · simp only [handle, countP_isCommand_absorb]
      exact kept
    · have le := length_absorb_le { service with board := service.board.beginTurn, mailbox := rest }
        (service.board.beginTurn.reclaim ticket) service.engine
      have again := service.board.releases.earliness_release ticket service.board.turn
      rw [Switchboard.reclaim_posted] at le
      simp only [handle]
      simp only [absorb, Switchboard.reclaim, Switchboard.beginTurn] at le ⊢
      omega

/-- Each turn leaves less to do. -/
theorem workload_lt_of_turn {engine : Engine σ} {service next : Service σ} {log : TurnLog}
    (turned : service.turn? engine = some (log, next)) :
    WellFoundedRelation.rel next.workload service.workload := by
  unfold turn? at turned
  cases running : service.isRunning with
  | false => simp [running] at turned
  | true =>
    simp only [running, Bool.not_true, Bool.false_eq_true, if_false] at turned
    cases waiting : service.mailbox with
    | nil =>
      simp only [waiting] at turned
      split at turned
      · simp at turned
      · simp only [Option.some.injEq, Prod.mk.injEq] at turned
        exact workload_lt_of_stopped running (turned.2 ▸ rfl)
    | cons message rest =>
      simp only [waiting, Option.some.injEq] at turned
      have less := workload_lt_of_handle engine service message rest running waiting
      rw [show next = _ from (congrArg Prod.snd turned).symm]
      simpa only [running] using less

/-- Takes turns until the mailbox is empty; the logs are in the order of the turns. -/
def settle (engine : Engine σ) (service : Service σ) : List TurnLog × Service σ :=
  match _taken : service.turn? engine with
  | none => ([], service)
  | some (log, next) =>
    let (logs, final) := next.settle engine
    (log :: logs, final)
termination_by service.workload
decreasing_by exact workload_lt_of_turn _taken

end Service
end CallFork
