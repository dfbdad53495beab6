import CallFork.Proofs.CommandTexts
import CallFork.Proofs.Draining
import CallFork.Proofs.FanOuts
import CallFork.Service

/-! # Directions on their way to the engine

The directions that a command names reach the engine with every call that it places, and those that
it leaves out are the configured ones. Only a request to call a group asks the engine to place
calls (`dials_handleEvent`, `dials_reclaim`), and it is refused before the first of them if neither
stream were active, however that came about; so no turn of a service asks for a call without media
(`audible_of_turn`).
-/

namespace CallFork

/-! ## Who asks for calls -/

namespace Effect

/-- Each call that was asked for has an active stream. -/
def Audible (effects : List Effect) : Prop :=
  ∀ dial ∈ dials effects, dial.1.media.audio ≠ .inactive ∨ dial.1.media.video ≠ .inactive

theorem dials_append (first second : List Effect) :
    dials (first ++ second) = dials first ++ dials second :=
  List.filterMap_append

theorem audible_of_none {effects : List Effect} (none : dials effects = []) : Audible effects := by
  intro dial member
  rw [none] at member
  cases member

theorem audible_flatMap {α : Type} {logs : List α} {effects : α → List Effect}
    (each : ∀ log ∈ logs, Audible (effects log)) : Audible (logs.flatMap effects) := by
  intro dial member
  rw [dials, List.filterMap_flatMap, List.mem_flatMap] at member
  obtain ⟨log, among, asked⟩ := member
  exact each log among dial asked

end Effect

theorem Service.dials_settled {σ : Type} (service : Service σ) (effects : List Effect) :
    Effect.dials (service.settled effects) = Effect.dials effects := by
  rw [settled, Effect.dials, List.filterMap_map]
  congr 1
  funext effect
  cases effect with
  | schedule ticket => cases service.isConnected <;> rfl
  | publish | place | hangup | post | warn => rfl

theorem HangupAttempt.dials_flatMap (warning : CallId → EngineError → Warning)
    (attempts : List HangupAttempt) :
    Effect.dials (attempts.flatMap (·.effects warning)) = [] := by
  rw [Effect.dials, filterMap_flatMap Effect.ignores_dial?]
  simp [Effect.dial?]

namespace FanOut

variable {σ : Type} {engine : Engine σ} {policy : HangupPolicy} {group : Group} {media : Media}

/-- Each peer is asked for once, and with the same media. -/
theorem dials_dialEach {peers : List Peer} {calls grown : CallTable} {state next : σ}
    {attempts : List DialAttempt}
    (dialed : dialEach engine policy group media peers calls state = (attempts, grown, next)) :
    (Effect.dials (attempts.flatMap (·.effects group.name))).map (·.1)
      = peers.map fun peer => ⟨peer.account, peer.target, media⟩ := by
  have each : (attempts.map (·.answer)).length = peers.length := by
    rw [List.length_map, ← length_dialEach engine peers calls state, dialed]
  obtain ⟨all, _⟩ := dialEach_goes dialed
  rw [DialAttempt.dials_flatMap, List.map_fst_zip (by simp), requests_eq all]
  -- what becomes of a peer does not change what was asked for
  conv_rhs => rw [← map_fst_entries each calls, List.map_map]
  rfl

end FanOut

namespace Switchboard

variable {σ : Type} {board : Switchboard}

/-- Each peer of a group is called with these media, unless that would be no media at all. -/
structure CallsWith (group : Group) (media : Media) (result : Except Error Answer)
    (effects : List Effect) : Prop where
  silent : media.audio = .inactive ∧ media.video = .inactive →
    result = .error .silentMedia ∧ Effect.dials effects = []
  called : media.audio ≠ .inactive ∨ media.video ≠ .inactive →
    ∃ report, result = .ok (.started report) ∧
      (Effect.dials effects).map (·.1) = group.peers.map fun peer =>
        ⟨peer.account, peer.target, media⟩

theorem callsWith_of_registered {name : String} {group : Group}
    (registered : board.groups.find? name = some group) (media : Media) (engine : Engine σ)
    (state : σ) :
    CallsWith group media (board.handleRequest engine (.startCall name media) state).1.result
      (board.handleRequest engine (.startCall name media) state).1.effects := by
  simp only [handleRequest, startCall, GroupTable.find, registered, FanOut.checkMedia]
  -- the media are complete by now, whether they were named or filled in
  constructor
  · intro silent
    rw [Media.isSilent_iff.2 silent]
    exact ⟨rfl, rfl⟩
  · intro audible
    rw [Media.isSilent_eq_false_iff.2 audible]
    exact ⟨_, rfl, FanOut.dials_dialEach rfl⟩

theorem CallsWith.of_dials {group : Group} {media : Media} {result : Except Error Answer}
    {effects others : List Effect} (calls : CallsWith group media result effects)
    (same : Effect.dials others = Effect.dials effects) : CallsWith group media result others where
  silent := same ▸ calls.silent
  called := same ▸ calls.called

theorem CallsWith.audible {group : Group} {media : Media} {result : Except Error Answer}
    {effects : List Effect} (calls : CallsWith group media result effects) :
    Effect.Audible effects := by
  cases silence : media.isSilent with
  | true => exact Effect.audible_of_none (calls.silent (Media.isSilent_iff.1 silence)).2
  | false =>
    have active := Media.isSilent_eq_false_iff.1 silence
    obtain ⟨_, _, asked⟩ := calls.called active
    intro dial member
    have among := List.mem_map_of_mem (f := (·.1)) member
    rw [asked] at among
    obtain ⟨peer, _, same⟩ := List.mem_map.1 among
    rw [← same]
    exact active

/-- No other request asks for calls. -/
theorem dials_handleRequest (engine : Engine σ) (board : Switchboard) {request : Request}
    (other : ∀ name media, request ≠ .startCall name media) (state : σ) :
    Effect.dials (board.handleRequest engine request state).1.effects = [] := by
  have handled := handled engine board request state
  generalize board.handleRequest engine request state = outcome at handled
  cases handled with
  | refused => rfl
  | registered => simp [Effect.dials, Effect.dial?]
  | called => exact absurd rfl (other _ _)
  | hungUp => exact HangupAttempt.dials_flatMap _ _

theorem audible_handleRequest (engine : Engine σ) (board : Switchboard) (request : Request)
    (state : σ) : Effect.Audible (board.handleRequest engine request state).1.effects := by
  cases request with
  | startCall name media =>
    cases registered : board.groups.find? name with
    | none =>
      simp only [handleRequest, startCall, GroupTable.find, registered]
      exact Effect.audible_of_none rfl
    | some group => exact (callsWith_of_registered registered media engine state).audible
  | createGroup | removeGroup | clearGroups | addPeer | hangupGroup | dump =>
    exact Effect.audible_of_none (dials_handleRequest engine board (by simp) state)

theorem dials_handleEvent (engine : Engine σ) (board : Switchboard) (event : CallEvent)
    (state : σ) : Effect.dials (board.handleEvent engine event state).1.effects = [] := by
  cases event with
  | progress => rfl
  | closed id reason =>
    simp only [handleEvent, hungUp]
    split <;> rfl
  | established id =>
    simp only [handleEvent, answered]
    split
    · split <;> rfl
    · split
      · rfl
      · simp only [supersede]
        rw [Effect.dials_append, Effect.dials_append, HangupAttempt.dials_flatMap, Effect.dials,
          ReleaseTable.filterMap_deferAll fun _ => rfl]
        simp [Effect.dials, Effect.dial?]

theorem dials_reclaim (board : Switchboard) (ticket : Ticket) :
    Effect.dials (board.reclaim ticket).effects = [] := by
  simp only [reclaim]
  cases (board.releases.release ticket board.turn).1 <;> rfl

/-- The configuration never changes. -/
theorem config_perform (engine : Engine σ) (board : Switchboard) (operation : Operation)
    (state : σ) : (board.perform engine operation state).1.board.config = board.config := by
  cases operation with
  | beginTurn | shutdown | reclaim => rfl
  | request request =>
    have handled := handled engine board request state
    simp only [perform, Outcome.map]
    generalize board.handleRequest engine request state = outcome at handled
    cases handled <;> rfl
  | event event =>
    simp only [perform, Outcome.map]
    cases event with
    | progress => rfl
    | closed id reason => simp only [handleEvent, hungUp_eq]
    | established id =>
      simp only [handleEvent, answered]
      split
      · rfl
      · split <;> rfl

end Switchboard

/-! ## Turns -/

namespace Service

variable {σ : Type} {engine : Engine σ} {service next : Service σ} {log : TurnLog}

/-- Handling a message asks for the calls of its request, if it is one. -/
theorem dials_handle (engine : Engine σ) (service : Service σ) (message : Message) :
    Effect.dials (service.handle engine message).1.effects = match message with
      | .request request _ =>
        Effect.dials (service.board.handleRequest engine request service.engine).1.effects
      | _ => [] := by
  cases message with
  | request request slot => exact dials_settled service _
  | event event =>
    exact (dials_settled service _).trans (Switchboard.dials_handleEvent engine _ event _)
  | reclaim ticket => exact (dials_settled service _).trans (Switchboard.dials_reclaim _ ticket)
  | shutdown slot => rfl

theorem replies_handle (engine : Engine σ) (service : Service σ) (request : Request) (slot : Nat) :
    (service.handle engine (.request request slot)).1.replies
      = [(slot, (service.board.handleRequest engine request service.engine).1.result)] :=
  rfl

/-- No turn asks for a call without media. -/
theorem audible_of_turn (turned : service.turn? engine = some (log, next)) :
    Effect.Audible log.effects := by
  rcases (turn?_cases turned).2 with ⟨_, _, rfl, _⟩ | ⟨message, rest, _, handled⟩
  · exact Effect.audible_of_none rfl
  · have asked := dials_handle engine
      { service with board := service.board.beginTurn, mailbox := rest } message
    rw [handled] at asked
    unfold Effect.Audible
    rw [asked]
    cases message with
    | request request slot => exact Switchboard.audible_handleRequest engine _ request _
    | event | reclaim | shutdown => simp

/-- A request is in the mailbox. -/
def HasRequest (service : Service σ) : Prop :=
  ∃ request slot, .request request slot ∈ service.mailbox

/-- Nothing that a turn posts is a request. -/
theorem HasRequest.of_handle {message : Message}
    (later : (service.handle engine message).2.HasRequest) : service.HasRequest := by
  obtain ⟨request, slot, member⟩ := later
  cases message with
  | shutdown => cases member
  | request | event | reclaim =>
    simp only [handle, absorb, List.mem_append] at member
    rcases member with waiting | posted
    · exact ⟨request, slot, waiting⟩
    · split at posted
      · obtain ⟨effect, _, same⟩ := List.mem_filterMap.1 posted
        cases effect <;> cases same
      · cases posted

theorem dials_of_turn (turned : service.turn? engine = some (log, next))
    (none : ¬ service.HasRequest) : Effect.dials log.effects = [] ∧ ¬ next.HasRequest := by
  rcases (turn?_cases turned).2 with ⟨_, _, rfl, rfl⟩ | ⟨message, rest, waiting, handled⟩
  · exact ⟨rfl, by simp [HasRequest, close]⟩
  · have asked := dials_handle engine
      { service with board := service.board.beginTurn, mailbox := rest } message
    rw [handled] at asked
    constructor
    · cases message with
      | request request slot => exact absurd ⟨request, slot, waiting ▸ List.mem_cons_self⟩ none
      | event | reclaim | shutdown => exact asked
    · intro later
      obtain ⟨request, slot, member⟩ := HasRequest.of_handle (by rw [handled]; exact later)
      exact none ⟨request, slot, waiting ▸ List.mem_cons_of_mem _ member⟩

/-- If each turn keeps an invariant and has a log of some kind because of it, all logs are of that
kind until the service is idle. -/
theorem forall_settle {I : Service σ → Prop} {P : TurnLog → Prop}
    (kept : ∀ service next log, I service → service.turn? engine = some (log, next) →
      P log ∧ I next) (holds : I service) : ∀ log ∈ (service.settle engine).1, P log := by
  fun_induction settle engine service with
  | case1 => simp
  | case2 service log next turned logs final rest inductionHypothesis =>
    obtain ⟨first, more⟩ := kept service next log holds turned
    rw [List.forall_mem_cons]
    rw [rest] at inductionHypothesis
    exact ⟨first, inductionHypothesis more⟩

/-- A service with no requests in its mailbox asks for no calls until it is idle. -/
theorem dials_settle (none : ¬ service.HasRequest) :
    ∀ log ∈ (service.settle engine).1, Effect.dials log.effects = [] :=
  forall_settle (fun _ _ _ none turned => dials_of_turn turned none) none

theorem audible_settle (engine : Engine σ) (service : Service σ) :
    ∀ log ∈ (service.settle engine).1, Effect.Audible log.effects :=
  forall_settle (I := fun _ => True) (fun _ _ _ _ turned => ⟨audible_of_turn turned, trivial⟩)
    trivial

end Service

/-! ## Lines that call a group -/

namespace Command

/-- What is read from the operands of `parcall`. -/
def readCall (group : String) (words : List String) : Except Error Command :=
  match ofOperands .parcall (group :: words) with
  | some command => .ok command
  | none => .error (.badCommand Verb.parcall.usage)

/-- The directions that some words behind a group give, and nothing else, are read from them. -/
structure ReadsDirections (group : String) (words : List String) : Prop where
  accepted : ∀ command, readCall group words = .ok command ↔
    ∃ audio video, Directed words audio video ∧ command = startCall group audio video
  refused : readCall group words = .error (.badCommand Verb.parcall.usage) ↔
    ∀ audio video, ¬ Directed words audio video
  /-- The order of the words does not matter. -/
  unordered : ∀ others, words.Perm others → readCall group others = readCall group words

theorem readsDirections (group : String) (words : List String) : ReadsDirections group words where
  accepted command := by
    simp only [readCall, ofOperands, ← readDirections_eq_some_iff]
    cases read : readDirections words with
    | none => simp
    | some pair =>
      obtain ⟨audio, video⟩ := pair
      simp [and_assoc, eq_comm]
  refused := by
    simp only [readCall, ofOperands, ← readDirections_eq_some_iff]
    cases read : readDirections words with
    | none => simp
    | some pair =>
      obtain ⟨audio, video⟩ := pair
      simp
  unordered others same := by
    simp only [readCall, ofOperands, readDirections_perm same]

/-- A command to call an existing group was carried out with these media: all peers are called, or
nobody if there would be no media. -/
structure CarriedOut (group : Group) (media : Media) (outcome : CommandOutcome)
    (effects : List Effect) : Prop where
  silent : media.audio = .inactive ∧ media.video = .inactive →
    outcome = ⟨false, Verb.parcall.usage⟩ ∧ Effect.dials effects = []
  called : media.audio ≠ .inactive ∨ media.video ≠ .inactive → outcome.success = true ∧
    (Effect.dials effects).map (·.1) = group.peers.map fun peer =>
      ⟨peer.account, peer.target, media⟩

theorem carriedOut_of_callsWith {group : Group} {media : Media} {result : Except Error Answer}
    {effects : List Effect} (calls : Switchboard.CallsWith group media result effects)
    (name : String) (audio video : Option Direction) :
    CarriedOut group media ((startCall name audio video).outcome result) effects where
  silent silence := by
    obtain ⟨refused, nobody⟩ := calls.silent silence
    exact ⟨by rw [refused]; rfl, nobody⟩
  called audible := by
    obtain ⟨report, started, each⟩ := calls.called audible
    exact ⟨by rw [started]; rfl, each⟩

end Command

namespace Service

variable {σ : Type} {engine : Engine σ} {service : Service σ}

/-- An idle service handles a request at once, and asks for no other calls before it is idle
again. -/
theorem serve_of_idle (running : service.isRunning = true) (idle : service.mailbox = [])
    (engine : Engine σ) (request : Request) :
    (service.serve engine request).result
        = (service.board.beginTurn.handleRequest engine request service.engine).1.result ∧
      Effect.dials (service.serve engine request).effects = Effect.dials
        (service.board.beginTurn.handleRequest engine request service.engine).1.effects := by
  obtain ⟨sent, submitted, mailbox, board, state, goesOn, _⟩ :=
    submit_of_idle running idle (.request request)
  have turned : sent.turn? engine
      = some ({ sent with board := sent.board.beginTurn, mailbox := [] }.handle engine
        (.request request service.nextSlot)) := by
    simp [turn?, goesOn, mailbox]
  have replies := replies_handle engine
    { sent with board := sent.board.beginTurn, mailbox := [] } request service.nextSlot
  have asked := dials_handle engine
    { sent with board := sent.board.beginTurn, mailbox := [] }
    (.request request service.nextSlot)
  generalize handled : { sent with board := sent.board.beginTurn, mailbox := [] }.handle engine
    (.request request service.nextSlot) = done at turned replies asked
  obtain ⟨log, next⟩ := done
  simp only [board, state] at replies asked
  -- behind the request, there are only messages that its turn has posted
  have quiet : ∀ later ∈ (next.settle engine).1, Effect.dials later.effects = [] := by
    apply dials_settle
    intro waiting
    obtain ⟨_, _, member⟩ := HasRequest.of_handle (by rw [handled]; exact waiting)
    cases member
  have silent : Effect.dials ((next.settle engine).1.flatMap (·.effects)) = [] := by
    rw [Effect.dials, List.filterMap_flatMap, List.flatMap_eq_nil_iff]
    exact quiet
  have settled : sent.settle engine
      = (log :: (next.settle engine).1, (next.settle engine).2) := by
    rw [Service.settle, turned]
  constructor
  · simp [serve, ask, submitted, settled, replies]
  · simp only [serve, ask, submitted, settled, List.flatMap_cons, Effect.dials_append, asked,
      silent, List.append_nil]

theorem runLine_carriedOut (running : service.isRunning = true) (idle : service.mailbox = [])
    {line name : String} {audio video : Option Direction}
    (read : Command.parse line = .ok (.startCall name audio video)) {group : Group}
    (registered : service.board.groups.find? name = some group) :
    Command.CarriedOut group
      ⟨audio.getD service.defaults.audio, video.getD service.defaults.video⟩
      (service.runLine engine line).result (service.runLine engine line).effects := by
  obtain ⟨result, asked⟩ := serve_of_idle running idle engine
    (.startCall name ⟨audio.getD service.defaults.audio, video.getD service.defaults.video⟩)
  have begun : service.board.beginTurn.groups.find? name = some group := registered
  have calls := (Switchboard.callsWith_of_registered begun _ engine service.engine).of_dials asked
  rw [← result] at calls
  unfold runLine
  rw [read]
  exact Command.carriedOut_of_callsWith calls name audio video

theorem audible_runLine (engine : Engine σ) (service : Service σ) (line : String) :
    Effect.Audible (service.runLine engine line).effects := by
  unfold runLine
  split
  · exact Effect.audible_flatMap (audible_settle engine service)
  · simp only [serve, ask]
    split
    · exact Effect.audible_of_none rfl
    · exact Effect.audible_flatMap (audible_settle engine _)

end Service

/-! ## Sessions -/

theorem Service.defaults_of_turn {σ : Type} {engine : Engine σ} {service next : Service σ}
    {log : TurnLog} (turned : service.turn? engine = some (log, next)) :
    next.defaults = service.defaults := by
  rcases (turn?_cases turned).2 with ⟨_, _, _, rfl⟩ | ⟨message, rest, _, handled⟩
  · rfl
  · have board := handle_board engine
      { service with board := service.board.beginTurn, mailbox := rest } message
    rw [handled] at board
    rw [defaults, board, Switchboard.config_perform]
    rfl

namespace Session

variable {σ : Type} {engine : Engine σ} {turns : List (Turn σ)} {service : Service σ}

/-- The defaults are always those of the configuration that the service was started with. -/
theorem configured (session : Session engine turns service) :
    ∃ (config : Config) (accounts : AccountTable) (state : σ) (first : Service σ),
      Service.start config accounts state = .ok first ∧ service.defaults = config.media ∧
        ∀ turn ∈ turns, turn.before.defaults = config.media := by
  induction session with
  | @start config accounts state service started =>
    obtain ⟨board, made, rfl⟩ := Service.start_eq started
    obtain rfl := Switchboard.start_eq made
    exact ⟨config, accounts, state, _, started, rfl, by simp⟩
  | send _ _ _ inductionHypothesis => exact inductionHypothesis
  | disconnect _ inductionHypothesis => exact inductionHypothesis
  | @turn turns service next log _ turned inductionHypothesis =>
    obtain ⟨config, accounts, state, first, started, same, all⟩ := inductionHypothesis
    refine ⟨config, accounts, state, first, started,
      (Service.defaults_of_turn turned).trans same, ?_⟩
    rw [List.forall_mem_append, List.forall_mem_singleton]
    exact ⟨all, same⟩

/-- A turn that handles a request to call an existing group calls all its peers, unless there would
be no media. -/
theorem callsWith (session : Session engine turns service) {turn : Turn σ} (member : turn ∈ turns)
    {name : String} {media : Media} {slot : Nat}
    (asked : turn.message? = some (.request (.startCall name media) slot)) {group : Group}
    (registered : turn.before.board.groups.find? name = some group) :
    ∃ result, turn.log.replies = [(slot, result)] ∧
      Switchboard.CallsWith group media result turn.log.effects := by
  obtain ⟨next, turned⟩ := session.turned turn member
  rcases (Service.turn?_cases turned).2 with ⟨empty, _⟩ | ⟨message, rest, waiting, handled⟩
  · rw [Turn.message?, empty] at asked
    cases asked
  · rw [Turn.message?, waiting] at asked
    cases asked
    have replies := Service.replies_handle engine
      { turn.before with board := turn.before.board.beginTurn, mailbox := rest }
      (.startCall name media) slot
    have dials := Service.dials_handle engine
      { turn.before with board := turn.before.board.beginTurn, mailbox := rest }
      (.request (.startCall name media) slot)
    rw [handled] at replies dials
    have begun : turn.before.board.beginTurn.groups.find? name = some group := registered
    exact ⟨_, replies,
      (Switchboard.callsWith_of_registered begun media engine turn.before.engine).of_dials dials⟩

end Session

/-- The directions of a command reach the engine with each call, completed by the defaults. -/
structure DirectionsReach {σ : Type} (engine : Engine σ) (turns : List (Turn σ))
    (service : Service σ) (defaults : Media) : Prop where
  configured : service.defaults = defaults ∧ ∀ turn ∈ turns, turn.before.defaults = defaults
  /-- Whatever else goes on in the session when the command is carried out. -/
  handled : ∀ turn ∈ turns, ∀ name audio video slot group,
    turn.message? = some (.request ((Command.startCall name audio video).request defaults) slot) →
    turn.before.board.groups.find? name = some group →
    ∃ result, turn.log.replies = [(slot, result)] ∧
      Command.CarriedOut group ⟨audio.getD defaults.audio, video.getD defaults.video⟩
        ((Command.startCall name audio video).outcome result) turn.log.effects
  carriedOut : service.isRunning = true → service.mailbox = [] →
    ∀ line name audio video group, Command.parse line = .ok (.startCall name audio video) →
      service.board.groups.find? name = some group →
      Command.CarriedOut group ⟨audio.getD defaults.audio, video.getD defaults.video⟩
        (service.runLine engine line).result (service.runLine engine line).effects
  /-- No call without media is ever asked for. -/
  audible : (∀ turn ∈ turns, Effect.Audible turn.log.effects) ∧
    ∀ line, Effect.Audible (service.runLine engine line).effects

/-- The words behind a group are read as the directions that they give, or refused. In a session,
each call of a group is asked for with the directions of the command, or with the configured ones
where it names none. Nothing is asked for if neither stream were active. -/
theorem directions_reach_engine :
    (∀ group directions, Command.ReadsDirections group directions) ∧
    (∀ line behind group directions,
      Verb.Selects (words (Command.content line)) .parcall behind →
      Verb.parcall.operandsOf (behind.map String.ofList) = some (group :: directions) →
      Command.parse line = Command.readCall group directions) ∧
    ∀ (σ : Type) (engine : Engine σ) (turns : List (Turn σ)) (service : Service σ),
      Session engine turns service →
      ∃ (config : Config) (accounts : AccountTable) (state : σ) (first : Service σ),
        Service.start config accounts state = .ok first ∧
        DirectionsReach engine turns service config.media := by
  refine ⟨Command.readsDirections, fun _ _ _ _ => Command.parse_of_operands, ?session⟩
  intro σ engine turns service session
  obtain ⟨config, accounts, state, first, started, same, all⟩ := session.configured
  refine ⟨config, accounts, state, first, started, ⟨same, all⟩, ?handled, ?carriedOut, ?audible⟩
  case handled =>
    intro turn member name audio video slot group asked registered
    obtain ⟨result, replies, calls⟩ := session.callsWith member asked registered
    exact ⟨result, replies, Command.carriedOut_of_callsWith calls name audio video⟩
  case carriedOut =>
    intro running idle line name audio video group read registered
    exact same ▸ Service.runLine_carriedOut running idle read registered
  case audible =>
    refine ⟨fun turn member => ?_, Service.audible_runLine engine service⟩
    obtain ⟨next, turned⟩ := session.turned turn member
    exact Service.audible_of_turn turned

/-! ## A sample session -/

namespace Muted

/-- A switchboard whose calls have no video unless told otherwise. -/
def board : Switchboard :=
  { Rematch.board with config := { media := ⟨.sendOnly, .inactive⟩ } }

/-- A group of two is called, and then called again without audio. -/
def messages : List Message :=
  [.request (.createGroup "G") 0, .request (.addPeer "G" "sip:a@x" none) 1,
    .request (.addPeer "G" "sip:b@x" none) 2,
    .request ((Command.startCall "G" none (some .recvOnly)).request ⟨.sendOnly, .inactive⟩) 3,
    .request ((Command.startCall "G" (some .inactive) none).request ⟨.sendOnly, .inactive⟩) 4]

def done : List (Turn EngineScript) × Service EngineScript :=
  Service.takeTurns EngineScript.engine 5 { board, engine := {}, mailbox := messages }

theorem session : Session EngineScript.engine done.1 done.2 := by
  have started : Service.start board.config board.accounts ({} : EngineScript)
      = .ok { board, engine := {} } := rfl
  exact Session.begun started messages (by decide) 5

theorem directions_reach_script :
    Command.parse "/parcall G audio=INACTIVE" = .ok (.startCall "G" (some .inactive) none) ∧
    (done.2.runLine EngineScript.engine "/parcall G audio=INACTIVE").result
      = ⟨false, Verb.parcall.usage⟩ ∧
    (∃ turn ∈ done.1, turn.message? = messages[4]? ∧ Effect.dials turn.log.effects = []) ∧
    ∃ turn ∈ done.1, turn.message? = messages[3]? ∧
      (Effect.dials turn.log.effects).map (·.1.media)
        = [⟨.sendOnly, .recvOnly⟩, ⟨.sendOnly, .recvOnly⟩] := by
  obtain ⟨reads, lines, sessions⟩ := directions_reach_engine
  obtain ⟨config, _, _, _, _, reach⟩ := sessions _ _ _ _ session
  have defaults : ⟨.sendOnly, .inactive⟩ = config.media := by
    rw [← reach.configured.1]
    decide +kernel
  rw [← defaults] at reach
  -- the words behind the group are read
  have read : Command.parse "/parcall G audio=INACTIVE"
      = .ok (.startCall "G" (some .inactive) none) := by
    have selects := Verb.select_eq_some_iff.1 (show Verb.select
      (words (Command.content "/parcall G audio=INACTIVE"))
        = some (.parcall, ["G".toList, "audio=INACTIVE".toList]) by decide)
    rw [lines _ _ "G" ["audio=INACTIVE"] selects (by decide)]
    have given : Command.Directed ["audio=INACTIVE"] (some .inactive) none :=
      Command.readDirections_eq_some_iff.1 (by decide)
    exact ((reads "G" _).accepted _).2 ⟨_, _, given, rfl⟩
  obtain ⟨group, registered, _⟩ : ∃ group, done.2.board.groups.find? "G" = some group ∧
      group.peers.length = 2 := by
    decide +kernel
  have refused := reach.carriedOut (by decide +kernel) (by decide +kernel) _ _ _ _ _ read registered
  -- both commands of the session met the group
  obtain ⟨called, first, asked, peers, found, two⟩ : ∃ turn ∈ done.1,
      turn.message? = messages[3]? ∧ ∃ group, turn.before.board.groups.find? "G" = some group ∧
        group.peers.length = 2 := by
    decide +kernel
  obtain ⟨muted, second, again, others, known, _⟩ : ∃ turn ∈ done.1,
      turn.message? = messages[4]? ∧ ∃ group, turn.before.board.groups.find? "G" = some group ∧
        group.peers.length = 2 := by
    decide +kernel
  obtain ⟨_, _, placed⟩ := reach.handled called first "G" none (some .recvOnly) 3 peers asked found
  obtain ⟨_, _, nobody⟩ := reach.handled muted second "G" (some .inactive) none 4 others again known
  have media : (Effect.dials called.log.effects).map (·.1.media)
      = List.replicate 2 ⟨.sendOnly, .recvOnly⟩ := by
    have each := congrArg (List.map PlaceRequest.media) (placed.called (.inl nofun)).2
    rw [List.map_map, List.map_map] at each
    rw [← two, ← List.map_const']
    exact each
  exact ⟨read, (refused.silent ⟨rfl, rfl⟩).1,
    ⟨muted, second, again, (nobody.silent ⟨rfl, rfl⟩).2⟩, ⟨called, first, asked, media⟩⟩

end Muted
end CallFork
