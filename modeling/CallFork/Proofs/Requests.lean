import CallFork.Proofs.Effects
import CallFork.Switchboard.Request

/-! # What a request can do

A request is refused, or it is about the groups only, or it calls a group, or it hangs one up.
`Handled` says of each what becomes of the switchboard and of the engine and which effects there
are, and `Switchboard.handled` that there is nothing else. Whatever stands in the way of a request
is found before its first change, so a refusal changes nothing.
-/

namespace CallFork

/-! ## Why something is refused -/

namespace GroupTable

variable {table : GroupTable} {name : String} {error : Error}

theorem create_error (failed : table.create name = .error error) : error = .groupExists name := by
  unfold create at failed
  split at failed <;> cases failed
  rfl

theorem remove_error (failed : table.remove name = .error error) : error = .groupMissing name := by
  unfold remove at failed
  split at failed <;> cases failed
  rfl

end GroupTable

theorem Target.canonical_error {account : Account} {target : String} {displayName : Option String}
    {error : Error} (failed : canonical account target displayName = .error error) :
    ∃ reason, error = .invalidTarget (trimmed target) reason := by
  unfold canonical complete at failed
  split at failed <;> cases failed
  exact ⟨_, rfl⟩

theorem FanOut.checkMedia_error {media : Media} {error : Error}
    (failed : checkMedia media = .error error) : error = .silentMedia := by
  unfold checkMedia at failed
  split at failed <;> cases failed
  rfl

namespace Switchboard

theorem peerFor_error {board : Switchboard} {error : Error} {address : String}
    {displayName : Option String} (failed : board.peerFor address displayName = .error error) :
    error.isValidation = true := by
  unfold peerFor at failed
  split at failed
  · cases failed
    rfl
  · rename_i account _
    cases made : Target.canonical account address displayName with
    | ok target =>
      rw [made] at failed
      cases failed
    | error fault =>
      rw [made] at failed
      cases failed
      obtain ⟨reason, rfl⟩ := Target.canonical_error made
      rfl

theorem peerFor_eq_ok {board : Switchboard} {peer : Peer} {address : String}
    {displayName : Option String} (made : board.peerFor address displayName = .ok peer) :
    board.accounts.accountFor address = some peer.account ∧
      Target.canonical peer.account address displayName = .ok peer.target := by
  unfold peerFor at made
  cases known : board.accounts.accountFor address with
  | none =>
    rw [known] at made
    cases made
  | some account =>
    cases canonical : Target.canonical account address displayName with
    | error error =>
      simp only [known, canonical] at made
      cases made
    | ok target =>
      simp only [known, canonical] at made
      cases made
      exact ⟨rfl, canonical⟩

/-- A request to add a peer is refused, or the peer goes to the end of the registered group, under
the canonical form of what was asked for. -/
theorem addPeer_cases (board : Switchboard) (name address : String) (displayName : Option String) :
    (∃ error, error.isValidation = true ∧
        board.addPeer name address displayName = board.refuse error) ∨
      ∃ group account target, board.groups.find? name = some group ∧
        board.accounts.accountFor address = some account ∧
        Target.canonical account address displayName = .ok target ∧
        board.addPeer name address displayName = ⟨.ok target, { board with
          groups := { board.groups with groups := board.groups.groups.map fun other =>
            if other.name = name then { group with peers := group.peers ++ [⟨target, account⟩] }
            else other } }, []⟩ := by
  -- the group comes first, then the account and the address, and the group is searched last
  simp only [addPeer, GroupTable.find]
  cases found : board.groups.find? name with
  | none => exact .inl ⟨_, rfl, rfl⟩
  | some group =>
    cases made : board.peerFor address displayName with
    | error error => exact .inl ⟨error, peerFor_error made, rfl⟩
    | ok peer =>
      obtain ⟨known, canonical⟩ := peerFor_eq_ok made
      simp only [GroupTable.addPeer_of_found found]
      by_cases present : group.hasTarget peer.target = true
      · simp only [present, if_true]
        exact .inl ⟨_, rfl, rfl⟩
      · simp only [present]
        exact .inr ⟨group, peer.account, peer.target, rfl, known, canonical, rfl⟩

/-! ## The cases -/

variable {σ : Type}

/-- What can come of a request, with the engine afterwards. -/
inductive Handled (engine : Engine σ) (board : Switchboard) (state : σ) :
    Request → Outcome (Except Error Answer) × σ → Prop where
  | refused {request : Request} {error : Error} (validation : error.isValidation = true) :
      Handled engine board state request (board.refuse error, state)
  /-- The request is about the groups, and what is told of it names no call. -/
  | registered {request : Request} {groups : GroupTable} {answer : Answer} {events : List Event}
      (nobody : ∀ event ∈ events, event.callId? = none) :
      Handled engine board state request
        (⟨.ok answer, { board with groups }, events.map .publish⟩, state)
  | called {name : String} {media : Media} {group : Group} {attempts : List DialAttempt}
      {grown : CallTable} {next : σ} (found : board.groups.find? name = some group)
      (dialed : FanOut.dialEach engine board.config.supersede group media group.peers board.calls
        state = (attempts, grown, next)) :
      Handled engine board state (.startCall name media)
        (⟨.ok (.started (FanOut.report group media attempts)), { board with calls := grown },
          attempts.flatMap (·.effects group.name)⟩, next)
  | hungUp {name : String} {group : Group} {attempts : List HangupAttempt} {next : σ}
      (found : board.groups.find? name = some group)
      (hung : engine.hangUpEach board.config.groupHangup (board.calls.inGroup group.id) state
        = (attempts, next)) :
      Handled engine board state (.hangupGroup name)
        (⟨.ok (.hungUp name (attempts.countP (·.isAccepted))), board,
          attempts.flatMap (·.effects fun id cause => .groupHangupFailed id name cause)⟩, next)

theorem handled (engine : Engine σ) (board : Switchboard) (request : Request) (state : σ) :
    Handled engine board state request (board.handleRequest engine request state) := by
  have nobody : ∀ told ∈ ([] : List Event), told.callId? = none := by simp
  have only : ∀ event : Event, event.callId? = none → ∀ told ∈ [event], told.callId? = none := by
    intro event nobody told member
    rw [List.mem_singleton.1 member]
    exact nobody
  cases request with
  | createGroup name =>
    simp only [handleRequest, createGroup]
    cases created : board.groups.create name with
    | error error => exact .refused (GroupTable.create_error created ▸ rfl)
    | ok made => exact .registered (only (.groupCreated name) rfl)
  | removeGroup name =>
    simp only [handleRequest, removeGroup]
    cases removed : board.groups.remove name with
    | error error => exact .refused (GroupTable.remove_error removed ▸ rfl)
    | ok made => exact .registered (only (.groupRemoved name) rfl)
  | clearGroups => exact .registered (only (.groupsCleared board.groups.size) rfl)
  | dump => exact .registered nobody
  | addPeer group address displayName =>
    simp only [handleRequest]
    rcases board.addPeer_cases group address displayName with
      ⟨error, validation, refused⟩ | ⟨_, _, target, _, _, _, added⟩
    · rw [refused]
      exact .refused validation
    · rw [added]
      exact .registered nobody
  | startCall name media =>
    simp only [handleRequest, startCall, GroupTable.find]
    cases found : board.groups.find? name with
    | none => exact .refused rfl
    | some group =>
      -- the media are looked at before the first peer is called
      cases checked : FanOut.checkMedia media with
      | error error => exact .refused (FanOut.checkMedia_error checked ▸ rfl)
      | ok _ => exact .called found rfl
  | hangupGroup name =>
    simp only [handleRequest, hangupGroup, GroupTable.find]
    cases found : board.groups.find? name with
    | none => exact .refused rfl
    | some group => exact .hungUp found rfl

end Switchboard
end CallFork
