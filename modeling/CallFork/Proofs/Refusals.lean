import CallFork.Proofs.Operations

/-! # Refused requests

A request that is refused leaves no trace. Whatever stands in its way is found before the first
change: the error is one that refuses a request as a whole, the switchboard and the engine are what
they were, and there are no effects, so nobody was told of anything and the engine was asked for
nothing. So a run can be told without its refused requests. While a group is called, on the other
hand, each error on the report concerns one peer only.
-/

namespace CallFork

/-! ## One operation -/

theorem DialAttempt.isPlacement_of_error {attempt : DialAttempt} {error : Error}
    (skipped : attempt.error? = some error) : error.isPlacement = true := by
  unfold error? at skipped
  split at skipped <;> cases skipped <;> rfl

namespace Switchboard

variable {σ : Type} {engine : Engine σ} {board : Switchboard} {error : Error}

theorem perform_refuses {operation : Operation} {state : σ}
    (failed : (board.perform engine operation state).1.result = .answer (.error error)) :
    error.isValidation = true ∧
      board.perform engine operation state = (⟨.answer (.error error), board, []⟩, state) := by
  cases operation with
  | request request =>
    have handled := handled engine board request state
    simp only [perform, Outcome.map] at failed ⊢
    generalize board.handleRequest engine request state = done at handled failed ⊢
    cases handled with
    | refused validation =>
      cases failed
      exact ⟨validation, rfl⟩
    | registered | called | hungUp => cases failed
  | beginTurn | event | reclaim | shutdown => cases failed

/-- Only a placement that failed, or a call whose identifier was in use, is on a report. -/
theorem failed_isPlacement {name : String} {media : Media} {state : σ} {report : FanOutReport}
    (started : (board.perform engine (.request (.startCall name media)) state).1.result
      = .answer (.ok (.started report))) :
    ∀ error ∈ report.failed, error.isPlacement = true := by
  rcases perform_start_cases engine board name media state with
    ⟨_, refused⟩ | ⟨_, attempts, _, _, _, _, done⟩
  · rw [refused] at started
    cases started
  · rw [done] at started
    cases started
    intro error member
    obtain ⟨attempt, _, skipped⟩ := List.mem_filterMap.1 member
    exact DialAttempt.isPlacement_of_error skipped

end Switchboard

/-! ## Along a run -/

namespace Step

/-- The step is a request that was refused. -/
def isRefused (step : Step) : Bool :=
  match step.outcome.result with
  | .answer (.error _) => true
  | .answer (.ok _) | .turn _ | .resolution _ | .released _ | .dropped => false

theorem isRefused_iff {step : Step} :
    step.isRefused = true ↔ ∃ error, step.outcome.result = .answer (.error error) := by
  unfold isRefused
  split <;> simp_all

end Step

variable {σ : Type}

namespace Reach

variable {engine : Engine σ} {steps : List Step} {board : Switchboard} {state : σ}

/-- A run that is told without its refused requests is the same run. -/
theorem without_refused (reached : Reach engine steps board state) :
    Reach engine (steps.filter fun step => !step.isRefused) board state ∧
      (steps.filter fun step => !step.isRefused).flatMap (·.outcome.effects)
        = steps.flatMap (·.outcome.effects) := by
  induction reached with
  | start started state => exact ⟨.start started state, rfl⟩
  | @step steps board state before operation inductionHypothesis =>
    obtain ⟨again, same⟩ := inductionHypothesis
    rw [List.filter_append, List.flatMap_append, List.flatMap_append, same]
    cases refused : Step.isRefused ⟨board, operation, (board.perform engine operation state).1⟩ with
    | true =>
      -- the run goes on from where it was before the request
      obtain ⟨error, failed⟩ := Step.isRefused_iff.1 refused
      obtain ⟨_, nothing⟩ := Switchboard.perform_refuses failed
      rw [nothing] at refused ⊢
      simpa [refused] using again
    | false =>
      have kept : [Step.mk board operation (board.perform engine operation state).1].filter
          (fun step => !step.isRefused)
          = [⟨board, operation, (board.perform engine operation state).1⟩] := by
        simp [refused]
      rw [kept]
      exact ⟨again.step operation, rfl⟩

/-- A request that is refused fails for something that was found before the first change, and leaves
the switchboard and the engine as they were, without any effect; so the run is the same without it.
If a group is called, each error on the report concerns a single peer. -/
theorem refusals_harmless (reached : Reach engine steps board state) :
    (∀ request error,
      (board.perform engine (.request request) state).1.result = .answer (.error error) →
      error.isValidation = true ∧ board.perform engine (.request request) state
        = (⟨.answer (.error error), board, []⟩, state)) ∧
    (∀ name media report,
      (board.perform engine (.request (.startCall name media)) state).1.result
        = .answer (.ok (.started report)) →
      ∀ error ∈ report.failed, error.isPlacement = true) ∧
    Reach engine (steps.filter fun step => !step.isRefused) board state ∧
    (steps.filter fun step => !step.isRefused).flatMap (·.outcome.effects)
      = steps.flatMap (·.outcome.effects) := by
  exact ⟨fun request error => Switchboard.perform_refuses,
    fun name media report => Switchboard.failed_isPlacement, reached.without_refused⟩

end Reach

/-! ## A sample run -/

namespace Thwarted

/-- A group with one peer, and requests that are refused: the group exists already, another one does
not, a target is in the group already, one is no address, and a call would carry no media. -/
def operations : List Switchboard.Operation :=
  [.request (.createGroup "G"), .request (.createGroup "G"), .request (.addPeer "G" "sip:a@x" none),
    .request (.addPeer "G" "sip:a@x" none), .request (.addPeer "G" "tel:5" none),
    .request (.startCall "G" ⟨.inactive, .inactive⟩), .request (.startCall "H" {}),
    .request (.hangupGroup "H"), .request (.removeGroup "H")]

/-- The engine cannot reach the peer. -/
def script : EngineScript := { refusals := [("sip:a@x", .unreachable "busy")] }

def steps : List Step := Rematch.board.history EngineScript.engine operations script

def last : Switchboard × EngineScript := (Rematch.board.run EngineScript.engine operations script).2

theorem reached : Reach EngineScript.engine steps last.1 last.2 :=
  (Reach.start Rematch.started script).extend operations

/-- Two requests were not refused. When the group is called then, the peer is skipped. -/
theorem refusals_harmless_in_sample :
    (∃ kept, kept.length = 2 ∧ Reach EngineScript.engine kept last.1 last.2) ∧
      last.1.perform EngineScript.engine (.request (.createGroup "G")) last.2
        = (⟨.answer (.error (.groupExists "G")), last.1, []⟩, last.2) ∧
      ∃ report, (last.1.perform EngineScript.engine (.request (.startCall "G" {})) last.2).1.result
          = .answer (.ok (.started report)) ∧
        report.failed = [.placementFailed "sip:a@x" "target unreachable: busy"] ∧
        ∀ error ∈ report.failed, error.isPlacement = true := by
  obtain ⟨refused, skipped, again, _⟩ := reached.refusals_harmless
  have kept : (steps.filter fun step => !step.isRefused).length = 2 := by decide +kernel
  have present : (last.1.perform EngineScript.engine (.request (.createGroup "G"))
      last.2).1.result = .answer (.error (.groupExists "G")) := rfl
  have started : (last.1.perform EngineScript.engine (.request (.startCall "G" {})) last.2).1.result
      = .answer (.ok (.started
        ⟨"G", {}, [], [.placementFailed "sip:a@x" "target unreachable: busy"]⟩)) := rfl
  exact ⟨⟨_, kept, again⟩, (refused _ _ present).2, _, started, rfl, skipped _ _ _ started⟩

end Thwarted
end CallFork
