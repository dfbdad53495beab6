import CallFork.Engine.Scripted
import CallFork.Proofs.Journal
import Mathlib.Data.List.Induction

/-! # Histories

A run of a switchboard is kept as the list of its steps, each with the switchboard it met. `Reach`
holds of the steps, the switchboard and the engine of a run that began with an empty switchboard:
any operations in any order, over any engine. Whatever is claimed of all runs is proved along
`Reach`; `Reach.extend` says that `Switchboard.run` computes such runs.
-/

namespace CallFork

/-- One operation of a run: the switchboard it met, and what came of it. -/
structure Step where
  before : Switchboard
  operation : Switchboard.Operation
  outcome : Outcome Switchboard.Report

namespace Step

/-- The switchboard behind a step. -/
def after (step : Step) : Switchboard := step.outcome.board

/-- All that observers were told, in order. -/
def published (steps : List Step) : List Event :=
  Effect.events (steps.flatMap (·.outcome.effects))

/-- The identifiers of all calls that the engine has placed, in order. -/
def placedIds (steps : List Step) : List CallId :=
  (Effect.placements (steps.flatMap (·.outcome.effects))).map (·.2.id)

theorem published_append (first second : List Step) :
    published (first ++ second) = published first ++ published second := by
  unfold published
  rw [List.flatMap_append, Effect.events_append]

theorem published_singleton (step : Step) :
    published [step] = Effect.events step.outcome.effects := by
  simp [published]

theorem placedIds_append (first : List Step) (step : Step) :
    placedIds (first ++ [step])
      = placedIds first ++ (Effect.placements step.outcome.effects).map (·.2.id) := by
  simp [placedIds]

end Step

variable {σ : Type}

/-- The steps, the switchboard and the engine of a run from an empty switchboard. -/
inductive Reach (engine : Engine σ) : List Step → Switchboard → σ → Prop where
  | start {config : Config} {accounts : AccountTable} {board : Switchboard}
      (started : Switchboard.start config accounts = .ok board) (state : σ) :
      Reach engine [] board state
  | step {steps : List Step} {board : Switchboard} {state : σ}
      (before : Reach engine steps board state) (operation : Switchboard.Operation) :
      Reach engine (steps ++ [⟨board, operation, (board.perform engine operation state).1⟩])
        (board.perform engine operation state).1.board (board.perform engine operation state).2

namespace Switchboard

theorem start_eq {config : Config} {accounts : AccountTable} {board : Switchboard}
    (started : start config accounts = .ok board) : board = { config, accounts } := by
  simp only [start, bind, Except.bind] at started
  split at started
  · cases started
  · exact (Except.ok.inj started).symm

def history (engine : Engine σ) (board : Switchboard) : List Operation → σ → List Step
  | [], _ => []
  | operation :: rest, state =>
    let (outcome, state) := board.perform engine operation state
    ⟨board, operation, outcome⟩ :: outcome.board.history engine rest state

theorem run_append (engine : Engine σ) (board : Switchboard) (first second : List Operation)
    (state : σ) :
    (board.run engine (first ++ second) state).2
      = ((board.run engine first state).2.1.run engine second
          (board.run engine first state).2.2).2 := by
  induction first generalizing board state with
  | nil => rfl
  | cons operation rest inductionHypothesis => exact inductionHypothesis _ _

end Switchboard

namespace Reach

variable {engine : Engine σ} {steps : List Step} {board : Switchboard} {state : σ}

theorem extend (reached : Reach engine steps board state)
    (operations : List Switchboard.Operation) :
    Reach engine (steps ++ board.history engine operations state)
      (board.run engine operations state).2.1 (board.run engine operations state).2.2 := by
  induction operations generalizing steps board state with
  | nil =>
    rw [Switchboard.history, List.append_nil]
    exact reached
  | cons operation rest inductionHypothesis =>
    have next := inductionHypothesis (reached.step operation)
    rw [List.append_assoc] at next
    exact next

/-- The tables of a switchboard can be searched at any point of a run. -/
theorem sound (reached : Reach engine steps board state) : board.Sound := by
  induction reached with
  | start started =>
    rw [Switchboard.start_eq started]
    exact ⟨CallTable.distinct_empty, ReleaseTable.ticketed_empty⟩
  | step _ operation inductionHypothesis =>
    exact Switchboard.sound_perform engine inductionHypothesis operation _

/-- A run that has a step somewhere was a run before that step and right behind it. -/
theorem split {earlier later : List Step} {step : Step}
    (reached : Reach engine (earlier ++ step :: later) board state) :
    ∃ state, Reach engine earlier step.before state ∧
      step.outcome = (step.before.perform engine step.operation state).1 := by
  generalize whole : earlier ++ step :: later = steps at reached
  induction reached generalizing later with
  | start => simp at whole
  | @step steps board state before operation inductionHypothesis =>
    rcases List.eq_nil_or_concat later with rfl | ⟨rest, last, rfl⟩
    · -- the run ends with the step
      obtain ⟨rfl, same⟩ := List.append_inj' whole rfl
      rw [List.singleton_inj] at same
      subst same
      exact ⟨state, before, rfl⟩
    · rw [List.concat_eq_append, ← List.cons_append, ← List.append_assoc] at whole
      exact inductionHypothesis (List.append_inj' whole rfl).1

theorem last {step : Step} (reached : Reach engine (steps ++ [step]) board state) :
    board = step.after := by
  generalize whole : steps ++ [step] = all at reached
  cases reached with
  | start => simp at whole
  | step before operation =>
    obtain ⟨_, same⟩ := List.append_inj' whole rfl
    rw [List.singleton_inj] at same
    rw [same]
    rfl

/-- What holds behind a step of the steps since then, and is kept by each of them, holds in the
end. -/
theorem onwards (property : List Step → Switchboard → Prop) {earlier later : List Step}
    {first : Step} (reached : Reach engine (earlier ++ first :: later) board state)
    (start : property [] first.after)
    (kept : ∀ between step state, Reach engine (earlier ++ first :: between) step.before state →
      step.outcome = (step.before.perform engine step.operation state).1 →
      property between step.before → property (between ++ [step]) step.after) :
    property later board := by
  induction later using List.reverseRecOn generalizing board state with
  | nil =>
    rw [reached.last]
    exact start
  | append_singleton between step inductionHypothesis =>
    rw [← List.cons_append, ← List.append_assoc] at reached
    obtain ⟨state, before, came⟩ := reached.split
    rw [reached.last]
    exact kept between step state before came (inductionHypothesis before)

/-- What holds behind a step, and is kept by each step after it, holds as long as they go on. -/
theorem carry {property : Switchboard → Prop} {earlier between later : List Step}
    {first last : Step}
    (reached : Reach engine (earlier ++ first :: (between ++ last :: later)) board state)
    (holds : property first.after)
    (kept : ∀ step ∈ between, ∀ state, step.before.Sound →
      step.outcome = (step.before.perform engine step.operation state).1 →
      property step.before → property step.after) :
    property last.before := by
  rw [← List.cons_append, ← List.append_assoc] at reached
  obtain ⟨_, before, _⟩ := reached.split
  refine before.onwards (fun taken board => (∀ step ∈ taken, step ∈ between) → property board)
    (fun _ => holds) ?_ fun _ member => member
  intro taken step state before came held among
  rw [List.forall_mem_append, List.forall_mem_singleton] at among
  exact kept step among.2 state before.sound came (held among.1)

end Reach

/-! ## A sample run -/

namespace Rematch

/-- A switchboard with one account and nothing else. -/
def board : Switchboard :=
  { config := {}, accounts := ⟨[⟨⟨.sip, none, .domain "x", none, [], []⟩⟩]⟩ }

/-- A group is called twice, and each time the call is answered. -/
def operations : List Switchboard.Operation :=
  [.request (.createGroup "G"), .request (.addPeer "G" "sip:a@x" none),
    .request (.startCall "G" {}), .beginTurn, .event (.established ⟨"call-1"⟩),
    .request (.startCall "G" {}), .event (.established ⟨"call-2"⟩), .beginTurn, .reclaim ⟨1⟩]

def steps : List Step := board.history EngineScript.engine operations {}

theorem started : Switchboard.start board.config board.accounts = .ok board := rfl

theorem reached : ∃ board state, Reach EngineScript.engine steps board state :=
  ⟨_, _, (Reach.start started ({} : EngineScript)).extend operations⟩

end Rematch
end CallFork
