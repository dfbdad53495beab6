import CallFork.Proofs.ByteOrder
import CallFork.Proofs.Verdicts
import Mathlib.Data.List.Sort

/-! # The order of a table

A table of tracked calls is kept as a list, but the list stands for a set: a call is found by its
identifier wherever it stands, and siblings are listed in ascending order. So an event comes to the
same in whichever order the table holds its calls. Only where a group is hung up are the calls taken
in the order of the table.
-/

namespace CallFork

namespace TrackedCall

/-! ## Lists in ascending order -/

theorem pairwise_mergeSort {calls : List TrackedCall} (distinct : (calls.map (·.id)).Nodup) :
    (calls.mergeSort le).Pairwise fun first second =>
      utf8 first.id.text < utf8 second.id.text := by
  have sorted : (calls.mergeSort le).Pairwise fun first second => le first second = true := by
    apply List.pairwise_mergeSort
    · intro first second third
      simp only [le, CallId.le, decide_eq_true_eq]
      exact le_trans
    · intro first second
      simp only [le, CallId.le, Bool.or_eq_true, decide_eq_true_eq]
      exact le_total _ _
  have apart : (calls.mergeSort le).Pairwise fun first second => first.id ≠ second.id := by
    rw [← List.pairwise_map]
    exact ((List.mergeSort_perm calls le).map _).nodup_iff.2 distinct
  refine (sorted.and apart).imp ?_
  rintro first second ⟨ordered, different⟩
  simp only [le, CallId.le, decide_eq_true_eq] at ordered
  refine utf8_lt (lt_of_le_of_ne ordered fun same => different ?_)
  exact congrArg CallId.mk same

/-- Lists in ascending order are told apart by their members. -/
theorem eq_of_ascending {calls others : List TrackedCall}
    (ordered : calls.Pairwise fun first second => utf8 first.id.text < utf8 second.id.text)
    (alike : others.Pairwise fun first second => utf8 first.id.text < utf8 second.id.text)
    (same : ∀ call, call ∈ calls ↔ call ∈ others) : calls = others := by
  have irreflexive : Std.Irrefl fun first second : TrackedCall =>
      utf8 first.id.text < utf8 second.id.text :=
    ⟨fun _ => List.lt_irrefl _⟩
  have antisymmetric : Std.Antisymm fun first second : TrackedCall =>
      utf8 first.id.text < utf8 second.id.text :=
    ⟨fun _ _ less greater => absurd (List.lt_trans less greater) (List.lt_irrefl _)⟩
  exact ordered.eq_of_mem_iff alike same

theorem mergeSort_eq_of_perm {shuffled calls : List TrackedCall} (same : shuffled.Perm calls)
    (distinct : (calls.map (·.id)).Nodup) : shuffled.mergeSort le = calls.mergeSort le := by
  refine eq_of_ascending (pairwise_mergeSort ((same.map _).nodup_iff.2 distinct))
    (pairwise_mergeSort distinct) ?_
  intro call
  rw [List.mem_mergeSort, List.mem_mergeSort, same.mem_iff]

end TrackedCall

namespace CallTable

variable {shuffled table : CallTable}

/-! ## Tables with the same calls -/

theorem distinct_of_perm (distinct : table.Distinct) (same : shuffled.calls.Perm table.calls) :
    shuffled.Distinct :=
  (same.map _).nodup_iff.2 distinct

theorem find?_of_perm (distinct : table.Distinct) (same : shuffled.calls.Perm table.calls)
    (id : CallId) : shuffled.find? id = table.find? id := by
  cases found : shuffled.find? id with
  | none =>
    symm
    apply List.find?_eq_none.2
    intro call member
    exact List.find?_eq_none.1 found call (same.mem_iff.2 member)
  | some call =>
    obtain ⟨tracked, rfl⟩ := mem_of_find? found
    exact (find?_of_mem distinct (same.mem_iff.1 tracked)).symm

theorem siblings_of_perm (distinct : table.Distinct) (same : shuffled.calls.Perm table.calls)
    (id : CallId) : shuffled.siblings id = table.siblings id := by
  unfold siblings
  rw [find?_of_perm distinct same]
  cases table.find? id with
  | none => rfl
  | some call =>
    exact TrackedCall.mergeSort_eq_of_perm (same.filter _)
      (distinct.sublist (List.filter_sublist.map _))

theorem inGroup_of_perm (same : shuffled.calls.Perm table.calls) (group : GroupId) :
    (shuffled.inGroup group).Perm (table.inGroup group) :=
  same.filter _

theorem erase_of_perm (same : shuffled.calls.Perm table.calls) (id : CallId) :
    (shuffled.erase id).calls.Perm (table.erase id).calls :=
  same.filter _

theorem eraseAll_of_perm (same : shuffled.calls.Perm table.calls) (ids : List CallId) :
    (shuffled.eraseAll ids).calls.Perm (table.eraseAll ids).calls := by
  rw [calls_eraseAll, calls_eraseAll]
  exact same.filter _

theorem establish_of_perm (same : shuffled.calls.Perm table.calls) (id : CallId) :
    (shuffled.establish id).calls.Perm (table.establish id).calls :=
  same.map _

end CallTable

namespace Switchboard

variable {σ : Type}

/-! ## Events -/

/-- Two boards that differ at most in the order in which the table holds the calls. -/
structure Shuffled (first second : Switchboard) : Prop where
  calls : first.calls.calls.Perm second.calls.calls
  rest : first = { second with calls := first.calls }

theorem shuffled_supersede (engine : Engine σ) {board : Switchboard} {order : CallTable}
    (distinct : board.calls.Distinct) (same : order.calls.Perm board.calls.calls)
    (winner : TrackedCall) (state : σ) :
    ({ board with calls := order }.supersede engine winner state).2
        = (board.supersede engine winner state).2 ∧
      ({ board with calls := order }.supersede engine winner state).1.result
        = (board.supersede engine winner state).1.result ∧
      ({ board with calls := order }.supersede engine winner state).1.effects
        = (board.supersede engine winner state).1.effects ∧
      ({ board with calls := order }.supersede engine winner state).1.board.Shuffled
        (board.supersede engine winner state).1.board := by
  -- the siblings are sorted, so all that is told and asked comes in the same order
  simp only [supersede, CallTable.siblings_of_perm distinct same, true_and]
  exact ⟨CallTable.eraseAll_of_perm (CallTable.establish_of_perm same _) _, rfl⟩

/-- An event comes to the same in whichever order the table holds the calls. -/
theorem shuffled_handleEvent (engine : Engine σ) {board : Switchboard} {order : CallTable}
    (distinct : board.calls.Distinct) (same : order.calls.Perm board.calls.calls)
    (event : CallEvent) (state : σ) :
    ({ board with calls := order }.handleEvent engine event state).2
        = (board.handleEvent engine event state).2 ∧
      ({ board with calls := order }.handleEvent engine event state).1.result
        = (board.handleEvent engine event state).1.result ∧
      ({ board with calls := order }.handleEvent engine event state).1.effects
        = (board.handleEvent engine event state).1.effects ∧
      ({ board with calls := order }.handleEvent engine event state).1.board.Shuffled
        (board.handleEvent engine event state).1.board := by
  cases event with
  | progress id => exact ⟨rfl, rfl, rfl, same, rfl⟩
  | closed id reason =>
    simp only [handleEvent, hungUp, CallTable.find?_of_perm distinct same, true_and]
    cases board.calls.find? id with
    | none => exact ⟨rfl, same, rfl⟩
    | some call => exact ⟨rfl, CallTable.erase_of_perm same id, rfl⟩
  | established id =>
    simp only [handleEvent, answered, CallTable.find?_of_perm distinct same]
    cases board.calls.find? id with
    | none => exact ⟨rfl, rfl, rfl, same, rfl⟩
    | some call =>
      cases reached : call.state with
      | established =>
        simp only [reached, true_and]
        exact ⟨same, rfl⟩
      | dialing =>
        simp only [reached]
        obtain ⟨state, result, effects, shuffled⟩ :=
          shuffled_supersede engine distinct same call state
        exact ⟨state, congrArg some result, effects, shuffled⟩

end Switchboard

/-! ## A sample run -/

namespace Ringing

/-- Three calls of one group ring, and one of another. -/
def operations : List Switchboard.Operation :=
  [.request (.createGroup "G"), .request (.addPeer "G" "sip:a@x" none),
    .request (.addPeer "G" "sip:b@x" none), .request (.addPeer "G" "sip:c@x" none),
    .request (.createGroup "H"), .request (.addPeer "H" "sip:d@x" none),
    .request (.startCall "G" {}), .request (.startCall "H" {}), .beginTurn]

/-- The identifiers come in no order, and one call of the first group cannot be hung up. -/
def script : EngineScript :=
  { nextIds := [⟨"w"⟩, ⟨"u"⟩, ⟨"v"⟩, ⟨"t"⟩], hangupFailures := [(⟨"v"⟩, .failure "busy")] }

def board : Switchboard := (Rematch.board.run EngineScript.engine operations script).2.1

def engine : EngineScript := (Rematch.board.run EngineScript.engine operations script).2.2

theorem reached : ∃ steps, Reach EngineScript.engine steps board engine :=
  ⟨_, (Reach.start Rematch.started script).extend operations⟩

def first : TrackedCall := ⟨⟨⟨"w"⟩, "sip:a@x"⟩, ⟨1⟩, "G", "sip:a@x", .dialing⟩

def second : TrackedCall := ⟨⟨⟨"u"⟩, "sip:b@x"⟩, ⟨1⟩, "G", "sip:b@x", .dialing⟩

def third : TrackedCall := ⟨⟨⟨"v"⟩, "sip:c@x"⟩, ⟨1⟩, "G", "sip:c@x", .dialing⟩

def other : TrackedCall := ⟨⟨⟨"t"⟩, "sip:d@x"⟩, ⟨2⟩, "H", "sip:d@x", .dialing⟩

theorem calls_board : board.calls = ⟨[first, second, third, other]⟩ := by
  decide +kernel

end Ringing
end CallFork
