import CallFork.Proofs.Commuting
import CallFork.Proofs.TableOrder

/-! # How a table of calls comes about

A table of tracked calls is filled and emptied by four kinds of edits. `CallTable.ofEdits` is the
table after some edits in any order, and `Records` is what these edits do to a plain map from
identifiers to calls, which files each call where it is told to and never looks into it. The two
agree (`records_ofEdits`), and the induction that shows it carries along that every call is filed under
its own identifier. From this it follows who the siblings of a call are: all others in its group, so
that nobody else of the group is left when they are removed.
-/

namespace CallFork

namespace CallTable

/-- Something that is done to a table of tracked calls. -/
inductive Edit where
  | insert (call : TrackedCall)
  | erase (id : CallId)
  | establish (id : CallId)
  | clear
deriving DecidableEq, Repr

/-- The table after an edit. An insertion that is refused leaves it as it was. -/
def edit (table : CallTable) : Edit → CallTable
  | .insert call =>
    match table.insert call with
    | .ok grown => grown
    | .error _ => table
  | .erase id => table.erase id
  | .establish id => table.establish id
  | .clear => {}

/-- The table after some edits, first to last. -/
def ofEdits (edits : List Edit) : CallTable :=
  edits.foldl edit {}

/-- The calls that are filed under each identifier. -/
def Records := CallId → Option TrackedCall

namespace Records

/-- The same map but for what is filed under one identifier. -/
def put (records : Records) (id : CallId) (filed : Option TrackedCall) : Records :=
  fun other => if other = id then filed else records other

def edit (records : Records) : Edit → Records
  | .insert call => if (records call.id).isSome then records else records.put call.id (some call)
  | .erase id => records.put id none
  | .establish id =>
    records.put id ((records id).map fun call => { call with state := .established })
  | .clear => fun _ => none

def ofEdits (edits : List Edit) : Records :=
  edits.foldl edit fun _ => none

/-- Every call is filed under its own identifier. -/
def Keyed (records : Records) : Prop :=
  ∀ id call, records id = some call → call.id = id

theorem Keyed.put {records : Records} (keyed : records.Keyed) {id : CallId}
    {filed : Option TrackedCall} (own : ∀ call ∈ filed, call.id = id) :
    (records.put id filed).Keyed := by
  intro other call found
  unfold Records.put at found
  split at found
  · rename_i here
    exact here ▸ own call found
  · exact keyed other call found

/-- What one edit does keeps calls under their own identifiers. -/
theorem Keyed.edit {records : Records} (keyed : records.Keyed) (edit : Edit) :
    (records.edit edit).Keyed := by
  cases edit with
  | insert call =>
    simp only [Records.edit]
    split
    · exact keyed
    · apply keyed.put
      intro inserted new
      rw [Option.some.inj new]
  | erase id => exact keyed.put (by simp)
  | establish id =>
    apply keyed.put
    intro call answered
    obtain ⟨former, filed, rfl⟩ := Option.map_eq_some_iff.1 answered
    exact keyed id former filed
  | clear =>
    intro id call found
    cases found

theorem keyed_ofEdits (edits : List Edit) : (ofEdits edits).Keyed := by
  have run : ∀ records : Records, records.Keyed → (edits.foldl Records.edit records).Keyed := by
    -- the invariant goes through the edits whatever they start from
    induction edits with
    | nil => exact fun _ keyed => keyed
    | cons edit rest inductionHypothesis =>
      exact fun records keyed => inductionHypothesis _ (keyed.edit edit)
  exact run _ fun _ _ found => nomatch found

end Records

/-! ## One edit -/

variable {table : CallTable}

theorem edit_of_tracked {call : TrackedCall} (tracked : (table.find? call.id).isSome = true) :
    table.insert call = .error (.duplicateCall call.id) ∧ table.edit (.insert call) = table := by
  have refused : table.insert call = .error (.duplicateCall call.id) := by
    unfold insert
    rw [contains_eq_isSome, if_pos tracked]
  exact ⟨refused, by simp only [edit, refused]⟩

theorem edit_of_untracked {call : TrackedCall} (untracked : table.find? call.id = none) :
    table.insert call = .ok ⟨table.calls ++ [call]⟩ ∧
      table.edit (.insert call) = ⟨table.calls ++ [call]⟩ := by
  have inserted : table.insert call = .ok ⟨table.calls ++ [call]⟩ :=
    insert_eq_ok.2 ⟨untracked, rfl⟩
  exact ⟨inserted, by simp only [edit, inserted]⟩

theorem distinct_edit (distinct : table.Distinct) (edit : Edit) : (table.edit edit).Distinct := by
  cases edit with
  | insert call =>
    simp only [CallTable.edit]
    split
    · rename_i inserted
      exact distinct_insert distinct inserted
    · exact distinct
  | erase id => exact distinct_erase distinct id
  | establish id => exact distinct_establish distinct id
  | clear => exact distinct_empty

/-- The map that a table stands for. -/
def records (table : CallTable) : Records :=
  fun id => table.find? id

/-- An edit of a table is the same edit of the map that it stands for. -/
theorem records_edit (table : CallTable) (edit : Edit) :
    (table.edit edit).records = table.records.edit edit := by
  funext id
  cases edit with
  | insert call =>
    cases found : table.find? call.id with
    | some other =>
      have tracked : (table.find? call.id).isSome = true := by rw [found]; rfl
      simp only [edit_of_tracked tracked, Records.edit, records, tracked, if_true]
    | none =>
      obtain ⟨inserted, grown⟩ := edit_of_untracked found
      have filed := find?_insert inserted id
      simp only [grown, Records.edit, records, found, filed]
      rfl
  | erase erased => exact find?_erase table erased id
  | establish answered =>
    have filed := find?_establish table answered id
    simp only [edit, Records.edit, Records.put, records, filed]
    by_cases here : id = answered
    · simp [here]
    · simp [here]
  | clear => rfl

/-! ## Any edits -/

theorem distinct_ofEdits (edits : List Edit) : (ofEdits edits).Distinct := by
  have run : ∀ table : CallTable, table.Distinct → (edits.foldl edit table).Distinct := by
    induction edits with
    | nil => exact fun _ distinct => distinct
    | cons edit rest inductionHypothesis =>
      exact fun table distinct => inductionHypothesis _ (distinct_edit distinct edit)
  exact run _ distinct_empty

theorem records_ofEdits (edits : List Edit) :
    (ofEdits edits).records = Records.ofEdits edits := by
  have run : ∀ table : CallTable, (edits.foldl edit table).records
      = edits.foldl Records.edit table.records := by
    induction edits with
    | nil => exact fun _ => rfl
    | cons edit rest inductionHypothesis =>
      intro table
      rw [List.foldl_cons, List.foldl_cons, inductionHypothesis, records_edit]
  exact run {}

/-! ## Siblings -/

end CallTable

namespace TrackedCall

theorem isSiblingOf_iff {first second : TrackedCall} :
    first.isSiblingOf second = true ↔ first.groupId = second.groupId ∧ first.id ≠ second.id := by
  simp [isSiblingOf]

theorem isSiblingOf_comm (first second : TrackedCall) :
    first.isSiblingOf second = second.isSiblingOf first := by
  rw [Bool.eq_iff_iff, isSiblingOf_iff, isSiblingOf_iff, ne_comm, eq_comm]

/-- Siblings of one call are siblings of each other, unless they are the same call. -/
theorem isSiblingOf_trans {first second third : TrackedCall}
    (left : first.isSiblingOf second = true) (right : second.isSiblingOf third = true)
    (apart : first.id ≠ third.id) : first.isSiblingOf third = true := by
  obtain ⟨same, _⟩ := isSiblingOf_iff.1 left
  obtain ⟨again, _⟩ := isSiblingOf_iff.1 right
  exact isSiblingOf_iff.2 ⟨same.trans again, apart⟩

end TrackedCall

namespace CallTable

variable {table : CallTable}

theorem siblingIds_of_untracked {id : CallId} (untracked : table.find? id = none) :
    table.siblingIds id = [] := by
  unfold siblingIds siblings
  rw [untracked]
  rfl

theorem mem_siblingIds (distinct : table.Distinct) {id other : CallId} :
    other ∈ table.siblingIds id ↔ ∃ call rival, table.find? id = some call ∧
      table.find? other = some rival ∧ call.isSiblingOf rival = true := by
  constructor
  · intro listed
    cases found : table.find? id with
    | none =>
      rw [siblingIds_of_untracked found] at listed
      cases listed
    | some call =>
      obtain ⟨rival, member, rfl⟩ := List.mem_map.1 listed
      obtain ⟨tracked, same, different⟩ := (mem_siblings found).1 member
      have own := (mem_of_find? found).2
      have siblings : call.groupId = rival.groupId ∧ call.id ≠ rival.id :=
        ⟨same.symm, fun again => different (again.symm.trans own)⟩
      exact ⟨call, rival, rfl, find?_of_mem distinct tracked,
        TrackedCall.isSiblingOf_iff.2 siblings⟩
  · rintro ⟨call, rival, found, there, siblings⟩
    obtain ⟨same, different⟩ := TrackedCall.isSiblingOf_iff.1 siblings
    obtain ⟨tracked, rfl⟩ := mem_of_find? there
    have own := (mem_of_find? found).2
    refine List.mem_map_of_mem ((mem_siblings found).2 ⟨tracked, same.symm, ?_⟩)
    exact fun again => different (own.trans again.symm)

theorem pairwise_siblingIds (distinct : table.Distinct) (id : CallId) :
    (table.siblingIds id).Pairwise fun first second => utf8 first.text < utf8 second.text := by
  cases found : table.find? id with
  | none =>
    rw [siblingIds_of_untracked found]
    exact .nil
  | some call =>
    unfold siblingIds siblings
    rw [found, List.pairwise_map]
    exact TrackedCall.pairwise_mergeSort (distinct.sublist (List.filter_sublist.map _))

theorem siblingIds_perm (distinct : table.Distinct) {call : TrackedCall}
    (found : table.find? call.id = some call) :
    (table.siblingIds call.id).Perm (((table.inGroup call.groupId).map (·.id)).erase call.id) := by
  have others : ((table.inGroup call.groupId).map (·.id)).erase call.id
      = ((table.inGroup call.groupId).filter fun other => call.id ≠ other.id).map (·.id) := by
    rw [(inGroup_distinct distinct call.groupId).erase_eq_filter, List.filter_map]
    congr 1
    apply List.filter_congr
    intro other _
    simp [bne, Bool.beq_eq_decide_eq, eq_comm]
  unfold siblingIds
  rw [siblings_eq found, others]
  exact (List.mergeSort_perm _ _).map _

/-! ## What holds after any edits -/

/-- A table stands for a map in which every call is filed under its own identifier, and its edits add
and take away exactly the call they are about. -/
structure Represents (table : CallTable) (records : Records) : Prop where
  records : table.records = records
  own_id : ∀ id call, table.find? id = some call → call.id = id
  listed : ∀ call, call ∈ table.calls ↔ table.find? call.id = some call
  refused : ∀ call, (∃ error, table.insert call = .error error) ↔ table.contains call.id = true
  unchanged : ∀ call error, table.insert call = .error error →
    error = .duplicateCall call.id ∧ table.edit (.insert call) = table
  added : ∀ call grown, table.insert call = .ok grown →
    table.edit (.insert call) = grown ∧ grown.calls.Perm (call :: table.calls)
  removed : ∀ id call, table.find? id = some call →
    table.calls.Perm (call :: (table.erase id).calls) ∧ (table.erase id).find? id = none
  missed : ∀ id, table.find? id = none → table.erase id = table

/-- Of a tracked call, these are the identifiers of all others in its group. Without them, it is the
only one there, and all other groups are as before. -/
structure Rivals (table : CallTable) (call : TrackedCall) (ids : List CallId) : Prop where
  ascending : ids.Pairwise fun first second => utf8 first.text < utf8 second.text
  others : ids.Perm (((table.inGroup call.groupId).map (·.id)).erase call.id)
  left : (table.eraseAll ids).inGroup call.groupId = [call]
  spared : ∀ group, group ≠ call.groupId →
    (table.eraseAll ids).inGroup group = table.inGroup group

theorem rivals_siblingIds (distinct : table.Distinct) {call : TrackedCall}
    (found : table.find? call.id = some call) :
    table.Rivals call (table.siblingIds call.id) where
  ascending := pairwise_siblingIds distinct call.id
  others := siblingIds_perm distinct found
  left := inGroup_eraseSiblings distinct found
  spared _ apart := inGroup_eraseAll_of_ne distinct (siblingIds_inGroup found) apart

theorem erase_of_untracked {id : CallId} (untracked : table.find? id = none) :
    table.erase id = table := by
  have all : ∀ tracked ∈ [id], table.find? tracked = none := by simpa using untracked
  exact eraseAll_of_untracked all

theorem perm_erase (distinct : table.Distinct) {id : CallId} {call : TrackedCall}
    (found : table.find? id = some call) : table.calls.Perm (call :: (table.erase id).calls) := by
  have parted := List.filter_append_perm (fun tracked : TrackedCall => tracked.id = id) table.calls
  rw [filter_id_eq distinct, found] at parted
  refine parted.symm.trans (.of_eq ?_)
  simp only [Option.toList_some, List.singleton_append, erase]
  congr 1
  apply List.filter_congr
  intro tracked _
  simp

theorem represents_ofEdits (edits : List Edit) :
    (ofEdits edits).Represents (Records.ofEdits edits) := by
  have distinct := distinct_ofEdits edits
  have same := records_ofEdits edits
  generalize ofEdits edits = table at distinct same
  refine ⟨same, ?_, ?_, ?_, ?_, ?_, ?_, fun id => erase_of_untracked⟩
  · intro id call found
    have filed : Records.ofEdits edits id = some call := (congrFun same id).symm.trans found
    exact Records.keyed_ofEdits edits id call filed
  · intro call
    exact ⟨find?_of_mem distinct, fun found => (mem_of_find? found).1⟩
  · intro call
    rw [contains_eq_isSome]
    constructor
    · rintro ⟨error, refused⟩
      cases found : table.find? call.id with
      | some other => rfl
      | none =>
        rw [(edit_of_untracked found).1] at refused
        cases refused
    · exact fun tracked => ⟨_, (edit_of_tracked tracked).1⟩
  · intro call error refused
    unfold insert at refused
    split at refused
    · rename_i present
      rw [contains_eq_isSome] at present
      exact ⟨(Except.error.inj refused).symm, (edit_of_tracked present).2⟩
    · cases refused
  · intro call grown inserted
    obtain ⟨untracked, rfl⟩ := insert_eq_ok.1 inserted
    exact ⟨(edit_of_untracked untracked).2, List.perm_append_singleton call table.calls⟩
  · intro id call found
    refine ⟨perm_erase distinct found, ?_⟩
    rw [find?_erase, if_pos rfl]

/-- After any edits, a table stands for the map that the same edits make, and every call in it is
filed under its own identifier. The siblings of a call are listed in ascending order of the bytes and
are all others of its group, so that without them it is the only one there. Who is a sibling of whom
does not depend on which of the two is asked, and siblings of siblings are siblings. -/
theorem filed_by_own_id (edits : List Edit) :
    (ofEdits edits).Represents (Records.ofEdits edits) ∧
    (∀ id, (ofEdits edits).find? id = none → (ofEdits edits).siblingIds id = []) ∧
    (∀ id call, (ofEdits edits).find? id = some call →
      (ofEdits edits).Rivals call ((ofEdits edits).siblingIds id)) ∧
    (∀ first second, second ∈ (ofEdits edits).siblingIds first ↔
      first ∈ (ofEdits edits).siblingIds second) ∧
    ∀ first second third, second ∈ (ofEdits edits).siblingIds first →
      third ∈ (ofEdits edits).siblingIds second → first ≠ third →
      third ∈ (ofEdits edits).siblingIds first := by
  have distinct := distinct_ofEdits edits
  refine ⟨represents_ofEdits edits, fun id => siblingIds_of_untracked, ?_, ?_, ?_⟩
  · intro id call found
    obtain ⟨_, rfl⟩ := mem_of_find? found
    exact rivals_siblingIds distinct found
  · intro first second
    rw [mem_siblingIds distinct, mem_siblingIds distinct]
    constructor <;>
    · rintro ⟨call, rival, found, there, siblings⟩
      rw [TrackedCall.isSiblingOf_comm] at siblings
      exact ⟨rival, call, there, found, siblings⟩
  · intro first second third listed next apart
    rw [mem_siblingIds distinct] at listed next ⊢
    obtain ⟨call, rival, found, there, siblings⟩ := listed
    obtain ⟨same, last, again, here, others⟩ := next
    obtain rfl := Option.some.inj (there.symm.trans again)
    refine ⟨call, last, found, here, TrackedCall.isSiblingOf_trans siblings others ?_⟩
    rw [(mem_of_find? found).2, (mem_of_find? here).2]
    exact apart

/-- Three calls of one group and one of another, with an identifier that is given out twice. -/
def sampleEdits : List Edit :=
  [.insert ⟨⟨⟨"lost"⟩, "sip:a@x"⟩, ⟨1⟩, "G", "sip:a@x", .dialing⟩, .clear,
    .insert ⟨⟨⟨"b"⟩, "sip:b@x"⟩, ⟨1⟩, "G", "sip:b@x", .dialing⟩,
    .insert ⟨⟨⟨"a"⟩, "sip:a@x"⟩, ⟨1⟩, "G", "sip:a@x", .dialing⟩,
    .insert ⟨⟨⟨"a"⟩, "sip:d@x"⟩, ⟨2⟩, "H", "sip:d@x", .dialing⟩,
    .insert ⟨⟨⟨"h"⟩, "sip:h@x"⟩, ⟨2⟩, "H", "sip:h@x", .dialing⟩,
    .insert ⟨⟨⟨"c"⟩, "sip:c@x"⟩, ⟨1⟩, "G", "sip:c@x", .dialing⟩, .establish ⟨"b"⟩]

theorem filed_by_own_id_in_sample :
    ∃ call, (ofEdits sampleEdits).find? ⟨"b"⟩ = some call ∧ call.state = .established ∧
      ((ofEdits sampleEdits).inGroup ⟨1⟩).length = 3 ∧
      ((ofEdits sampleEdits).eraseAll ((ofEdits sampleEdits).siblingIds ⟨"b"⟩)).inGroup ⟨1⟩
        = [call] ∧
      (ofEdits sampleEdits).siblingIds ⟨"lost"⟩ = [] := by
  obtain ⟨_, untracked, rivals, _⟩ := filed_by_own_id sampleEdits
  obtain ⟨call, found, won, group⟩ : ∃ call, (ofEdits sampleEdits).find? ⟨"b"⟩ = some call ∧
      call.state = .established ∧ call.groupId = ⟨1⟩ := by
    decide +kernel
  have left := (rivals ⟨"b"⟩ call found).left
  rw [group] at left
  exact ⟨call, found, won, by decide +kernel, left, untracked ⟨"lost"⟩ (by decide +kernel)⟩

end CallTable
end CallFork
