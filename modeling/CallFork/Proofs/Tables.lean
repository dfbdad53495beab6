import CallFork.Group
import CallFork.Release
import Mathlib.Data.List.Nodup

/-! # What the tables hold

`GroupTable.find?`, `CallTable.find?` and `ReleaseTable.find?` are read as functions on names,
identifiers and tickets, and each operation on a table is described by what it does to them. The
lists behind the tables come in where calls are counted or walked through: `CallTable.Distinct` says
that no two tracked calls share an identifier, `ReleaseTable.Ticketed` that every ticket is given
out once.
-/

namespace CallFork

/-- Items with distinct keys are told apart by them. -/
theorem filter_key_eq {α β : Type} [DecidableEq β] {key : α → β} {items : List α}
    (distinct : (items.map key).Nodup) {item : α} (member : item ∈ items) :
    items.filter (fun other => key other = key item) = [item] := by
  induction items with
  | nil => cases member
  | cons first rest inductionHypothesis =>
    obtain ⟨new, distinct⟩ := List.nodup_cons.1 distinct
    cases member with
    | head =>
      have others : rest.filter (fun other => key other = key item) = [] := by
        apply List.filter_eq_nil_iff.2
        intro other present same
        exact new (of_decide_eq_true same ▸ List.mem_map_of_mem present)
      simp [others]
    | tail _ later =>
      have apart : key first ≠ key item := fun same => new (same ▸ List.mem_map_of_mem later)
      simp [apart, inductionHypothesis distinct later]

theorem GroupId.eq_of_number {first second : GroupId} (same : first.number = second.number) :
    first = second := by
  cases first
  cases second
  cases same
  rfl

namespace GroupTable

/-! ## Registered groups -/

theorem name_of_find? {table : GroupTable} {name : String} {group : Group}
    (found : table.find? name = some group) : group.name = name := by
  simpa using List.find?_some found

theorem find?_insertByName {group : Group} {groups : List Group}
    (free : groups.find? (fun other => other.name = group.name) = none) (name : String) :
    (insertByName group groups).find? (fun other => other.name = name) =
      if name = group.name then some group
      else groups.find? fun other => other.name = name := by
  induction groups with
  | nil => by_cases same : name = group.name <;> simp [insertByName, same, Ne.symm]
  | cons first rest inductionHypothesis =>
    have absent : first.name ≠ group.name ∧
        rest.find? (fun other => other.name = group.name) = none := by
      by_cases same : first.name = group.name
      · simp [same] at free
      · exact ⟨same, by simpa [List.find?_cons, same] using free⟩
    unfold insertByName
    split
    · -- the new group comes later, and the first one has another name
      rw [List.find?_cons, List.find?_cons, inductionHypothesis absent.2]
      by_cases here : first.name = name
      · have other : name ≠ group.name := here ▸ absent.1
        simp [here, other]
      · simp [here]
    · rw [List.find?_cons]
      by_cases same : name = group.name
      · simp [same]
      · simp [same, Ne.symm same]

theorem find?_create {table grown : GroupTable} {name : String} {id : GroupId}
    (created : table.create name = .ok (id, grown)) (other : String) :
    (grown.find? other).map (·.id) =
      if other = name then some ⟨table.issued + 1⟩ else (table.find? other).map (·.id) := by
  unfold create at created
  cases free : table.find? name with
  | some group =>
    rw [free] at created
    cases created
  | none =>
    rw [free] at created
    simp only [Except.ok.injEq, Prod.mk.injEq] at created
    obtain ⟨_, rfl⟩ := created
    unfold find? at free ⊢
    rw [find?_insertByName free]
    split <;> rfl

theorem find?_remove {table rest : GroupTable} {name : String} {group : Group}
    (removed : table.remove name = .ok (group, rest)) (other : String) :
    rest.find? other = if other = name then none else table.find? other := by
  unfold remove at removed
  split at removed
  · cases removed
  · simp only [Except.ok.injEq, Prod.mk.injEq] at removed
    obtain ⟨_, rfl⟩ := removed
    unfold find?
    rw [List.find?_filter]
    by_cases same : other = name
    · subst same
      simp
    · rw [if_neg same]
      congr 1
      funext group
      by_cases here : group.name = other <;> simp [here, same]

/-- A group that takes the place of the one of its name is found under that name, and under no
other. -/
theorem find?_replace {table : GroupTable} {name : String} {group larger : Group}
    (found : table.find? name = some group) (named : larger.name = name) (other : String) :
    find? { table with groups := table.groups.map fun former =>
        if former.name = name then larger else former } other
      = if other = name then some larger else table.find? other := by
  -- no group changes its name, so the search ends at the same place
  have names : ((fun group : Group => decide (group.name = other)) ∘ fun former =>
        if former.name = name then larger else former)
      = fun group => decide (group.name = other) := by
    funext former
    by_cases here : former.name = name <;> simp [here, named]
  have own := name_of_find? found
  unfold find? at found ⊢
  rw [List.find?_map, names]
  by_cases same : other = name
  · rw [if_pos same, same, found]
    simp [own]
  · rw [if_neg same]
    cases there : table.groups.find? fun group => decide (group.name = other) with
    | none => rfl
    | some present =>
      have which : present.name = other := by simpa using List.find?_some there
      simp [which, same]

theorem addPeer_of_found {table : GroupTable} {name : String} {group : Group}
    (found : table.find? name = some group) (peer : Peer) :
    table.addPeer name peer =
      if group.hasTarget peer.target then .error (.duplicateTarget group.name peer.target)
      else .ok { table with groups := table.groups.map fun other =>
        if other.name = name then { group with peers := group.peers ++ [peer] } else other } := by
  simp only [addPeer, find, found, Group.addPeer, bind, Except.bind]
  by_cases present : group.hasTarget peer.target = true
  · simp only [present, if_true]
  · simp only [present]
    rfl

end GroupTable

namespace CallTable

/-! ## Finding a call -/

/-- No two tracked calls have the same identifier. -/
def Distinct (table : CallTable) : Prop :=
  (table.calls.map (·.id)).Nodup

theorem mem_of_find? {table : CallTable} {id : CallId} {call : TrackedCall}
    (found : table.find? id = some call) : call ∈ table.calls ∧ call.id = id :=
  ⟨List.mem_of_find?_eq_some found, by simpa using List.find?_some found⟩

theorem find?_self {table : CallTable} {id : CallId} {call : TrackedCall}
    (found : table.find? id = some call) : table.find? call.id = some call := by
  rw [(mem_of_find? found).2]
  exact found

theorem find?_of_mem {table : CallTable} (distinct : table.Distinct) {call : TrackedCall}
    (member : call ∈ table.calls) : table.find? call.id = some call := by
  cases found : table.find? call.id with
  | none =>
    have absent := List.find?_eq_none.1 found call member
    simp at absent
  | some other =>
    obtain ⟨tracked, same⟩ := mem_of_find? found
    rw [List.inj_on_of_nodup_map distinct tracked member same]

theorem filter_id_eq {table : CallTable} (distinct : table.Distinct) (id : CallId) :
    table.calls.filter (fun call => call.id = id) = (table.find? id).toList := by
  cases found : table.find? id with
  | none =>
    apply List.filter_eq_nil_iff.2
    exact List.find?_eq_none.1 found
  | some call =>
    obtain ⟨member, rfl⟩ := mem_of_find? found
    exact filter_key_eq distinct member

theorem contains_eq_isSome (table : CallTable) (id : CallId) :
    table.contains id = (table.find? id).isSome := by
  rw [Bool.eq_iff_iff, contains, List.any_eq_true, find?, List.find?_isSome]

/-- A call gets into the table if its identifier is not tracked, and stands at the end then. -/
theorem insert_eq_ok {table grown : CallTable} {call : TrackedCall} :
    table.insert call = .ok grown ↔
      table.find? call.id = none ∧ grown = ⟨table.calls ++ [call]⟩ := by
  unfold insert
  rw [contains_eq_isSome]
  cases table.find? call.id with
  | none => simp [eq_comm]
  | some other => simp

/-! ## The operations as seen by `find?` -/

theorem find?_insert {table grown : CallTable} {call : TrackedCall}
    (inserted : table.insert call = .ok grown) (id : CallId) :
    grown.find? id = if id = call.id then some call else table.find? id := by
  obtain ⟨absent, rfl⟩ := insert_eq_ok.1 inserted
  unfold find? at absent ⊢
  rw [List.find?_append]
  by_cases same : id = call.id
  · subst same
    simp [absent]
  · simp [same, Ne.symm same]

@[simp] theorem find?_erase (table : CallTable) (erased id : CallId) :
    (table.erase erased).find? id = if id = erased then none else table.find? id := by
  unfold find? erase
  rw [List.find?_filter]
  by_cases same : id = erased
  · subst same
    simp
  · rw [if_neg same]
    congr 1
    funext call
    by_cases here : call.id = id <;> simp [here, same]

theorem find?_eraseAll (table : CallTable) (ids : List CallId) (id : CallId) :
    (table.eraseAll ids).find? id = if id ∈ ids then none else table.find? id := by
  induction ids generalizing table with
  | nil => simp [eraseAll]
  | cons first rest inductionHypothesis =>
    change ((table.erase first).eraseAll rest).find? id = _
    rw [inductionHypothesis, find?_erase]
    by_cases here : id = first <;> simp [here]

@[simp] theorem find?_establish (table : CallTable) (answered id : CallId) :
    (table.establish answered).find? id = (table.find? id).map fun call =>
      if id = answered then { call with state := .established } else call := by
  -- no call changes its identifier, so the search ends at the same place
  have same : ((fun tracked : TrackedCall => decide (tracked.id = id)) ∘ fun tracked =>
      if tracked.id = answered then { tracked with state := CallState.established } else tracked)
      = fun tracked => decide (tracked.id = id) := by
    funext tracked
    simp only [Function.comp_apply]
    split <;> rfl
  unfold find? establish
  rw [List.find?_map, same]
  cases found : table.calls.find? fun tracked => decide (tracked.id = id) with
  | none => rfl
  | some call =>
    have named : call.id = id := by simpa using List.find?_some found
    simp [named]

theorem mem_eraseAll {table : CallTable} {ids : List CallId} {call : TrackedCall} :
    call ∈ (table.eraseAll ids).calls ↔ call ∈ table.calls ∧ call.id ∉ ids := by
  induction ids generalizing table with
  | nil => simp [eraseAll]
  | cons first rest inductionHypothesis =>
    change call ∈ ((table.erase first).eraseAll rest).calls ↔ _
    rw [inductionHypothesis]
    simp [erase, and_assoc]

theorem calls_eraseAll (table : CallTable) (ids : List CallId) :
    (table.eraseAll ids).calls = table.calls.filter fun call => call.id ∉ ids := by
  induction ids generalizing table with
  | nil => simp [eraseAll]
  | cons first rest inductionHypothesis =>
    change ((table.erase first).eraseAll rest).calls = _
    rw [inductionHypothesis]
    simp only [erase, List.filter_filter]
    apply List.filter_congr
    intro call _
    by_cases here : call.id = first <;> simp [here]

theorem eraseAll_of_untracked {table : CallTable} {ids : List CallId}
    (untracked : ∀ id ∈ ids, table.find? id = none) : table.eraseAll ids = table := by
  have kept : (table.eraseAll ids).calls = table.calls := by
    rw [calls_eraseAll]
    apply List.filter_eq_self.2
    intro call member
    have absent : call.id ∉ ids := by
      intro listed
      have gone := List.find?_eq_none.1 (untracked call.id listed) call member
      simp at gone
    simpa using absent
  exact congrArg CallTable.mk kept

/-! ## Distinct identifiers -/

theorem distinct_empty : ({} : CallTable).Distinct :=
  List.nodup_nil

theorem distinct_insert {table grown : CallTable} {call : TrackedCall}
    (distinct : table.Distinct) (inserted : table.insert call = .ok grown) : grown.Distinct := by
  obtain ⟨absent, rfl⟩ := insert_eq_ok.1 inserted
  unfold Distinct at distinct ⊢
  rw [List.map_append, List.map_singleton, List.nodup_append]
  refine ⟨distinct, List.nodup_singleton _, ?_⟩
  intro id member other new same
  -- a tracked call with the new identifier would have been found
  obtain ⟨tracked, isTracked, rfl⟩ := List.mem_map.1 member
  rw [List.mem_singleton.1 new] at same
  have present := find?_of_mem distinct isTracked
  rw [same, absent] at present
  cases present

theorem distinct_erase {table : CallTable} (distinct : table.Distinct) (id : CallId) :
    (table.erase id).Distinct :=
  distinct.sublist (List.filter_sublist.map _)

theorem distinct_eraseAll {table : CallTable} (distinct : table.Distinct) (ids : List CallId) :
    (table.eraseAll ids).Distinct := by
  unfold Distinct
  rw [calls_eraseAll]
  exact distinct.sublist (List.filter_sublist.map _)

theorem distinct_establish {table : CallTable} (distinct : table.Distinct) (id : CallId) :
    (table.establish id).Distinct := by
  have same : (table.establish id).calls.map (·.id) = table.calls.map (·.id) := by
    unfold establish
    rw [List.map_map]
    apply List.map_congr_left
    intro call _
    simp only [Function.comp_apply]
    split <;> rfl
  unfold Distinct
  rw [same]
  exact distinct

/-- Answering a call and forgetting others can be done in either order. -/
theorem eraseAll_establish (table : CallTable) (ids : List CallId) (answered : CallId) :
    (table.establish answered).eraseAll ids = (table.eraseAll ids).establish answered := by
  induction ids generalizing table with
  | nil => rfl
  | cons first rest inductionHypothesis =>
    -- erasing looks at identifiers only, and those stay the same
    have swapped : (table.establish answered).erase first
        = (table.erase first).establish answered := by
      unfold establish erase
      rw [List.filter_map]
      congr 2
      apply List.filter_congr
      intro call _
      simp only [Function.comp_apply]
      split <;> rfl
    change ((table.establish answered).erase first).eraseAll rest = _
    rw [swapped, inductionHypothesis]
    rfl

/-! ## Siblings -/

theorem mem_siblings {table : CallTable} {id : CallId} {call : TrackedCall}
    (found : table.find? id = some call) {other : TrackedCall} :
    other ∈ table.siblings id ↔
      other ∈ table.calls ∧ other.groupId = call.groupId ∧ other.id ≠ id := by
  unfold siblings
  rw [found]
  have named := (mem_of_find? found).2
  simp only [List.mem_mergeSort, List.mem_filter, TrackedCall.isSiblingOf, named,
    Bool.and_eq_true, decide_eq_true_eq, ne_eq]
  constructor
  · rintro ⟨member, same, different⟩
    exact ⟨member, same.symm, fun again => different again.symm⟩
  · rintro ⟨member, same, different⟩
    exact ⟨member, same.symm, fun again => different again.symm⟩

theorem find?_sibling {table : CallTable} (distinct : table.Distinct) {id : CallId}
    {call : TrackedCall} (found : table.find? id = some call) :
    ∀ sibling ∈ table.siblings id, table.find? sibling.id = some sibling := by
  intro sibling member
  exact find?_of_mem distinct ((mem_siblings found).1 member).1

theorem siblings_distinct {table : CallTable} (distinct : table.Distinct) (id : CallId) :
    ((table.siblings id).map (·.id)).Nodup := by
  unfold siblings
  split
  · exact List.nodup_nil
  · rename_i call _
    have sorted : ((table.calls.filter call.isSiblingOf).mergeSort TrackedCall.le).Perm
        (table.calls.filter call.isSiblingOf) := List.mergeSort_perm _ _
    rw [(sorted.map _).nodup_iff]
    exact distinct.sublist (List.filter_sublist.map _)

theorem mem_inGroup {table : CallTable} {group : GroupId} {call : TrackedCall} :
    call ∈ table.inGroup group ↔ call ∈ table.calls ∧ call.groupId = group := by
  simp [inGroup]

theorem inGroup_distinct {table : CallTable} (distinct : table.Distinct) (group : GroupId) :
    ((table.inGroup group).map (·.id)).Nodup :=
  distinct.sublist (List.filter_sublist.map _)

end CallTable

namespace ReleaseTable

/-! ## Tickets -/

/-- No two pending releases have the same ticket, and later tickets will be new. -/
structure Ticketed (table : ReleaseTable) : Prop where
  distinct : (table.pending.map (·.ticket)).Nodup
  issued : ∀ entry ∈ table.pending, entry.ticket.number ≤ table.issued

theorem mem_of_find? {table : ReleaseTable} {ticket : Ticket} {entry : PendingRelease}
    (found : table.find? ticket = some entry) : entry ∈ table.pending ∧ entry.ticket = ticket :=
  ⟨List.mem_of_find?_eq_some found, by simpa using List.find?_some found⟩

theorem find?_of_mem {table : ReleaseTable} (ticketed : table.Ticketed) {entry : PendingRelease}
    (member : entry ∈ table.pending) : table.find? entry.ticket = some entry := by
  cases found : table.find? entry.ticket with
  | none =>
    have absent := List.find?_eq_none.1 found entry member
    simp at absent
  | some other =>
    obtain ⟨kept, same⟩ := mem_of_find? found
    rw [List.inj_on_of_nodup_map ticketed.distinct kept member same]

theorem Ticketed.find?_next {table : ReleaseTable} (ticketed : table.Ticketed) :
    table.find? ⟨table.issued + 1⟩ = none := by
  unfold find?
  rw [List.find?_eq_none]
  intro entry member same
  have old := ticketed.issued entry member
  rw [of_decide_eq_true same] at old
  exact absurd old (Nat.not_succ_le_self _)

theorem find?_defer {table : ReleaseTable} (ticketed : table.Ticketed) (call : TrackedCall)
    (turn : Nat) (ticket : Ticket) :
    (table.defer call turn).2.find? ticket =
      if ticket = ⟨table.issued + 1⟩ then some ⟨ticket, call, turn⟩ else table.find? ticket := by
  have absent := ticketed.find?_next
  unfold defer find? at *
  rw [List.find?_append]
  by_cases new : ticket = ⟨table.issued + 1⟩
  · rw [new, absent]
    simp
  · simp [new, Ne.symm new]

theorem find?_release (table : ReleaseTable) (released ticket : Ticket) :
    ReleaseTable.find? { table with
        pending := table.pending.filter fun entry => entry.ticket ≠ released } ticket =
      if ticket = released then none else table.find? ticket := by
  unfold find?
  rw [List.find?_filter]
  by_cases same : ticket = released
  · subst same
    simp
  · rw [if_neg same]
    congr 1
    funext entry
    by_cases here : entry.ticket = ticket <;> simp [here, same]

theorem ticketed_empty : ({} : ReleaseTable).Ticketed :=
  ⟨List.nodup_nil, by simp⟩

theorem ticketed_defer {table : ReleaseTable} (ticketed : table.Ticketed) (call : TrackedCall)
    (turn : Nat) : (table.defer call turn).2.Ticketed := by
  unfold defer
  constructor
  · rw [List.map_append, List.nodup_append]
    refine ⟨ticketed.distinct, List.nodup_singleton _, ?_⟩
    intro ticket member other new same
    -- all tickets in the table are lower than the new one
    obtain ⟨entry, kept, rfl⟩ := List.mem_map.1 member
    rw [List.map_singleton, List.mem_singleton] at new
    have old := ticketed.issued entry kept
    rw [same, new] at old
    exact absurd old (Nat.not_succ_le_self _)
  · intro entry member
    rcases List.mem_append.1 member with kept | new
    · exact Nat.le_succ_of_le (ticketed.issued entry kept)
    · have last := List.mem_singleton.1 new
      subst last
      exact Nat.le_refl _

theorem ticketed_filter {table : ReleaseTable} (ticketed : table.Ticketed)
    (keep : PendingRelease → Bool) :
    ReleaseTable.Ticketed { table with pending := table.pending.filter keep } where
  distinct := ticketed.distinct.sublist (List.filter_sublist.map _)
  issued entry member := ticketed.issued entry (List.mem_filter.1 member).1

end ReleaseTable
end CallFork
