import CallFork.Proofs.Tables

/-! # Deferred releases under any delivery

The pending releases on their own: calls are deferred, tickets come back in any order, early, late,
several times or without ever having been given out, on turns in any order, and now and then
everything is dropped. `Served` holds of what was done and of the table it led to.

`Waits` reads off from the deeds alone which call waits under a ticket, and since which turn. The
table agrees with it (`Served.find?_iff`), so a ticket is answered by what was deferred under it and
by nothing else. `Balanced` is the invariant of the posted copies of tickets.
-/

namespace CallFork.ReleaseTable

/-! ## What can be done -/

/-- What can be asked of the pending releases, with any turn and any ticket. -/
inductive Act where
  | defer (call : TrackedCall) (turn : Nat)
  | release (ticket : Ticket) (turn : Nat)
  | drain
deriving DecidableEq

/-- What was done while the loop was there or not, which ticket was given out, which call was
forgotten, and what else happened. -/
structure Deed where
  act : Act
  isOpen : Bool
  issued? : Option Ticket := none
  released? : Option Released := none
  effects : List Effect := []

/-- Does what was asked. Tickets are posted to the loop, unless it is gone. -/
def carryOut (table : ReleaseTable) (isOpen : Bool) : Act → Deed × ReleaseTable
  | .defer call turn =>
    let (ticket, grown) := table.defer call turn
    ({ act := .defer call turn
       isOpen
       issued? := some ticket
       effects := (deferEffects call ticket).map (.withLoop isOpen) }, grown)
  | .release ticket turn =>
    let (delivery, rest) := table.release ticket turn
    ({ act := .release ticket turn
       isOpen
       released? := delivery.released?
       effects := (delivery.rescheduled ticket).map (.withLoop isOpen) }, rest)
  | .drain => ({ act := .drain, isOpen }, table.drain)

def carryOutEach (table : ReleaseTable) (isOpen : Bool) : List Act → List Deed × ReleaseTable
  | [] => ([], table)
  | act :: rest =>
    let (deed, table) := table.carryOut isOpen act
    let (deeds, table) := table.carryOutEach isOpen rest
    (deed :: deeds, table)

/-- What was done to a table that was empty at first, in order, and the table afterwards. -/
inductive Served : List Deed → ReleaseTable → Prop where
  | nothing : Served [] {}
  | next {deeds : List Deed} {table : ReleaseTable} (before : Served deeds table)
      (isOpen : Bool) (act : Act) :
      Served (deeds ++ [(table.carryOut isOpen act).1]) (table.carryOut isOpen act).2

namespace Deed

/-- The ticket by which a call was forgotten, if one was. -/
def spent? (deed : Deed) : Option Ticket :=
  match deed.act, deed.released? with
  | .release ticket _, some _ => some ticket
  | _, _ => none

/-- Nothing waits under the ticket any more. -/
def Ends (deed : Deed) (ticket : Ticket) : Prop :=
  deed.act = .drain ∨ deed.spent? = some ticket

end Deed

/-- The call was deferred under the ticket on the turn, and neither released nor dropped since. -/
def Waits (deeds : List Deed) (ticket : Ticket) (call : TrackedCall) (turn : Nat) : Prop :=
  ∃ earlier deferral later, deeds = earlier ++ deferral :: later ∧
    deferral.act = .defer call turn ∧ deferral.issued? = some ticket ∧
    ∀ deed ∈ later, ¬ deed.Ends ticket

/-- The posted copies of tickets that nobody has presented yet, if a ticket that is presented uses
up one copy of it. -/
def copies (deeds : List Deed) : List Ticket :=
  deeds.foldl (fun posted deed =>
    (match deed.act with
      | .release ticket _ => posted.erase ticket
      | .defer _ _ | .drain => posted) ++ Effect.tickets deed.effects) []

theorem waits_append_singleton {deeds : List Deed} {deed : Deed} {ticket : Ticket}
    {call : TrackedCall} {turn : Nat} :
    Waits (deeds ++ [deed]) ticket call turn ↔
      Waits deeds ticket call turn ∧ ¬ deed.Ends ticket ∨
        deed.act = .defer call turn ∧ deed.issued? = some ticket := by
  constructor
  · rintro ⟨earlier, deferral, later, whole, act, issued, lasts⟩
    rcases List.eq_nil_or_concat later with rfl | ⟨rest, last, rfl⟩
    · obtain ⟨_, same⟩ := List.append_inj' whole rfl
      rw [List.singleton_inj] at same
      exact .inr ⟨same ▸ act, same ▸ issued⟩
    · rw [List.concat_eq_append] at whole lasts
      rw [← List.cons_append, ← List.append_assoc] at whole
      obtain ⟨begins, same⟩ := List.append_inj' whole rfl
      rw [List.singleton_inj] at same
      refine .inl ⟨⟨earlier, deferral, rest, begins, act, issued, ?_⟩, ?_⟩
      · intro deed member
        exact lasts deed (List.mem_append_left _ member)
      · exact same ▸ lasts last (List.mem_append_right _ List.mem_cons_self)
  · rintro (⟨⟨earlier, deferral, later, rfl, act, issued, lasts⟩, still⟩ | ⟨act, issued⟩)
    · refine ⟨earlier, deferral, later ++ [deed], by simp, act, issued, ?_⟩
      intro other member
      rcases List.mem_append.1 member with old | new
      · exact lasts other old
      · rw [List.mem_singleton.1 new]
        exact still
    · exact ⟨deeds, deed, [], rfl, act, issued, by simp⟩

/-! ## Releasing -/

/-- A ticket under which nothing is kept is unknown; any other one comes too early, or the call is
forgotten and nothing else changes. -/
theorem release_cases (table : ReleaseTable) (ticket : Ticket) (turn : Nat) :
    table.find? ticket = none ∧ table.release ticket turn = (.unknown, table) ∨
      ∃ entry, table.find? ticket = some entry ∧
        (turn ≤ entry.deferredTurn ∧ table.release ticket turn = (.early, table) ∨
          entry.deferredTurn < turn ∧ table.release ticket turn =
            (.done ⟨entry.call.id, entry.deferredTurn, turn⟩,
              { table with pending := table.pending.filter fun other => other.ticket ≠ ticket })) := by
  unfold release
  cases table.find? ticket with
  | none => exact .inl ⟨rfl, rfl⟩
  | some entry =>
    refine .inr ⟨entry, rfl, ?_⟩
    by_cases early : turn ≤ entry.deferredTurn
    · exact .inl ⟨early, by simp [early]⟩
    · exact .inr ⟨Nat.lt_of_not_le early, by simp [early]⟩

theorem issued_release (table : ReleaseTable) (ticket : Ticket) (turn : Nat) :
    (table.release ticket turn).2.issued = table.issued := by
  rcases table.release_cases ticket turn with
    ⟨_, released⟩ | ⟨_, _, ⟨_, released⟩ | ⟨_, released⟩⟩ <;> rw [released]

/-- The only act that uses up a ticket is presenting it late enough. -/
theorem spent?_carryOut (table : ReleaseTable) (isOpen : Bool) (act : Act) (ticket : Ticket) :
    (table.carryOut isOpen act).1.spent? = some ticket ↔
      ∃ turn entry, act = .release ticket turn ∧ table.find? ticket = some entry ∧
        entry.deferredTurn < turn := by
  cases act with
  | defer call turn => simp [carryOut, Deed.spent?]
  | drain => simp [carryOut, Deed.spent?]
  | release presented turn =>
    simp only [carryOut, Deed.spent?]
    rcases table.release_cases presented turn with
      ⟨absent, released⟩ | ⟨entry, kept, ⟨early, released⟩ | ⟨later, released⟩⟩
    · rw [released]
      simp only [Delivery.released?, reduceCtorEq, false_iff]
      rintro ⟨again, entry, same, kept, _⟩
      cases same
      rw [absent] at kept
      cases kept
    · rw [released]
      simp only [Delivery.released?, reduceCtorEq, false_iff]
      rintro ⟨again, other, same, found, later⟩
      cases same
      rw [kept, Option.some.injEq] at found
      subst found
      omega
    · rw [released]
      simp only [Delivery.released?, Option.some.injEq]
      constructor
      · rintro rfl
        exact ⟨turn, entry, rfl, kept, later⟩
      · rintro ⟨again, _, same, _⟩
        cases same
        rfl

theorem ends_release {table : ReleaseTable} {isOpen : Bool} {presented ticket : Ticket}
    {turn : Nat} :
    (table.carryOut isOpen (.release presented turn)).1.Ends ticket ↔
      presented = ticket ∧ ∃ entry, table.find? ticket = some entry ∧ entry.deferredTurn < turn := by
  unfold Deed.Ends
  rw [spent?_carryOut]
  constructor
  · rintro (drained | ⟨again, entry, same, kept, later⟩)
    · cases drained
    · cases same
      exact ⟨rfl, entry, kept, later⟩
  · rintro ⟨rfl, entry, kept, later⟩
    exact .inr ⟨turn, entry, rfl, kept, later⟩

/-- After an act, a call waits under a ticket if it has waited before and still does, or if it was
deferred right now. -/
theorem find?_carryOut {table : ReleaseTable} (ticketed : table.Ticketed) (isOpen : Bool)
    (act : Act) {ticket : Ticket} {call : TrackedCall} {turn : Nat} :
    (table.carryOut isOpen act).2.find? ticket = some ⟨ticket, call, turn⟩ ↔
      table.find? ticket = some ⟨ticket, call, turn⟩ ∧
          ¬ (table.carryOut isOpen act).1.Ends ticket ∨
        act = .defer call turn ∧ (table.carryOut isOpen act).1.issued? = some ticket := by
  cases act with
  | defer deferred since =>
    have lasts : ¬ (table.carryOut isOpen (.defer deferred since)).1.Ends ticket := by
      rintro (drained | spent) <;> cases ‹_›
    have kept := find?_defer ticketed deferred since ticket
    change (table.defer deferred since).2.find? ticket = _ ↔
      _ ∧ _ ∨ _ ∧ some (⟨table.issued + 1⟩ : Ticket) = some ticket
    rw [kept]
    by_cases new : ticket = ⟨table.issued + 1⟩
    · -- nothing was kept under the ticket so far
      have free : table.find? ticket = none := new ▸ ticketed.find?_next
      rw [if_pos new, free]
      simp [new]
    · rw [if_neg new]
      simp [lasts, Ne.symm new]
  | drain =>
    have ends : (table.carryOut isOpen .drain).1.Ends ticket := .inl rfl
    have gone : (table.carryOut isOpen .drain).2.find? ticket = none := rfl
    simp [ends, gone]
  | release presented now =>
    simp only [reduceCtorEq, false_and, or_false, ends_release]
    rcases table.release_cases presented now with
      ⟨absent, released⟩ | ⟨entry, kept, ⟨early, released⟩ | ⟨later, released⟩⟩
    · -- nothing is kept under the ticket that was presented
      have same : (table.carryOut isOpen (.release presented now)).2 = table := by
        simp only [carryOut, released]
      rw [same, iff_self_and]
      rintro found ⟨rfl, _⟩
      rw [absent] at found
      cases found
    · have same : (table.carryOut isOpen (.release presented now)).2 = table := by
        simp only [carryOut, released]
      rw [same, iff_self_and]
      rintro _ ⟨rfl, other, found, later⟩
      rw [kept, Option.some.injEq] at found
      subst found
      omega
    · have rest : (table.carryOut isOpen (.release presented now)).2 =
          { table with pending := table.pending.filter fun other => other.ticket ≠ presented } := by
        simp only [carryOut, released]
      rw [rest, find?_release]
      by_cases here : ticket = presented
      · subst here
        simp [kept, later]
      · simp [here, Ne.symm here]

theorem issued_le_carryOut (table : ReleaseTable) (isOpen : Bool) (act : Act) :
    table.issued ≤ (table.carryOut isOpen act).2.issued := by
  cases act with
  | defer call turn => exact Nat.le_succ _
  | drain => exact Nat.le_refl _
  | release ticket turn => exact Nat.le_of_eq (issued_release table ticket turn).symm

/-- A ticket that was given out and under which nothing is kept stays like that. -/
theorem free_carryOut {table : ReleaseTable} (ticketed : table.Ticketed) (isOpen : Bool) (act : Act)
    {ticket : Ticket} (given : ticket.number ≤ table.issued)
    (free : table.find? ticket = none) : (table.carryOut isOpen act).2.find? ticket = none := by
  cases found : (table.carryOut isOpen act).2.find? ticket with
  | none => rfl
  | some entry =>
    obtain ⟨_, rfl⟩ := mem_of_find? found
    rcases (find?_carryOut ticketed isOpen act).1 found with ⟨kept, _⟩ | ⟨rfl, new⟩
    · rw [free] at kept
      cases kept
    · -- a new ticket is higher than all that were given out
      have next : (⟨table.issued + 1⟩ : Ticket) = entry.ticket := Option.some.inj new
      rw [← next] at given
      exact absurd given (Nat.not_succ_le_self _)

theorem free_of_ends {table : ReleaseTable} (ticketed : table.Ticketed) {isOpen : Bool} {act : Act}
    {ticket : Ticket} (ends : (table.carryOut isOpen act).1.Ends ticket) :
    (table.carryOut isOpen act).2.find? ticket = none := by
  cases found : (table.carryOut isOpen act).2.find? ticket with
  | none => rfl
  | some entry =>
    obtain ⟨_, rfl⟩ := mem_of_find? found
    rcases (find?_carryOut ticketed isOpen act).1 found with ⟨_, lasts⟩ | ⟨rfl, _⟩
    · exact absurd ends lasts
    · rcases ends with drained | spent
      · cases drained
      · cases spent

/-! ## Posted copies -/

theorem copies_append_singleton (deeds : List Deed) (deed : Deed) :
    copies (deeds ++ [deed]) =
      (match deed.act with
        | .release ticket _ => (copies deeds).erase ticket
        | .defer _ _ | .drain => copies deeds) ++ Effect.tickets deed.effects := by
  simp [copies]

/-- Of each ticket under which a call waits one copy is posted, and none of a ticket that was not
given out yet. -/
structure Balanced (table : ReleaseTable) (posted : List Ticket) : Prop where
  once : ∀ ticket entry, table.find? ticket = some entry → posted.count ticket = 1
  given : ∀ ticket ∈ posted, ticket.number ≤ table.issued

theorem Balanced.defer {table : ReleaseTable} {posted : List Ticket}
    (balanced : table.Balanced posted) (ticketed : table.Ticketed) (call : TrackedCall)
    (turn : Nat) : (table.defer call turn).2.Balanced (posted ++ [⟨table.issued + 1⟩]) where
  once ticket entry kept := by
    rw [find?_defer ticketed] at kept
    rw [List.count_append, List.count_singleton]
    by_cases new : ticket = ⟨table.issued + 1⟩
    · -- the new ticket was not posted before
      have absent : ticket ∉ posted := by
        intro member
        have old := balanced.given ticket member
        rw [new] at old
        exact absurd old (Nat.not_succ_le_self _)
      rw [List.count_eq_zero_of_not_mem absent]
      simp [new]
    · rw [if_neg new] at kept
      rw [balanced.once ticket entry kept]
      simp [Ne.symm new]
  given ticket member := by
    rcases List.mem_append.1 member with old | new
    · exact Nat.le_succ_of_le (balanced.given ticket old)
    · rw [List.mem_singleton.1 new]
      exact Nat.le_refl _

theorem Balanced.release {table : ReleaseTable} {posted : List Ticket}
    (balanced : table.Balanced posted) (ticketed : table.Ticketed) (presented : Ticket)
    (turn : Nat) :
    (table.release presented turn).2.Balanced (posted.erase presented
      ++ Effect.tickets ((table.release presented turn).1.rescheduled presented)) := by
  have spared : ∀ {ticket}, ticket ≠ presented →
      (posted.erase presented).count ticket = posted.count ticket :=
    fun other => List.count_erase_of_ne other
  have given : ∀ ticket ∈ posted.erase presented, ticket.number ≤ table.issued :=
    fun ticket member => balanced.given ticket (List.mem_of_mem_erase member)
  rcases table.release_cases presented turn with
    ⟨absent, released⟩ | ⟨entry, kept, ⟨early, released⟩ | ⟨later, released⟩⟩
  · rw [released]
    simp only [Delivery.rescheduled, Effect.tickets, List.filterMap_nil, List.append_nil]
    refine ⟨?_, given⟩
    intro ticket entry kept
    have other : ticket ≠ presented := by
      rintro rfl
      rw [absent] at kept
      cases kept
    rw [spared other]
    exact balanced.once ticket entry kept
  · -- the copy that was used up is replaced
    rw [released]
    simp only [Delivery.rescheduled, Effect.tickets, List.filterMap_cons, List.filterMap_nil,
      Effect.ticket?]
    constructor
    · intro ticket entry kept
      have once := balanced.once ticket entry kept
      rw [List.count_append, List.count_singleton]
      by_cases here : ticket = presented
      · subst here
        simp [once]
      · rw [spared here, once]
        simp [Ne.symm here]
    · intro ticket member
      rcases List.mem_append.1 member with old | new
      · exact given ticket old
      · obtain ⟨present, named⟩ := mem_of_find? kept
        rw [List.mem_singleton.1 new, ← named]
        exact ticketed.issued entry present
  · rw [released]
    simp only [Delivery.rescheduled, Effect.tickets, List.filterMap_nil, List.append_nil]
    refine ⟨?_, given⟩
    intro ticket entry kept
    rw [find?_release] at kept
    split at kept
    · cases kept
    · rename_i other
      rw [spared other]
      exact balanced.once ticket entry kept

/-! ## Along the deeds -/

namespace Served

variable {deeds : List Deed} {table : ReleaseTable}

theorem extend (served : Served deeds table) (isOpen : Bool) (acts : List Act) :
    Served (deeds ++ (table.carryOutEach isOpen acts).1) (table.carryOutEach isOpen acts).2 := by
  induction acts generalizing deeds table with
  | nil =>
    rw [carryOutEach, List.append_nil]
    exact served
  | cons act rest inductionHypothesis =>
    have more := inductionHypothesis (served.next isOpen act)
    rw [List.append_assoc] at more
    exact more

theorem ticketed (served : Served deeds table) : table.Ticketed := by
  induction served with
  | nothing => exact ticketed_empty
  | @next deeds table _ isOpen act inductionHypothesis =>
    cases act with
    | defer call turn => exact ticketed_defer inductionHypothesis call turn
    | drain => exact ⟨List.nodup_nil, by simp [carryOut, drain]⟩
    | release ticket turn =>
      simp only [carryOut]
      rcases table.release_cases ticket turn with
        ⟨_, released⟩ | ⟨_, _, ⟨_, released⟩ | ⟨_, released⟩⟩
      · rw [released]
        exact inductionHypothesis
      · rw [released]
        exact inductionHypothesis
      · rw [released]
        exact ticketed_filter inductionHypothesis _

/-- What is kept under a ticket is what was deferred under it, as long as it waits. -/
theorem find?_iff (served : Served deeds table) {ticket : Ticket} {call : TrackedCall}
    {turn : Nat} :
    table.find? ticket = some ⟨ticket, call, turn⟩ ↔ Waits deeds ticket call turn := by
  induction served with
  | nothing =>
    constructor
    · intro kept
      cases kept
    · rintro ⟨earlier, _, _, whole, _⟩
      simp at whole
  | next before isOpen act inductionHypothesis =>
    rw [find?_carryOut before.ticketed, inductionHypothesis, waits_append_singleton]
    cases act <;> rfl

theorem exists_waits (served : Served deeds table) {ticket : Ticket} {entry : PendingRelease}
    (kept : table.find? ticket = some entry) : Waits deeds ticket entry.call entry.deferredTurn := by
  obtain ⟨_, rfl⟩ := mem_of_find? kept
  exact served.find?_iff.1 kept

theorem not_waits (served : Served deeds table) {ticket : Ticket}
    (absent : table.find? ticket = none) (call : TrackedCall) (turn : Nat) :
    ¬ Waits deeds ticket call turn := by
  intro waits
  rw [← served.find?_iff, absent] at waits
  cases waits

/-- Under a ticket no other call waits than the one that is kept. -/
theorem waits_unique (served : Served deeds table) {ticket : Ticket} {entry : PendingRelease}
    (kept : table.find? ticket = some entry) {call : TrackedCall} {turn : Nat}
    (waits : Waits deeds ticket call turn) : entry.call = call ∧ entry.deferredTurn = turn := by
  rw [← served.find?_iff, kept, Option.some.injEq] at waits
  rw [waits]
  exact ⟨rfl, rfl⟩

/-- A ticket brings back what was deferred under it, on a later turn. -/
theorem released?_iff (served : Served deeds table) (ticket : Ticket) (turn : Nat)
    (released : Released) :
    (table.release ticket turn).1.released? = some released ↔
      ∃ call deferredTurn, Waits deeds ticket call deferredTurn ∧ deferredTurn < turn ∧
        released = ⟨call.id, deferredTurn, turn⟩ := by
  rcases table.release_cases ticket turn with
    ⟨absent, unknown⟩ | ⟨entry, kept, ⟨early, again⟩ | ⟨later, done⟩⟩
  · simp [unknown, Delivery.released?, served.not_waits absent]
  · rw [again]
    simp only [Delivery.released?, reduceCtorEq, false_iff]
    rintro ⟨call, deferredTurn, waits, later, _⟩
    obtain ⟨_, rfl⟩ := served.waits_unique kept waits
    omega
  · rw [done]
    simp only [Delivery.released?, Option.some.injEq]
    constructor
    · rintro rfl
      exact ⟨_, _, served.exists_waits kept, later, rfl⟩
    · rintro ⟨call, deferredTurn, waits, _, rfl⟩
      obtain ⟨rfl, rfl⟩ := served.waits_unique kept waits
      rfl

theorem release_early (served : Served deeds table) {ticket : Ticket} {call : TrackedCall}
    {deferredTurn turn : Nat} (waits : Waits deeds ticket call deferredTurn)
    (early : turn ≤ deferredTurn) :
    (table.release ticket turn).2 = table ∧
      (table.release ticket turn).1.rescheduled ticket = [.schedule ticket] := by
  have kept := served.find?_iff.2 waits
  simp [release, kept, early, Delivery.rescheduled]

theorem release_unknown (served : Served deeds table) (ticket : Ticket) (turn : Nat)
    (never : ∀ call deferredTurn, ¬ Waits deeds ticket call deferredTurn) :
    (table.release ticket turn).2 = table ∧
      (table.release ticket turn).1.rescheduled ticket = [] := by
  cases found : table.find? ticket with
  | none => simp [release, found, Delivery.rescheduled]
  | some entry => exact absurd (served.exists_waits found) (never _ _)

theorem issued (served : Served deeds table) :
    deeds.filterMap (·.issued?) = (List.range table.issued).map fun given => ⟨given + 1⟩ := by
  induction served with
  | nothing => rfl
  | @next deeds table _ isOpen act inductionHypothesis =>
    rw [List.filterMap_append, inductionHypothesis]
    cases act with
    | defer call turn => simp [carryOut, defer, List.range_succ]
    | drain => simp [carryOut, drain]
    | release ticket turn =>
      have same : (table.carryOut isOpen (.release ticket turn)).2.issued = table.issued :=
        issued_release table ticket turn
      rw [same]
      simp [carryOut]

/-- A ticket that was used up is never kept again. -/
theorem spent (served : Served deeds table) :
    (deeds.filterMap (·.spent?)).Nodup ∧
      ∀ ticket ∈ deeds.filterMap (·.spent?),
        table.find? ticket = none ∧ ticket.number ≤ table.issued := by
  induction served with
  | nothing => simp
  | @next deeds table before isOpen act inductionHypothesis =>
    obtain ⟨once, gone⟩ := inductionHypothesis
    have kept : ∀ ticket ∈ deeds.filterMap (·.spent?),
        (table.carryOut isOpen act).2.find? ticket = none ∧
          ticket.number ≤ (table.carryOut isOpen act).2.issued := by
      intro ticket member
      obtain ⟨free, given⟩ := gone ticket member
      exact ⟨free_carryOut before.ticketed isOpen act given free,
        Nat.le_trans given (issued_le_carryOut table isOpen act)⟩
    rw [List.filterMap_append]
    cases presented : (table.carryOut isOpen act).1.spent? with
    | none =>
      simp only [List.filterMap_cons, presented, List.filterMap_nil, List.append_nil]
      exact ⟨once, kept⟩
    | some ticket =>
      obtain ⟨turn, entry, _, waiting, _⟩ := (spent?_carryOut table isOpen act ticket).1 presented
      obtain ⟨member, named⟩ := mem_of_find? waiting
      have given : ticket.number ≤ table.issued := named ▸ before.ticketed.issued entry member
      simp only [List.filterMap_cons, presented, List.filterMap_nil]
      constructor
      · -- the ticket was still kept, so it was not used up before
        refine List.nodup_append.2 ⟨once, List.nodup_singleton _, ?_⟩
        intro old used new last same
        rw [List.mem_singleton.1 last] at same
        rw [same] at used
        rw [(gone ticket used).1] at waiting
        cases waiting
      · intro other used
        rcases List.mem_append.1 used with old | new
        · exact kept other old
        · rw [List.mem_singleton.1 new]
          exact ⟨free_of_ends before.ticketed (.inr presented),
            Nat.le_trans given (issued_le_carryOut table isOpen act)⟩

/-- As long as the loop is there, each ticket under which a call waits is posted once. -/
theorem balanced (served : Served deeds table) (isOpen : ∀ deed ∈ deeds, deed.isOpen = true) :
    table.Balanced (copies deeds) := by
  induction served with
  | nothing =>
    constructor
    · intro ticket entry kept
      cases kept
    · simp [copies]
  | @next deeds table before reached act inductionHypothesis =>
    have balanced := inductionHypothesis fun deed member =>
      isOpen deed (List.mem_append_left _ member)
    have there : (table.carryOut reached act).1.isOpen = true :=
      isOpen _ (List.mem_append_right _ List.mem_cons_self)
    rw [copies_append_singleton]
    cases act with
    | defer call turn =>
      obtain rfl : reached = true := there
      exact balanced.defer before.ticketed call turn
    | drain =>
      simp only [carryOut, Effect.tickets, List.filterMap_nil, List.append_nil]
      exact ⟨fun ticket entry kept => absurd kept (by simp [drain, find?]), balanced.given⟩
    | release ticket turn =>
      obtain rfl : reached = true := there
      have posted : (table.carryOut true (.release ticket turn)).1.effects
          = (table.release ticket turn).1.rescheduled ticket := by
        simp only [carryOut]
        cases (table.release ticket turn).1 <;> rfl
      rw [posted]
      exact balanced.release before.ticketed ticket turn

/-- Whatever is deferred, presented and dropped, on any turns and in any order: tickets are given
out once and used up at most once. A ticket brings back exactly the call and the turn that were
deferred under it, and that only while the call waits and on a later turn. Presented on an earlier
turn or on the same one, it is posted again and nothing changes; any other ticket does nothing. As
long as the loop is there, a ticket under which a call waits has one posted copy. -/
theorem tickets_honoured (served : Served deeds table) :
    (deeds.filterMap (·.issued?)).Nodup ∧
    (deeds.filterMap (·.spent?)).Nodup ∧
    (∀ ticket call turn,
      table.find? ticket = some ⟨ticket, call, turn⟩ ↔ Waits deeds ticket call turn) ∧
    (∀ ticket turn,
      (∀ released, (table.release ticket turn).1.released? = some released ↔
        ∃ call deferredTurn, Waits deeds ticket call deferredTurn ∧ deferredTurn < turn ∧
          released = ⟨call.id, deferredTurn, turn⟩) ∧
      ((∃ call deferredTurn, Waits deeds ticket call deferredTurn ∧ turn ≤ deferredTurn) →
        (table.release ticket turn).2 = table ∧
          (table.release ticket turn).1.rescheduled ticket = [.schedule ticket]) ∧
      ((∀ call deferredTurn, ¬ Waits deeds ticket call deferredTurn) →
        (table.release ticket turn).2 = table ∧
          (table.release ticket turn).1.rescheduled ticket = [])) ∧
    ((∀ deed ∈ deeds, deed.isOpen = true) → ∀ ticket call turn,
      Waits deeds ticket call turn → (copies deeds).count ticket = 1) := by
  refine ⟨?_, served.spent.1, fun _ _ _ => served.find?_iff, ?_, ?_⟩
  · rw [served.issued]
    refine List.nodup_range.map ?_
    intro first second same
    simpa using same
  · intro ticket turn
    refine ⟨served.released?_iff ticket turn, ?_, served.release_unknown ticket turn⟩
    rintro ⟨call, deferredTurn, waits, early⟩
    exact served.release_early waits early
  · intro isOpen ticket call turn waits
    exact (served.balanced isOpen).once ticket _ (served.find?_iff.2 waits)

end Served

/-! ## A sample -/

namespace Untimely

def first : TrackedCall := ⟨⟨⟨"call-1"⟩, "sip:a@x"⟩, ⟨1⟩, "G", "sip:a@x", .dialing⟩

def second : TrackedCall := ⟨⟨⟨"call-2"⟩, "sip:b@x"⟩, ⟨1⟩, "G", "sip:b@x", .dialing⟩

/-- The first ticket comes back too early, then in time, then once more; a ticket comes that nobody
has given out yet; and the second call is deferred on a turn before that of the first one. -/
def acts : List Act :=
  [.defer first 7, .release ⟨1⟩ 7, .release ⟨2⟩ 9, .release ⟨1⟩ 8, .defer second 3,
    .release ⟨1⟩ 9]

def deeds : List Deed := (carryOutEach {} true acts).1

def table : ReleaseTable := (carryOutEach {} true acts).2

theorem served : Served deeds table := Served.nothing.extend true acts

/-- One ticket was used up, once, and the other one is still good for its call. -/
theorem tickets_honoured_untimely :
    deeds.filterMap (·.spent?) = [⟨1⟩] ∧
      Waits deeds ⟨2⟩ second 3 ∧ (copies deeds).count ⟨2⟩ = 1 ∧
      (table.release ⟨2⟩ 3).1.rescheduled ⟨2⟩ = [.schedule ⟨2⟩] ∧
      (table.release ⟨2⟩ 4).1.released? = some ⟨⟨"call-2"⟩, 3, 4⟩ ∧
      (table.release ⟨1⟩ 9).2 = table := by
  obtain ⟨_, _, kept, answers, posted⟩ := served.tickets_honoured
  have waits := (kept ⟨2⟩ second 3).1 rfl
  have ended : ∀ call turn, ¬ Waits deeds ⟨1⟩ call turn := by
    intro call turn waits
    cases (kept ⟨1⟩ call turn).2 waits
  refine ⟨rfl, waits, posted (by simp [deeds, acts, carryOutEach, carryOut]) ⟨2⟩ second 3 waits,
    ?_, ?_, ?_⟩
  · exact ((answers ⟨2⟩ 3).2.1 ⟨second, 3, waits, Nat.le_refl 3⟩).2
  · exact ((answers ⟨2⟩ 4).1 ⟨⟨"call-2"⟩, 3, 4⟩).2 ⟨second, 3, waits, Nat.lt_succ_self 3, rfl⟩
  · exact ((answers ⟨1⟩ 9).2.2 ended).1

end Untimely

end CallFork.ReleaseTable
