import CallFork.Proofs.Cutting
import CallFork.Proofs.Registry

/-! # When a target is in a group already

A group knows a target by its dial string, which is all that is compared. The dial string stands for
the address and the name to show: the name is not escaped in it, but an address has no `<`, so the
last one tells where the name ends (`Target.dialString_inj`). Hence a request to add a peer is
refused as a repetition exactly if the same address was added to the same group before under the
same name to show (`Reach.duplicate_iff_listed`), and no group has a target twice.
-/

namespace CallFork

/-! ## Names to show -/

namespace Target

/-- What is shown of a name: the name without the blanks around it, and nothing if there is nothing
but blanks. -/
inductive Shows : Option String → Option String → Prop where
  | absent : Shows none none
  | blank {given : String} (blank : Blank given.toList) : Shows (some given) none
  | name {given shown : String} {before after : List Char}
      (whole : given.toList = before ++ shown.toList ++ after) (left : Blank before)
      (right : Blank after) (trimmed : Trimmed shown.toList) (filled : shown ≠ "") :
      Shows (some given) (some shown)

theorem shownName_of_trimmed {given shown : String} (cut : trimmed given = shown) :
    shownName (some given) = if shown = "" then none else some shown := by
  subst cut
  by_cases empty : trimmed given = "" <;> simp [shownName, Option.filter, empty]

theorem trimmed_eq_empty_iff {given : String} : trimmed given = "" ↔ Blank given.toList := by
  rw [trimmed, ← trim_eq_nil_iff, ← String.toList_inj, String.toList_ofList]
  rfl

theorem shownName_eq_iff {displayName shown : Option String} :
    shownName displayName = shown ↔ Shows displayName shown := by
  constructor
  · rintro rfl
    cases displayName with
    | none => exact .absent
    | some given =>
      rw [shownName_of_trimmed rfl]
      split
      · rename_i empty
        exact .blank (trimmed_eq_empty_iff.1 empty)
      · rename_i filled
        obtain ⟨before, after, whole, left, right⟩ := exists_padding given.toList
        have plain := trimmed_trim given.toList
        have cut : trim given.toList = (trimmed given).toList := String.toList_ofList.symm
        rw [cut] at whole plain
        exact .name whole left right plain filled
  · intro shows
    cases shows with
    | absent => rfl
    | blank blank => rw [shownName_of_trimmed (trimmed_eq_empty_iff.2 blank), if_pos rfl]
    | @name given shown before after whole left right plain filled =>
      have cut : trimmed given = shown := by
        rw [trimmed, whole, plain.trim_padded left right, String.ofList_toList]
      rw [shownName_of_trimmed cut, if_neg filled]

end Target

/-! ## Dial strings -/

theorem SipUri.toList_text (uri : SipUri) :
    uri.text.toList = uri.scheme.word.toList ++ ':' :: uri.body := by
  rw [text, String.toList_append, String.toList_ofList]

theorem SipUri.head?_text (uri : SipUri) : uri.text.toList.head? = some 's' := by
  rw [toList_text]
  cases uri.scheme <;> rfl

namespace Target

variable {account : Account} {address uri : String} {shown other : Option String}

theorem text_of_completed (completed : complete account address = .ok uri) :
    ∃ whole : SipUri, completeSpec account (Address.spec address.toList) = .ok whole ∧
      uri = whole.text := by
  unfold complete at completed
  split at completed
  · rename_i whole read
    cases completed
    exact ⟨whole, read, rfl⟩
  · cases completed

theorem canonical_of_completed (completed : complete account address = .ok uri)
    (displayName : Option String) :
    canonical account address displayName = .ok (dialString (shownName displayName) uri) := by
  rw [canonical, completed]
  rfl

theorem completed_of_canonical {displayName : Option String} {target : String}
    (made : canonical account address displayName = .ok target) :
    ∃ uri, complete account address = .ok uri ∧
      target = dialString (shownName displayName) uri := by
  unfold canonical at made
  cases completed : complete account address with
  | error error =>
    rw [completed] at made
    cases made
  | ok uri =>
    rw [completed] at made
    cases made
    exact ⟨uri, rfl, rfl⟩

theorem toList_dialString_some (name uri : String) :
    (dialString (some name) uri).toList
      = ('"' :: name.toList ++ ['"', ' ']) ++ '<' :: (uri.toList ++ ['>']) := by
  simp [dialString, String.toList_append]

/-- A dial string without a name begins with a scheme, one with a name with a quotation mark. -/
theorem dialString_none_ne_some (uri : SipUri) (name address : String) :
    dialString none uri.text ≠ dialString (some name) address := by
  intro same
  have start := uri.head?_text
  change uri.text = _ at same
  rw [same, toList_dialString_some] at start
  cases start

/-- The name and the address can be told from a dial string, whatever the name is. -/
theorem dialString_inj {first second : SipUri} (plain : '<' ∉ first.text.toList)
    (plainToo : '<' ∉ second.text.toList)
    (same : dialString shown first.text = dialString other second.text) :
    shown = other ∧ first.text = second.text := by
  cases shown with
  | none =>
    cases other with
    | none => exact ⟨rfl, same⟩
    | some name => exact absurd same (dialString_none_ne_some first name second.text)
  | some name =>
    cases other with
    | none => exact absurd same.symm (dialString_none_ne_some second name first.text)
    | some name' =>
      have characters := congrArg String.toList same
      rw [toList_dialString_some, toList_dialString_some] at characters
      -- the last `<` is the one behind the name
      have cut := congrArg (cutAtLast '<') characters
      rw [cutAtLast_append (by simpa using plain),
        cutAtLast_append (by simpa using plainToo)] at cut
      simp only [Option.some.injEq, Prod.mk.injEq, List.append_cancel_right_eq,
        List.cons.injEq, true_and] at cut
      exact ⟨congrArg some (String.toList_injective cut.1), String.toList_injective cut.2⟩

/-- An address with a `<` may look like a name and another address: parameters are written without
escapes. -/
example :
    complete ⟨⟨.sip, none, .domain "x", none, [], []⟩⟩ "b@x;p=%22%20%3Csip%3Ac%40y"
        = .ok "sip:b@x;p=\" <sip:c@y" ∧
      dialString (some "a") "sip:b@x;p=\" <sip:c@y"
        = dialString (some "a\" <sip:b@x;p=") "sip:c@y" := by
  decide +kernel

end Target

/-! ## Adding a peer -/

theorem Group.hasTarget_iff {group : Group} {target : String} :
    group.hasTarget target = true ↔ target ∈ group.targets := by
  simp [hasTarget, targets]

namespace Switchboard

variable {σ : Type} {engine : Engine σ} {board : Switchboard} {name address target : String}
  {displayName : Option String} {group : Group} {account : Account}

theorem peerFor_of_canonical (known : board.accounts.accountFor address = some account)
    (made : Target.canonical account address displayName = .ok target) :
    board.peerFor address displayName = .ok ⟨target, account⟩ := by
  rw [peerFor, known]
  simp only [made]
  rfl

/-- A peer whose dial string the group has already is refused. -/
theorem addPeer_of_present (found : board.groups.find? name = some group)
    (known : board.accounts.accountFor address = some account)
    (made : Target.canonical account address displayName = .ok target)
    (present : target ∈ group.targets) :
    board.addPeer name address displayName = board.refuse (.duplicateTarget name target) := by
  simp only [addPeer, GroupTable.find, found, peerFor_of_canonical known made,
    GroupTable.addPeer_of_found found, Group.hasTarget_iff.2 present, if_true,
    GroupTable.name_of_find? found]

/-- Any other peer is put behind those that the group has. -/
theorem addPeer_of_absent (found : board.groups.find? name = some group)
    (known : board.accounts.accountFor address = some account)
    (made : Target.canonical account address displayName = .ok target)
    (absent : target ∉ group.targets) :
    board.addPeer name address displayName = ⟨.ok target, { board with
      groups := { board.groups with groups := board.groups.groups.map fun other =>
        if other.name = name then { group with peers := group.peers ++ [⟨target, account⟩] }
        else other } }, []⟩ := by
  have new := mt Group.hasTarget_iff.1 absent
  simp only [addPeer, GroupTable.find, found, peerFor_of_canonical known made,
    GroupTable.addPeer_of_found found, new]
  rfl

/-- A target that is added to a group was not in it. -/
theorem fresh_of_added {operation : Operation} {state : σ}
    (added : (board.perform engine operation state).1.result.registration?
      = some (.added name target))
    (found : board.groups.find? name = some group) : target ∉ group.targets := by
  obtain ⟨address, displayName, account, rfl, known, made⟩ := canonical_of_added added
  intro present
  simp only [perform, handleRequest, addPeer_of_present found known made present] at added
  cases added

end Switchboard

/-- No group has a target twice. -/
def GroupTable.Unrepeated (table : GroupTable) : Prop :=
  ∀ group ∈ table.groups, group.targets.Nodup

theorem Registration.Takes.unrepeated {registration : Option Registration}
    {table after : GroupTable} (takes : Takes registration table after)
    (fresh : ∀ name target group, registration = some (.added name target) →
      table.find? name = some group → target ∉ group.targets)
    (unrepeated : table.Unrepeated) : after.Unrepeated := by
  cases takes with
  | nothing => exact unrepeated
  | cleared => exact fun _ member => absurd member List.not_mem_nil
  | removed => exact fun group member => unrepeated group (List.mem_filter.1 member).1
  | created free =>
    intro group member
    rcases List.mem_cons.1 ((GroupTable.insertByName_perm _ _).mem_iff.1 member) with rfl | old
    · exact List.nodup_nil
    · exact unrepeated group old
  | @added _ name group found peer =>
    intro other member
    obtain ⟨former, present, rfl⟩ := List.mem_map.1 member
    split
    · have new := fresh name peer.target group rfl found
      have old := unrepeated group (GroupTable.mem_of_find? found)
      simp only [Group.targets, List.map_append, List.map_cons, List.map_nil]
      refine old.append (List.nodup_singleton _) ?_
      simpa using new
    · exact unrepeated former present

/-! ## Along a run -/

namespace Step

/-- A peer is added to the group of this name, with an address that is completed to `uri`, under
this name to show. -/
def Lists (step : Step) (name : String) (shown : Option String) (uri : String) : Prop :=
  ∃ address displayName account,
    step.operation = .request (.addPeer name address displayName) ∧
    step.before.accounts.accountFor address = some account ∧
    Target.complete account address = .ok uri ∧ Target.Shows displayName shown ∧
    step.outcome.result = .answer (.ok (.added name (Target.dialString shown uri)))

end Step

/-- The group of this name was created in these steps and not ended since, and the peer was added
to it. -/
def Listed (steps : List Step) (name : String) (shown : Option String) (uri : String) : Prop :=
  ∃ earlier creation later, steps = earlier ++ creation :: later ∧ creation.Creates name ∧
    (∀ step ∈ later, ¬ step.Ends name) ∧ ∃ step ∈ later, step.Lists name shown uri

theorem Step.answered_of_accepted {step : Step} {name target : String}
    (accepted : step.accepted? name = some target) :
    step.outcome.result = .answer (.ok (.added name target)) := by
  obtain ⟨registration, said, shown⟩ := Option.bind_eq_some_iff.1 accepted
  cases registration with
  | created | removed | cleared => cases shown
  | added other given =>
    simp only [Registration.accepted?, Option.ite_none_right_eq_some, Option.some.injEq] at shown
    obtain ⟨rfl, rfl⟩ := shown
    unfold Step.registration? at said
    cases result : step.outcome.result with
    | turn | resolution | released | dropped =>
      rw [result] at said
      cases said
    | answer answer =>
      rw [result] at said
      cases answer with
      | error => cases said
      | ok given =>
        cases given <;> cases said
        rfl

theorem Step.accepted_of_answered {step : Step} {name target : String}
    (answered : step.outcome.result = .answer (.ok (.added name target))) :
    step.accepted? name = some target := by
  simp [accepted?, registration?, answered, Switchboard.Report.registration?,
    Answer.registration?, Registration.accepted?]

namespace Reach

variable {σ : Type} {engine : Engine σ} {steps : List Step} {board : Switchboard} {state : σ}

theorem unrepeated (reached : Reach engine steps board state) : board.groups.Unrepeated := by
  induction reached with
  | start started =>
    rw [Switchboard.start_eq started]
    exact fun _ member => absurd member List.not_mem_nil
  | step _ operation inductionHypothesis =>
    refine (Switchboard.takes_perform engine _ operation _).unrepeated ?_ inductionHypothesis
    intro name target group added found
    exact Switchboard.fresh_of_added added found

/-- The targets of a registered group are the dial strings of the peers that were added to it. -/
theorem mem_targets_iff (reached : Reach engine steps board state) {name target : String}
    {group : Group} (found : board.groups.find? name = some group) :
    target ∈ group.targets ↔
      ∃ shown uri, Listed steps name shown uri ∧ target = Target.dialString shown uri := by
  constructor
  · intro present
    have registered := reached.registered_iff.1 (congrArg (Option.map (·.targets)) found)
    obtain ⟨earlier, creation, later, whole, created, lasts, targets⟩ := registered
    change group.targets = _ at targets
    rw [targets] at present
    obtain ⟨step, member, accepted⟩ := List.mem_filterMap.1 present
    have taken : step ∈ steps := by
      rw [whole]
      exact List.mem_append_right _ (List.mem_cons_of_mem _ member)
    obtain ⟨address, displayName, account, asked, known, made⟩ :=
      reached.canonical_of_accepted taken accepted
    obtain ⟨uri, completed, rfl⟩ := Target.completed_of_canonical made
    exact ⟨_, uri, ⟨earlier, creation, later, whole, created, lasts, step, member, address,
      displayName, account, asked, known, completed, Target.shownName_eq_iff.1 rfl,
      Step.answered_of_accepted accepted⟩, rfl⟩
  · rintro ⟨shown, uri, ⟨earlier, creation, later, whole, created, lasts, step, member, lists⟩, rfl⟩
    obtain ⟨_, _, _, _, _, _, _, answered⟩ := lists
    have registered := reached.registered_iff.2
      ⟨earlier, creation, later, whole, created, lasts, rfl⟩
    rw [found, Option.map_some, Option.some.injEq] at registered
    rw [registered]
    exact List.mem_filterMap.2 ⟨step, member, Step.accepted_of_answered answered⟩

/-- A peer stays in its group until the group is ended. -/
theorem listed_of_lists {earlier later : List Step} {step : Step} {name uri : String}
    {shown : Option String} (reached : Reach engine (earlier ++ step :: later) board state)
    (lists : step.Lists name shown uri) (lasts : ∀ step ∈ later, ¬ step.Ends name) :
    Listed (earlier ++ step :: later) name shown uri := by
  obtain ⟨state, begun, came⟩ := reached.split
  obtain ⟨address, displayName, _, asked, _, _, _, answered⟩ := id lists
  have found : ∃ group, step.before.groups.find? name = some group := by
    rw [came, asked] at answered
    simp only [Switchboard.perform, Switchboard.handleRequest] at answered
    rcases step.before.addPeer_cases name address displayName with
      ⟨error, _, refused⟩ | ⟨group, _, _, found, _⟩
    · rw [refused] at answered
      cases answered
    · exact ⟨group, found⟩
  obtain ⟨group, found⟩ := found
  obtain ⟨first, creation, between, rfl, created, before, _⟩ :=
    begun.registered_iff.1 (congrArg (Option.map (·.targets)) found)
  refine ⟨first, creation, between ++ step :: later, by simp, created, ?_, step, by simp, lists⟩
  intro other member
  rcases List.mem_append.1 member with old | new
  · exact before other old
  rcases List.mem_cons.1 new with rfl | new
  · rintro (removed | cleared)
    · simp [Step.registration?, answered, Switchboard.Report.registration?,
        Answer.registration?] at removed
    · simp [Step.registration?, answered, Switchboard.Report.registration?,
        Answer.registration?] at cleared
  · exact lasts other new

theorem exists_of_listed (reached : Reach engine steps board state) {name uri : String}
    {shown : Option String} (listed : Listed steps name shown uri) :
    ∃ group, board.groups.find? name = some group ∧
      Target.dialString shown uri ∈ group.targets := by
  obtain ⟨earlier, creation, later, whole, created, lasts, _⟩ := id listed
  have registered := reached.registered_iff.2 ⟨earlier, creation, later, whole, created, lasts, rfl⟩
  obtain ⟨group, found, _⟩ := Option.map_eq_some_iff.1 registered
  exact ⟨group, found, (reached.mem_targets_iff found).2 ⟨shown, uri, listed, rfl⟩⟩

theorem text_of_listed {name uri : String} {shown : Option String}
    (listed : Listed steps name shown uri) : ∃ whole : SipUri, uri = whole.text := by
  obtain ⟨_, _, _, _, _, _, _, _, _, _, _, _, _, completed, _⟩ := listed
  obtain ⟨whole, _, rfl⟩ := Target.text_of_completed completed
  exact ⟨whole, rfl⟩

/-- No group has a target twice, and dial strings of addresses without `<` differ unless both the
address and the name to show are the same. So a request to add a peer to a registered group, whose
address an account completes, is refused as a repetition exactly if the same address under the same
name to show was added to the group since it was created. Otherwise the peer goes behind all others,
which stay as they are. -/
theorem duplicate_iff_listed (reached : Reach engine steps board state) :
    (∀ group ∈ board.groups.groups, group.targets.Nodup) ∧
    (∀ (shown other : Option String) (first second : SipUri),
      '<' ∉ first.text.toList → '<' ∉ second.text.toList →
      Target.dialString shown first.text = Target.dialString other second.text →
      shown = other ∧ first.text = second.text) ∧
    ∀ name address displayName shown group account uri,
      board.groups.find? name = some group →
      board.accounts.accountFor address = some account →
      Target.complete account address = .ok uri →
      Target.Shows displayName shown →
      '<' ∉ uri.toList →
      (∀ shown other, Listed steps name shown other → '<' ∉ other.toList) →
      ((board.perform engine (.request (.addPeer name address displayName)) state).1.result
          = .answer (.error (.duplicateTarget name (Target.dialString shown uri))) ↔
        Listed steps name shown uri) ∧
      (¬ Listed steps name shown uri →
        (board.perform engine (.request (.addPeer name address displayName)) state).1.result
          = .answer (.ok (.added name (Target.dialString shown uri))) ∧
        (board.perform engine (.request (.addPeer name address displayName))
            state).1.board.groups.find? name
          = some { group with
              peers := group.peers ++ [⟨Target.dialString shown uri, account⟩] }) := by
  refine ⟨reached.unrepeated, fun _ _ _ _ => Target.dialString_inj, ?_⟩
  intro name address displayName shown group account uri found known completed shows plain plains
  have made := Target.canonical_of_completed completed displayName
  rw [Target.shownName_eq_iff.2 shows] at made
  -- the group has the dial string exactly if the peer was added before
  have present : Target.dialString shown uri ∈ group.targets ↔ Listed steps name shown uri := by
    rw [reached.mem_targets_iff found]
    constructor
    · rintro ⟨former, other, listed, same⟩
      obtain ⟨whole, _, rfl⟩ := Target.text_of_completed completed
      obtain ⟨again, rfl⟩ := text_of_listed listed
      obtain ⟨rfl, texts⟩ := Target.dialString_inj plain (plains _ _ listed) same
      rw [texts]
      exact listed
    · intro listed
      exact ⟨_, _, listed, rfl⟩
  by_cases listed : Listed steps name shown uri
  · have refused := Switchboard.addPeer_of_present found known made (present.2 listed)
    simp only [Switchboard.perform, Switchboard.handleRequest, refused]
    exact ⟨iff_of_true rfl listed, fun unlisted => absurd listed unlisted⟩
  · have added := Switchboard.addPeer_of_absent found known made (mt present.1 listed)
    have named : group.name = name := GroupTable.name_of_find? found
    simp only [Switchboard.perform, Switchboard.handleRequest, added]
    refine ⟨iff_of_false (fun refused => by cases refused) listed, fun _ => ⟨rfl, ?_⟩⟩
    refine (GroupTable.find?_replace found ?_ name).trans (if_pos rfl)
    exact named

end Reach

/-! ## A sample run -/

namespace Anew

/-- A peer is added to a group without a name to show. The group is removed and created again, and
the peer is added under a name that looks like the end of one. -/
def operations : List Switchboard.Operation :=
  [.request (.createGroup "G"), .request (.addPeer "G" "sip:a@x" none),
    .request (.removeGroup "G"), .request (.createGroup "G"),
    .request (.addPeer "G" "a" (some " An\" <na "))]

def steps : List Step := Rematch.board.history EngineScript.engine operations {}

def last : Switchboard := (Rematch.board.run EngineScript.engine operations {}).2.1

theorem reached : ∃ state, Reach EngineScript.engine steps last state :=
  ⟨_, (Reach.start Rematch.started ({} : EngineScript)).extend operations⟩

/-- All addresses of the run are the same one. -/
theorem uri_of_listed {name uri : String} {shown : Option String}
    (listed : Listed steps name shown uri) : uri = "sip:a@x" := by
  obtain ⟨_, _, later, whole, _, _, step, member, lists⟩ := listed
  obtain ⟨address, displayName, account, asked, known, completed, _⟩ := lists
  have taken : step ∈ steps := by
    rw [whole]
    exact List.mem_append_right _ (List.mem_cons_of_mem _ member)
  have accounts : ∀ step ∈ steps, step.before.accounts = Rematch.board.accounts := by decide +kernel
  have among : step.operation ∈ operations := by
    have performed : steps.map (·.operation) = operations := rfl
    exact performed ▸ List.mem_map_of_mem taken
  rw [accounts step taken] at known
  rw [asked] at among
  simp only [operations, List.mem_cons, Switchboard.Operation.request.injEq, Request.addPeer.injEq,
    reduceCtorEq, List.not_mem_nil, false_or, or_false] at among
  rcases among with ⟨_, rfl, _⟩ | ⟨_, rfl, _⟩ <;> cases known <;> cases completed <;> rfl

/-- The name to show counts without the blanks around it, and the group before does not count. -/
theorem duplicate_iff_listed_anew :
    Listed steps "G" (some "An\" <na") "sip:a@x" ∧ ¬ Listed steps "G" none "sip:a@x" ∧
      ∃ state, (last.perform EngineScript.engine (.request (.addPeer "G" "<a>" none)) state).1.result
        = .answer (.ok (.added "G" "sip:a@x")) := by
  obtain ⟨state, reached⟩ := reached
  obtain ⟨_, _, requests⟩ := reached.duplicate_iff_listed
  have found : last.groups.find? "G" = some ⟨⟨2⟩, "G",
      [⟨"\"An\" <na\" <sip:a@x>", ⟨⟨.sip, none, .domain "x", none, [], []⟩⟩⟩]⟩ := rfl
  have plains : ∀ shown uri, Listed steps "G" shown uri → '<' ∉ uri.toList := by
    intro shown uri listed
    rw [uri_of_listed listed]
    decide
  have shown : Target.shownName (some " An\" <na ") = some "An\" <na" := by decide +kernel
  obtain ⟨again, _⟩ := requests "G" "a" _ _ _ _ "sip:a@x" found rfl rfl
    (Target.shownName_eq_iff.1 shown) (by decide) plains
  obtain ⟨refused, added⟩ :=
    requests "G" "<a>" none _ _ _ "sip:a@x" found rfl rfl .absent (by decide) plains
  have unlisted : ¬ Listed steps "G" none "sip:a@x" := fun listed => nomatch refused.2 listed
  have listed : Listed steps "G" (some "An\" <na") "sip:a@x" := by
    apply again.1
    rw [← shown]
    rfl
  exact ⟨listed, unlisted, state, (added unlisted).1⟩

end Anew
end CallFork
