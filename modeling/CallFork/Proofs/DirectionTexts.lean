import CallFork.Proofs.WordTexts
import Mathlib.Data.List.Perm.Basic

/-! # Directions as they are written

Which words `Command.readDirections` takes for directions. `Reads` says how one direction may be
written, `Gives` when a word gives a direction to one stream, and `Directed` which words give which
directions to the two streams. Reading finds exactly that (`readDirections_eq_some_iff`), and so the
order in which the words stand does not matter (`readDirections_perm`).
-/

namespace CallFork

/-- The streams of a call. -/
inductive Stream where
  | audio
  | video
deriving DecidableEq, Repr

namespace Stream

def key : Stream → List Char
  | audio => "audio".toList
  | video => "video".toList

/-- What is chosen for a stream, of the choices for the two. -/
def choice (audio video : Option Direction) : Stream → Option Direction
  | .audio => audio
  | .video => video

theorem choice_injective {audio video others rest : Option Direction}
    (same : ∀ stream, choice audio video stream = choice others rest stream) :
    (audio, video) = (others, rest) :=
  Prod.ext (same .audio) (same .video)

/-- The choices after one stream has been given a direction. -/
theorem choice_put (audio video : Option Direction) (chosen stream : Stream)
    (direction : Direction) :
    choice (if chosen = .audio then some direction else audio)
        (if chosen = .video then some direction else video) stream
      = if stream = chosen then some direction else choice audio video stream := by
  cases chosen <;> cases stream <;> rfl

end Stream

theorem Direction.ofName?_eq_some_iff {name : String} {direction : Direction} :
    ofName? name = some direction ↔ direction.name = name := by
  constructor
  · intro found
    unfold ofName? at found
    simpa using List.find?_some found
  · rintro rfl
    cases direction <;> rfl

namespace Command

/-- The text names the direction, in letters of any case and with blanks around it or none. -/
def Reads (text : List Char) (direction : Direction) : Prop :=
  ∃ left letters right, Blank left ∧ Blank right ∧ text = left ++ letters ++ right ∧
    lower letters = direction.name.toList

/-- The word gives a stream a direction: the key of the stream, an equals sign, the direction. -/
def Gives (word : String) (stream : Stream) (direction : Direction) : Prop :=
  ∃ value, word.toList = stream.key ++ '=' :: value ∧ Reads value direction

/-- The words give these directions to audio and video. -/
inductive Directed : List String → Option Direction → Option Direction → Prop where
  | nothing : Directed [] none none
  | both {word : String} {direction : Direction} (unkeyed : '=' ∉ word.toList)
      (reads : Reads word.toList direction) : Directed [word] (some direction) (some direction)
  /-- Each word is for one stream, and no two are for the same. -/
  | pairs {words : List String} {given : List (Stream × Direction)} {audio video : Option Direction}
      (each : List.Forall₂ (fun word pair => Gives word pair.1 pair.2) words given)
      (once : (given.map (·.1)).Nodup)
      (found : ∀ stream direction, Stream.choice audio video stream = some direction ↔
        (stream, direction) ∈ given) : Directed words audio video

/-! ## One direction -/

theorem readDirection_eq_some_iff {text : List Char} {direction : Direction} :
    readDirection text = some direction ↔ lower (trim text) = direction.name.toList := by
  unfold readDirection Direction.read
  rw [String.toList_ofList]
  have named : Direction.ofName? (String.ofList (lower (trim text))) = some direction ↔
      lower (trim text) = direction.name.toList := by
    rw [Direction.ofName?_eq_some_iff, ← String.toList_inj, String.toList_ofList, eq_comm]
  cases found : Direction.ofName? (String.ofList (lower (trim text))) with
  | none => simpa [found, Except.toOption] using named
  | some other => simpa [found, Except.toOption] using named

theorem isWord_name (direction : Direction) : IsWord direction.name.toList := by
  cases direction <;> decide

/-- Letters have no blanks among them if there are none after their case is changed. -/
theorem trimmed_of_lower {letters name : List Char} (same : lower letters = name)
    (solid : ∀ c ∈ name, isBlank c = false) : Trimmed letters := by
  have letter : ∀ c ∈ letters, isBlank c = false := by
    intro c member
    by_contra blank
    rw [Bool.not_eq_false] at blank
    have lowered : c.toLower ∈ name := same ▸ List.mem_map_of_mem member
    rw [toLower_of_isBlank blank] at lowered
    rw [solid c lowered] at blank
    cases blank
  exact ⟨fun c first => letter c (List.mem_of_head? first),
    fun c last => letter c (List.mem_of_getLast? last)⟩

theorem readDirection_iff_reads {text : List Char} {direction : Direction} :
    readDirection text = some direction ↔ Reads text direction := by
  rw [readDirection_eq_some_iff]
  constructor
  · intro same
    obtain ⟨left, started, before⟩ := trimStart_suffix text
    obtain ⟨right, ended, after⟩ := trimEnd_prefix (trimStart text)
    refine ⟨left, trim text, right, before, after, ?_, same⟩
    rw [List.append_assoc, trim, ← ended, ← started]
  · rintro ⟨left, letters, right, before, after, rfl, same⟩
    have trimmed := trimmed_of_lower same (isWord_name direction).solid
    rw [trimmed.trim_padded before after, same]

theorem readDirection_name (direction : Direction) :
    readDirection direction.name.toList = some direction := by
  cases direction <;> decide

/-! ## Pairs -/

theorem not_mem_key (stream : Stream) : '=' ∉ stream.key := by
  cases stream <;> decide

/-- The first pair has to be for a stream that has no direction yet, and the others come after it. -/
theorem readPairs_cons {word : String} {rest : List String}
    {audio video : Option Direction} {result : Option Direction × Option Direction} :
    readPairs audio video (word :: rest) = some result ↔
      ∃ stream direction, Gives word stream direction ∧ Stream.choice audio video stream = none ∧
        readPairs (if stream = .audio then some direction else audio)
          (if stream = .video then some direction else video) rest = some result := by
  simp only [readPairs, Option.bind_eq_bind, Option.bind_eq_some_iff, Prod.exists]
  constructor
  · rintro ⟨key, value, cut, direction, read, chosen⟩
    obtain ⟨whole, _⟩ := cutAt_eq_some_iff.1 cut
    have reads := readDirection_iff_reads.1 read
    split at chosen
    · rename_i own
      simp only [Bool.and_eq_true, decide_eq_true_eq, Option.isNone_iff_eq_none] at own
      obtain ⟨rfl, free⟩ := own
      exact ⟨.audio, direction, ⟨value, whole, reads⟩, free, chosen⟩
    · split at chosen
      · rename_i own
        simp only [Bool.and_eq_true, decide_eq_true_eq, Option.isNone_iff_eq_none] at own
        obtain ⟨rfl, free⟩ := own
        exact ⟨.video, direction, ⟨value, whole, reads⟩, free, chosen⟩
      · cases chosen
  · rintro ⟨stream, direction, ⟨value, whole, reads⟩, free, chosen⟩
    have cut : cutAt '=' word.toList = some (stream.key, value) :=
      cutAt_eq_some_iff.2 ⟨whole, not_mem_key stream⟩
    refine ⟨stream.key, value, cut, direction, readDirection_iff_reads.2 reads, ?_⟩
    cases stream with
    | audio =>
      obtain rfl : audio = none := free
      exact chosen
    | video =>
      obtain rfl : video = none := free
      exact chosen

theorem readPairs_eq_some_iff {words : List String} {audio video first second : Option Direction} :
    readPairs audio video words = some (first, second) ↔
      ∃ given : List (Stream × Direction),
        List.Forall₂ (fun word pair => Gives word pair.1 pair.2) words given ∧
        (given.map (·.1)).Nodup ∧
        (∀ stream ∈ given.map (·.1), Stream.choice audio video stream = none) ∧
        ∀ stream direction, Stream.choice first second stream = some direction ↔
          Stream.choice audio video stream = some direction ∨ (stream, direction) ∈ given := by
  induction words generalizing audio video with
  | nil =>
    rw [readPairs, Option.some.injEq]
    constructor
    · intro same
      cases same
      exact ⟨[], .nil, List.nodup_nil, by simp, by simp⟩
    · rintro ⟨given, each, _, _, found⟩
      cases each
      apply Stream.choice_injective
      intro stream
      apply Option.ext
      intro direction
      simpa using (found stream direction).symm
  | cons word rest inductionHypothesis =>
    rw [readPairs_cons]
    constructor
    · rintro ⟨stream, direction, gives, free, chosen⟩
      obtain ⟨given, each, once, unchosen, found⟩ := inductionHypothesis.1 chosen
      simp only [Stream.choice_put] at unchosen found
      -- the stream has its direction now, so no later word is for it
      have new : stream ∉ given.map (·.1) := by
        intro member
        have again := unchosen stream member
        rw [if_pos rfl] at again
        cases again
      refine ⟨(stream, direction) :: given, .cons gives each, ?_, ?_, ?_⟩
      · rw [List.map_cons, List.nodup_cons]
        exact ⟨new, once⟩
      · intro other member
        rcases List.mem_cons.1 member with rfl | later
        · exact free
        · have apart : other ≠ stream := fun same => new (same ▸ later)
          have none := unchosen other later
          rwa [if_neg apart] at none
      · intro other value
        rw [found, List.mem_cons, Prod.mk.injEq]
        by_cases same : other = stream
        · subst same
          simp [free, eq_comm]
        · simp [same]
    · rintro ⟨given, each, once, unchosen, found⟩
      cases each with
      | @cons _ pair _ given gives each =>
        obtain ⟨stream, direction⟩ := pair
        rw [List.map_cons, List.nodup_cons] at once
        obtain ⟨new, once⟩ := once
        have free := unchosen stream List.mem_cons_self
        refine ⟨stream, direction, gives, free, inductionHypothesis.2 ⟨given, each, once, ?_, ?_⟩⟩
        · intro other member
          have apart : other ≠ stream := fun same => new (same ▸ member)
          rw [Stream.choice_put, if_neg apart]
          exact unchosen other (List.mem_cons_of_mem _ member)
        · intro other value
          rw [found, Stream.choice_put, List.mem_cons, Prod.mk.injEq]
          by_cases same : other = stream
          · subst same
            simp [free, eq_comm]
          · simp [same]

/-- The words of some pairs, in any order, give the directions that the pairs give. -/
theorem readPairs_iff_directed {words : List String} {audio video : Option Direction} :
    readPairs none none words = some (audio, video) ↔
      ∃ given : List (Stream × Direction),
        List.Forall₂ (fun word pair => Gives word pair.1 pair.2) words given ∧
        (given.map (·.1)).Nodup ∧
        ∀ stream direction, Stream.choice audio video stream = some direction ↔
          (stream, direction) ∈ given := by
  have unchosen : ∀ stream, Stream.choice none none stream = none := by
    intro stream
    cases stream <;> rfl
  simp [readPairs_eq_some_iff, unchosen]

theorem Gives.mem {word : String} {stream : Stream} {direction : Direction}
    (gives : Gives word stream direction) : '=' ∈ word.toList := by
  obtain ⟨value, whole, _⟩ := gives
  rw [whole]
  simp

/-! ## All words -/

/-- Directions are read from exactly the words that give them. -/
theorem readDirections_eq_some_iff {words : List String} {audio video : Option Direction} :
    readDirections words = some (audio, video) ↔ Directed words audio video := by
  constructor
  · intro read
    unfold readDirections at read
    split at read
    · rename_i word
      split at read
      · obtain ⟨given, each, once, found⟩ := readPairs_iff_directed.1 read
        exact .pairs each once found
      · rename_i unkeyed
        obtain ⟨direction, named, same⟩ := Option.map_eq_some_iff.1 read
        obtain ⟨rfl, rfl⟩ := Prod.mk.inj same
        exact .both (by simpa using unkeyed) (readDirection_iff_reads.1 named)
    · obtain ⟨given, each, once, found⟩ := readPairs_iff_directed.1 read
      exact .pairs each once found
  · intro directed
    cases directed with
    | nothing => rfl
    | @both word direction unkeyed reads =>
      have plain : word.toList.contains '=' = false := by simpa using unkeyed
      simp only [readDirections, plain, readDirection_iff_reads.2 reads]
      rfl
    | pairs each once found =>
      have read := readPairs_iff_directed.2 ⟨_, each, once, found⟩
      unfold readDirections
      split
      · rename_i word
        -- a word alone is read as a pair if it is one
        cases each with
        | cons gives _ =>
          have keyed : word.toList.contains '=' = true := by simpa using gives.mem
          rw [if_pos keyed]
          exact read
      · exact read

theorem Directed.perm {words others : List String} {audio video : Option Direction}
    (directed : Directed words audio video) (same : words.Perm others) :
    Directed others audio video := by
  cases directed with
  | nothing =>
    rw [List.nil_perm.1 same]
    exact .nothing
  | both unkeyed reads =>
    rw [List.perm_singleton.1 same.symm]
    exact .both unkeyed reads
  | pairs each once found =>
    obtain ⟨shuffled, pairs, alike⟩ := List.perm_comp_forall₂ same.symm each
    refine .pairs pairs ((alike.map _).nodup_iff.2 once) ?_
    intro stream direction
    rw [found, alike.mem_iff]

/-- The order of the words does not matter. -/
theorem readDirections_perm {words others : List String} (same : words.Perm others) :
    readDirections words = readDirections others := by
  apply Option.ext
  rintro ⟨audio, video⟩
  rw [readDirections_eq_some_iff, readDirections_eq_some_iff]
  exact ⟨fun directed => directed.perm same, fun directed => directed.perm same.symm⟩

end Command
end CallFork
