import CallFork.Text

/-!
# Media directions

Each call carries an audio and a video stream, and for each the operator says which way it flows.
A request in which both streams are inactive would place calls without media and is refused
elsewhere; `Media.isSilent` recognises it.
-/

namespace CallFork

/-- Which way a media stream flows. -/
inductive Direction where
  | inactive
  | sendOnly
  | recvOnly
  | sendRecv
deriving DecidableEq, Repr

namespace Direction

def all : List Direction := [inactive, sendOnly, recvOnly, sendRecv]

/-- The session description attribute of a direction. -/
def name : Direction → String
  | inactive => "inactive"
  | sendOnly => "sendonly"
  | recvOnly => "recvonly"
  | sendRecv => "sendrecv"

/-- The direction of exactly this name. -/
def ofName? (name : String) : Option Direction :=
  all.find? fun direction => direction.name = name

/-- The direction that a word stands for; case and blanks around it do not matter. The error is
the word as it was compared. -/
def read (word : String) : Except String Direction :=
  let plain := String.ofList (lower (trim word.toList))
  match ofName? plain with
  | some direction => .ok direction
  | none => .error plain

/-- The complaint about a word that is no direction. -/
def unknownMessage (word : String) : String :=
  "Unknown media direction: " ++ word

end Direction

/-- The directions of the two streams of a call; both ways unless told otherwise. -/
structure Media where
  audio : Direction := .sendRecv
  video : Direction := .sendRecv
deriving DecidableEq, Repr

namespace Media

def isSilent (media : Media) : Bool :=
  media.audio = .inactive && media.video = .inactive

theorem isSilent_iff {media : Media} :
    media.isSilent = true ↔ media.audio = .inactive ∧ media.video = .inactive := by
  simp [isSilent]

theorem isSilent_eq_false_iff {media : Media} :
    media.isSilent = false ↔ media.audio ≠ .inactive ∨ media.video ≠ .inactive := by
  rw [← Bool.not_eq_true, isSilent_iff, Decidable.not_and_iff_or_not]

/-- Both directions as `audio=... video=...`. -/
def text (media : Media) : String :=
  "audio=" ++ media.audio.name ++ " video=" ++ media.video.name

end Media
end CallFork
