import CallFork.Command.Verb
import CallFork.Switchboard.Request

/-!
# Operator commands

A command is one line of text. `Command.parse` checks its form only; everything else is up to the
switchboard, to which `Command.request` turns. Directions that a command leaves out are filled in
from the configuration. `Answer.summary` and `Command.complaint` say what the operator reads
afterwards.
-/

namespace CallFork

/-- A command of an operator. -/
inductive Command where
  | createGroup (name : String)
  | removeGroup (name : String)
  | clearGroups
  | addPeer (group address : String) (displayName : Option String)
  | startCall (group : String) (audio video : Option Direction)
  | hangupGroup (name : String)
  | dump
deriving DecidableEq, Repr

namespace Command

def verb : Command → Verb
  | createGroup _ => .mkpar
  | removeGroup _ => .rmpar
  | clearGroups => .clrpar
  | addPeer _ _ _ => .paradd
  | startCall _ _ _ => .parcall
  | hangupGroup _ => .parhangup
  | dump => .pardebug

/-! ## Reading -/

/-- An address alone, or in angle brackets behind the name to show. -/
def readAddress (text : List Char) : Option (List Char × Option (List Char)) :=
  match cutAt '<' text with
  | some (before, after) =>
    match cutAt '>' after with
    | some (inside, []) =>
      let address := trim inside
      let name := trim before
      if address.isEmpty || address.contains '<' then none
      else some (address, if name.isEmpty then none else some name)
    | _ => none
  | none => if text.any isBlank then none else some (text, none)

/-- The command to add a peer that these words name. -/
def readPeer (group : String) (words : List String) : Option Command :=
  (readAddress (joined " " words).toList).map fun (address, name) =>
    addPeer group (String.ofList address) (name.map String.ofList)

def readDirection (word : List Char) : Option Direction :=
  (Direction.read (String.ofList word)).toOption

/-- The directions given as `audio=...` and `video=...`, each at most once, added to those that are
given already. -/
def readPairs (audio video : Option Direction) :
    List String → Option (Option Direction × Option Direction)
  | [] => some (audio, video)
  | word :: rest => do
    let (key, value) ← cutAt '=' word.toList
    let direction ← readDirection value
    if key = "audio".toList && audio.isNone then readPairs (some direction) video rest
    else if key = "video".toList && video.isNone then readPairs audio (some direction) rest
    else none

/-- The directions of audio and video: none given, one word for both, or pairs. -/
def readDirections (words : List String) : Option (Option Direction × Option Direction) :=
  match words with
  | [word] =>
    if word.toList.contains '=' then readPairs none none [word]
    else (readDirection word.toList).map fun direction => (some direction, some direction)
  | _ => readPairs none none words

def ofOperands (verb : Verb) (operands : List String) : Option Command :=
  match verb, operands with
  | .mkpar, [name] => some (createGroup name)
  | .rmpar, [name] => some (removeGroup name)
  | .parhangup, [name] => some (hangupGroup name)
  | .clrpar, [] => some clearGroups
  | .pardebug, [] => some dump
  | .paradd, group :: words => readPeer group words
  | .parcall, group :: words =>
    (readDirections words).map fun (audio, video) => startCall group audio video
  | _, _ => none

/-- A line without blanks around it and without one leading slash. -/
def content (line : String) : List Char :=
  match trim line.toList with
  | '/' :: rest => rest
  | text => text

/-- The command on a line. The usage text in an error is that of the first word as it was written,
unless the operands are right in number and wrong in form. -/
def parse (line : String) : Except Error Command :=
  match words (content line) with
  | [] => .error (.badCommand Verb.help)
  | word :: rest =>
    let given := String.ofList word
    match Verb.select (word :: rest) with
    | none => .error (.badCommand (Verb.complaint given))
    | some (verb, behind) =>
      match verb.operandsOf (behind.map String.ofList) with
      | none => .error (.badCommand (Verb.complaint given))
      | some operands =>
        match ofOperands verb operands with
        | some command => .ok command
        | none => .error (.badCommand verb.usage)

/-! ## Carrying out -/

/-- The request that a command makes. Directions that it leaves out are the default ones. -/
def request (defaults : Media) : Command → Request
  | createGroup name => .createGroup name
  | removeGroup name => .removeGroup name
  | clearGroups => .clearGroups
  | addPeer group address displayName => .addPeer group address displayName
  | startCall group audio video =>
    .startCall group ⟨audio.getD defaults.audio, video.getD defaults.video⟩
  | hangupGroup name => .hangupGroup name
  | dump => .dump

/-- What the operator reads when a command of this word was refused. -/
def complaint (word : String) : Error → String
  | .badCommand usage => usage
  | .silentMedia => Verb.usage .parcall
  | error => word ++ ": " ++ error.message

end Command

namespace FanOutReport

def placedLine (media : Media) (call : PlacedCall) : String :=
  "parallel call uri: " ++ call.target ++ " id: " ++ call.id.text ++ " " ++ media.text

def lines (report : FanOutReport) : List String :=
  report.placed.map (placedLine report.media)
    ++ report.failed.map (fun error => "parcall: " ++ error.message)
    ++ ["parcall: " ++ toString report.placed.length ++ " call(s) placed for " ++ report.group
      ++ ", " ++ toString report.failed.length ++ " failed"]

end FanOutReport

namespace Answer

/-- What the operator reads when a request was carried out. -/
def summary : Answer → String
  | created group _ => "mkpar: created call group " ++ group
  | removed group => "rmpar: removed call group " ++ group
  | cleared _ => "parcall: cleared parallel call groups"
  | added group target => "paradd: added " ++ target ++ " to " ++ group
  | started report => joined "\n" report.lines
  | hungUp group count => "parhangup: hung up " ++ toString count ++ " call(s) of " ++ group
  | dumped dump => dump.text
  | shutDown => ""

end Answer
end CallFork
