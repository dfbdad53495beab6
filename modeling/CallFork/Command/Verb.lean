import CallFork.Text

/-!
# Command words

The first word of a command line selects the command. It may be written like the path of a program:
only the last part of the path counts, without its extension. If the path names no file, the word
behind it is taken for the program, and the command comes next. The other words are operands. A word
that begins with a hyphen is no operand unless it stands behind `--` or is a hyphen alone; the
address given to `paradd` may begin with one.
-/

namespace CallFork

/-- The commands. -/
inductive Verb where
  | mkpar
  | rmpar
  | clrpar
  | paradd
  | parcall
  | parhangup
  | pardebug
deriving DecidableEq, Repr

namespace Verb

def all : List Verb := [mkpar, rmpar, clrpar, paradd, parcall, parhangup, pardebug]

def word : Verb → String
  | mkpar => "mkpar"
  | rmpar => "rmpar"
  | clrpar => "clrpar"
  | paradd => "paradd"
  | parcall => "parcall"
  | parhangup => "parhangup"
  | pardebug => "pardebug"

/-- The command of exactly this word. -/
def ofWord? (word : String) : Option Verb :=
  all.find? fun verb => verb.word = word

/-- One line about each command. -/
def help : String :=
  joined "\n"
    ["mkpar <name>                    Create parallel call group",
     "rmpar <name>                    Remove parallel call group",
     "clrpar                          Clear parallel call groups",
     "paradd <name> <URI>             Add a call target to a group",
     "parcall <name> [directions]     Initiate parallel call to given group",
     "parhangup <name>                Hangup parallel call group",
     "pardebug                        Print parallel call data"]

/-- How a command is written. -/
def usage : Verb → String
  | mkpar => "usage: /mkpar <name>"
  | rmpar => "usage: /rmpar <name>"
  | clrpar => help
  | paradd => "usage: /paradd <name> <URI>\n       /paradd <name> <display name> <sip:uri>"
  | parcall =>
    joined "\n"
      ["usage: /parcall <name>",
       "/parcall <name> audio=<inactive, sendonly, recvonly, sendrecv> "
         ++ "video=<inactive, sendonly, recvonly, sendrecv>",
       "/parcall <name> <sendonly, recvonly, sendrecv>",
       "Audio & video must not be inactive at the same time"]
  | parhangup => "usage: /parhangup <name>"
  | pardebug => help

def takes : Verb → Nat → Bool
  | mkpar, count | rmpar, count | parhangup, count => count = 1
  | clrpar, count | pardebug, count => count = 0
  | paradd, count => 2 ≤ count
  | parcall, count => 1 ≤ count

/-! ## The word written as a path -/

/-- The last part of a path; parts that are empty or a single dot do not count, and a path that ends
in `..` has none. -/
def fileName (path : List Char) : Option (List Char) :=
  match ((path.splitOn '/').filter fun part => part ≠ [] && part ≠ ['.']).getLast? with
  | some part => if part = ['.', '.'] then none else some part
  | none => none

/-- A file name without its extension. A dot at the start begins no extension. -/
def stem (name : List Char) : List Char :=
  match cutAtLast '.' name with
  | some (before, _) => if before.isEmpty then name else before
  | none => name

/-- The command that some words select, and the words behind it. A first word that names no file is
passed over together with the word behind it; then the next word has to be a command as it is. -/
def select : List (List Char) → Option (Verb × List (List Char))
  | [] => none
  | first :: rest =>
    match fileName first, rest with
    | some name, _ => (ofWord? (String.ofList (stem name))).map (·, rest)
    | none, _ :: word :: rest => (ofWord? (String.ofList word)).map (·, rest)
    | none, _ => none

/-- What is said when a first word and its operands are no command. -/
def complaint (word : String) : String :=
  match ofWord? word with
  | some verb => verb.usage
  | none => "unknown command: " ++ word ++ "\n" ++ help

/-! ## Operands -/

/-- The word begins with a hyphen and is not a hyphen alone. -/
def isOption (word : String) : Bool :=
  match word.toList with
  | '-' :: _ :: _ => true
  | _ => false

/-- The word asks for help: the letter, also repeated, or the long name, also with a value. -/
def asksHelp (word : String) : Bool :=
  match word.toList with
  | '-' :: 'h' :: more => more.all (· = 'h')
  | text => text = "--help".toList || "--help=".toList.isPrefixOf text

/-- The operands among some words. All words behind the first `--` are operands. -/
def operands : List String → Option (List String)
  | [] => some []
  | word :: rest =>
    if word = "--" then some rest
    else if isOption word then none
    else (operands rest).map (word :: ·)

/-- The operands behind a group's name: once they have begun, all words are operands. -/
def trailingOperands : List String → Option (List String)
  | [] => some []
  | word :: rest =>
    -- `--` is dropped here once; behind the first operand it is an operand itself
    if word = "--" then some rest
    else if asksHelp word then none
    else some (word :: rest)

/-- The operands of `paradd`. -/
def addressOperands : List String → Option (List String)
  | [] => some []
  | word :: rest =>
    if word = "--" then some rest
    else if isOption word then none
    else (trailingOperands rest).map (word :: ·)

/-- The operands of a command, if their number is right. -/
def operandsOf (verb : Verb) (words : List String) : Option (List String) :=
  (if verb = paradd then addressOperands words else operands words).filter
    fun found => verb.takes found.length

end Verb
end CallFork
