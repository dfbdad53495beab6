import CallFork.Text

/-!
# Options of the shell

The command line has options only. An option with a value is written `--name value`, `--name=value`,
`-n value` or `-nvalue`, also with `=` behind the letter. A value that stands alone must not begin
with a hyphen, unless it is nothing else. Only `--account` may be given more than once. The command
line is read from left to right, and the first thing that is wrong, or asks for help or for the
version, decides.
-/

namespace CallFork

/-- What the command line asks for. -/
structure ShellOptions where
  /-- The configuration file. -/
  config : Option String := none
  /-- Addresses of record to add to those in the configuration. -/
  accounts : List String := []
  logLevel : Option String := none
  jsonLogs : Bool := false
  fileInfo : Bool := false
  logSpans : Bool := false
deriving DecidableEq, Repr

/-- Why the shell does not start. -/
inductive ShellStop where
  | help
  | version
  | misuse
deriving DecidableEq, Repr

namespace ShellOptions

/-- An option that is followed by a value. -/
inductive Valued where
  | config
  | account
  | logLevel
deriving DecidableEq, Repr

/-- An option without a value. -/
inductive Flag where
  | jsonLogs
  | fileInfo
  | logSpans
deriving DecidableEq, Repr

/-- What a name means. -/
inductive Meaning where
  | valued (option : Valued)
  | flag (flag : Flag)
  | stop (reason : ShellStop)
deriving DecidableEq, Repr

def longNames : List (String × Meaning) :=
  [("config", .valued .config), ("account", .valued .account), ("log-level", .valued .logLevel),
   ("json-logs", .flag .jsonLogs), ("file-info", .flag .fileInfo), ("log-spans", .flag .logSpans),
   ("help", .stop .help), ("version", .stop .version)]

def letters : List (Char × Meaning) :=
  [('c', .valued .config), ('a', .valued .account), ('l', .valued .logLevel),
   ('h', .stop .help), ('V', .stop .version)]

/-- The options with the value of one more option. -/
def give (options : ShellOptions) (option : Valued) (value : String) :
    Except ShellStop ShellOptions :=
  match option with
  | .config =>
    if options.config.isSome || value.isEmpty then .error .misuse
    else .ok { options with config := some value }
  | .account => .ok { options with accounts := options.accounts ++ [value] }
  | .logLevel =>
    if options.logLevel.isSome then .error .misuse else .ok { options with logLevel := some value }

def raise (options : ShellOptions) (flag : Flag) : Except ShellStop ShellOptions :=
  match flag with
  | .jsonLogs =>
    if options.jsonLogs then .error .misuse else .ok { options with jsonLogs := true }
  | .fileInfo =>
    if options.fileInfo then .error .misuse else .ok { options with fileInfo := true }
  | .logSpans =>
    if options.logSpans then .error .misuse else .ok { options with logSpans := true }

/-- What a word of the command line is. -/
inductive Token where
  /-- The end of the options. -/
  | terminator
  /-- A name, and a value if one is attached. -/
  | name (meaning : Meaning) (attached : Option String)
  /-- Neither. -/
  | stray
deriving DecidableEq, Repr

def token (word : String) : Token :=
  match word.toList with
  | ['-', '-'] => .terminator
  | '-' :: '-' :: long =>
    let (name, attached) :=
      match cutAt '=' long with
      | some (name, value) => (name, some (String.ofList value))
      | none => (long, none)
    match longNames.lookup (String.ofList name) with
    | some meaning => .name meaning attached
    | none => .stray
  | '-' :: letter :: rest =>
    match letters.lookup letter with
    | some meaning =>
      .name meaning
        (match rest with
          | [] => none
          | '=' :: value => some (String.ofList value)
          | value => some (String.ofList value))
    | none => .stray
  | _ => .stray

/-- Whether a word can be a value of its own. -/
def isValue (word : String) : Bool :=
  match word.toList with
  | '-' :: _ :: _ => false
  | _ => true

def read (options : ShellOptions) : List String → Except ShellStop ShellOptions
  | [] => .ok options
  | word :: rest =>
    match token word with
    | .terminator => if rest.isEmpty then .ok options else .error .misuse
    | .stray => .error .misuse
    | .name (.stop reason) attached =>
      if attached.isSome && word.toList.take 2 = ['-', '-'] then .error .misuse
      else .error reason
    | .name (.flag flag) attached =>
      if attached.isSome then .error .misuse
      else do (← options.raise flag).read rest
    | .name (.valued option) (some value) => do (← options.give option value).read rest
    | .name (.valued option) none =>
      match rest with
      | value :: rest =>
        if isValue value then do (← options.give option value).read rest else .error .misuse
      | [] => .error .misuse

/-- The options on a command line. A configuration file that is not named there may be named by the
environment. -/
def ofWords (words : List String) (environment : Option String) :
    Except ShellStop ShellOptions := do
  let options ← ({} : ShellOptions).read words
  return { options with config := options.config <|> environment }

end ShellOptions
end CallFork
