import CallFork.Config.Decode
import CallFork.Engine.Simulated
import CallFork.Service
import CallFork.Shell.LogLevel
import CallFork.Shell.Options

/-!
# The shell

A program that reads commands line by line and carries them out against a simulated call engine.
Besides the operator commands it understands `answer` and `close`, which report what a real engine
would report, `help` and `quit`. Everything but the reading of files and lines is here.
-/

namespace CallFork.Shell

/-- The account of a shell that is given none. -/
def fallbackAccount : String := "sip:operator@localhost"

def version : String := "rvoip-parcall-cli 0.1.26"

def help : String :=
  joined "\n"
    ["answer <call-id>                Report a call as answered",
     "close <call-id> [reason]        Report a call as closed",
     "help                            Show this help",
     "quit                            Leave the shell"]

def usage : String :=
  joined "\n"
    ["Parallel call groups shell with a simulated call engine",
     "",
     "Usage: rvoip-parcall [OPTIONS]",
     "",
     "Options:",
     "  -c, --config <CONFIG>        TOML configuration file [env: RVOIP_PARCALL_CONFIG=]",
     "  -a, --account <ACCOUNTS>     Extra local account, may be repeated (e.g. sip:alice@example.com)",
     "  -l, --log-level <LOG_LEVEL>  Log level (trace, debug, info, warn, error) [default: info]",
     "      --json-logs              Emit logs as JSON lines",
     "      --file-info              Include file and line information in logs",
     "      --log-spans              Log span enter and exit events",
     "  -h, --help                   Print help",
     "  -V, --version                Print version"]

/-! ## Starting -/

/-- A failure to start: what was being done, if that is said, and what went wrong. -/
structure Failure where
  context : Option String := none
  cause : String
deriving DecidableEq, Repr

namespace Failure

/-- A text with each line moved in. -/
def indented (text : String) : List String :=
  (text.toList.splitOn '\n').map fun line => "    " ++ String.ofList line

def lines (failure : Failure) : List String :=
  match failure.context with
  | some context =>
    ((("Error: " ++ context).toList.splitOn '\n').map String.ofList)
      ++ ["", "Caused by:"] ++ indented failure.cause
  | none => (("Error: " ++ failure.cause).toList.splitOn '\n').map String.ofList

end Failure

/-- A file that was looked for: its text, or why it cannot be read. -/
abbrev FileText := Except String String

def fileConfig (path : String) (file : FileText) : Except Failure Config :=
  let read :=
    match file with
    | .ok text => Config.ofToml text
    | .error reason => .error (Config.Fault.unreadable path reason).error
  read.mapError fun error => ⟨some ("loading " ++ path), error.message⟩

def failure (error : Error) : Failure := ⟨none, error.message⟩

/-- The configuration with the accounts of the command line, or with the fallback account if there
are none at all. -/
def addAccounts (config : Config) (accounts : List String) : Config :=
  let all := config.accounts ++ accounts
  { config with accounts := if all.isEmpty then [fallbackAccount] else all }

/-- The service that the options describe. The log level is looked at first. -/
def start (options : ShellOptions) (file : FileText) : Except Failure (Service Simulation) := do
  let level := options.logLevel.getD "info"
  if (LogLevel.read? level).isNone then
    throw ⟨none, LogLevel.complaint level⟩
  let config ← match options.config with
    | some path => fileConfig path file
    | none => pure {}
  let config := addAccounts config options.accounts
  config.validate.mapError failure
  let accounts ← config.accountTable.mapError failure
  (Service.start config accounts { autoClose := true }).mapError failure

/-! ## Lines -/

/-- What a line asks the shell for. -/
inductive Line where
  | nothing
  | leave
  | help
  | report (event : CallEvent)
  | misuse (usage : String)
  | command (text : String)
deriving DecidableEq, Repr

namespace Line

/-- The reason for a call to be closed, if any words give one. -/
def reason (words : List String) : Option String :=
  if words.isEmpty then none else some (joined " " words)

def read (line : String) : Line :=
  let text := trimmed line
  if text = "" then nothing
  else if text = "quit" || text = "exit" then leave
  else if text = "help" then help
  else
    match (words text.toList).map String.ofList with
    | ["answer"] => misuse "usage: answer <call-id>"
    | "answer" :: id :: _ => report (.established ⟨id⟩)
    | ["close"] => misuse "usage: close <call-id> [reason]"
    | "close" :: id :: why => report (.closed ⟨id⟩ (reason why))
    | _ => command text

end Line

/-- What came of a line. -/
structure Response where
  /-- What is printed, if anything is. -/
  printed : Option String := none
  effects : List Effect := []
  service : Service Simulation
  /-- The shell ends. -/
  leaves : Bool := false

/-- Carries out a line, and runs the mailbox until it is empty. -/
def respond (service : Service Simulation) (line : String) : Response :=
  match Line.read line with
  | .nothing => { service }
  | .leave => { service, leaves := true }
  | .help => { printed := some (Verb.help ++ "\n" ++ help), service }
  | .misuse usage => { printed := some usage, service }
  | .report event =>
    match service.post event with
    | .error error => { printed := some error.message, service }
    | .ok posted =>
      let idle := posted.idle Simulation.engine
      { effects := idle.effects, service := idle.service }
  | .command text =>
    let served := service.runLine Simulation.engine text
    { printed := some served.result.message, effects := served.effects,
      service := served.service }

/-- What is printed for each of some lines, up to the one that ends the shell. -/
def session (service : Service Simulation) : List String → List String
  | [] => []
  | line :: rest =>
    let response := respond service line
    if response.leaves then []
    else response.printed.toList ++ session response.service rest

end CallFork.Shell
