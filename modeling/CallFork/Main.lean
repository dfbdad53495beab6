import CallFork.Shell

/-!
# The shell program

The program around `CallFork.Shell`: it takes the command line, the environment, the configuration
file and the lines of the standard input, and prints what the shell says. Lines about events come
behind the answer to the command that caused them. The exit code is 2 for a wrong command line, 1
for a shell that cannot start or cannot read its input, and 0 otherwise.
-/

namespace CallFork.Shell

/-! ## Files -/

def configVariable : String := "RVOIP_PARCALL_CONFIG"

/-- Why something cannot be read. -/
def readingFault : IO.Error → String
  | .noFileOrDirectory _ _ _ => "No such file or directory (os error 2)"
  | .permissionDenied _ _ _ => "Permission denied (os error 13)"
  | .inappropriateType _ _ _ => "Is a directory (os error 21)"
  | .userError _ => "stream did not contain valid UTF-8"
  | error => toString error

/-- The text of the configuration file, or why it cannot be read. No file has no text. -/
def readConfigFile : Option String → IO FileText
  | none => return .ok ""
  | some path =>
    try
      return .ok (← IO.FS.readFile path)
    catch error =>
      return .error (readingFault error)

/-! ## Lines -/

def print (output : IO.FS.Stream) (response : Response) : IO Unit := do
  if let some text := response.printed then
    output.putStrLn text
  for event in Effect.events response.effects do
    output.putStrLn ("event: " ++ event.text)
  output.flush

/-- Carries out lines until the shell is left or there are none. -/
partial def serveLines (input output : IO.FS.Stream) (service : Service Simulation) : IO Unit := do
  let line ← input.getLine
  unless line.isEmpty do
    let response := respond service line
    print output response
    unless response.leaves do
      serveLines input output response.service

/-! ## The program -/

def reportFailure (failure : Failure) : IO UInt32 := do
  for line in failure.lines do
    IO.eprintln line
  return 1

def runShell (options : ShellOptions) : IO UInt32 := do
  match start options (← readConfigFile options.config) with
  | .error failure => reportFailure failure
  | .ok service =>
    try
      serveLines (← IO.getStdin) (← IO.getStdout) service
      return 0
    catch error =>
      reportFailure ⟨some "reading stdin", readingFault error⟩

end CallFork.Shell

open CallFork in
/-- Runs the shell with the words of the command line. -/
def main (words : List String) : IO UInt32 := do
  match ShellOptions.ofWords words (← IO.getEnv Shell.configVariable) with
  | .ok options => Shell.runShell options
  | .error .help =>
    IO.println Shell.usage
    return 0
  | .error .version =>
    IO.println Shell.version
    return 0
  | .error .misuse =>
    IO.eprintln Shell.usage
    return 2
