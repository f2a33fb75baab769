import HostedSearch.Command.Help
import HostedSearch.Command.Run

/-!
# The program

The outer layer of the command line: it gathers what the line finds around it, carries the line
out, and prints what comes of it. The program has no network transport of its own, so a request
that is sent in live mode fails with that cause, and the time at which it is sent does not matter.
-/

namespace HostedSearch

namespace Program

/-- No request is answered. -/
def noTransport : Transport Unit :=
  fun _ _ => (.failure "no network transport is available", ())

/-- The wording of problems with foreign formats and files. -/
def wording : Wording where
  json := "not the JSON that is expected"
  toml := "not the TOML that is expected"
  file := "the file cannot be read"

/-- The variables that override settings, as far as they are set. -/
def readEnvironment : IO Environment := do
  let entries ← Settings.variableNames.mapM fun name => do
    return (← IO.getEnv name).map fun value => (name, value)
  return entries.filterMap id

/-- The path of the settings file that is used when no other is named. -/
def defaultPath : IO (Option String) := do
  let file := "/cloudsearch/config.toml"
  match ← IO.getEnv "XDG_CONFIG_HOME" with
  | some folder => if folder.startsWith "/" then return some (folder ++ file)
  | none => pure ()
  return (← IO.getEnv "HOME").map fun home => home ++ "/.config" ++ file

/-- The content of a file if it can be read, and whether there is such a file. -/
def readFile (path : String) : IO (Option String × Bool) := do
  try
    return (some (← IO.FS.readFile path), true)
  catch
    | .noFileOrDirectory .. => return (none, false)
    | _ => return (none, true)

/-- What a command line finds around it. -/
def gather (named : Option String) : IO Command.Surroundings := do
  let environment ← readEnvironment
  match named with
  | some path =>
    let (content, _) ← readFile path
    return { environment, file := fun _ => content }
  | none =>
    match ← defaultPath with
    | none => return { environment }
    | some path =>
      let (content, present) ← readFile path
      return { environment, file := fun _ => content,
               defaultFile := if present then some path else none }

/-- Tell of an event, apart from what the command line prints. -/
def tell (event : Event) : IO Unit :=
  IO.eprintln event.line

/-- Carry out a command line. -/
def run (words : List String) : IO UInt32 := do
  match Invocation.ofWords words with
  | .error fault =>
    if fault.isAnswer then
      IO.print fault.text
      return 0
    else
      IO.eprint fault.text
      return 2
  | .ok invocation =>
    let surroundings ← gather invocation.settingsFile
    let finish := invocation.run surroundings noTransport () 0
    finish.events.forM tell
    match finish.output with
    | .ok text =>
      IO.print text
      return 0
    | .error failure =>
      IO.eprintln ("Error: " ++ failure.message wording)
      return 1

end Program

end HostedSearch

/-- Carry out the command line of the process. -/
def main (words : List String) : IO UInt32 :=
  HostedSearch.Program.run words
