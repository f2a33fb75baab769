import HostedSearch.Client.Call
import HostedSearch.Command.Line
import HostedSearch.Settings.File

/-!
# Carrying out command lines

The settings of a command line come in layers: the settings file, then the variables of the
environment, then the options of the line. A command then makes one call, and prints what comes
of it: the URL of a request, a page of results, or the change that was made.
-/

namespace HostedSearch

namespace Command

/-- What a command line finds around it. -/
structure Surroundings where
  environment : Environment := []
  /-- The content of a file; a file that cannot be read has none. -/
  file : String → Option String := fun _ => none
  /-- The settings file that is used when no other is named, if it exists. -/
  defaultFile : Option String := none

/-- Why a text gives no document fields. -/
inductive FieldsFault where
  | notJson
  | notObject (value : Json)

/-- Why a command line that was understood fails. -/
inductive Failure where
  | settingsFile (path : String) (fault : Settings.Fault)
  | environment (fault : Settings.Fault)
  | fields (fault : FieldsFault)
  | client (error : ClientError)
  | overflow (overflow : Overflow)

/-- The reason why a text gives no document fields. -/
def FieldsFault.reason (wording : Wording) : FieldsFault → String
  | .notJson => wording.json
  | .notObject value => "expected a JSON object, got " ++ value.compact

/-- The wording of a failure. -/
def Failure.message (wording : Wording) : Failure → String
  | .settingsFile path fault =>
    "Failed to load config from " ++ path ++ ": " ++ oneLine (fault.chain wording) ++
      "\n\nPossible fixes:\n  - Check that the file exists and is valid TOML" ++
      "\n  - Pass a different file with --config" ++
      "\n  - Configure through CLOUDSEARCH_* environment variables instead"
  | .environment fault =>
    "Invalid CLOUDSEARCH_* environment variable: " ++ oneLine (fault.chain wording) ++
      "\n\nCheck your shell environment and .env file."
  | .fields fault =>
    "Invalid --fields: " ++ fault.reason wording ++
      "\n\nPass a JSON object, e.g. --fields '\x7b\"name\": \"fritter\", \"price\": 3\x7d'"
  | .client error => error.message wording
  | .overflow .pageNumber => "The number of the page does not fit in 64 bits"

/-- The settings of the file that a command line uses, or the initial ones without a file. -/
def fileSettings (surroundings : Surroundings) (named : Option String) : Except Failure Settings :=
  match named.or surroundings.defaultFile with
  | none => .ok .initial
  | some path => (Settings.ofFile path (surroundings.file path)).mapError (.settingsFile path)

/-- The settings with those that the options of a command line give in their place. -/
def withOptions (invocation : Invocation) (settings : Settings) : Settings :=
  { settings with
    searchDomain := invocation.domain.or settings.searchDomain
    mode := if invocation.live then .live else settings.mode }

/-- The settings of a command line. -/
def settings (surroundings : Surroundings) (invocation : Invocation) : Except Failure Settings := do
  let settings ← fileSettings surroundings invocation.settingsFile
  let settings ←
    (settings.withEnvironment surroundings.environment).mapError Failure.environment
  return withOptions invocation settings

/-- The document fields that a text gives. -/
def parseFields (text : String) : Except FieldsFault Fields :=
  match Json.parse text with
  | .ok (.object members) => .ok (Fields.ofMembers members)
  | .ok value => .error (.notObject value)
  | .error _ => .error .notJson

/-- The call that a command makes. -/
def call : Command → Except FieldsFault Call
  | .search term options printUrl =>
    let term := term.getD ""
    .ok (if printUrl then .searchRequest term options else .search term options)
  | .add id fields => (parseFields fields).map (.addItem id)
  | .remove id => .ok (.removeItem id)

/-- The line that tells of a change that was made. -/
def changeLine (settings : Settings) (id action : String) : String :=
  (Json.object
    [("id", .string id), ("action", .string action),
     ("mode", .string settings.mode.word)]).compact ++ "\n"

/-- What a command prints when its call has yielded an outcome; a page without a number cannot be
printed. -/
def output (settings : Settings) (command : Command) (outcome : Outcome) : Except Failure String :=
  match command, outcome with
  | .search _ _ _, .request request => .ok ("GET " ++ request.url ++ "\n")
  | .search _ _ _, .page page =>
    (page.toJson.map fun json => json.indented ++ "\n").mapError .overflow
  | .add id _, _ => .ok (changeLine settings id "add")
  | .remove id, _ => .ok (changeLine settings id "delete")
  | .search _ _ _, _ => .ok ""

/-- What carrying out a command line came to: what it prints, or why it failed, and what happened
besides. -/
structure Finish where
  output : Except Failure String
  events : List Event := []

/-- Carry out a command with given settings, through a transport, at a time. -/
def run {σ : Type} (settings : Settings) (transport : Transport σ) (state : σ) (now : Int64)
    (command : Command) : Finish :=
  match command.call with
  | .error fault => { output := .error (.fields fault) }
  | .ok call =>
    let report := (Client.perform settings transport state now call).1
    { output :=
        match report.result with
        | .ok outcome => output settings command outcome
        | .error error => .error (.client error)
      events := report.events }

end Command

/-- Carry out a command line, through a transport, at a time. -/
def Invocation.run {σ : Type} (surroundings : Command.Surroundings) (transport : Transport σ)
    (state : σ) (now : Int64) (invocation : Invocation) : Command.Finish :=
  match Command.settings surroundings invocation with
  | .error failure => { output := .error failure }
  | .ok settings => invocation.command.run settings transport state now

end HostedSearch
