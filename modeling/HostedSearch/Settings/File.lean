import HostedSearch.Settings.Environment
import HostedSearch.Toml.Reader

/-!
# Settings from a file

A settings file is a TOML text whose root table has one key for each setting. A missing key
leaves the setting at its initial value, and keys with other names do not count; a value of the
wrong kind makes the whole file useless.
-/

namespace HostedSearch

namespace Settings

/-- The value of a key, as `read` takes it; without the key, `absent`. -/
def entry? {α : Type} (entries : Toml.Entries) (name : String) (read : Toml.Value → Option α)
    (absent : α) : Option α :=
  match entries.lookup name with
  | none => some absent
  | some item => read item.toValue

/-- A text. -/
def textOf? : Toml.Value → Option String
  | .string s => some s
  | _ => none

/-- Whether a value is an array or a table with nothing in it. -/
def holdsNothing : Toml.Value → Bool
  | .array items => items.isEmpty
  | .inlineTable entries => entries.isEmpty
  | _ => false

/-- A mode, by its word; the word may also be the one key of a table, with nothing under it. -/
def modeOf? : Toml.Value → Option Mode
  | .string s => Mode.ofWord? s
  | .inlineTable [(name, value)] => if holdsNothing value then Mode.ofWord? name else none
  | _ => none

/-- A number of seconds. -/
def secondsOf? : Toml.Value → Option UInt64
  | .integer n => if 0 ≤ n then some n.toUInt64 else none
  | _ => none

/-- The settings that a root table gives. -/
def ofEntries? (entries : Toml.Entries) : Option Settings := do
  let optionalText (name : String) : Option (Option String) :=
    entry? entries name (fun v => (textOf? v).map some) none
  return {
    searchDomain := ← optionalText "search_domain"
    region := ← entry? entries "aws_region" textOf? initial.region
    apiVersion := ← entry? entries "api_version" textOf? initial.apiVersion
    mode := ← entry? entries "mode" modeOf? initial.mode
    timeoutSeconds := ← entry? entries "timeout_seconds" secondsOf? initial.timeoutSeconds
    searchEndpoint := ← optionalText "search_endpoint"
    documentEndpoint := ← optionalText "document_endpoint" }

/-- The settings that the content of a file gives; a file that cannot be read has none. -/
def ofFile (path : String) (content : Option String) : Except Fault Settings :=
  match content with
  | none => .error (.unreadable path)
  | some text =>
    match (Toml.parse? text).bind ofEntries? with
    | some settings => .ok settings
    | none => .error (.notSettings path)

end Settings

end HostedSearch
