import HostedSearch.Settings.Basic
import HostedSearch.Settings.Fault

/-!
# Settings from the environment

Seven variables of the process environment override settings. A variable that is missing or
empty changes nothing. The mode and the timeout may be given badly; the mode is looked at first.
-/

namespace HostedSearch

/-- The variables of a process, by name. -/
abbrev Environment := List (String × String)

/-- The value of a variable, unless it is missing or empty. -/
def Environment.value? (environment : Environment) (name : String) : Option String :=
  (environment.lookup name).filter fun value => !value.isEmpty

namespace Settings

/-- The names of the variables that override settings. -/
def variableNames : List String :=
  ["CLOUDSEARCH_DOMAIN", "CLOUDSEARCH_REGION", "CLOUDSEARCH_API_VERSION", "CLOUDSEARCH_MODE",
   "CLOUDSEARCH_TIMEOUT_SECONDS", "CLOUDSEARCH_SEARCH_ENDPOINT", "CLOUDSEARCH_DOCUMENT_ENDPOINT"]

/-- The mode that a text names. -/
def readMode (text : String) : Except Fault Mode :=
  match Mode.ofText? text with
  | some mode => .ok mode
  | none => .error (.badMode text)

/-- The number of seconds that a text gives. -/
def readTimeout (text : String) : Except Fault UInt64 :=
  match readUInt64 text.toList with
  | .ok seconds => .ok seconds
  | .error cause => .error (.badTimeout text cause)

/-- What a variable gives, or else what is there already. -/
def overriding {α : Type} (given : Option String) (read : String → Except Fault α) (present : α) :
    Except Fault α :=
  match given with
  | some text => read text
  | none => .ok present

/-- The settings with those that variables give in their place. -/
def withEnvironment (settings : Settings) (environment : Environment) : Except Fault Settings := do
  let given := environment.value?
  let mode ← overriding (given "CLOUDSEARCH_MODE") readMode settings.mode
  let timeoutSeconds ←
    overriding (given "CLOUDSEARCH_TIMEOUT_SECONDS") readTimeout settings.timeoutSeconds
  return {
    searchDomain := (given "CLOUDSEARCH_DOMAIN").or settings.searchDomain
    region := (given "CLOUDSEARCH_REGION").getD settings.region
    apiVersion := (given "CLOUDSEARCH_API_VERSION").getD settings.apiVersion
    mode
    timeoutSeconds
    searchEndpoint := (given "CLOUDSEARCH_SEARCH_ENDPOINT").or settings.searchEndpoint
    documentEndpoint := (given "CLOUDSEARCH_DOCUMENT_ENDPOINT").or settings.documentEndpoint }

end Settings

end HostedSearch
