import HostedSearch.Number.Integer
import HostedSearch.Wording

/-!
# Faults of settings

Settings come from a file and from the environment, and either may be of no use: the file cannot
be read or does not hold settings, or a variable has a value that its setting does not take.
-/

namespace HostedSearch

namespace Settings

/-- Why settings cannot be made. -/
inductive Fault where
  | unreadable (path : String)
  | notSettings (path : String)
  | badMode (text : String)
  | badTimeout (text : String) (cause : IntegerFault)
deriving DecidableEq

/-- The texts of a fault, the outermost first. -/
def Fault.chain (wording : Wording) : Fault → List String
  | .unreadable path => ["Failed to read config file: " ++ path, wording.file]
  | .notSettings path => ["Failed to parse config file: " ++ path, wording.toml]
  | .badMode text =>
    ["Invalid CLOUDSEARCH_MODE: " ++ text ++ " (sandbox or live)", "Matching variant not found"]
  | .badTimeout text cause => ["Invalid CLOUDSEARCH_TIMEOUT_SECONDS: " ++ text, cause.message]

end Settings

end HostedSearch
