import HostedSearch.Command.Option

/-!
# Help

The texts for someone at a terminal: how the program is used, which version it is, and what is
wrong with a command line.
-/

namespace HostedSearch

namespace Command

/-- How the program is used. -/
def usage : String :=
  "Amazon CloudSearch command-line client\n\n" ++
  "Usage: cloudsearch [OPTIONS] <COMMAND>\n\n" ++
  "Commands:\n" ++
  "  search [TERM]  Search the domain, by free text or with a structured filter\n" ++
  "  add            Add or replace a document\n" ++
  "  remove         Delete a document\n" ++
  "  help           Print this message\n\n" ++
  "Options:\n" ++
  "  --config <FILE>    TOML config file\n" ++
  "  --domain <DOMAIN>  Search domain, overrides the config file and CLOUDSEARCH_DOMAIN\n" ++
  "  --live             Send requests to the service instead of running in sandbox mode\n" ++
  "  -v, --verbose      Debug logging\n" ++
  "  -h, --help         Print help\n" ++
  "  -V, --version      Print version\n\n" ++
  "Options of search:\n" ++
  "  --filter <JSON>, --page <N>, --page-size <N>, --rank <RANK>, --return <FIELDS>,\n" ++
  "  --options <TEXT>, --print-url\n\n" ++
  "Options of add:\n" ++
  "  --id <ID>, --fields <JSON>\n\n" ++
  "Options of remove:\n" ++
  "  --id <ID>\n"

/-- The version of the program. -/
def versionText : String :=
  "cloudsearch 0.1.0\n"

/-- Whether the line asked for a text that is now printed, so that nothing is wrong with it. -/
def UsageFault.isAnswer : UsageFault → Bool
  | .helpAsked => true
  | .versionAsked => true
  | _ => false

/-- What is printed for a line that is not carried out. -/
def UsageFault.text : UsageFault → String
  | .helpAsked => usage
  | .versionAsked => versionText
  | .nothingGiven => usage
  | .commandMissing => "error: a command is required\n"
  | .commandUnknown => "error: there is no such command\n"
  | .repeated => "error: an option is given twice\n"
  | .badValue => "error: the value of an option is invalid\n"
  | .valueMissing => "error: an option lacks its value\n"
  | .argumentUnknown => "error: unexpected argument\n"
  | .valueUnexpected => "error: an option that takes no value is given one\n"
  | .argumentMissing => "error: a required option is missing\n"

end Command

end HostedSearch
