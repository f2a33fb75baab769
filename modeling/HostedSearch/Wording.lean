/-!
# Wording of foreign problems

A problem is told as a list of texts, the outermost first. Some end in a text that belongs to
the reader of a foreign format or to the file system and not to this library; whoever reports
the problem supplies those texts.
-/

namespace HostedSearch

/-- The texts for problems that other formats and the file system report. -/
structure Wording where
  /-- A text is not the JSON that is wanted. -/
  json : String
  /-- A text is not the TOML that is wanted. -/
  toml : String
  /-- A file cannot be read. -/
  file : String

/-- A problem on one line, outermost text first. -/
def oneLine (chain : List String) : String :=
  ": ".intercalate chain

end HostedSearch
