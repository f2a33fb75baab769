/-!
# Single-quoted strings

Inside single quotes a backslash protects the character after it. Writing puts a backslash
before every quote and every backslash, so the string ends at the first quote that no backslash
protects.
-/

namespace HostedSearch

/-- Whether a character may not stand for itself between single quotes. -/
def needsBackslash (c : Char) : Bool :=
  c == '\'' || c == '\\'

/-- The text with a backslash before every quote and backslash. -/
def escapeQuoted : List Char → List Char
  | [] => []
  | c :: cs => if needsBackslash c then '\\' :: c :: escapeQuoted cs else c :: escapeQuoted cs

/-- The text as a single-quoted string. -/
def quoted (cs : List Char) : List Char :=
  '\'' :: (escapeQuoted cs ++ ['\''])

end HostedSearch
