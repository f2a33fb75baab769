/-!
# Words without regard to case

Comparison of words in which an ASCII capital equals its small letter; all other characters
equal only themselves.
-/

namespace HostedSearch

/-- Whether two words are the same up to the case of their ASCII letters. -/
def sameWord (a b : String) : Bool :=
  a.toList.map Char.toLower == b.toList.map Char.toLower

end HostedSearch
