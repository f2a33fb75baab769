/-!
# Blank characters

The characters with the Unicode property `White_Space`, and the two things done with them:
trimming a text, and splitting it into words.
-/

namespace HostedSearch

/-- The closed ranges of code points with the property, ascending and apart. -/
def blankRanges : List (Nat × Nat) :=
  [(0x09, 0x0D), (0x20, 0x20), (0x85, 0x85), (0xA0, 0xA0), (0x1680, 0x1680), (0x2000, 0x200A),
   (0x2028, 0x2029), (0x202F, 0x202F), (0x205F, 0x205F), (0x3000, 0x3000)]

/-- Whether a character is white space. -/
def isBlank (c : Char) : Bool :=
  blankRanges.any fun range => range.1 ≤ c.toNat && c.toNat ≤ range.2

/-- The text without its leading white space. -/
def dropBlank (cs : List Char) : List Char :=
  cs.dropWhile isBlank

/-- Whether a text holds nothing but white space. -/
def isAllBlank (cs : List Char) : Bool :=
  cs.all isBlank

/-- The maximal runs of characters that are not white space, in order. -/
def words (cs : List Char) : List (List Char) :=
  (cs.splitOnP isBlank).filter fun word => !word.isEmpty

end HostedSearch
