import HostedSearch.Text.Blank
import HostedSearch.Text.Letters

/-!
# Rankings

Results are ranked by a field, upward or downward. A ranking is written in two ways: as a field
and a direction, two words of which the second may be missing, and as a field behind a minus
sign when the direction is downward. The second way is the one the service takes.
-/

namespace HostedSearch

/-- The direction of a ranking. -/
inductive Direction where
  | ascending
  | descending
deriving DecidableEq

/-- A field and the direction in which results are ranked by it. -/
structure Ranking where
  field : String
  direction : Direction
deriving DecidableEq

namespace Direction

/-- The short word for a direction. -/
def word : Direction → String
  | .ascending => "asc"
  | .descending => "desc"

/-- The long word for a direction. -/
def longWord : Direction → String
  | .ascending => "ascending"
  | .descending => "descending"

/-- Whether a text is a word for the direction, in any case. -/
def isCalled (direction : Direction) (text : String) : Bool :=
  sameWord text direction.word || sameWord text direction.longWord

/-- The direction that a word stands for. -/
def ofText? (text : String) : Option Direction :=
  [ascending, descending].find? (·.isCalled text)

end Direction

/-- Words that are no ranking, since there are not one or two of them. -/
structure RankingFault where
  words : Nat
deriving DecidableEq

/-- The wording of a ranking fault. -/
def RankingFault.message (fault : RankingFault) : String :=
  "Rank must be `field` or `field direction`, got " ++ toString fault.words ++ " tokens"

namespace Ranking

/-- The field behind a minus sign when the direction is downward. -/
def parameter (ranking : Ranking) : String :=
  match ranking.direction with
  | .ascending => ranking.field
  | .descending => "-" ++ ranking.field

/-- A field with an optional direction; a word that is no direction means upward. -/
def ofWords : List String → Except RankingFault Ranking
  | [field] => .ok ⟨field, .ascending⟩
  | [field, direction] => .ok ⟨field, (Direction.ofText? direction).getD .ascending⟩
  | words => .error ⟨words.length⟩

/-- The field behind the minus sign of a signed word, if there is any. -/
def signedField? : List Char → Option String
  | '-' :: c :: cs => some (String.ofList (c :: cs))
  | _ => none

/-- A text of one signed word, or of a field with an optional direction. -/
def ofText (text : String) : Except RankingFault Ranking :=
  match words text.toList with
  | [word] =>
    match signedField? word with
    | some field => .ok ⟨field, .descending⟩
    | none => ofWords [String.ofList word]
  | ws => ofWords (ws.map String.ofList)

/-- The signed form of a field and a direction, taken from the words directly: a missing direction
is upward, and words after the second do not count. -/
def signedForm : List String → String
  | [] => ""
  | field :: rest =>
    if Direction.ofText? (rest.headD Direction.ascending.word) = some .descending then "-" ++ field
    else field

end Ranking

end HostedSearch
