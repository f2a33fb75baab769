import HostedSearch.Json.Value

/-!
# Writing JSON

The compact form of a value has no spaces, and escapes in strings only the quote, the backslash
and the control characters below U+0020. The indented form puts every item and member on a line
of its own, two spaces deeper than its container; an empty container stays on one line.
-/

namespace HostedSearch

namespace Json

/-- JSON numbers are written with the fewest digits, positionally for leading exponents from
`-5` to `15`. -/
def numberLayout : Layout where
  tie := .toEven
  positional := fun leading => -5 ≤ leading && leading ≤ 15
  wholeExact := false

/-- The text of a number. -/
def Number.text : Number → List Char
  | .whole n => integerText n.value
  | .decimal x => x.text numberLayout

/-- The letter that stands after the backslash for a character that has a short escape. -/
def escapeLetter? : Char → Option Char
  | '"' => some '"'
  | '\\' => some '\\'
  | '\x08' => some 'b'
  | '\x0c' => some 'f'
  | '\n' => some 'n'
  | '\r' => some 'r'
  | '\t' => some 't'
  | _ => none

/-- A character as it stands inside a string. -/
def charText (c : Char) : List Char :=
  match escapeLetter? c with
  | some letter => ['\\', letter]
  | none =>
    if c.toNat < 0x20 then
      ['\\', 'u', '0', '0', Nat.digitChar (c.toNat / 16), Nat.digitChar (c.toNat % 16)]
    else
      [c]

/-- A string between double quotes. -/
def stringText (s : String) : List Char :=
  '"' :: (s.toList.flatMap charText ++ ['"'])

/-- The text of a value that is neither an array nor an object. -/
def literalText : Json → List Char
  | .null => ['n', 'u', 'l', 'l']
  | .bool true => ['t', 'r', 'u', 'e']
  | .bool false => ['f', 'a', 'l', 's', 'e']
  | .number n => n.text
  | .string s => stringText s
  | _ => []

mutual

/-- The compact text of a value. -/
def text : Json → List Char
  | .array items => '[' :: (itemsText items ++ [']'])
  | .object members => '{' :: (membersText members ++ ['}'])
  | value => value.literalText

/-- The items of an array, separated by commas. -/
def itemsText : List Json → List Char
  | [] => []
  | item :: items => text item ++ moreItemsText items

/-- The items after the first, each behind a comma. -/
def moreItemsText : List Json → List Char
  | [] => []
  | item :: items => ',' :: (text item ++ moreItemsText items)

/-- The members of an object, separated by commas. -/
def membersText : List (String × Json) → List Char
  | [] => []
  | (name, value) :: members => stringText name ++ ':' :: (text value ++ moreMembersText members)

/-- The members after the first, each behind a comma. -/
def moreMembersText : List (String × Json) → List Char
  | [] => []
  | (name, value) :: members =>
    ',' :: (stringText name ++ ':' :: (text value ++ moreMembersText members))

end

/-- A line break and the indentation of a depth. -/
def newLine (depth : Nat) : List Char :=
  '\n' :: List.replicate (2 * depth) ' '

mutual

/-- The indented text of a value at a depth. -/
def indentedText (depth : Nat) : Json → List Char
  | .array [] => ['[', ']']
  | .array (item :: items) =>
    '[' :: (newLine (depth + 1) ++ indentedText (depth + 1) item ++
      indentedItems (depth + 1) items ++ newLine depth ++ [']'])
  | .object [] => ['{', '}']
  | .object ((name, value) :: members) =>
    '{' :: (newLine (depth + 1) ++ stringText name ++
      ':' :: ' ' :: indentedText (depth + 1) value ++
      indentedMembers (depth + 1) members ++ newLine depth ++ ['}'])
  | value => value.literalText

/-- The items after the first, each behind a comma and on a line of its own. -/
def indentedItems (depth : Nat) : List Json → List Char
  | [] => []
  | item :: items => ',' :: (newLine depth ++ indentedText depth item ++ indentedItems depth items)

/-- The members after the first, each behind a comma and on a line of its own. -/
def indentedMembers (depth : Nat) : List (String × Json) → List Char
  | [] => []
  | (name, value) :: members =>
    ',' :: (newLine depth ++ stringText name ++ ':' :: ' ' :: indentedText depth value ++
      indentedMembers depth members)

end

/-- The compact text of a value. -/
def compact (value : Json) : String :=
  String.ofList value.text

/-- The indented text of a value. -/
def indented (value : Json) : String :=
  String.ofList (value.indentedText 0)

end Json

end HostedSearch
