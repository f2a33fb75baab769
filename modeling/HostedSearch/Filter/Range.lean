import HostedSearch.Number.Integer
import HostedSearch.Text.Blank
import HostedSearch.Text.DecimalDigit

/-!
# Range literals

A text such as `1 .. 10` is an integer range: two bounds with `..` between them and white space
around either. A bound is one or more decimal digits of any script behind an optional minus
sign. A text of that form whose bounds are not 64-bit integers is an error; any other text is no
range at all.
-/

namespace HostedSearch

/-- An integer range whose bounds are both included. -/
structure Range where
  low : Int64
  high : Int64
deriving DecidableEq

/-- A bound of a range that is not a 64-bit integer. -/
structure BoundFault where
  bound : String
  cause : IntegerFault
deriving DecidableEq

namespace Range

/-- One or more digits from the front of a text. -/
def takeDigits? (cs : List Char) : Option (List Char × List Char) :=
  let digits := cs.takeWhile isDecimalDigit
  if digits.isEmpty then none else some (digits, cs.dropWhile isDecimalDigit)

/-- A bound from the front of a text: digits behind an optional minus sign. -/
def takeBound? : List Char → Option (List Char × List Char)
  | '-' :: cs => (takeDigits? cs).map fun (digits, rest) => ('-' :: digits, rest)
  | cs => takeDigits? cs

/-- The rest behind two dots. -/
def takeDots? : List Char → Option (List Char)
  | '.' :: '.' :: cs => some cs
  | _ => none

/-- The two bounds of a text that has the form of a range. -/
def bounds? (cs : List Char) : Option (List Char × List Char) := do
  let (low, cs) ← takeBound? (dropBlank cs)
  let cs ← takeDots? (dropBlank cs)
  let (high, cs) ← takeBound? (dropBlank cs)
  if isAllBlank cs then some (low, high) else none

/-- The integer that a bound stands for. -/
def readBound (cs : List Char) : Except BoundFault Int64 :=
  match readInt64 cs with
  | .ok n => .ok n
  | .error cause => .error ⟨String.ofList cs, cause⟩

/-- The range that a text stands for; none for a text that has not the form of a range. -/
def ofText? (s : String) : Except BoundFault (Option Range) :=
  match bounds? s.toList with
  | none => .ok none
  | some (low, high) => do
    let low ← readBound low
    let high ← readBound high
    return some ⟨low, high⟩

end Range

end HostedSearch
