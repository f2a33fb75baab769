import HostedSearch.Filter.Basic
import HostedSearch.Json.Printer
import HostedSearch.Text.Quoted

/-!
# Structured queries

The structured query of a filter is the concatenation of the fragments of its clauses. A group of
clauses that all hold is `(and` and the fragments of the group, a constraint is a fragment with
a leading space, and a group of which any clause may hold becomes one `(or name 'v1' 'v2')` for
each list constraint directly in it. Constraints that say nothing leave no trace, and neither do
groups that come out empty. The query language has no form for `noneOf` groups: they are passed
over, with a warning for each that is met on the way.
-/

namespace HostedSearch

namespace Filter

/-- Numbers in queries never have an exponent, and whole ones are written with all their digits. -/
def numberLayout : Layout where
  tie := .upward
  positional := fun _ => true
  wholeExact := true

/-- The text of a binary64 number in a query. -/
def floatText : Binary64 → List Char
  | .finite x => x.text numberLayout
  | .infinite false => ['i', 'n', 'f']
  | .infinite true => ['-', 'i', 'n', 'f']
  | .nan => ['N', 'a', 'N']

/-- A signed 64-bit integer in decimal. -/
def int64Text (n : Int64) : List Char :=
  integerText n.toInt

/-- The bare text of a scalar. -/
def scalarText : Scalar → List Char
  | .text s => s.toList
  | .integer n => int64Text n
  | .float x => floatText x

/-- A scalar inside brackets: texts stand in double quotes. -/
def literal : Scalar → List Char
  | .text s => Json.stringText s
  | .integer n => int64Text n
  | .float x => floatText x

/-- The fragment of a constraint on a field. -/
def fieldFragment (name : String) (value : Constraint) : List Char :=
  if value.isEmpty then [] else
  match value with
  | .anything => []
  | .text s => ' ' :: name.toList ++ ':' :: quoted s.toList
  | .float x => ' ' :: name.toList ++ ':' :: '\'' :: floatText x ++ ['\'']
  | .integer n => " (term field=".toList ++ name.toList ++ ' ' :: int64Text n ++ [')']
  | .range low high =>
    " (term field=".toList ++ name.toList ++ ' ' :: int64Text low ++ '.' :: '.' :: int64Text high ++
      [')']
  | .list values =>
    " (range field=".toList ++ name.toList ++ ' ' :: '[' ::
      [',', ' '].intercalate (values.map literal) ++ [']', ')']

/-- The fragment of a clause directly in a group of which any may hold. -/
def choiceFragment : Clause → List Char
  | .field name (.list values) =>
    if values.isEmpty then [] else
      "(or ".toList ++ name.toList ++ ' ' ::
        [' '].intercalate (values.map fun value => quoted (scalarText value)) ++ [')']
  | _ => []

mutual

/-- The fragment of a clause. -/
def clauseFragment : Clause → List Char
  | .allOf inner =>
    let fragments := fragments inner
    if fragments.isEmpty then [] else "(and".toList ++ fragments ++ [')']
  | .anyOf inner => inner.flatMap choiceFragment
  | .noneOf _ => []
  | .field name value => fieldFragment name value

/-- The fragments of clauses one after the other. -/
def fragments : List Clause → List Char
  | [] => []
  | clause :: clauses => clauseFragment clause ++ fragments clauses

end

mutual

/-- The `noneOf` groups passed over in writing the fragment of a clause. -/
def clausePassedOver : Clause → List Clause
  | .noneOf inner => [.noneOf inner]
  | .allOf inner => passedOver inner
  | .anyOf _ => []
  | .field _ _ => []

/-- The `noneOf` groups passed over in writing the fragments of clauses, each a warning. -/
def passedOver : List Clause → List Clause
  | [] => []
  | clause :: clauses => clausePassedOver clause ++ passedOver clauses

end

/-- The structured query of a filter. -/
def query (filter : Filter) : String :=
  String.ofList (fragments filter)

end Filter

end HostedSearch
