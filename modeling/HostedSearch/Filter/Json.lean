import HostedSearch.Filter.Basic
import HostedSearch.Filter.Range
import HostedSearch.Json.Printer
import HostedSearch.Json.Reader
import HostedSearch.Wording

/-!
# Filters as JSON

A filter is written as a JSON object. A member named `and`, `or` or `not` that holds an object
is a group, every other member constrains the field of its name. A text in the form of a range
and an object with the members `from` and `to` are integer ranges. Members are taken in order,
and the first that is no constraint is the one reported.
-/

namespace HostedSearch

namespace Filter

/-- Why a text or a JSON value is no filter. -/
inductive Fault where
  | notJson
  | notObject (value : Json)
  | badItem (field : String) (item : Json)
  | badObject (field : String) (value : Json)
  | badBound (fault : BoundFault)

/-- The texts of a fault, the outermost first. -/
def Fault.chain (wording : Wording) : Fault → List String
  | .notJson => ["Filter is not valid JSON", wording.json]
  | .notObject value => ["Filter must be a JSON object, found " ++ value.compact]
  | .badItem field item =>
    ["List values for `" ++ field ++ "` must be strings, numbers or booleans, found " ++
      item.compact]
  | .badObject field value =>
    ["Object value for `" ++ field ++
      "` must be a range like \x7b\"from\": 1, \"to\": 10\x7d, found " ++ value.compact]
  | .badBound fault => ["Range bound out of range: " ++ fault.bound, fault.cause.message]

/-- The text that stands for a truth value. -/
def boolText (b : Bool) : String :=
  if b then "true" else "false"

/-- A number as a scalar: a whole number beyond the signed 64-bit range is kept as its text. -/
def scalarOfNumber : Json.Number → Scalar
  | .decimal x => .float (.finite x)
  | .whole n =>
    match n.toInt64? with
    | some i => .integer i
    | none => .text (String.ofList (integerText n.value))

/-- An item of a list constraint. -/
def scalarOfJson (field : String) : Json → Except Fault Scalar
  | .string s => .ok (.text s)
  | .bool b => .ok (.text (boolText b))
  | .number n => .ok (scalarOfNumber n)
  | item => .error (.badItem field item)

/-- A scalar as the constraint that a field equals it. -/
def constraintOfScalar : Scalar → Constraint
  | .text s => .text s
  | .integer n => .integer n
  | .float x => .float x

/-- A text as a constraint: a range if it has that form. -/
def constraintOfText (s : String) : Except Fault Constraint :=
  match Range.ofText? s with
  | .ok (some range) => .ok (.range range.low range.high)
  | .ok none => .ok (.text s)
  | .error fault => .error (.badBound fault)

/-- The bounds of an object that has exactly the integer members `from` and `to`. -/
def rangeOfMembers? (members : Json.Members) : Option Range := do
  let low ← (← members.value? "from").toInt64?
  let high ← (← members.value? "to").toInt64?
  if members.length = 2 then some ⟨low, high⟩ else none

/-- The value of a member as a constraint on the field of its name. -/
def constraintOfJson (field : String) : Json → Except Fault Constraint
  | .null => .ok .anything
  | .bool b => .ok (.text (boolText b))
  | .number n => .ok (constraintOfScalar (scalarOfNumber n))
  | .string s => constraintOfText s
  | .array items => (items.mapM (scalarOfJson field)).map .list
  | .object members =>
    match rangeOfMembers? members with
    | some range => .ok (.range range.low range.high)
    | none => .error (.badObject field (.object members))

mutual

/-- A member of a filter object as a clause. -/
def clauseOfMember (name : String) : Json → Except Fault Clause
  | .object members =>
    if name = "and" then (ofMembers members).map .allOf
    else if name = "or" then (ofMembers members).map .anyOf
    else if name = "not" then (ofMembers members).map .noneOf
    else (constraintOfJson name (.object members)).map (.field name)
  | value => (constraintOfJson name value).map (.field name)

/-- The members of a filter object as clauses, in order. -/
def ofMembers : List (String × Json) → Except Fault (List Clause)
  | [] => .ok []
  | (name, value) :: members => do
    let clause ← clauseOfMember name value
    let clauses ← ofMembers members
    return clause :: clauses

end

/-- A JSON value as a filter. -/
def ofJson : Json → Except Fault Filter
  | .object members => ofMembers members
  | value => .error (.notObject value)

/-- A text as a filter. -/
def ofText (text : String) : Except Fault Filter :=
  match Json.parse text with
  | .ok value => ofJson value
  | .error _ => .error .notJson

end Filter

end HostedSearch
