import HostedSearch.Calendar
import HostedSearch.Json.Value

/-!
# Document fields

The fields of a document, in the order in which they were first given. The service takes dates
and moments as whole seconds from the first instant of 1970, and a field without a value as an
empty text; every other value goes out as it is.
-/

namespace HostedSearch

/-- The value of a document field, before it is put into the form that the service takes. -/
inductive FieldValue where
  | absent
  | json (value : Json)
  | moment (value : Moment)
  | date (value : Date)

/-- The value in the form that the service takes. -/
def FieldValue.normalize : FieldValue → Json
  | .moment value => .int64 (Int64.ofInt value.epochSeconds)
  | .date value => .int64 (Int64.ofInt value.epochSeconds)
  | .absent => .string ""
  | .json .null => .string ""
  | .json value => value

/-- The fields of a document, in order. -/
structure Fields where
  entries : List (String × FieldValue)

namespace Fields

/-- No fields. -/
def empty : Fields := ⟨[]⟩

/-- The fields with one more, or with another value for one of that name. -/
def insert (fields : Fields) (name : String) (value : FieldValue) : Fields :=
  ⟨Association.set name value fields.entries⟩

/-- The value of a field. -/
def value? (fields : Fields) (name : String) : Option FieldValue :=
  fields.entries.lookup name

/-- The names of the fields, in order. -/
def names (fields : Fields) : List String :=
  fields.entries.map Prod.fst

/-- How many fields there are. -/
def size (fields : Fields) : Nat :=
  fields.entries.length

/-- Whether there are no fields. -/
def isEmpty (fields : Fields) : Bool :=
  fields.entries.isEmpty

/-- The fields that a list of names and values gives when they are inserted one by one. -/
def ofList (entries : List (String × FieldValue)) : Fields :=
  entries.foldl (fun fields (name, value) => fields.insert name value) empty

/-- The fields that the members of a JSON object give. -/
def ofMembers (members : Json.Members) : Fields :=
  ofList (members.map fun (name, value) => (name, .json value))

/-- The members of the JSON object in which the service takes the fields: the values are set one
after the other, each under its name. -/
def normalize (fields : Fields) : Json.Members :=
  Association.ofList (fields.entries.map fun (name, value) => (name, value.normalize))

end Fields

end HostedSearch
