import HostedSearch.Json.Reader

/-!
# Reading values of a known shape

Readers for texts whose shape is known in advance. A record is written as an object, whose
members may stand in any order among others of no interest, or as an array of its fields in
order of declaration. A text that leaves the expected shape is mismatched from the point where
that shows: a scalar of the wrong kind behind its last character, a container at its bracket, a
repeated member behind its name, and a missing one behind the whole record.
-/

namespace HostedSearch

namespace Json

/-- A scalar that `want` accepts. -/
def readAs {α : Type} (want : Json → Option α) : Reader α := fun cs =>
  match skipSpace cs with
  | '[' :: _ => .error .mismatched
  | '{' :: _ => .error .mismatched
  | cs => do
    let (value, cs) ← readScalar cs
    match want value with
    | some a => return (a, cs)
    | none => .error .mismatched

/-- Whatever stands here is not of the shape that is wanted. -/
def refuse {α : Type} : Reader α :=
  readAs fun _ => none

/-- An array of items. -/
def readListOf {α : Type} (item : Reader α) : Reader (List α) := fun cs =>
  match skipSpace cs with
  | '[' :: cs => readArray item cs
  | cs => refuse cs

/-- An object with any members, in whose values at most `depth` containers are nested. -/
def readAnyObject (depth : Nat) : Reader Members := fun cs =>
  match skipSpace cs with
  | '{' :: cs => readObject readString (readMember (readValue depth)) [] cs
  | cs => refuse cs

/-- A field of a record that is being read into a state. -/
structure Field (σ : Type) where
  /-- The name of the field's member. -/
  name : String
  /-- Whether the state already has the field. -/
  given : σ → Bool
  /-- Read the field's value into the state. -/
  read : σ → Reader σ
  /-- Whether an array may end before the field. -/
  omittable : Bool

/-- Read the value of a member into its field; a member without a field is passed over. -/
def readField {σ : Type} (fields : List (Field σ)) (state : σ) (name : String) : Reader σ :=
  fun cs =>
    match fields.find? (·.name == name) with
    | some field =>
      if field.given state then .error .mismatched
      else do
        let cs ← takeColon cs
        field.read state cs
    | none => do
      let cs ← takeColon cs
      let (_, cs) ← skipValue cs
      return (state, cs)

/-- The fields after the first of a record written as an array, each behind a comma. -/
def readMorePositions {σ : Type} : List (Field σ) → σ → Reader σ
  | [], state, cs =>
    match skipSpace cs with
    | ']' :: cs => .ok (state, cs)
    | _ => .error .malformed
  | field :: fields, state, cs =>
    match skipSpace cs with
    | ']' :: cs =>
      if (field :: fields).all (·.omittable) then .ok (state, cs) else .error .mismatched
    | ',' :: cs => do
      let (state, cs) ← field.read state cs
      readMorePositions fields state cs
    | _ => .error .malformed

/-- The fields of a record written as an array whose opening bracket has been taken. -/
def readPositions {σ : Type} (fields : List (Field σ)) (state : σ) : Reader σ := fun cs =>
  match fields, skipSpace cs with
  | [], cs => readMorePositions [] state cs
  | fields, ']' :: cs => readMorePositions fields state (']' :: cs)
  | field :: fields, cs => do
    let (state, cs) ← field.read state cs
    readMorePositions fields state cs

/-- A record: its fields are read into a state, from which `finish` makes the value, unless a
field is missing. -/
def readRecord {σ α : Type} (fields : List (Field σ)) (start : σ) (finish : σ → Option α) :
    Reader α := fun cs => do
  let (state, cs) ←
    match skipSpace cs with
    | '{' :: cs => readObject readString (readField fields) start cs
    | '[' :: cs => readPositions fields start cs
    | cs => refuse cs
  match finish state with
  | some a => return (a, cs)
  | none => .error .mismatched

end Json

end HostedSearch
