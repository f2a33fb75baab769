import HostedSearch.Document.Fields
import HostedSearch.Json.Printer
import HostedSearch.Json.Shape

/-!
# Document changes

An entry of a batch of document changes: a document is added, or replaced, with its fields, or it
is deleted. Every change has a version, by which the service decides which of two changes to one
document is the later. As JSON, a change is an object whose member `type` says which of the two
it is. It is read from such an object with its members in any order, or from an array of the
type and the other members in order.
-/

namespace HostedSearch

/-- A change to one document. -/
inductive Change where
  | add (id : String) (version : Int64) (language : String) (fields : Json.Members)
  | delete (id : String) (version : Int64)

namespace Change

/-- The language that documents are taken to be in. -/
def defaultLanguage : String := "en"

/-- The addition of a document with its fields, in the form that the service takes. -/
def ofFields (id : String) (version : Int64) (fields : Fields) : Change :=
  .add id version defaultLanguage fields.normalize

/-- The document that is changed. -/
def id : Change → String
  | .add id _ _ _ => id
  | .delete id _ => id

/-- The version of the change. -/
def version : Change → Int64
  | .add _ version _ _ => version
  | .delete _ version => version

/-- The change as a JSON object. -/
def toJson : Change → Json
  | .add id version language fields =>
    .object
      [("type", .string "add"),
       ("id", .string id),
       ("version", .int64 version),
       ("lang", .string language),
       ("fields", .object fields)]
  | .delete id version =>
    .object [("type", .string "delete"), ("id", .string id), ("version", .int64 version)]

/-! ## Reading -/

/-- The two kinds of change. -/
inductive Kind where
  | add
  | delete
deriving DecidableEq

/-- The kind that a word stands for. -/
def Kind.ofWord? (word : String) : Option Kind :=
  if word = "add" then some .add else if word = "delete" then some .delete else none

/-- The other members of a change, by name or in order. -/
inductive Content where
  | members (members : List (String × Json))
  | items (items : List Json)

/-- The members of an object, if the value is one. -/
def members? : Json → Option Json.Members
  | .object members => some members
  | _ => none

/-- The value of a name that occurs exactly once. -/
def only? (name : String) (members : List (String × Json)) : Option Json :=
  match members.filter fun member => member.1 == name with
  | [(_, value)] => some value
  | _ => none

/-- The addition that has these parts. -/
def add? (id version language fields : Json) : Option Change := do
  return .add (← id.toString?) (← version.toInt64?) (← language.toString?) (← members? fields)

/-- The deletion that has these parts. -/
def delete? (id version : Json) : Option Change := do
  return .delete (← id.toString?) (← version.toInt64?)

/-- The change that a kind and its content give; further members do not count. -/
def ofContent? : Kind → Content → Option Change
  | .add, .members members => do
    add? (← only? "id" members) (← only? "version" members) (← only? "lang" members)
      (← only? "fields" members)
  | .add, .items [id, version, language, fields] => add? id version language fields
  | .delete, .members members => do delete? (← only? "id" members) (← only? "version" members)
  | .delete, .items [id, version] => delete? id version
  | _, _ => none

/-- The word for a kind, as a JSON value. -/
def kindOfJson? (value : Json) : Option Kind :=
  value.toString?.bind Kind.ofWord?

/-- Read a member of a change: the type is read at once, other members are kept as they are. In
the values of the members at most `depth` containers are nested. -/
def readMember (depth : Nat) (state : Option Kind × List (String × Json)) (name : String) :
    Json.Reader (Option Kind × List (String × Json)) := fun cs =>
  if name = "type" then
    if state.1.isSome then .error .mismatched
    else do
      let cs ← Json.takeColon cs
      let (kind, cs) ← Json.readAs kindOfJson? cs
      return ((some kind, state.2), cs)
  else do
    let cs ← Json.takeColon cs
    let (value, cs) ← Json.readValue depth cs
    return ((state.1, state.2 ++ [(name, value)]), cs)

/-- Read the items behind the type of a change that is written as an array. -/
def readItems (depth : Nat) : Json.Reader (List Json) := fun cs =>
  match Json.skipSpace cs with
  | ']' :: cs => .ok ([], cs)
  | ',' :: cs => Json.readItems (Json.readValue depth) (cs.length + 1) cs
  | _ => .error .malformed

/-- Read the kind of a change and its content. -/
def readContent (depth : Nat) : Json.Reader (Option Kind × Content) := fun cs =>
  match Json.skipSpace cs with
  | '{' :: cs => do
    let ((kind, members), cs) ← Json.readObject Json.readString (readMember depth) (none, []) cs
    return ((kind, .members members), cs)
  | '[' :: cs =>
    match Json.skipSpace cs with
    | ']' :: _ => .error .mismatched
    | cs => do
      let (kind, cs) ← Json.readAs kindOfJson? cs
      let (items, cs) ← readItems depth cs
      return ((some kind, .items items), cs)
  | cs => Json.refuse cs

/-- Read a change, in whose parts at most `depth` containers are nested. -/
def read (depth : Nat) : Json.Reader Change := fun cs => do
  let ((kind, content), cs) ← readContent depth cs
  match kind.bind fun kind => ofContent? kind content with
  | some change => return (change, cs)
  | none => .error .mismatched

/-- The change that a text stands for. -/
def ofText (text : String) : Except Json.Fault Change :=
  Json.readWhole (read (Json.maxDepth - 1)) text

/-- The changes that a text stands for, which is an array of changes. -/
def listOfText (text : String) : Except Json.Fault (List Change) :=
  Json.readWhole (Json.readListOf (read (Json.maxDepth - 2))) text

end Change

end HostedSearch
