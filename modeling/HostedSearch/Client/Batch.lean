import HostedSearch.Client.Exchange
import HostedSearch.Document.Change
import HostedSearch.Text.Blank

/-!
# Document batches

Changes are sent in batches, as one JSON array. The service may refuse a batch in an answer whose
status is good: then the body is a JSON record whose status says `error`. A body that is no
such record, or no JSON at all, is not looked into.
-/

namespace HostedSearch

namespace Batch

/-- The body in which changes are sent. -/
def body (changes : List Change) : String :=
  (Json.array (changes.map Change.toJson)).compact

/-- What the service says about a batch. -/
structure Reply where
  status : Option String
  errors : List Json

/-- A reply of which some fields have been read. -/
structure Draft where
  status : Option (Option String) := none
  errors : Option (List Json) := none

/-- A text or null. -/
def optionalText? : Json → Option (Option String)
  | .null => some none
  | .string s => some (some s)
  | _ => none

/-- The fields of a reply. -/
def shape : List (Json.Field Draft) :=
  [{ name := "status"
     given := fun draft => draft.status.isSome
     read := fun draft cs => do
       let (status, cs) ← Json.readAs optionalText? cs
       return ({ draft with status := some status }, cs)
     omittable := false },
   { name := "errors"
     given := fun draft => draft.errors.isSome
     read := fun draft cs => do
       let (errors, cs) ← Json.readListOf (Json.readValue (Json.maxDepth - 2)) cs
       return ({ draft with errors := some errors }, cs)
     omittable := true }]

/-- No field of a reply has to be there. -/
def Reply.ofDraft? (draft : Draft) : Option Reply :=
  some ⟨draft.status.join, draft.errors.getD []⟩

/-- The reply that a body stands for. -/
def Reply.ofText (text : String) : Except Json.Fault Reply :=
  Json.readWhole (Json.readRecord shape {} ofDraft?) text

/-- How many errors a body refuses the batch with, if it does. -/
def rejection? (body : String) : Option Nat :=
  if isAllBlank body.toList then none
  else
    match Reply.ofText body with
    | .ok reply => if reply.status = some "error" then some reply.errors.length else none
    | .error _ => none

/-- The outcome of sending a batch to a URL: the body of a good answer that does not refuse it. -/
def result (url : String) : Answer → Except UpdateError String
  | .failure cause => .error (.transport url cause)
  | .response response =>
    if response.status = okStatus then
      match rejection? response.body with
      | some errors => .error (.batch errors response.body)
      | none => .ok response.body
    else
      .error (.status url response.status response.reason)

end Batch

end HostedSearch
