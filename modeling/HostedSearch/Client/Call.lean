import HostedSearch.Client.Batch
import HostedSearch.Event
import HostedSearch.ResultPage
import HostedSearch.SearchRequest
import HostedSearch.Settings.Basic

/-!
# Calls of a client

What can be asked of a client, and what it does about it. A call has a plan: it is answered at
once, or it sends one request and is answered from what comes back. Objects of the caller may
stand behind documents; when one has been added to the index, it is marked with the version that
its record carried. In sandbox mode every call but that for a request alone is answered at once.
-/

namespace HostedSearch

/-- An object of the caller that stands behind a document. -/
structure IndexedObject where
  /-- Tells the object apart from others. -/
  key : Nat
  id : String
  fields : Fields
  /-- Whether the object belongs in the index. -/
  shouldIndex : Bool := true

/-- What is asked of a client. -/
inductive Call where
  | search (term : String) (options : SearchOptions)
  /-- A search without a term. -/
  | searchFiltered (options : SearchOptions)
  /-- The request that a search would send. -/
  | searchRequest (term : String) (options : SearchOptions)
  | addItem (id : String) (fields : Fields)
  | updateItem (id : String) (fields : Fields)
  | removeItem (id : String)
  | submitBatch (changes : List Change)
  | addObject (object : IndexedObject)
  /-- Add the object if it belongs in the index, else remove it. -/
  | updateObject (object : IndexedObject)
  | removeObject (object : IndexedObject)

/-- What a call yields. -/
inductive Outcome where
  | page (page : ResultPage)
  | request (request : SearchRequest)
  | done
  /-- The service's answer to a batch, as it came. -/
  | body (text : String)

/-- The marking of an object as added, at the time that is the version of its record. -/
structure Mark where
  key : Nat
  time : Int64
deriving DecidableEq

/-- How a call is answered. -/
structure Reply where
  result : Except ClientError Outcome
  events : List Event := []
  marks : List Mark := []

/-- What a client does about a call. -/
inductive Plan where
  | answer (reply : Reply)
  | exchange (request : Request) (reply : Answer → Reply)

/-- The warnings about a filter: one for each group that its query passes over. -/
def Filter.warnings (filter : Filter) : List Event :=
  (Filter.passedOver filter).map fun _ => .groupPassedOver

/-- The warnings about the filter of a search. -/
def SearchOptions.warnings (options : SearchOptions) : List Event :=
  (options.filter.map Filter.warnings).getD []

/-- The outcome of a search from what came back for it. -/
def SearchRequest.result (request : SearchRequest) : Answer → Except SearchError ResultPage
  | .failure cause => .error (.transport request.url cause)
  | .response response =>
    if response.status = okStatus then
      match ResultPage.ofResponse response.body request.pageSize with
      | .ok page => .ok page
      | .error fault => .error (.invalidResponse request.url fault)
    else
      .error (.status request.url response.status response.reason)

/-- The events that a failed change brings with it. -/
def UpdateError.events : UpdateError → List Event
  | .batch errors _ => [.batchRejected errors]
  | _ => []

namespace Plan

variable (settings : Settings)

/-- Build the request of a search. -/
def searchRequest (term : String) (options : SearchOptions) : Plan :=
  .answer <|
    match settings.searchUrl? with
    | none => { result := .error .missingSearchDomain }
    | some endpoint =>
      { result := .ok (.request (.build endpoint term options)), events := options.warnings }

/-- Search. -/
def search (term : String) (options : SearchOptions) : Plan :=
  if settings.isSandbox then
    .answer { result := .ok (.page (.sandboxPage defaultPageSize)) }
  else
    match settings.searchUrl? with
    | none => .answer { result := .error .missingSearchDomain }
    | some endpoint =>
      let request := SearchRequest.build endpoint term options
      .exchange (.get request.url) fun back =>
        { result :=
            match request.result back with
            | .ok page => .ok (.page page)
            | .error error => .error (.search error)
          events := options.warnings }

/-- Send changes; `accepted` answers when the service has taken them. In sandbox mode the answer
is `dropped`. -/
def submit (changes : List Change) (dropped : Outcome) (accepted : String → Reply) : Plan :=
  if settings.isSandbox then
    .answer { result := .ok dropped }
  else
    match settings.batchUrl? with
    | none => .answer { result := .error .missingSearchDomain }
    | some url =>
      .exchange (.post url (Batch.body changes)) fun back =>
        match Batch.result url back with
        | .ok body => accepted body
        | .error error => { result := .error (.update error), events := error.events }

/-- Add or replace a document. -/
def addItem (now : Int64) (id : String) (fields : Fields) (marks : List Mark) : Plan :=
  submit settings [.ofFields id now fields] .done fun _ =>
    { result := .ok .done, events := [.documentAdded id], marks }

/-- Delete a document. -/
def removeItem (now : Int64) (id : String) : Plan :=
  submit settings [.delete id now] .done fun _ =>
    { result := .ok .done, events := [.documentRemoved id] }

/-- Add the document of an object, and mark the object. -/
def addObject (now : Int64) (object : IndexedObject) : Plan :=
  addItem settings now object.id object.fields [⟨object.key, now⟩]

/-- What a client does about a call, at a time in whole seconds. -/
def ofCall (now : Int64) : Call → Plan
  | .search term options => search settings term options
  | .searchFiltered options => search settings "" options
  | .searchRequest term options => searchRequest settings term options
  | .addItem id fields => addItem settings now id fields []
  | .updateItem id fields => addItem settings now id fields []
  | .removeItem id => removeItem settings now id
  | .submitBatch changes =>
    submit settings changes (.body "") fun body => { result := .ok (.body body) }
  | .addObject object => addObject settings now object
  | .updateObject object =>
    if object.shouldIndex then addObject settings now object
    else removeItem settings now object.id
  | .removeObject object => removeItem settings now object.id

end Plan

/-- What a call came to: its result, the requests it sent, and what happened besides. -/
structure Report where
  result : Except ClientError Outcome
  sent : List Request
  events : List Event
  marks : List Mark

/-- Follow a plan with a transport. -/
def Plan.run {σ : Type} (transport : Transport σ) (state : σ) : Plan → Report × σ
  | .answer reply => (⟨reply.result, [], reply.events, reply.marks⟩, state)
  | .exchange request reply =>
    let (back, state) := transport state request
    let reply := reply back
    (⟨reply.result, [request], reply.events, reply.marks⟩, state)

namespace Client

variable {σ : Type}

/-- Make a call at a time. -/
def perform (settings : Settings) (transport : Transport σ) (state : σ) (now : Int64)
    (call : Call) : Report × σ :=
  (Plan.ofCall settings now call).run transport state

/-- Make calls one after the other, each at its time. -/
def run (settings : Settings) (transport : Transport σ) : σ → List (Int64 × Call) →
    List Report × σ
  | state, [] => ([], state)
  | state, (now, call) :: calls =>
    let (report, state) := perform settings transport state now call
    let (reports, state) := run settings transport state calls
    (report :: reports, state)

end Client

end HostedSearch
