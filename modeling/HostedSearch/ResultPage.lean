import HostedSearch.Json.Shape

/-!
# Result pages

A page of search results, as the service reports it, and the arithmetic to get from one page to
its neighbours. All counts are 64-bit words, and a page whose number is more than a word holds has
no number. The service may leave out where the page starts, the hits, and the fields of a hit; how
many results there are in all it always says.
-/

namespace HostedSearch

/-- A document that was found, with the fields that were asked for. -/
structure Hit where
  id : String
  fields : Json.Members

/-- A page of search results. -/
structure ResultPage where
  hits : List Hit
  /-- How many results there are on all pages. -/
  total : UInt64
  /-- How many results stand before the page. -/
  offset : UInt64
  pageSize : UInt32
  /-- Whether the page was made up without asking the service. -/
  sandbox : Bool

/-- What is computed in 64-bit words and is more than a word holds. -/
inductive Overflow where
  | pageNumber
deriving DecidableEq

namespace Hit

/-- A hit of which some fields have been read. -/
structure Draft where
  id : Option String := none
  fields : Option Json.Members := none

/-- The fields of a hit; in its own fields at most `depth` containers are nested. -/
def shape (depth : Nat) : List (Json.Field Draft) :=
  [{ name := "id"
     given := fun draft => draft.id.isSome
     read := fun draft cs => do
       let (id, cs) ← Json.readAs Json.toString? cs
       return ({ draft with id := some id }, cs)
     omittable := false },
   { name := "fields"
     given := fun draft => draft.fields.isSome
     read := fun draft cs => do
       let (fields, cs) ← Json.readAnyObject depth cs
       return ({ draft with fields := some fields }, cs)
     omittable := true }]

/-- A hit needs an identifier. -/
def ofDraft? (draft : Draft) : Option Hit :=
  draft.id.map fun id => ⟨id, draft.fields.getD []⟩

/-- Read a hit. -/
def read (depth : Nat) : Json.Reader Hit :=
  Json.readRecord (shape depth) {} ofDraft?

end Hit

namespace ResultPage

/-- The hits section of a response, of which some fields have been read. -/
structure Draft where
  found : Option UInt64 := none
  start : Option UInt64 := none
  hit : Option (List Hit) := none

/-- The counts and hits of a response. -/
structure Section where
  found : UInt64
  start : UInt64
  hits : List Hit

/-- The fields of the hits section. It is the second container of a response, and the object of
a hit's fields is the fifth. -/
def shape : List (Json.Field Draft) :=
  [{ name := "found"
     given := fun draft => draft.found.isSome
     read := fun draft cs => do
       let (found, cs) ← Json.readAs Json.toUInt64? cs
       return ({ draft with found := some found }, cs)
     omittable := false },
   { name := "start"
     given := fun draft => draft.start.isSome
     read := fun draft cs => do
       let (start, cs) ← Json.readAs Json.toUInt64? cs
       return ({ draft with start := some start }, cs)
     omittable := true },
   { name := "hit"
     given := fun draft => draft.hit.isSome
     read := fun draft cs => do
       let (hits, cs) ← Json.readListOf (Hit.read (Json.maxDepth - 5)) cs
       return ({ draft with hit := some hits }, cs)
     omittable := true }]

/-- The hits section needs the number of all results. -/
def Section.ofDraft? (draft : Draft) : Option Section :=
  draft.found.map fun found => ⟨found, draft.start.getD 0, draft.hit.getD []⟩

/-- Read the hits section. -/
def Section.read : Json.Reader Section :=
  Json.readRecord shape {} ofDraft?

/-- The one field of a response that is of interest. -/
def responseShape : List (Json.Field (Option Section)) :=
  [{ name := "hits"
     given := Option.isSome
     read := fun _ cs => do
       let (part, cs) ← Section.read cs
       return (some part, cs)
     omittable := false }]

/-- The page that a response to a search stands for. -/
def ofResponse (body : String) (pageSize : UInt32) : Except Json.Fault ResultPage := do
  let part ← Json.readWhole (Json.readRecord responseShape none id) body
  return ⟨part.hits, part.found, part.start, pageSize, false⟩

/-- The empty page that stands for every search when nothing may leave the process. -/
def sandboxPage (pageSize : UInt32) : ResultPage :=
  ⟨[], 0, 0, pageSize, true⟩

/-- The identifiers of the hits, in order of rank. -/
def ids (page : ResultPage) : List String :=
  page.hits.map Hit.id

/-- The word after a word, if there is one. -/
def successor (n : UInt64) : Except Overflow UInt64 :=
  if n.toNat + 1 < UInt64.size then .ok (n + 1) else .error .pageNumber

/-- The number of the page, counted from one; without a page size there is one page. -/
def current (page : ResultPage) : Except Overflow UInt64 :=
  if page.pageSize = 0 then .ok 1 else successor (page.offset / page.pageSize.toUInt64)

/-- How many pages there are; without a page size there are none. -/
def pages (page : ResultPage) : UInt64 :=
  if page.pageSize = 0 then 0
  else
    let size := page.pageSize.toUInt64
    if page.total % size = 0 then page.total / size else page.total / size + 1

/-- The page before, unless this is the first. -/
def previous? (page : ResultPage) : Except Overflow (Option UInt64) := do
  let current ← page.current
  return if 1 < current then some (current - 1) else none

/-- The page after, unless this is the last. -/
def next? (page : ResultPage) : Except Overflow (Option UInt64) := do
  let current ← page.current
  if current < page.pages then return some (← successor current) else return none

/-- A hit as a JSON object. -/
def hitJson (hit : Hit) : Json :=
  .object [("id", .string hit.id), ("fields", .object hit.fields)]

/-- The page as a JSON object. -/
def toJson (page : ResultPage) : Except Overflow Json := do
  let current ← page.current
  return .object
    [("sandbox", .bool page.sandbox),
     ("found", .uint64 page.total),
     ("page", .uint64 current),
     ("total_pages", .uint64 page.pages),
     ("hits", .array (page.hits.map hitJson))]

end ResultPage

end HostedSearch
