import HostedSearch.Filter.Query
import HostedSearch.Ranking
import HostedSearch.Text.Percent

/-!
# Search requests

A search is a list of named parameters sent to an endpoint. What is searched for is the
structured query of the filter when that is not empty, and the free-text term otherwise. In the
URL every value is percent-encoded; only the commas between the names of returned fields stand
for themselves.
-/

namespace HostedSearch

/-- What a search may say besides its term. -/
structure SearchOptions where
  filter : Option Filter := none
  pageSize : Option UInt32 := none
  /-- The page wanted, counted from one. -/
  page : Option UInt32 := none
  ranking : Option Ranking := none
  returnFields : List String := []
  /-- Further options for the reading of the query, as the service takes them. -/
  queryOptions : Option String := none

/-- The parameters of a search, in the words of the service. -/
inductive Parameter where
  | query
  | queryParser
  | size
  | queryOptions
  | returnFields
  | start
  | rank
deriving DecidableEq

/-- The name of a parameter. -/
def Parameter.name : Parameter → String
  | .query => "q"
  | .queryParser => "q.parser"
  | .size => "size"
  | .queryOptions => "q.options"
  | .returnFields => "return"
  | .start => "start"
  | .rank => "rank"

/-- A search: where it is sent, and its parameters in order with their plain values. -/
structure SearchRequest where
  endpoint : String
  parameters : List (Parameter × String)
  pageSize : UInt32

/-- How many results a page has unless something else is asked for. -/
def defaultPageSize : UInt32 := 10

namespace SearchOptions

/-- The structured query of the filter, if there is one and it is not empty. -/
def structuredQuery? (options : SearchOptions) : Option String :=
  (options.filter.map Filter.query).filter fun query => !query.isEmpty

/-- What is searched for. -/
def queryParameters (options : SearchOptions) (term : String) : List (Parameter × String) :=
  match options.structuredQuery? with
  | some query => [(.query, query), (.queryParser, "structured")]
  | none => [(.query, term)]

/-- How many results the page has. -/
def size (options : SearchOptions) : UInt32 :=
  options.pageSize.getD defaultPageSize

/-- How many results stand before a page; page zero counts as page one. -/
def startOf (page size : UInt32) : Nat :=
  (page.toNat - 1) * size.toNat

/-- The names of the returned fields, unless there are none. -/
def returnList? (options : SearchOptions) : Option String :=
  if options.returnFields.isEmpty then none else some (",".intercalate options.returnFields)

/-- The parameters of a search, in order. -/
def parameters (options : SearchOptions) (term : String) : List (Parameter × String) :=
  options.queryParameters term ++
    [(.size, toString options.size.toNat)] ++
    (options.queryOptions.map fun text => (Parameter.queryOptions, text)).toList ++
    (options.returnList?.map fun names => (Parameter.returnFields, names)).toList ++
    (options.page.map fun page =>
      (Parameter.start, toString (startOf page options.size))).toList ++
    (options.ranking.map fun ranking => (Parameter.rank, ranking.parameter)).toList

end SearchOptions

namespace SearchRequest

/-- The search for a term with options, to be sent to an endpoint. -/
def build (endpoint term : String) (options : SearchOptions) : SearchRequest :=
  ⟨endpoint, options.parameters term, options.size⟩

/-- The value of a parameter. -/
def value? (request : SearchRequest) (parameter : Parameter) : Option String :=
  request.parameters.lookup parameter

/-- Whether a character stands for itself in the value of a parameter. -/
def keeps : Parameter → Char → Bool
  | .returnFields, c => c == ','
  | _, _ => false

/-- A parameter as it stands in the URL. -/
def parameterText (parameter : Parameter) (value : String) : List Char :=
  parameter.name.toList ++ '=' :: percentEncode (keeps parameter) value.toList

/-- The query string of the URL. -/
def queryString (request : SearchRequest) : List Char :=
  ['&'].intercalate (request.parameters.map fun (parameter, value) => parameterText parameter value)

/-- The whole URL. -/
def url (request : SearchRequest) : String :=
  request.endpoint ++ "?" ++ String.ofList request.queryString

end SearchRequest

end HostedSearch
