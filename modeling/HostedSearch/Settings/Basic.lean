import HostedSearch.Text.Letters

/-!
# Settings

What a client has to know about the service: which search domain to use, in which region and
with which version of the interface, whether anything may leave the process at all, and where
the two endpoints are if not at their usual addresses.
-/

namespace HostedSearch

/-- Whether requests reach the service. -/
inductive Mode where
  /-- Nothing leaves the process. -/
  | sandbox
  | live
deriving DecidableEq

namespace Mode

/-- The word for a mode. -/
def word : Mode → String
  | .sandbox => "sandbox"
  | .live => "live"

/-- The mode whose word a text is, letter for letter. -/
def ofWord? (text : String) : Option Mode :=
  [sandbox, live].find? fun mode => mode.word == text

/-- The mode whose word a text is, in any case. -/
def ofText? (text : String) : Option Mode :=
  [sandbox, live].find? fun mode => sameWord text mode.word

end Mode

/-- The settings of a client. -/
structure Settings where
  searchDomain : Option String := none
  region : String := "us-east-1"
  apiVersion : String := "2013-01-01"
  mode : Mode := .sandbox
  timeoutSeconds : UInt64 := 30
  /-- Stands in for the usual address of the search endpoint. -/
  searchEndpoint : Option String := none
  /-- Stands in for the usual address of the document endpoint. -/
  documentEndpoint : Option String := none
deriving DecidableEq

namespace Settings

/-- The settings with nothing set. -/
def initial : Settings := {}

/-- Whether nothing may leave the process. -/
def isSandbox (settings : Settings) : Bool :=
  settings.mode == .sandbox

/-- The search domain, unless it is missing or empty. -/
def domain? (settings : Settings) : Option String :=
  settings.searchDomain.filter fun domain => !domain.isEmpty

/-- An address without the slashes at its end. -/
def trimSlashes (address : String) : String :=
  String.ofList (address.toList.reverse.dropWhile (· == '/')).reverse

/-- The address to use: the one given, without the slashes at its end, or else the usual one. -/
def address (given : Option String) (usual : String) : String :=
  match given with
  | some endpoint => trimSlashes endpoint
  | none => usual

/-- Where searches are sent. -/
def searchUrl? (settings : Settings) : Option String :=
  settings.domain?.map fun domain =>
    address settings.searchEndpoint
      ("https://search-" ++ domain ++ "." ++ settings.region ++ ".cloudsearch.amazonaws.com") ++
      "/" ++ settings.apiVersion ++ "/search"

/-- Where document batches are sent. -/
def batchUrl? (settings : Settings) : Option String :=
  settings.domain?.map fun domain =>
    address settings.documentEndpoint
      ("http://doc-" ++ domain ++ "." ++ settings.region ++ ".cloudsearch.amazonaws.com") ++
      "/" ++ settings.apiVersion ++ "/documents/batch"

end Settings

end HostedSearch
