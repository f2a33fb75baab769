import HostedSearch.Json.Reader
import HostedSearch.Wording

/-!
# Exchanges with the service

What goes out to the service and what comes back. A transport is anything that answers requests
one after the other, keeping a state of its own between them. What comes back is an answer with
a status, or no answer at all; errors say which of the two families of operation they belong to.
-/

namespace HostedSearch

/-- A request to the service. -/
inductive Request where
  | get (url : String)
  | post (url body : String)
deriving DecidableEq

/-- The service's answer to a request. -/
structure Response where
  status : UInt16
  /-- The phrase that goes with the status. -/
  reason : String
  body : String
deriving DecidableEq

/-- What comes back for a request. -/
inductive Answer where
  | response (response : Response)
  /-- No answer came, for this cause. -/
  | failure (cause : String)
deriving DecidableEq

/-- Something that answers requests, from a state that it keeps. -/
abbrev Transport (σ : Type) := σ → Request → Answer × σ

/-- The status of an answer that is good. -/
def okStatus : UInt16 := 200

/-- Why a search failed. -/
inductive SearchError where
  | transport (url cause : String)
  | status (url : String) (status : UInt16) (reason : String)
  | invalidResponse (url : String) (fault : Json.Fault)
deriving DecidableEq

/-- Why a change to documents failed. -/
inductive UpdateError where
  | transport (url cause : String)
  | status (url : String) (status : UInt16) (reason : String)
  /-- The service took the batch and refused it, with so many errors. -/
  | batch (errors : Nat) (body : String)
deriving DecidableEq

/-- Why an operation of a client failed. -/
inductive ClientError where
  | missingSearchDomain
  | search (error : SearchError)
  | update (error : UpdateError)
deriving DecidableEq

/-- The wording of a failed search. -/
def SearchError.message (wording : Wording) : SearchError → String
  | .transport url cause => "Search request to " ++ url ++ " failed: " ++ cause
  | .status url code reason =>
    "Search request to " ++ url ++ " returned " ++ toString code.toNat ++ " " ++ reason
  | .invalidResponse url _ =>
    "Search response from " ++ url ++ " could not be parsed: " ++ wording.json

/-- The wording of a failed change. -/
def UpdateError.message : UpdateError → String
  | .transport url cause => "Document batch to " ++ url ++ " failed: " ++ cause
  | .status url code reason =>
    "Document batch to " ++ url ++ " returned " ++ toString code.toNat ++ " " ++ reason
  | .batch errors body =>
    "Document batch rejected with " ++ toString errors ++ " error(s): " ++ body

namespace ClientError

/-- The wording of a failed operation. -/
def message (wording : Wording) : ClientError → String
  | .missingSearchDomain =>
    "Search domain is not configured; set `search_domain` or CLOUDSEARCH_DOMAIN"
  | .search error => error.message wording
  | .update error => error.message

/-- The status of the answer, if a status other than the good one is what failed. -/
def status? : ClientError → Option UInt16
  | .search (.status _ code _) => some code
  | .update (.status _ code _) => some code
  | _ => none

end ClientError

end HostedSearch
