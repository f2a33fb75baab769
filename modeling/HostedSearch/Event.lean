/-!
# Events

What is worth telling while the library works: warnings about things left out or refused by the
service, and notes on documents that reached it.
-/

namespace HostedSearch

/-- How important an event is. -/
inductive Level where
  | warning
  | note
deriving DecidableEq

/-- Something worth telling. -/
inductive Event where
  /-- A group of clauses was left out of a query. -/
  | groupPassedOver
  /-- The service refused a batch, with so many errors. -/
  | batchRejected (errors : Nat)
  | documentAdded (id : String)
  | documentRemoved (id : String)
deriving DecidableEq

namespace Event

/-- The importance of an event. -/
def level : Event → Level
  | .groupPassedOver => .warning
  | .batchRejected _ => .warning
  | .documentAdded _ => .note
  | .documentRemoved _ => .note

/-- The wording of an event. -/
def message : Event → String
  | .groupPassedOver => "Skipping `not` group: no structured query lowering exists for it"
  | .batchRejected errors =>
    "CloudSearch rejected batch with " ++ toString errors ++ " error(s)"
  | .documentAdded id => "Added document " ++ id ++ " to CloudSearch"
  | .documentRemoved id => "Removed document " ++ id ++ " from CloudSearch"

end Event

/-- The word for a level at the head of a log line. -/
def Level.word : Level → String
  | .warning => "WARN"
  | .note => "INFO"

/-- An event as a log line. -/
def Event.line (event : Event) : String :=
  event.level.word ++ " " ++ event.message

end HostedSearch
