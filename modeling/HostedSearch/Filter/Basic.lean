import HostedSearch.Number.Layout

/-!
# Filters

A filter is an ordered list of clauses. A clause constrains one field or groups a filter: all of
its clauses hold, any of them, or none. Constraints that say nothing are allowed, so that a
caller may build a filter from values that happen to be absent.
-/

namespace HostedSearch

/-- One element of a list constraint. -/
inductive Scalar where
  | text (s : String)
  | integer (n : Int64)
  | float (x : Binary64)
deriving DecidableEq

/-- What a field has to satisfy. -/
inductive Constraint where
  /-- No constraint. -/
  | anything
  | text (s : String)
  | integer (n : Int64)
  | float (x : Binary64)
  /-- An integer between two bounds, both included. -/
  | range (low high : Int64)
  | list (values : List Scalar)
deriving DecidableEq

/-- A constraint on one field, or a group of clauses. -/
inductive Clause where
  | allOf (inner : List Clause)
  | anyOf (inner : List Clause)
  | noneOf (inner : List Clause)
  | field (name : String) (value : Constraint)
deriving Inhabited

/-- An ordered list of clauses. -/
abbrev Filter := List Clause

/-- Whether the constraint says nothing: no constraint, an empty text or an empty list. -/
def Constraint.isEmpty : Constraint → Bool
  | .anything => true
  | .text s => s.isEmpty
  | .list values => values.isEmpty
  | _ => false

/-- The constraints that say nothing are these three. -/
theorem Constraint.isEmpty_iff {value : Constraint} :
    value.isEmpty ↔ value = .anything ∨ value = .text "" ∨ value = .list [] := by
  cases value <;> simp [isEmpty]

mutual

/-- The `noneOf` groups at any depth that is reached through other groups. -/
def Clause.unsupported : Clause → List Clause
  | .noneOf inner => [.noneOf inner]
  | .allOf inner => unsupportedClauses inner
  | .anyOf inner => unsupportedClauses inner
  | .field _ _ => []

/-- The clauses of a filter, at any depth, that the structured query language has no form for. -/
def unsupportedClauses : List Clause → List Clause
  | [] => []
  | clause :: clauses => clause.unsupported ++ unsupportedClauses clauses

end

/-- The clauses of a filter, at any depth, that the structured query language has no form for. -/
def Filter.unsupported (filter : Filter) : List Clause :=
  unsupportedClauses filter

end HostedSearch
