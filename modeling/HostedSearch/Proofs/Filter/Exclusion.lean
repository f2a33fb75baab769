import HostedSearch.Client.Call

/-!
# Exclusions and their warnings

An exclusion is a `noneOf` group that is reached through other groups. Every exclusion of a
filter is reported as unsupported, in order. Writing the query warns about an exclusion only
when all groups around it are `allOf` groups: an `anyOf` group is searched for list constraints
alone, and an exclusion inside it goes without a warning.
-/

namespace HostedSearch

/-- The groups that can stand around a clause. -/
inductive Connective where
  | allOf
  | anyOf
deriving DecidableEq

/-- A `noneOf` group of a filter. -/
structure Exclusion where
  /-- The groups around it, the outermost first. -/
  path : List Connective
  /-- The clauses that are excluded. -/
  inner : List Clause

namespace Exclusion

/-- The `noneOf` group itself. -/
def group (exclusion : Exclusion) : Clause :=
  .noneOf exclusion.inner

/-- The exclusion as seen from outside one more group. -/
def within (connective : Connective) (exclusion : Exclusion) : Exclusion :=
  { exclusion with path := connective :: exclusion.path }

/-- Whether a choice between clauses stands around the exclusion. -/
def isInChoice (exclusion : Exclusion) : Bool :=
  exclusion.path.contains .anyOf

/-- A group around an exclusion leaves its clauses as they are. -/
theorem group_within (connective : Connective) (exclusion : Exclusion) :
    (exclusion.within connective).group = exclusion.group := rfl

/-- A group of clauses that all hold adds no choice. -/
theorem isInChoice_within_allOf (exclusion : Exclusion) :
    (exclusion.within .allOf).isInChoice = exclusion.isInChoice := by
  simp [within, isInChoice]

/-- A group of clauses of which any may hold is a choice. -/
theorem isInChoice_within_anyOf (exclusion : Exclusion) :
    (exclusion.within .anyOf).isInChoice = true := by
  simp [within, isInChoice]

end Exclusion

mutual

/-- The exclusions of a clause. -/
def Clause.exclusions : Clause → List Exclusion
  | .noneOf inner => [⟨[], inner⟩]
  | .allOf inner => (clauseExclusions inner).map (.within .allOf)
  | .anyOf inner => (clauseExclusions inner).map (.within .anyOf)
  | .field _ _ => []

/-- The exclusions of clauses one after the other. -/
def clauseExclusions : List Clause → List Exclusion
  | [] => []
  | clause :: clauses => clause.exclusions ++ clauseExclusions clauses

end

/-- The exclusions of a filter at any depth, in order. -/
def Filter.exclusions (filter : Filter) : List Exclusion :=
  clauseExclusions filter

mutual

/-- A clause reports each of its exclusions. -/
theorem Clause.unsupported_eq_map_group (clause : Clause) :
    clause.unsupported = clause.exclusions.map Exclusion.group := by
  cases clause with
  | noneOf inner => rfl
  | allOf inner =>
    simp [Clause.unsupported, Clause.exclusions, Function.comp_def, Exclusion.group_within,
      unsupportedClauses_eq_map_group inner]
  | anyOf inner =>
    simp [Clause.unsupported, Clause.exclusions, Function.comp_def, Exclusion.group_within,
      unsupportedClauses_eq_map_group inner]
  | field name value => rfl

/-- Clauses report each of their exclusions, in order. -/
theorem unsupportedClauses_eq_map_group (clauses : List Clause) :
    unsupportedClauses clauses = (clauseExclusions clauses).map Exclusion.group := by
  cases clauses with
  | nil => rfl
  | cons clause clauses =>
    rw [unsupportedClauses, clauseExclusions, List.map_append, clause.unsupported_eq_map_group,
      unsupportedClauses_eq_map_group clauses]

end

mutual

/-- The fragment of a clause is written with a warning for each exclusion outside of choices. -/
theorem Filter.clausePassedOver_eq (clause : Clause) :
    clausePassedOver clause =
      (clause.exclusions.filter fun exclusion => !exclusion.isInChoice).map Exclusion.group := by
  cases clause with
  | noneOf inner => rfl
  | allOf inner =>
    simp [clausePassedOver, Clause.exclusions, List.filter_map, Function.comp_def,
      Exclusion.isInChoice_within_allOf, Exclusion.group_within, Filter.passedOver_eq inner]
  | anyOf inner =>
    simp [clausePassedOver, Clause.exclusions, List.filter_map, Function.comp_def,
      Exclusion.isInChoice_within_anyOf]
  | field name value => rfl

/-- A query is written with a warning for each exclusion outside of choices, in order. -/
theorem Filter.passedOver_eq (clauses : List Clause) :
    passedOver clauses =
      ((clauseExclusions clauses).filter fun exclusion => !exclusion.isInChoice).map
        Exclusion.group := by
  cases clauses with
  | nil => rfl
  | cons clause clauses =>
    rw [passedOver, clauseExclusions, List.filter_append, List.map_append,
      Filter.clausePassedOver_eq clause, Filter.passedOver_eq clauses]

end

namespace Filter

variable (filter : Filter)

/-- All exclusions are reported, and those outside of choices are warned about. So nothing is
warned about without being reported, and the numbers agree exactly when no exclusion stands in
a choice. -/
theorem warnings_agree_iff_no_exclusion_in_choice :
    filter.unsupported = filter.exclusions.map Exclusion.group ∧
      passedOver filter =
        (filter.exclusions.filter fun exclusion => !exclusion.isInChoice).map Exclusion.group ∧
      (passedOver filter).Sublist filter.unsupported ∧
      (filter.warnings.length = filter.unsupported.length ↔
        ∀ exclusion ∈ filter.exclusions, exclusion.isInChoice = false) := by
  have hreported : filter.unsupported = filter.exclusions.map Exclusion.group :=
    unsupportedClauses_eq_map_group filter
  have hwarned := passedOver_eq filter
  refine ⟨hreported, hwarned, ?_, ?_⟩
  · rw [hwarned, hreported]
    exact List.filter_sublist.map _
  · rw [warnings, List.length_map, hwarned, hreported, List.length_map, List.length_map]
    simp [List.length_filter_eq_length_iff, Filter.exclusions]

/-- An exclusion in a choice is reported, but not warned about. -/
theorem exclusion_in_choice_has_no_warning :
    let filter : Filter := [.anyOf [.noneOf [.field "stale" (.text "yes")]]]
    filter.unsupported.length = 1 ∧ filter.warnings.length = 0 :=
  ⟨rfl, rfl⟩

end Filter

end HostedSearch
