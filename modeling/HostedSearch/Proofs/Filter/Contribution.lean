import HostedSearch.Filter.Query

/-!
# What the constraints of a filter contribute to its query

A constraint stands at a place in its filter, beside other clauses and in groups that stand beside
clauses in turn. It contributes its fragment to the query if the fragment stands there between two
texts which do not depend on it. With no exclusion around it, and a list if it is an alternative of
a choice, it does so exactly when it does not stand in a group inside of a choice. There it is lost:
the query is the same whatever it says, and nothing reports it as unsupported.
-/

namespace HostedSearch

/-! ## Places in a filter -/

/-- The kinds of groups of clauses. -/
inductive Junction where
  | allOf
  | anyOf
  | noneOf
deriving DecidableEq

/-- A group of clauses of a kind. -/
def Junction.clause (junction : Junction) (inner : List Clause) : Clause :=
  match junction with
  | .allOf => .allOf inner
  | .anyOf => .anyOf inner
  | .noneOf => .noneOf inner

/-- A place in a filter where a clause can stand. -/
inductive Place where
  /-- Between clauses. -/
  | between (before after : List Clause)
  /-- In a group that stands between clauses. -/
  | within (before : List Clause) (junction : Junction) (inner : Place) (after : List Clause)

namespace Place

/-- The filter with a clause at the place. -/
def fill : Place → Clause → Filter
  | .between before after, clause => before ++ clause :: after
  | .within before junction inner after, clause =>
    before ++ junction.clause (inner.fill clause) :: after

/-- The groups around the place, the outermost first. -/
def path : Place → List Junction
  | .between _ _ => []
  | .within _ junction inner _ => junction :: inner.path

/-- The clause at the place stands directly in a choice. -/
def IsAlternative (place : Place) : Prop :=
  place.path.getLast? = some .anyOf

/-- The clause at the place stands in a group that stands in a choice. -/
def IsBuried (place : Place) : Prop :=
  .anyOf ∈ place.path.dropLast

instance (place : Place) : Decidable place.IsAlternative :=
  inferInstanceAs (Decidable (_ = _))

instance (place : Place) : Decidable place.IsBuried :=
  inferInstanceAs (Decidable (_ ∈ _))

/-- A constraint that says something, and is a list if it is an alternative. -/
def Admits (place : Place) (value : Constraint) : Prop :=
  value.isEmpty = false ∧ (place.IsAlternative → ∃ values, value = .list values)

/-- What a constraint on a field is written as at the place. -/
def fragment (place : Place) (name : String) (value : Constraint) : List Char :=
  if place.IsAlternative then Filter.choiceFragment (.field name value)
  else Filter.fieldFragment name value

/-- The constraint at the place contributes its fragment to the query: the fragment stands there
between two texts, and that of any other constraint would stand between the same texts. -/
def Contributes (place : Place) (name : String) (value : Constraint) : Prop :=
  place.fragment name value ≠ [] ∧
    ∃ front back,
      (place.fill (.field name value)).query.toList = front ++ (place.fragment name value ++ back) ∧
      ∀ name' value', place.Admits value' →
        (place.fill (.field name' value')).query.toList =
          front ++ (place.fragment name' value' ++ back)

variable {before after : List Clause} {inner : Place}

/-- A group of clauses that all hold is no choice. -/
theorem isAlternative_within_allOf :
    (within before .allOf inner after).IsAlternative ↔ inner.IsAlternative := by
  rw [IsAlternative, IsAlternative, path, List.getLast?_cons]
  cases inner.path.getLast? <;> simp

/-- A group of clauses that all hold buries nothing. -/
@[simp] theorem isBuried_within_allOf :
    (within before .allOf inner after).IsBuried ↔ inner.IsBuried := by
  rw [IsBuried, IsBuried, path]
  cases inner.path <;> simp

/-- A choice buries what stands in its groups. -/
@[simp] theorem isBuried_within_anyOf :
    (within before .anyOf inner after).IsBuried ↔ inner.path ≠ [] := by
  rw [IsBuried, path]
  cases inner.path <;> simp

/-- Only directly between the clauses of a filter there is no group around. -/
theorem exists_eq_between (h : inner.path = []) : ∃ before after, inner = between before after := by
  cases inner with
  | between before after => exact ⟨before, after, rfl⟩
  | within before junction inner after => cases h

end Place

/-! ## What stands in the query -/

/-- A constraint is written as nothing exactly when it is empty. -/
theorem Filter.fieldFragment_eq_nil_iff {name : String} {value : Constraint} :
    fieldFragment name value = [] ↔ value.isEmpty := by
  cases hempty : value.isEmpty with
  | true => simp [fieldFragment, hempty]
  | false =>
    cases value with
    | anything => cases hempty
    | _ => simp [fieldFragment, hempty]

/-- A clause of a choice is written as something exactly when it is a list that is not empty. -/
theorem Filter.choiceFragment_ne_nil_iff {clause : Clause} :
    choiceFragment clause ≠ [] ↔
      ∃ name values, clause = .field name (.list values) ∧ values ≠ [] := by
  constructor
  · intro h
    cases clause with
    | field name value =>
      cases value with
      | list values =>
        refine ⟨name, values, rfl, ?_⟩
        rintro rfl
        exact h rfl
      | _ => exact absurd rfl h
    | _ => exact absurd rfl h
  · rintro ⟨name, values, rfl, hvalues⟩
    simp [choiceFragment, hvalues]

/-- The fragments of clauses follow one another. -/
theorem Filter.fragments_append (clauses others : List Clause) :
    fragments (clauses ++ others) = fragments clauses ++ fragments others := by
  induction clauses with
  | nil => rfl
  | cons clause clauses ih => rw [List.cons_append, fragments, fragments, ih, List.append_assoc]

/-- A group is no alternative of a choice. -/
theorem Filter.choiceFragment_clause (junction : Junction) (inner : List Clause) :
    choiceFragment (junction.clause inner) = [] := by
  cases junction <;> rfl

namespace Place

open HostedSearch.Filter

/-- A constraint that says something is written as something. -/
theorem fragment_ne_nil {place : Place} {value : Constraint} (h : place.Admits value)
    (name : String) : place.fragment name value ≠ [] := by
  obtain ⟨hempty, hlist⟩ := h
  unfold fragment
  split
  · next halternative =>
    obtain ⟨values, rfl⟩ := hlist halternative
    have hvalues : values ≠ [] := List.isEmpty_eq_false_iff.mp hempty
    exact choiceFragment_ne_nil_iff.mpr ⟨name, values, rfl, hvalues⟩
  · simp [fieldFragment_eq_nil_iff, hempty]

/-- What is put at a place that is not buried, with no exclusion around it, stands in the query
between two texts that depend on the place alone. -/
theorem exists_fragments_fill {place : Place} (hburied : ¬ place.IsBuried)
    (hexcluded : .noneOf ∉ place.path) :
    ∃ front back, ∀ name value, place.Admits value →
      fragments (place.fill (.field name value)) =
        front ++ (place.fragment name value ++ back) := by
  induction place with
  | between before after =>
    refine ⟨fragments before, fragments after, fun name value _ => ?_⟩
    have halternative : ¬ (between before after).IsAlternative := by simp [IsAlternative, path]
    rw [fill, fragments_append, fragments, clauseFragment, fragment, if_neg halternative]
  | within before junction inner after ih =>
    cases junction with
    | allOf =>
      rw [isBuried_within_allOf] at hburied
      obtain ⟨front, back, hinner⟩ := ih hburied fun h => hexcluded (List.mem_cons_of_mem _ h)
      refine ⟨fragments before ++ ("(and".toList ++ front), back ++ ')' :: fragments after,
        fun name value hadmits => ?_⟩
      have hadmits' : inner.Admits value := by
        simpa [Admits, isAlternative_within_allOf] using hadmits
      have hfragment : (within before .allOf inner after).fragment name value =
          inner.fragment name value := by
        simp [fragment, isAlternative_within_allOf]
      have hne := fragment_ne_nil hadmits' name
      rw [hfragment, fill, fragments_append, fragments, Junction.clause, clauseFragment,
        hinner name value hadmits']
      simp [hne]
    | anyOf =>
      rw [isBuried_within_anyOf, Decidable.not_not] at hburied
      obtain ⟨before', after', rfl⟩ := exists_eq_between hburied
      refine ⟨fragments before ++ before'.flatMap choiceFragment,
        after'.flatMap choiceFragment ++ fragments after, fun name value _ => ?_⟩
      have halternative : (within before .anyOf (between before' after') after).IsAlternative := rfl
      rw [fill, fragments_append, fragments, Junction.clause, clauseFragment, fill, fragment,
        if_pos halternative]
      simp
    | noneOf => exact absurd List.mem_cons_self hexcluded

/-- What is put at a place that is not buried, with no exclusion around it, stands in the query. -/
theorem exists_query_fill {place : Place} (hburied : ¬ place.IsBuried)
    (hexcluded : .noneOf ∉ place.path) {value : Constraint} (hadmits : place.Admits value)
    (name : String) :
    ∃ front back, (place.fill (.field name value)).query =
      front ++ String.ofList (place.fragment name value) ++ back := by
  obtain ⟨front, back, hfill⟩ := exists_fragments_fill hburied hexcluded
  refine ⟨String.ofList front, String.ofList back, ?_⟩
  rw [query, hfill name value hadmits, String.ofList_append, String.ofList_append,
    String.append_assoc]

/-- Whatever is put at a buried place, the query is the same. -/
theorem fragments_fill_eq_of_isBuried {place : Place} (hburied : place.IsBuried)
    (clause other : Clause) : fragments (place.fill clause) = fragments (place.fill other) := by
  induction place with
  | between before after => simp [IsBuried, path] at hburied
  | within before junction inner after ih =>
    rw [fill, fill, fragments_append, fragments_append, fragments, fragments]
    cases junction with
    | allOf =>
      rw [isBuried_within_allOf] at hburied
      rw [Junction.clause, Junction.clause, clauseFragment, clauseFragment, ih hburied]
    | anyOf =>
      cases inner with
      | between before' after' => simp [IsBuried, path] at hburied
      | within before' junction' inner' after' =>
        rw [Junction.clause, Junction.clause, clauseFragment, clauseFragment, fill, fill,
          List.flatMap_append, List.flatMap_append, List.flatMap_cons, List.flatMap_cons,
          choiceFragment_clause, choiceFragment_clause]
    | noneOf => rfl

/-- A constraint does not contribute to a query that is the same whatever it says. -/
theorem not_contributes_of_isBuried {place : Place} (hburied : place.IsBuried) (name : String)
    (value : Constraint) : ¬ place.Contributes name value := by
  rintro ⟨-, front, back, -, hall⟩
  let values : Constraint := .list [.text "x"]
  have hadmits : place.Admits values := ⟨rfl, fun _ => ⟨_, rfl⟩⟩
  have hsame := fragments_fill_eq_of_isBuried hburied (.field "a" values) (.field "ab" values)
  have hfirst := hall "a" values hadmits
  have hsecond := hall "ab" values hadmits
  rw [query, String.toList_ofList] at hfirst hsecond
  rw [hfirst, hsecond, List.append_cancel_left_eq, List.append_cancel_right_eq] at hsame
  unfold fragment at hsame
  split at hsame
  · exact absurd hsame (by decide)
  · exact absurd hsame (by decide)

end Place

/-! ## What a filter has to be -/

/-- The clause constrains a field otherwise than by a list. -/
def Clause.IsSingle : Clause → Prop
  | .field _ (.list _) => False
  | .field _ _ => True
  | _ => False

mutual

/-- No choice in the clause holds a field directly that is not constrained by a list. -/
def Clause.ChoicesHoldLists : Clause → Prop
  | .allOf inner => choicesHoldLists inner
  | .anyOf inner => (∀ clause ∈ inner, ¬ clause.IsSingle) ∧ choicesHoldLists inner
  | .noneOf inner => choicesHoldLists inner
  | .field _ _ => True

/-- No choice in the clauses holds a field directly that is not constrained by a list. -/
def choicesHoldLists : List Clause → Prop
  | [] => True
  | clause :: clauses => clause.ChoicesHoldLists ∧ choicesHoldLists clauses

end

/-- No choice of a filter, at any depth, holds a field directly that is not constrained by a
list. -/
def Filter.ChoicesHoldLists (filter : Filter) : Prop :=
  choicesHoldLists filter

/-- Clauses satisfy it one by one. -/
theorem choicesHoldLists_iff {clauses : List Clause} :
    choicesHoldLists clauses ↔ ∀ clause ∈ clauses, clause.ChoicesHoldLists := by
  induction clauses with
  | nil => simp [choicesHoldLists]
  | cons clause clauses ih => simp [choicesHoldLists, ih]

/-- What holds of the choices of a group holds of those of its clauses. -/
theorem choicesHoldLists_of_clause {junction : Junction} {inner : List Clause}
    (h : (junction.clause inner).ChoicesHoldLists) : choicesHoldLists inner := by
  cases junction with
  | allOf => exact h
  | anyOf => exact h.2
  | noneOf => exact h

/-- The unsupported clauses of clauses follow one another. -/
theorem unsupportedClauses_append (clauses others : List Clause) :
    unsupportedClauses (clauses ++ others) =
      unsupportedClauses clauses ++ unsupportedClauses others := by
  induction clauses with
  | nil => rfl
  | cons clause clauses ih =>
    rw [List.cons_append, unsupportedClauses, unsupportedClauses, ih, List.append_assoc]

namespace Place

/-- No exclusion stands around a place of a filter of which everything is supported. -/
theorem noneOf_notMem_path {place : Place} {clause : Clause}
    (h : unsupportedClauses (place.fill clause) = []) : .noneOf ∉ place.path := by
  induction place with
  | between before after => exact List.not_mem_nil
  | within before junction inner after ih =>
    rw [fill, unsupportedClauses_append, unsupportedClauses, List.append_eq_nil_iff,
      List.append_eq_nil_iff] at h
    obtain ⟨-, hgroup, -⟩ := h
    cases junction with
    | allOf => simpa [path] using ih hgroup
    | anyOf => simpa [path] using ih hgroup
    | noneOf => cases hgroup

/-- A field that stands directly in a choice is constrained by a list, if choices hold lists. -/
theorem exists_list_of_isAlternative {place : Place} {name : String} {value : Constraint}
    (hlists : choicesHoldLists (place.fill (.field name value))) (h : place.IsAlternative) :
    ∃ values, value = .list values := by
  induction place with
  | between before after => cases h
  | within before junction inner after ih =>
    have hgroup := choicesHoldLists_iff.mp hlists (junction.clause (inner.fill (.field name value)))
      (by simp [fill])
    cases inner with
    | between before' after' =>
      obtain rfl : junction = .anyOf := Option.some.inj h
      have hfield := hgroup.1 (.field name value) (by simp [fill])
      cases value with
      | list values => exact ⟨values, rfl⟩
      | _ => exact absurd trivial hfield
    | within before' junction' inner' after' =>
      exact ih (choicesHoldLists_of_clause hgroup) (by simpa [IsAlternative, path] using h)

end Place

namespace Filter

/-- In a filter whose choices hold lists and of which everything is supported, a constraint that
says something contributes to the query exactly when it does not stand in a group inside of a
choice. Where it does, the query is the same whatever stands there. -/
theorem contributes_iff_not_buried {filter : Filter} (hlists : filter.ChoicesHoldLists)
    (hsupported : filter.unsupported = []) {place : Place} {name : String} {value : Constraint}
    (hplace : place.fill (.field name value) = filter) (hvalue : value.isEmpty = false) :
    (place.Contributes name value ↔ ¬ place.IsBuried) ∧
      (place.IsBuried → ∀ clause, (place.fill clause).query = filter.query) := by
  subst hplace
  have hadmits : place.Admits value := ⟨hvalue, place.exists_list_of_isAlternative hlists⟩
  refine ⟨⟨fun hcontributes hburied => ?_, fun hburied => ?_⟩, fun hburied clause => ?_⟩
  · exact place.not_contributes_of_isBuried hburied name value hcontributes
  · obtain ⟨front, back, hall⟩ :=
      place.exists_fragments_fill hburied (place.noneOf_notMem_path hsupported)
    refine ⟨place.fragment_ne_nil hadmits name, front, back, ?_, ?_⟩
    · rw [query, String.toList_ofList, hall name value hadmits]
    · intro name' value' hadmits'
      rw [query, String.toList_ofList, hall name' value' hadmits']
  · rw [query, query, place.fragments_fill_eq_of_isBuried hburied]

/-- Of a choice in a group, a list that stands in it contributes, and a text in one of its groups
does not. -/
theorem contributes_iff_not_buried_of_choice :
    let buried : Clause := .field "type" (.text "donuts")
    let list : Clause := .field "tags" (.list [.text "x"])
    let filter : Filter := [.field "name" .anything, .allOf [.anyOf [list, .allOf [buried]]]]
    let place : Place :=
      .within [.field "name" .anything] .allOf
        (.within [] .anyOf (.between [] [.allOf [buried]]) []) []
    let deep : Place :=
      .within [.field "name" .anything] .allOf
        (.within [] .anyOf (.within [list] .allOf (.between [] []) []) []) []
    (filter.ChoicesHoldLists ∧ filter.unsupported = []) ∧
      (place.fill list = filter ∧ place.Contributes "tags" (.list [.text "x"])) ∧
      deep.fill buried = filter ∧ ¬ deep.Contributes "type" (.text "donuts") ∧
      ∀ clause, (deep.fill clause).query = filter.query := by
  intro buried list filter place deep
  have hlists : filter.ChoicesHoldLists := by
    simp [filter, list, buried, ChoicesHoldLists, choicesHoldLists, Clause.ChoicesHoldLists,
      Clause.IsSingle]
  have hsupported : filter.unsupported = [] := rfl
  have hlist : place.fill list = filter := rfl
  have hburied : deep.fill buried = filter := rfl
  obtain ⟨hcontributes, -⟩ := contributes_iff_not_buried hlists hsupported hlist rfl
  obtain ⟨hlost, hsame⟩ := contributes_iff_not_buried hlists hsupported hburied rfl
  exact ⟨⟨hlists, hsupported⟩, ⟨hlist, hcontributes.mpr (by decide)⟩, hburied,
    fun h => hlost.mp h (by decide), hsame (by decide)⟩

/-- A constraint in a group inside of a choice is missing from the query, though it says something
and nothing is reported as unsupported. -/
theorem buried_constraint_is_lost :
    let filter : Filter := [.anyOf [.allOf [.field "type" (.text "donuts")]]]
    let place : Place := .within [] .anyOf (.within [] .allOf (.between [] []) []) []
    filter.ChoicesHoldLists ∧ filter.unsupported = [] ∧
      place.fill (.field "type" (.text "donuts")) = filter ∧
      (Constraint.text "donuts").isEmpty = false ∧ filter.query = "" ∧
      ¬ place.Contributes "type" (.text "donuts") := by
  intro filter place
  have hlists : filter.ChoicesHoldLists := by
    simp [filter, ChoicesHoldLists, choicesHoldLists, Clause.ChoicesHoldLists, Clause.IsSingle]
  exact ⟨hlists, rfl, rfl, rfl, rfl, place.not_contributes_of_isBuried (by decide) _ _⟩

end Filter

end HostedSearch
