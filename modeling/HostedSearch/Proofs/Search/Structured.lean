import HostedSearch.Proofs.Filter.Contribution
import HostedSearch.SearchRequest
import Mathlib.Logic.Basic
import Mathlib.Tactic.ByContra

/-!
# Which searches are structured

The query of a filter is empty unless the filter says something: a constraint that is not empty, or
a choice with a list that is not empty directly in it, among its clauses or in a group of clauses
that all hold, at any depth. A search whose filter says something is sent with that query, marked as
structured; any other is sent with its term alone. The two are never mixed.
-/

namespace HostedSearch

/-- A clause that is written as something by itself: a constraint that is not empty, or a choice
with a list that is not empty directly in it. -/
inductive Clause.Speaks : Clause → Prop where
  | field (name : String) {value : Constraint} (h : value.isEmpty = false) :
    Speaks (.field name value)
  | choice {inner : List Clause} {name : String} {values : List Scalar}
    (h : .field name (.list values) ∈ inner) (hvalues : values ≠ []) : Speaks (.anyOf inner)

/-- A constraint speaks unless it is none, an empty text or an empty list. -/
theorem Clause.speaks_field_iff {name : String} {value : Constraint} :
    (Clause.field name value).Speaks ↔
      value ≠ .anything ∧ value ≠ .text "" ∧ value ≠ .list [] := by
  have hspeaks : (Clause.field name value).Speaks ↔ ¬ value.isEmpty :=
    ⟨fun (.field _ h) => by simp [h], fun h => .field name (by simpa using h)⟩
  rw [hspeaks, Constraint.isEmpty_iff, not_or, not_or]

namespace Filter

/-- The clause is one of the filter, or of a group in it of clauses that all hold, at any depth. -/
inductive Reaches : Filter → Clause → Prop where
  | here {filter : Filter} {clause : Clause} (h : clause ∈ filter) : Reaches filter clause
  | within {filter : Filter} {inner : List Clause} {clause : Clause} (h : .allOf inner ∈ filter)
    (hinner : Reaches inner clause) : Reaches filter clause

/-- A clause that speaks is reached in the filter through nothing but groups of clauses that all
hold. -/
def SaysSomething (filter : Filter) : Prop :=
  ∃ clause, filter.Reaches clause ∧ clause.Speaks

/-! ## What says something is written as something -/

variable {filter : Filter} {clause found : Clause} {clauses inner : List Clause}

/-- A clause is reached directly, or in a group of clauses that all hold. -/
theorem reaches_iff :
    filter.Reaches found ↔
      found ∈ filter ∨ ∃ inner, .allOf inner ∈ filter ∧ Reaches inner found := by
  constructor
  · rintro (h | ⟨h, hinner⟩)
    · exact .inl h
    · exact .inr ⟨_, h, hinner⟩
  · rintro (h | ⟨inner, h, hinner⟩)
    · exact .here h
    · exact .within h hinner

/-- A clause is reached in the first clause or in the others. -/
theorem reaches_cons :
    Reaches (clause :: clauses) found ↔ Reaches [clause] found ∨ Reaches clauses found := by
  rw [reaches_iff, @reaches_iff [clause], @reaches_iff clauses]
  simp only [List.mem_cons, List.not_mem_nil, or_false, or_and_right, exists_or]
  exact or_or_or_comm

/-- A filter without clauses says nothing. -/
theorem not_saysSomething_nil : ¬ SaysSomething [] := by
  rintro ⟨found, hreaches, -⟩
  simpa using reaches_iff.mp hreaches

/-- A filter says something if its first clause does or the others do. -/
theorem saysSomething_cons :
    SaysSomething (clause :: clauses) ↔ SaysSomething [clause] ∨ SaysSomething clauses := by
  simp only [SaysSomething, @reaches_cons clause _ clauses, or_and_right, exists_or]

/-- A clause alone says something if it speaks, or if it is a group of clauses that all hold and
that say something. -/
theorem saysSomething_singleton :
    SaysSomething [clause] ↔
      clause.Speaks ∨ ∃ inner, clause = .allOf inner ∧ SaysSomething inner := by
  simp only [SaysSomething, @reaches_iff [clause], List.mem_singleton]
  constructor
  · rintro ⟨found, rfl | ⟨inner, rfl, hinner⟩, hspeaks⟩
    · exact .inl hspeaks
    · exact .inr ⟨inner, rfl, found, hinner, hspeaks⟩
  · rintro (hspeaks | ⟨inner, rfl, found, hinner, hspeaks⟩)
    · exact ⟨clause, .inl rfl, hspeaks⟩
    · exact ⟨found, .inr ⟨inner, rfl, hinner⟩, hspeaks⟩

/-- A choice is written as something exactly when it speaks. -/
theorem flatMap_choiceFragment_ne_nil_iff :
    inner.flatMap choiceFragment ≠ [] ↔ (Clause.anyOf inner).Speaks := by
  simp only [ne_eq, List.flatMap_eq_nil_iff, not_forall, exists_prop]
  constructor
  · rintro ⟨clause, hmem, hfragment⟩
    obtain ⟨name, values, rfl, hvalues⟩ := choiceFragment_ne_nil_iff.mp hfragment
    exact .choice hmem hvalues
  · rintro ⟨⟩
    next name values hvalues hmem =>
      exact ⟨_, hmem, choiceFragment_ne_nil_iff.mpr ⟨name, values, rfl, hvalues⟩⟩

mutual

/-- A clause is written as something exactly when it says something. -/
theorem clauseFragment_ne_nil_iff (clause : Clause) :
    clauseFragment clause ≠ [] ↔ SaysSomething [clause] := by
  rw [saysSomething_singleton]
  cases clause with
  | allOf inner =>
    have hspeaks : ¬ (Clause.allOf inner).Speaks := nofun
    simp only [hspeaks, Clause.allOf.injEq, exists_eq_left', false_or, ← fragments_ne_nil_iff inner]
    cases hinner : fragments inner <;> simp [clauseFragment, hinner]
  | anyOf inner =>
    rw [clauseFragment, flatMap_choiceFragment_ne_nil_iff]
    simp
  | noneOf inner =>
    have hspeaks : ¬ (Clause.noneOf inner).Speaks := nofun
    simp [clauseFragment, hspeaks]
  | field name value =>
    simp [clauseFragment, fieldFragment_eq_nil_iff, Constraint.isEmpty_iff,
      Clause.speaks_field_iff]

/-- A filter is written as something exactly when it says something. -/
theorem fragments_ne_nil_iff (clauses : List Clause) :
    fragments clauses ≠ [] ↔ SaysSomething clauses := by
  cases clauses with
  | nil =>
    simp [fragments, not_saysSomething_nil]
  | cons clause clauses =>
    rw [saysSomething_cons, ← clauseFragment_ne_nil_iff clause, ← fragments_ne_nil_iff clauses,
      fragments, ne_eq, List.append_eq_nil_iff, not_and_or]

end

/-- The query of a filter is empty exactly when the filter says nothing. -/
theorem query_eq_empty_iff {filter : Filter} : filter.query = "" ↔ ¬ filter.SaysSomething := by
  rw [← fragments_ne_nil_iff, Decidable.not_not, query, ← String.toList_inj]
  simp

end Filter

/-! ## What is searched for -/

namespace SearchOptions

variable {options : SearchOptions} {filter : Filter}

/-- A filter that says something is searched for. -/
theorem structuredQuery?_of_saysSomething (hfilter : options.filter = some filter)
    (h : filter.SaysSomething) : options.structuredQuery? = some filter.query := by
  have hquery : filter.query ≠ "" := fun hempty => Filter.query_eq_empty_iff.mp hempty h
  simp [structuredQuery?, hfilter, hquery]

/-- Without a filter that says something no filter is searched for. -/
theorem structuredQuery?_eq_none (h : ∀ filter, options.filter = some filter →
    ¬ filter.SaysSomething) : options.structuredQuery? = none := by
  cases hfilter : options.filter with
  | none => simp [structuredQuery?, hfilter]
  | some filter =>
    have hquery : filter.query = "" := Filter.query_eq_empty_iff.mpr (h filter hfilter)
    simp [structuredQuery?, hfilter, hquery]

end SearchOptions

namespace SearchRequest

/-- The parameters that say what is searched for and how that is to be read, by name. -/
def soughtOf (parameters : List (Parameter × String)) : List (String × String) :=
  (parameters.map fun (parameter, value) => (parameter.name, value)).filter
    fun (name, _) => name = "q" ∨ name = "q.parser"

/-- What is sought among parameters is sought among the first and then among the others. -/
theorem soughtOf_append (parameters others : List (Parameter × String)) :
    soughtOf (parameters ++ others) = soughtOf parameters ++ soughtOf others := by
  rw [soughtOf, List.map_append, List.filter_append]
  rfl

/-- An optional parameter of another name says nothing about what is sought. -/
theorem soughtOf_toList {α : Type} {parameter : Parameter}
    (h : parameter ≠ .query ∧ parameter ≠ .queryParser) (f : α → String) (given : Option α) :
    soughtOf (given.map fun a => (parameter, f a)).toList = [] := by
  cases given with
  | none => rfl
  | some a =>
    have hname : parameter.name ≠ "q" ∧ parameter.name ≠ "q.parser" := by
      cases parameter <;> simp_all [Parameter.name]
    simp [soughtOf, hname]

/-- A search has no other parameters for what is sought than those at its front. -/
theorem soughtOf_build (endpoint term : String) (options : SearchOptions) :
    soughtOf (build endpoint term options).parameters =
      (options.queryParameters term).map fun (parameter, value) => (parameter.name, value) := by
  have hfront : soughtOf (options.queryParameters term) =
      (options.queryParameters term).map fun (parameter, value) => (parameter.name, value) := by
    unfold SearchOptions.queryParameters
    split <;> rfl
  have hsize : soughtOf [(.size, toString options.size.toNat)] = [] := rfl
  simp only [build, SearchOptions.parameters, soughtOf_append, hfront, hsize, List.append_nil]
  rw [soughtOf_toList (by decide), soughtOf_toList (by decide), soughtOf_toList (by decide),
    soughtOf_toList (by decide), List.append_nil, List.append_nil, List.append_nil, List.append_nil]

/-- The query of a filter is empty exactly when nothing in it speaks that is reached through groups
of clauses that all hold. Whatever its endpoint, its term and its other options, a search is sent
with the query of its filter, marked as structured, exactly when the filter says something, and with
its term alone if there is no filter that does. -/
theorem structured_iff_saysSomething (endpoint term : String) (options : SearchOptions) :
    (∀ filter : Filter, filter.query = "" ↔ ¬ filter.SaysSomething) ∧
    (∀ filter, options.filter = some filter →
      (soughtOf (build endpoint term options).parameters =
        [("q", filter.query), ("q.parser", "structured")] ↔ filter.SaysSomething)) ∧
    ((∀ filter, options.filter = some filter → ¬ filter.SaysSomething) →
      soughtOf (build endpoint term options).parameters = [("q", term)]) := by
  have hterm (h : ∀ filter, options.filter = some filter → ¬ filter.SaysSomething) :
      soughtOf (build endpoint term options).parameters = [("q", term)] := by
    rw [soughtOf_build, SearchOptions.queryParameters, SearchOptions.structuredQuery?_eq_none h]
    rfl
  refine ⟨fun filter => Filter.query_eq_empty_iff, fun filter hfilter => ⟨fun hsought => ?_,
    fun h => ?_⟩, hterm⟩
  · by_contra hnothing
    have hsought' := hterm fun other hother => by
      obtain rfl := Option.some.inj (hfilter.symm.trans hother)
      exact hnothing
    cases hsought.symm.trans hsought'
  · rw [soughtOf_build, SearchOptions.queryParameters,
      SearchOptions.structuredQuery?_of_saysSomething hfilter h]
    rfl

/-- A list at the end of nested groups makes the search structured; an exclusion, a text in a choice
and empty values leave the term. -/
example :
    let structured : Filter := [.allOf [.allOf [.anyOf [.field "flavor" (.list [.text "a"])]]]]
    let plain : Filter := [.noneOf [.field "sold" (.integer 1)], .anyOf [.field "name" (.text "b")],
      .allOf [.field "tags" (.list []), .field "type" (.text "")]]
    soughtOf (build "https://donuts/search" "glaze" { filter := some structured }).parameters =
        [("q", "(and(and(or flavor 'a')))"), ("q.parser", "structured")] ∧
      soughtOf (build "https://donuts/search" "glaze" { filter := some plain }).parameters =
        [("q", "glaze")] := by
  decide +kernel

end SearchRequest

end HostedSearch
