import HostedSearch.Filter.Json
import HostedSearch.Filter.Query
import HostedSearch.Proofs.Association
import HostedSearch.Proofs.Filter.RangeText
import HostedSearch.Proofs.Json.NumberText

/-!
# Filters written as JSON

A filter is written as a JSON object with a member for each clause. JSON objects do not repeat
names, JSON has no number for what is not finite, and a text in the form of a range is read as
that range. A filter that stays clear of these three is read back just as it was, however deep its
groups nest: a field may even be named like a group, since it is never written as an object.
-/

namespace HostedSearch

/-- A scalar as a JSON value. -/
def Scalar.toJson : Scalar → Json
  | .text s => .string s
  | .integer n => .int64 n
  | .float x => .binary64 x

/-- A constraint as a JSON value, a range as its text. -/
def Constraint.toJson : Constraint → Json
  | .anything => .null
  | .text s => .string s
  | .integer n => .int64 n
  | .float x => .binary64 x
  | .range low high => .string (String.ofList (Range.text ⟨low, high⟩))
  | .list values => .array (values.map Scalar.toJson)

mutual

/-- The member that a clause is written as. -/
def Clause.toMember : Clause → String × Json
  | .allOf inner => ("and", .object (Association.ofList (clauseMembers inner)))
  | .anyOf inner => ("or", .object (Association.ofList (clauseMembers inner)))
  | .noneOf inner => ("not", .object (Association.ofList (clauseMembers inner)))
  | .field name value => (name, value.toJson)

/-- The members that clauses are written as, in order. -/
def clauseMembers : List Clause → List (String × Json)
  | [] => []
  | clause :: clauses => clause.toMember :: clauseMembers clauses

end

/-- A filter as a JSON object: its members are set one after the other. -/
def Filter.toJson (filter : Filter) : Json :=
  .object (Association.ofList (clauseMembers filter))

/-- The name under which a clause is written. -/
def Clause.key : Clause → String
  | .allOf _ => "and"
  | .anyOf _ => "or"
  | .noneOf _ => "not"
  | .field name _ => name

/-- A number that JSON can express. -/
def Binary64.IsFinite (x : Binary64) : Prop :=
  ∃ y, x = .finite y

/-- Whether JSON can express a scalar. -/
def Scalar.Expressible : Scalar → Prop
  | .float x => x.IsFinite
  | _ => True

/-- Whether JSON can express a constraint: a text must not have the form of a range. -/
def Constraint.Expressible : Constraint → Prop
  | .text s => ∀ low high, ¬ Range.HasForm s.toList low high
  | .float x => x.IsFinite
  | .list values => ∀ value ∈ values, value.Expressible
  | _ => True

mutual

/-- Whether JSON can express a clause. -/
def Clause.Expressible : Clause → Prop
  | .allOf inner => (inner.map Clause.key).Nodup ∧ expressibleClauses inner
  | .anyOf inner => (inner.map Clause.key).Nodup ∧ expressibleClauses inner
  | .noneOf inner => (inner.map Clause.key).Nodup ∧ expressibleClauses inner
  | .field _ value => value.Expressible

/-- Whether JSON can express each of the clauses. -/
def expressibleClauses : List Clause → Prop
  | [] => True
  | clause :: clauses => clause.Expressible ∧ expressibleClauses clauses

end

/-- Whether JSON can express a filter: no two clauses of a group are written under one name. -/
def Filter.Expressible (filter : Filter) : Prop :=
  (filter.map Clause.key).Nodup ∧ expressibleClauses filter

/-- A clause is written under its name. -/
theorem Clause.toMember_fst (clause : Clause) : clause.toMember.1 = clause.key := by
  cases clause <;> rfl

/-- Each clause is written as a member of its own. -/
theorem clauseMembers_eq_map (clauses : List Clause) :
    clauseMembers clauses = clauses.map Clause.toMember := by
  induction clauses with
  | nil => rfl
  | cons clause clauses ih => rw [clauseMembers, ih, List.map_cons]

/-- Clauses that are written under different names are the members of their object. -/
theorem ofList_clauseMembers {clauses : List Clause} (h : (clauses.map Clause.key).Nodup) :
    Association.ofList (clauseMembers clauses) = clauseMembers clauses := by
  refine Association.ofList_of_nodup ?_
  rw [clauseMembers_eq_map, List.map_map]
  simpa only [Function.comp_def, Clause.toMember_fst] using h

namespace Filter

/-! ## Reading back -/

/-- A 64-bit integer is read back as a scalar. -/
theorem scalarOfNumber_ofInt64 (n : Int64) :
    scalarOfNumber (.whole (.ofInt64 n)) = .integer n := by
  have hn : (Json.Whole.ofInt64 n).toInt64? = some n := Json.toInt64?_int64 n
  simp only [scalarOfNumber, hn]

/-- A scalar is read back. -/
theorem scalarOfJson_toJson (field : String) {value : Scalar} (h : value.Expressible) :
    scalarOfJson field value.toJson = .ok value := by
  cases value with
  | text s => rfl
  | integer n => exact congrArg Except.ok (scalarOfNumber_ofInt64 n)
  | float x =>
    obtain ⟨y, rfl⟩ := h
    rfl

/-- The items of a list are read back one after the other. -/
theorem mapM_scalarOfJson_map_toJson (field : String) {values : List Scalar}
    (h : ∀ value ∈ values, value.Expressible) :
    (values.map Scalar.toJson).mapM (scalarOfJson field) = .ok values := by
  induction values with
  | nil => rfl
  | cons value values ih =>
    rw [List.map_cons, List.mapM_cons, scalarOfJson_toJson field (h value List.mem_cons_self),
      ih fun value hvalue => h value (List.mem_cons_of_mem _ hvalue)]
    rfl

/-- A constraint is read back, whatever the name of its field. -/
theorem constraintOfJson_toJson (field : String) {value : Constraint} (h : value.Expressible) :
    constraintOfJson field value.toJson = .ok value := by
  cases value with
  | anything => rfl
  | text s =>
    change constraintOfText s = _
    rw [constraintOfText, Range.ofText?_of_not_hasForm h]
  | integer n =>
    exact congrArg (fun scalar => Except.ok (constraintOfScalar scalar)) (scalarOfNumber_ofInt64 n)
  | float x =>
    obtain ⟨y, rfl⟩ := h
    rfl
  | range low high =>
    change constraintOfText (String.ofList (Range.text ⟨low, high⟩)) = _
    rw [constraintOfText, Range.ofText?_text]
  | list values =>
    change ((values.map Scalar.toJson).mapM (scalarOfJson field)).map Constraint.list = _
    rw [mapM_scalarOfJson_map_toJson field h]
    rfl

/-- The member of a constraint is never taken for a group. -/
theorem clauseOfMember_constraint (name : String) {value : Constraint} (h : value.Expressible) :
    clauseOfMember name value.toJson = .ok (.field name value) := by
  have hread := constraintOfJson_toJson name h
  have hmap : clauseOfMember name value.toJson =
      (constraintOfJson name value.toJson).map (.field name) := by
    cases value with
    | float x =>
      obtain ⟨y, rfl⟩ := h
      rfl
    | _ => rfl
  rw [hmap, hread]
  rfl

mutual

/-- A clause is read back from its member. -/
theorem clauseOfMember_toMember (clause : Clause) (h : clause.Expressible) :
    clauseOfMember clause.toMember.1 clause.toMember.2 = .ok clause := by
  cases clause with
  | allOf inner =>
    obtain ⟨hkeys, hinner⟩ := h
    rw [Clause.toMember, ofList_clauseMembers hkeys]
    change clauseOfMember "and" (.object (clauseMembers inner)) = _
    rw [clauseOfMember, if_pos rfl, ofMembers_clauseMembers inner hinner]
    rfl
  | anyOf inner =>
    obtain ⟨hkeys, hinner⟩ := h
    rw [Clause.toMember, ofList_clauseMembers hkeys]
    change clauseOfMember "or" (.object (clauseMembers inner)) = _
    rw [clauseOfMember, if_neg (by decide), if_pos rfl, ofMembers_clauseMembers inner hinner]
    rfl
  | noneOf inner =>
    obtain ⟨hkeys, hinner⟩ := h
    rw [Clause.toMember, ofList_clauseMembers hkeys]
    change clauseOfMember "not" (.object (clauseMembers inner)) = _
    rw [clauseOfMember, if_neg (by decide), if_neg (by decide), if_pos rfl,
      ofMembers_clauseMembers inner hinner]
    rfl
  | field name value => exact clauseOfMember_constraint name h

/-- Clauses are read back from their members, in order. -/
theorem ofMembers_clauseMembers (clauses : List Clause) (h : expressibleClauses clauses) :
    ofMembers (clauseMembers clauses) = .ok clauses := by
  cases clauses with
  | nil => rfl
  | cons clause clauses =>
    obtain ⟨hclause, hclauses⟩ := h
    rw [clauseMembers, ofMembers, clauseOfMember_toMember clause hclause,
      ofMembers_clauseMembers clauses hclauses]
    rfl

end

/-- A filter that JSON can express is written as an object with a member for each clause, in order,
and read back as the same filter, which has the same query. -/
theorem ofJson_toJson {filter : Filter} (h : filter.Expressible) :
    filter.toJson = .object (filter.map Clause.toMember) ∧ ofJson filter.toJson = .ok filter ∧
      (ofJson filter.toJson).map query = .ok filter.query := by
  obtain ⟨hkeys, hclauses⟩ := h
  have hmembers := ofList_clauseMembers hkeys
  have hread : ofJson filter.toJson = .ok filter := by
    rw [toJson, hmembers]
    exact ofMembers_clauseMembers filter hclauses
  refine ⟨?_, hread, ?_⟩
  · rw [toJson, hmembers, clauseMembers_eq_map]
  · rw [hread]
    rfl

/-- A field that is named like a group, a range beside a text that is almost one, and groups in each
other are read back. -/
theorem ofJson_toJson_of_groups :
    let filter : Filter :=
      [.field "and" (.list [.text "1..2", .integer (-3)]),
       .anyOf [.allOf [.field "price" (.range (-1) 10), .field "name" (.text "1...2")],
         .noneOf [.field "gone" .anything]]]
    ofJson filter.toJson = .ok filter := by
  have hexpressible : Expressible
      [.field "and" (.list [.text "1..2", .integer (-3)]),
       .anyOf [.allOf [.field "price" (.range (-1) 10), .field "name" (.text "1...2")],
         .noneOf [.field "gone" .anything]]] := by
    simp only [Expressible, expressibleClauses, Clause.Expressible, Constraint.Expressible,
      List.forall_mem_cons, Scalar.Expressible, true_and, and_true]
    refine ⟨by decide, by simp, by decide, ⟨by decide, ?_⟩, by decide⟩
    exact Range.not_hasForm_of_bounds?_eq_none rfl
  exact (ofJson_toJson hexpressible).2.1

end Filter

end HostedSearch
