import HostedSearch.Proofs.Filter.Contribution
import HostedSearch.Proofs.Filter.JsonForm
import HostedSearch.Proofs.Json.ValueText

/-!
# Lists of queries as JSON arrays

A query holds the values of a list constraint between brackets, with a comma and a space between
them. That is the text of a JSON array: a text stands in it as a JSON string, so that its own commas
and brackets end nothing, and a binary64 number always has a point, so that it is never taken for an
integer. Read as a filter in JSON the array is the same list again.
-/

namespace HostedSearch

namespace Filter

open HostedSearch.Json (parse Enclosed IsSpaces IsTextOf Separated)

/-- The values of a list constraint as they stand in a query. -/
def listText (values : List Scalar) : List Char :=
  '[' :: ([',', ' '].intercalate (values.map literal) ++ [']'])

/-- The fragment of a list constraint that has values. -/
theorem fieldFragment_list (name : String) {values : List Scalar} (h : values ≠ []) :
    fieldFragment name (.list values) =
      " (range field=".toList ++ name.toList ++ ' ' :: (listText values ++ [')']) := by
  simp [fieldFragment, Constraint.isEmpty, h, listText]

/-! ## Texts of values and lists -/

/-- The literal of a scalar that JSON can express is a text of its value, at whatever depth. -/
theorem isTextOf_literal {value : Scalar} (h : value.Expressible) (depth : Nat) :
    IsTextOf depth value.toJson (literal value) := by
  cases value with
  | text s => exact Json.isTextOf_text_of_isScalar (v := .string s) ⟨by simp, by simp⟩ depth
  | integer n =>
    have hscalar : Json.IsScalar (.int64 n) := ⟨by simp [Json.int64], by simp [Json.int64]⟩
    exact Json.isTextOf_text_of_isScalar hscalar depth
  | float x =>
    obtain ⟨y, rfl⟩ := h
    obtain ⟨numeral, hnumeral, htext, hn⟩ := Json.Numeral.exists_finiteText_eq numberLayout y
    have hspelled := numeral.spelledAs_text
    rw [htext] at hspelled
    exact .number hnumeral hn hspelled

/-- Texts with a comma and a space between them are separated. -/
theorem separated_intercalate (text : List Char) (texts : List (List Char)) :
    Separated (text :: texts) ([',', ' '].intercalate (text :: texts)) := by
  induction texts generalizing text with
  | nil =>
    rw [List.intercalate_singleton]
    exact .singleton text
  | cons next texts ih =>
    have hspace : IsSpaces [' '] := by simp [IsSpaces, Json.isSpace]
    have hmore : Separated (text :: next :: texts)
        (text ++ ([] ++ ',' :: ([' '] ++ [',', ' '].intercalate (next :: texts)))) :=
      .more .nil hspace (ih next)
    rwa [List.intercalate_cons_cons, List.append_assoc]

/-- The text of a list that has values is the text of a JSON array. -/
theorem isTextOf_listText {values : List Scalar} (hvalues : values ≠ [])
    (h : ∀ value ∈ values, value.Expressible) (depth : Nat) :
    IsTextOf (depth + 1) (.array (values.map Scalar.toJson)) (listText values) := by
  obtain ⟨value, values, rfl⟩ := List.exists_cons_of_ne_nil hvalues
  have hitems : ∀ item ∈ (value :: values).map fun v => (v.toJson, literal v),
      IsTextOf depth item.1 item.2 :=
    List.forall_mem_map.mpr fun v hv => isTextOf_literal (h v hv) depth
  have henclosed : Enclosed '[' ']' ((value :: values).map literal)
      ('[' :: ([] ++ ([',', ' '].intercalate ((value :: values).map literal) ++ [']']))) :=
    .full .nil (separated_intercalate _ _)
  have harray := IsTextOf.array hitems (by simpa [Function.comp_def] using henclosed)
  simpa [Function.comp_def, listText] using harray

/-- The text of a list that has values is read as an array of their values. -/
theorem parse_listText {values : List Scalar} (hvalues : values ≠ [])
    (h : ∀ value ∈ values, value.Expressible) :
    parse (String.ofList (listText values)) = .ok (.array (values.map Scalar.toJson)) := by
  apply Json.readWhole_of_isTextOf
  rw [String.toList_ofList]
  exact isTextOf_listText hvalues h _

-- A quote, a bracket and a control character in a text, the least integer, and two floats that are
-- whole.
example :
    listText [.text "\", 1] \x07", .integer Int64.minValue, .float (.finite .negativeZero),
        .float (.finite ⟨false, ⟨2 ^ 52, 1023, by decide, by decide, by decide⟩⟩)] =
      "[\"\\\", 1] \\u0007\", -9223372036854775808, -0.0, 2.0]".toList := by
  decide +kernel

/-! ## The list in a query -/

/-- A list that has values stands in the query as a fragment, wherever it is reached through groups
of clauses that all hold. -/
theorem exists_query_fill_list {place : Place} (hplace : ∀ junction ∈ place.path, junction = .allOf)
    (name : String) {values : List Scalar} (hvalues : values ≠ []) :
    ∃ front back, (place.fill (.field name (.list values))).query =
      front ++ String.ofList (fieldFragment name (.list values)) ++ back := by
  have halternative : ¬ place.IsAlternative := fun h => by
    cases hplace _ (List.mem_of_getLast? h)
  have hburied : ¬ place.IsBuried := fun h => by
    cases hplace _ (List.dropLast_subset _ h)
  have hexcluded : .noneOf ∉ place.path := fun h => by
    cases hplace _ h
  have hadmits : place.Admits (.list values) := ⟨by simpa [Constraint.isEmpty] using hvalues,
    fun h => absurd h halternative⟩
  have hfill := place.exists_query_fill hburied hexcluded hadmits name
  rwa [Place.fragment, if_neg halternative] at hfill

/-- The values of a list constraint stand in the query as the text of a JSON array, if there are any
and its binary64 numbers are finite. Read as the value of any field of a filter in JSON, that array
is the list of the same values, in their order and each of its kind. -/
theorem list_text_reads_back (name field : String) {values : List Scalar} (hvalues : values ≠ [])
    (hfinite : ∀ x, .float x ∈ values → x.IsFinite) :
    ∃ text : String,
      query [.field name (.list values)] = " (range field=" ++ name ++ " " ++ text ++ ")" ∧
      (∀ place : Place, (∀ junction ∈ place.path, junction = .allOf) →
        ∃ front back, (place.fill (.field name (.list values))).query =
          front ++ (" (range field=" ++ name ++ " " ++ text ++ ")") ++ back) ∧
      parse text = .ok (.array (values.map Scalar.toJson)) ∧
      constraintOfJson field (.array (values.map Scalar.toJson)) = .ok (.list values) := by
  have hexpressible : ∀ value ∈ values, value.Expressible := by
    intro value hvalue
    cases value with
    | float x => exact hfinite x hvalue
    | _ => trivial
  have hfragment : String.ofList (fieldFragment name (.list values)) =
      " (range field=" ++ name ++ " " ++ String.ofList (listText values) ++ ")" := by
    rw [fieldFragment_list name hvalues, ← String.toList_inj]
    simp
  refine ⟨String.ofList (listText values), ?_, fun place hplace => ?_,
    parse_listText hvalues hexpressible, ?_⟩
  · rw [← hfragment, query, fragments, clauseFragment, fragments, List.append_nil]
  · rw [← hfragment]
    exact exists_query_fill_list hplace name hvalues
  · change ((values.map Scalar.toJson).mapM (scalarOfJson field)).map Constraint.list = _
    rw [mapM_scalarOfJson_map_toJson field hexpressible]
    rfl

/-- A text with a quote, a comma, a bracket and a control character, the least integer, and two
floats that are whole are read back, each of its kind. -/
theorem list_text_reads_back_of_kinds :
    let values : List Scalar :=
      [.text "\", 1] \x07", .integer Int64.minValue, .float (.finite .negativeZero),
        .float (.finite ⟨false, ⟨2 ^ 52, 1023, by decide, by decide, by decide⟩⟩)]
    values ≠ [] ∧ (∀ x, .float x ∈ values → x.IsFinite) ∧
      ∃ text, query [.field "tags" (.list values)] = " (range field=tags " ++ text ++ ")" ∧
        parse text = .ok (.array (values.map Scalar.toJson)) ∧
        constraintOfJson "tags" (.array (values.map Scalar.toJson)) = .ok (.list values) := by
  intro values
  have hfinite : ∀ x, .float x ∈ values → x.IsFinite := by
    intro x hx
    obtain rfl | rfl : x = .finite .negativeZero ∨
        x = .finite ⟨false, ⟨2 ^ 52, 1023, by decide, by decide, by decide⟩⟩ := by
      simpa [values] using hx
    · exact ⟨_, rfl⟩
    · exact ⟨_, rfl⟩
  obtain ⟨text, hquery, -, hparse, hread⟩ :=
    list_text_reads_back "tags" "tags" (List.cons_ne_nil _ _ : values ≠ []) hfinite
  exact ⟨List.cons_ne_nil _ _, hfinite, text, hquery, hparse, hread⟩

end Filter

end HostedSearch
