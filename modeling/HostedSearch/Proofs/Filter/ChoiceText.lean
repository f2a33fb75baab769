import HostedSearch.Proofs.Filter.Contribution
import HostedSearch.Proofs.Text.Quoted

/-!
# The values of a choice in a query

A choice between the values of one field holds the texts of the values in single quotes, with a
space between each and the next. What a text itself holds ends nothing: its quotes and backslashes
are escaped, so a reader that starts at the first value finds all texts, in their order and as they
are, and stops at the parenthesis that closes the choice.
-/

namespace HostedSearch

namespace Filter

/-- The values of a list constraint as they stand in a choice. -/
def choiceText (values : List Scalar) : List Char :=
  [' '].intercalate ((values.map scalarText).map quoted)

/-- The fragment of a list constraint that has values, as an alternative of a choice. -/
theorem choiceFragment_list (name : String) {values : List Scalar} (h : values ≠ []) :
    choiceFragment (.field name (.list values)) =
      "(or ".toList ++ name.toList ++ ' ' :: (choiceText values ++ [')']) := by
  simp [choiceFragment, h, choiceText, Function.comp_def]

/-- The values of a choice are read back, up to the parenthesis that closes it. -/
theorem readQuotedList_choiceText {values : List Scalar} (h : values ≠ []) (back : List Char) :
    readQuotedList (choiceText values ++ ')' :: back) =
      some (values.map scalarText, ')' :: back) := by
  have htexts : values.map scalarText ≠ [] := by simpa using h
  exact readQuotedList_intercalate htexts (by simp)

/-- A list that has values stands in the query as a choice, wherever it is an alternative that is
reached through groups of clauses that all hold. -/
theorem exists_query_fill_choice {place : Place} (halternative : place.IsAlternative)
    (hburied : ¬ place.IsBuried) (hexcluded : .noneOf ∉ place.path) (name : String)
    {values : List Scalar} (hvalues : values ≠ []) :
    ∃ front back, (place.fill (.field name (.list values))).query =
      front ++ String.ofList (choiceFragment (.field name (.list values))) ++ back := by
  have hadmits : place.Admits (.list values) :=
    ⟨by simpa [Constraint.isEmpty] using hvalues, fun _ => ⟨values, rfl⟩⟩
  have hfill := place.exists_query_fill hburied hexcluded hadmits name
  rwa [Place.fragment, if_pos halternative] at hfill

/-- An escaped text is read back up to the quote that is put behind it, whatever follows. So the
values of a list constraint that has any are read back where they stand as a choice in the query:
behind the name of the field and up to the closing parenthesis stand their texts, whatever
characters these hold, and they are read in their order. -/
theorem choice_texts_read_back :
    (∀ text rest : List Char,
      readQuoted (escapeQuoted text ++ '\'' :: rest) = some (text, rest)) ∧
    ∀ (name : String) (values : List Scalar), values ≠ [] →
      ∃ text : String,
        query [.anyOf [.field name (.list values)]] = "(or " ++ name ++ " " ++ text ++ ")" ∧
        (∀ place : Place, place.IsAlternative → ¬ place.IsBuried → .noneOf ∉ place.path →
          ∃ front back, (place.fill (.field name (.list values))).query =
            front ++ ("(or " ++ name ++ " " ++ text ++ ")") ++ back) ∧
        ∀ back : List Char, readQuotedList (text.toList ++ ')' :: back) =
          some (values.map scalarText, ')' :: back) := by
  refine ⟨readQuoted_escapeQuoted, fun name values hvalues => ?_⟩
  have hfragment : String.ofList (choiceFragment (.field name (.list values))) =
      "(or " ++ name ++ " " ++ String.ofList (choiceText values) ++ ")" := by
    rw [choiceFragment_list name hvalues, ← String.toList_inj]
    simp
  refine ⟨String.ofList (choiceText values), ?_, fun place halternative hburied hexcluded => ?_,
    fun back => ?_⟩
  · rw [← hfragment, query, fragments, clauseFragment, fragments, List.append_nil,
      List.flatMap_singleton]
  · rw [← hfragment]
    exact exists_query_fill_choice halternative hburied hexcluded name hvalues
  · rw [String.toList_ofList]
    exact readQuotedList_choiceText hvalues back

/-- Texts that look like the end of a string and the beginning of another, like the end of the
choice, or like an escaped quote are read back, and so is a number; the choice stands in a group
before another choice. -/
theorem choice_texts_read_back_of_separators :
    let values : List Scalar := [.text "' '", .text "')(or x 'y", .text "\\'", .integer (-2)]
    let text := "'\\' \\'' '\\')(or x \\'y' '\\\\\\'' '-2'"
    let place : Place := .within [] .allOf
      (.within [] .anyOf (.between [] [.field "size" (.list [.integer 1])]) []) []
    values ≠ [] ∧ place.IsAlternative ∧ ¬ place.IsBuried ∧ .noneOf ∉ place.path ∧
      (∃ front back, (place.fill (.field "flavor" (.list values))).query =
        front ++ ("(or " ++ "flavor" ++ " " ++ text ++ ")") ++ back) ∧
      ∀ back, readQuotedList (text.toList ++ ')' :: back) =
        some (["' '".toList, "')(or x 'y".toList, "\\'".toList, "-2".toList], ')' :: back) := by
  intro values text place
  have hvalues : values ≠ [] := List.cons_ne_nil _ _
  have hplace : place.IsAlternative ∧ ¬ place.IsBuried ∧ .noneOf ∉ place.path := by decide
  obtain ⟨halternative, hburied, hexcluded⟩ := hplace
  have hquery : query [.anyOf [.field "flavor" (.list values)]] =
      "(or " ++ "flavor" ++ " " ++ text ++ ")" := by
    decide +kernel
  obtain ⟨text', hquery', hfill, hread⟩ := choice_texts_read_back.2 "flavor" values hvalues
  obtain rfl : text' = text := by
    have h := hquery'.symm.trans hquery
    rwa [String.append_left_inj, String.append_right_inj] at h
  exact ⟨hvalues, halternative, hburied, hexcluded,
    hfill place halternative hburied hexcluded, hread⟩

end Filter

end HostedSearch
