import HostedSearch.Proofs.Number.Numeral
import HostedSearch.Proofs.Text.Quoted

/-!
# Normal forms of filters

The normal form of a filter is the list of what its query says, in order: groups, choices between
the values of one field, and comparisons of a field with a text, a term or a list. Exclusions,
constraints that say nothing and groups that come out empty leave no trace in it, and neither does
anything in a choice but its list constraints. A number is kept in a term as the integer that it
is, and elsewhere as its text. The query of a filter is what its normal form is written as.
-/

namespace HostedSearch

/-- An item between brackets. -/
inductive ListItem where
  /-- A number, as it is written. -/
  | bare (text : List Char)
  /-- A text, which is written in double quotes. -/
  | quoted (s : String)
deriving DecidableEq

/-- What a term compares a field with. -/
inductive TermValue where
  | integer (n : Int64)
  | range (low high : Int64)
deriving DecidableEq

/-- A part of a query. -/
inductive Fragment where
  /-- A group of fragments that all hold. -/
  | group (inner : List Fragment)
  /-- A choice between the texts that a field may have. -/
  | choice (name : String) (values : List (List Char))
  /-- The text that a field has. -/
  | phrase (name : String) (text : List Char)
  | term (name : String) (value : TermValue)
  | listing (name : String) (items : List ListItem)

/-! ## What a filter comes to -/

/-- A scalar as an item between brackets. -/
def Scalar.item : Scalar → ListItem
  | .text s => .quoted s
  | .integer n => .bare (Filter.int64Text n)
  | .float x => .bare (Filter.floatText x)

/-- What a constraint on a field says. -/
def Constraint.normalForm (name : String) : Constraint → List Fragment
  | .anything => []
  | .text s => if s.isEmpty then [] else [.phrase name s.toList]
  | .integer n => [.term name (.integer n)]
  | .float x => [.phrase name (Filter.floatText x)]
  | .range low high => [.term name (.range low high)]
  | .list values => if values.isEmpty then [] else [.listing name (values.map Scalar.item)]

/-- What a clause says as an alternative of a choice. -/
def Clause.choices : Clause → List Fragment
  | .field name (.list values) =>
    if values.isEmpty then [] else [.choice name (values.map Filter.scalarText)]
  | _ => []

mutual

/-- What a clause says. -/
def Clause.normalForm : Clause → List Fragment
  | .allOf inner =>
    let fragments := clausesNormalForm inner
    if fragments.isEmpty then [] else [.group fragments]
  | .anyOf inner => inner.flatMap Clause.choices
  | .noneOf _ => []
  | .field name value => value.normalForm name

/-- What clauses say, one after the other. -/
def clausesNormalForm : List Clause → List Fragment
  | [] => []
  | clause :: clauses => clause.normalForm ++ clausesNormalForm clauses

end

/-- What a filter says. -/
def Filter.normalForm (filter : Filter) : List Fragment :=
  clausesNormalForm filter

/-! ## How it is written -/

/-- An item between brackets as it is written. -/
def ListItem.chars : ListItem → List Char
  | .bare text => text
  | .quoted s => Json.stringText s

/-- The value of a term as it is written. -/
def TermValue.chars : TermValue → List Char
  | .integer n => Filter.int64Text n
  | .range low high => Filter.int64Text low ++ '.' :: '.' :: Filter.int64Text high

mutual

/-- A fragment as it is written. -/
def Fragment.chars : Fragment → List Char
  | .group inner => '(' :: 'a' :: 'n' :: 'd' :: (fragmentsChars inner ++ [')'])
  | .choice name values =>
    '(' :: 'o' :: 'r' :: ' ' ::
      (name.toList ++ ' ' :: ([' '].intercalate (values.map quoted) ++ [')']))
  | .phrase name text => ' ' :: (name.toList ++ ':' :: quoted text)
  | .term name value =>
    ' ' :: '(' :: ("term field=".toList ++ (name.toList ++ ' ' :: (value.chars ++ [')'])))
  | .listing name items =>
    ' ' :: '(' :: ("range field=".toList ++
      (name.toList ++ ' ' :: '[' ::
        ([',', ' '].intercalate (items.map ListItem.chars) ++ [']', ')'])))

/-- Fragments as they are written, one after the other. -/
def fragmentsChars : List Fragment → List Char
  | [] => []
  | fragment :: fragments => fragment.chars ++ fragmentsChars fragments

end

/-- Fragments are written after one another. -/
@[simp] theorem fragmentsChars_append (fs gs : List Fragment) :
    fragmentsChars (fs ++ gs) = fragmentsChars fs ++ fragmentsChars gs := by
  induction fs with
  | nil => rfl
  | cons f fs ih => simp [fragmentsChars, ih]

/-- A fragment begins with a space or with an opening parenthesis. -/
theorem Fragment.exists_chars_eq_cons (f : Fragment) :
    ∃ c cs, f.chars = c :: cs ∧ (c = ' ' ∨ c = '(') := by
  cases f <;> exact ⟨_, _, rfl, by simp⟩

/-- Nothing is written only where there is no fragment. -/
theorem fragmentsChars_eq_nil_iff {fs : List Fragment} : fragmentsChars fs = [] ↔ fs = [] := by
  cases fs with
  | nil => simp [fragmentsChars]
  | cons f fs =>
    obtain ⟨c, cs, hf, -⟩ := f.exists_chars_eq_cons
    simp [fragmentsChars, hf]

/-- The literal of a scalar is the item that it stands for. -/
theorem Scalar.chars_item (value : Scalar) : value.item.chars = Filter.literal value := by
  cases value <;> rfl

/-- A number needs no escapes between quotes. -/
theorem quoted_floatText (x : Binary64) :
    quoted (Filter.floatText x) = '\'' :: (Filter.floatText x ++ ['\'']) := by
  have hplain : ∀ c ∈ Filter.floatText x, needsBackslash c = false := by
    intro c hc
    have hnumeric := Filter.isNumeric_of_mem_floatText hc
    rw [Bool.eq_false_iff]
    intro hneeds
    obtain rfl | rfl : c = '\'' ∨ c = '\\' := by simpa [needsBackslash] using hneeds
    · exact absurd hnumeric (by decide)
    · exact absurd hnumeric (by decide)
  rw [quoted, escapeQuoted_of_forall hplain]

/-- The fragment of a constraint is what the constraint says. -/
theorem Constraint.fragmentsChars_normalForm (name : String) (value : Constraint) :
    fragmentsChars (value.normalForm name) = Filter.fieldFragment name value := by
  cases value with
  | anything => rfl
  | text s =>
    by_cases hs : s.isEmpty
    · simp [Constraint.normalForm, Filter.fieldFragment, Constraint.isEmpty, hs, fragmentsChars]
    · simp [Constraint.normalForm, Filter.fieldFragment, Constraint.isEmpty, hs, fragmentsChars,
        Fragment.chars]
  | integer n =>
    simp [Constraint.normalForm, Filter.fieldFragment, Constraint.isEmpty, fragmentsChars,
      Fragment.chars, TermValue.chars]
  | float x =>
    simp [Constraint.normalForm, Filter.fieldFragment, Constraint.isEmpty, fragmentsChars,
      Fragment.chars, quoted_floatText]
  | range low high =>
    simp [Constraint.normalForm, Filter.fieldFragment, Constraint.isEmpty, fragmentsChars,
      Fragment.chars, TermValue.chars]
  | list values =>
    by_cases hvalues : values.isEmpty
    · simp [Constraint.normalForm, Filter.fieldFragment, Constraint.isEmpty, hvalues,
        fragmentsChars]
    · simp [Constraint.normalForm, Filter.fieldFragment, Constraint.isEmpty, hvalues,
        fragmentsChars, Fragment.chars, Function.comp_def, Scalar.chars_item]

/-- The fragment of an alternative is what the alternative says. -/
theorem Clause.fragmentsChars_choices (clause : Clause) :
    fragmentsChars clause.choices = Filter.choiceFragment clause := by
  cases clause with
  | field name value =>
    cases value with
    | list values =>
      by_cases hvalues : values.isEmpty
      · simp [Clause.choices, Filter.choiceFragment, hvalues, fragmentsChars]
      · simp [Clause.choices, Filter.choiceFragment, hvalues, fragmentsChars, Fragment.chars,
          Function.comp_def]
    | _ => rfl
  | _ => rfl

/-- The fragment of a choice is what its alternatives say. -/
theorem fragmentsChars_flatMap_choices (inner : List Clause) :
    fragmentsChars (inner.flatMap Clause.choices) = inner.flatMap Filter.choiceFragment := by
  induction inner with
  | nil => rfl
  | cons clause inner ih => simp [Clause.fragmentsChars_choices, ih]

mutual

/-- The fragment of a clause is what the clause says. -/
theorem Clause.fragmentsChars_normalForm (clause : Clause) :
    fragmentsChars clause.normalForm = Filter.clauseFragment clause := by
  cases clause with
  | allOf inner =>
    have hinner := fragmentsChars_clausesNormalForm inner
    by_cases hempty : clausesNormalForm inner = []
    · have hnone : Filter.fragments inner = [] := by
        rw [← hinner, hempty]
        rfl
      simp [Clause.normalForm, Filter.clauseFragment, hempty, hnone, fragmentsChars]
    · have hsome : Filter.fragments inner ≠ [] := by
        rw [← hinner]
        exact fun h => hempty (fragmentsChars_eq_nil_iff.mp h)
      simp [Clause.normalForm, Filter.clauseFragment, hempty, hsome, fragmentsChars,
        Fragment.chars, hinner]
  | anyOf inner => exact fragmentsChars_flatMap_choices inner
  | noneOf inner => rfl
  | field name value => exact value.fragmentsChars_normalForm name

/-- The fragments of clauses are what the clauses say. -/
theorem fragmentsChars_clausesNormalForm (clauses : List Clause) :
    fragmentsChars (clausesNormalForm clauses) = Filter.fragments clauses := by
  cases clauses with
  | nil => rfl
  | cons clause clauses =>
    rw [clausesNormalForm, fragmentsChars_append, clause.fragmentsChars_normalForm,
      fragmentsChars_clausesNormalForm clauses, Filter.fragments]

end

/-- The query of a filter is what its normal form is written as. -/
theorem Filter.query_eq_ofList_normalForm (filter : Filter) :
    filter.query = String.ofList (fragmentsChars filter.normalForm) := by
  rw [query, normalForm, fragmentsChars_clausesNormalForm]

end HostedSearch
