import HostedSearch.Proofs.Filter.Name
import HostedSearch.Proofs.Filter.NormalForm
import HostedSearch.Proofs.Text.Skeleton

/-!
# Texts cannot add clauses to a query

Two filters have the same shape when they differ only in the contents of their texts. Their
queries then have the same skeleton, and neither leaves a string open: whatever a text holds, it
stays inside its string. Names are written bare, so they must not contain quotes.
-/

namespace HostedSearch

/-! ## Shapes -/

/-- Two scalars that may differ only in their texts. -/
def Scalar.SameShape : Scalar → Scalar → Prop
  | .text _, .text _ => True
  | .integer m, .integer n => m = n
  | .float x, .float y => x = y
  | _, _ => False

/-- Two constraints that may differ only in their texts. A text that is the whole constraint says
something in both or in neither. -/
def Constraint.SameShape : Constraint → Constraint → Prop
  | .anything, .anything => True
  | .text s, .text t => s = "" ↔ t = ""
  | .integer m, .integer n => m = n
  | .float x, .float y => x = y
  | .range low high, .range low' high' => low = low' ∧ high = high'
  | .list values, .list values' => List.Forall₂ Scalar.SameShape values values'
  | _, _ => False

mutual

/-- Two clauses that may differ only in their texts. -/
def Clause.SameShape : Clause → Clause → Prop
  | .allOf inner, .allOf inner' => sameShapes inner inner'
  | .anyOf inner, .anyOf inner' => sameShapes inner inner'
  | .noneOf inner, .noneOf inner' => sameShapes inner inner'
  | .field name value, .field name' value' => name = name' ∧ value.SameShape value'
  | _, _ => False

/-- Clauses that may differ only in their texts, one by one. -/
def sameShapes : List Clause → List Clause → Prop
  | [], [] => True
  | clause :: clauses, clause' :: clauses' => clause.SameShape clause' ∧ sameShapes clauses clauses'
  | _, _ => False

end

/-- Two filters that may differ only in their texts. -/
def Filter.SameShape (filter other : Filter) : Prop :=
  sameShapes filter other

/-- Whether a name has no quote and no backslash. -/
def isQuoteFreeName (name : String) : Bool :=
  name.toList.all fun c => c != '\'' && c != '"' && c != '\\'

/-! ## Skeletons of fragments -/

/-- A name without quotes is its own skeleton. -/
theorem sameSkeleton_name {name : String} (h : isQuoteFreeName name) :
    SameSkeleton name.toList name.toList := by
  apply SameSkeleton.of_forall
  intro c hc
  have hfree := List.all_eq_true.mp h c hc
  simp only [Bool.and_eq_true, bne_iff_ne, ne_eq] at hfree
  exact hfree.1

/-- A number is its own skeleton. -/
theorem sameSkeleton_of_isNumeric {cs : List Char} (h : ∀ c ∈ cs, isNumeric c) :
    SameSkeleton cs cs := by
  apply SameSkeleton.of_forall
  intro c hc
  constructor <;> rintro rfl <;> exact absurd (h _ hc) (by decide)

/-- An integer is its own skeleton. -/
theorem sameSkeleton_int64Text (n : Int64) :
    SameSkeleton (Filter.int64Text n) (Filter.int64Text n) :=
  sameSkeleton_of_isNumeric fun _ => Filter.isNumeric_of_mem_int64Text

/-- A text without quotes, found so by evaluation, is its own skeleton. -/
theorem sameSkeleton_literal (cs : List Char)
    (h : (cs.all fun c => c != '\'' && c != '"') = true) : SameSkeleton cs cs := by
  apply SameSkeleton.of_forall
  intro c hc
  simpa using List.all_eq_true.mp h c hc

/-- Scalars that differ only in their texts have literals of the same skeleton. -/
theorem Scalar.SameShape.literal {value other : Scalar} (h : value.SameShape other) :
    SameSkeleton (Filter.literal value) (Filter.literal other) := by
  match value, other with
  | .text s, .text t => exact .stringText s t
  | .integer m, .integer n =>
    obtain rfl : m = n := h
    exact sameSkeleton_int64Text m
  | .float x, .float y =>
    obtain rfl : x = y := h
    exact sameSkeleton_of_isNumeric fun _ => Filter.isNumeric_of_mem_floatText

/-- Lists whose scalars differ only in their texts have literals of the same skeleton. -/
theorem sameSkeleton_listing {values others : List Scalar}
    (h : List.Forall₂ Scalar.SameShape values others) :
    SameSkeleton ([',', ' '].intercalate (values.map Filter.literal))
      ([',', ' '].intercalate (others.map Filter.literal)) := by
  apply SameSkeleton.intercalate (sameSkeleton_literal _ rfl)
  rw [List.forall₂_map_left_iff, List.forall₂_map_right_iff]
  exact h.imp fun _ _ => Scalar.SameShape.literal

/-- Lists of the same length have alternatives of the same skeleton. -/
theorem sameSkeleton_alternatives {values others : List Scalar}
    (h : List.Forall₂ Scalar.SameShape values others) :
    SameSkeleton ([' '].intercalate (values.map fun value => quoted (Filter.scalarText value)))
      ([' '].intercalate (others.map fun value => quoted (Filter.scalarText value))) := by
  apply SameSkeleton.intercalate (sameSkeleton_literal _ rfl)
  rw [List.forall₂_map_left_iff, List.forall₂_map_right_iff]
  exact h.imp fun _ _ _ => .quoted _ _

/-- Of two lists of the same length, both are empty or none is. -/
theorem isEmpty_eq_of_forall₂ {values others : List Scalar}
    (h : List.Forall₂ Scalar.SameShape values others) : values.isEmpty = others.isEmpty := by
  cases h <;> rfl

/-- Constraints that differ only in their texts have fragments of the same skeleton. -/
theorem Constraint.SameShape.fieldFragment {name : String} (hfree : isQuoteFreeName name)
    {value other : Constraint} (h : value.SameShape other) :
    SameSkeleton (Filter.fieldFragment name value) (Filter.fieldFragment name other) := by
  have hname := sameSkeleton_name hfree
  have hspace := sameSkeleton_literal [' '] rfl
  have hterm := (sameSkeleton_literal " (term field=".toList rfl).append hname
  match value, other with
  | .anything, .anything => exact sameSkeleton_literal [] rfl
  | .text s, .text t =>
    have hempty : s.isEmpty = t.isEmpty := by
      rw [Bool.eq_iff_iff, String.isEmpty_iff, String.isEmpty_iff]
      exact h
    by_cases hs : s.isEmpty
    · have ht : t.isEmpty := hempty ▸ hs
      simpa [Filter.fieldFragment, Constraint.isEmpty, hs, ht] using sameSkeleton_literal [] rfl
    · have ht : ¬ t.isEmpty := hempty ▸ hs
      have hbehind := (sameSkeleton_literal [':'] rfl).append (.quoted s.toList t.toList)
      simpa [Filter.fieldFragment, Constraint.isEmpty, hs, ht] using
        hspace.append (hname.append hbehind)
  | .integer m, .integer n =>
    obtain rfl : m = n := h
    have hbehind := (sameSkeleton_int64Text m).append (sameSkeleton_literal [')'] rfl)
    simpa [Filter.fieldFragment, Constraint.isEmpty] using
      hterm.append (hspace.append hbehind)
  | .float x, .float y =>
    obtain rfl : x = y := h
    have hbehind := (sameSkeleton_literal [':'] rfl).append
      (.quoted (Filter.floatText x) (Filter.floatText x))
    rw [quoted_floatText] at hbehind
    simpa [Filter.fieldFragment, Constraint.isEmpty] using
      hspace.append (hname.append hbehind)
  | .range low high, .range low' high' =>
    obtain ⟨rfl, rfl⟩ : low = low' ∧ high = high' := h
    have hhigh := (sameSkeleton_int64Text high).append (sameSkeleton_literal [')'] rfl)
    have hbehind :=
      (sameSkeleton_int64Text low).append ((sameSkeleton_literal ['.', '.'] rfl).append hhigh)
    simpa [Filter.fieldFragment, Constraint.isEmpty] using
      hterm.append (hspace.append hbehind)
  | .list values, .list others =>
    have hempty := isEmpty_eq_of_forall₂ h
    by_cases hvalues : values.isEmpty
    · have hothers : others.isEmpty := hempty ▸ hvalues
      simpa [Filter.fieldFragment, Constraint.isEmpty, hvalues, hothers] using
        sameSkeleton_literal [] rfl
    · have hothers : ¬ others.isEmpty := hempty ▸ hvalues
      have hrange := (sameSkeleton_literal " (range field=".toList rfl).append hname
      have hbehind := (sameSkeleton_listing h).append (sameSkeleton_literal [']', ')'] rfl)
      simpa [Filter.fieldFragment, Constraint.isEmpty, hvalues, hothers] using
        hrange.append ((sameSkeleton_literal [' ', '['] rfl).append hbehind)

/-- List constraints that differ only in their texts are alternatives of the same skeleton. -/
theorem sameSkeleton_choiceFragment_list {name : String} (hfree : isQuoteFreeName name)
    {values others : List Scalar} (h : List.Forall₂ Scalar.SameShape values others) :
    SameSkeleton (Filter.choiceFragment (.field name (.list values)))
      (Filter.choiceFragment (.field name (.list others))) := by
  have hempty := isEmpty_eq_of_forall₂ h
  by_cases hvalues : values.isEmpty
  · have hothers : others.isEmpty := hempty ▸ hvalues
    simpa [Filter.choiceFragment, hvalues, hothers] using sameSkeleton_literal [] rfl
  · have hothers : ¬ others.isEmpty := hempty ▸ hvalues
    have hname := (sameSkeleton_literal "(or ".toList rfl).append (sameSkeleton_name hfree)
    have hbehind := (sameSkeleton_alternatives h).append (sameSkeleton_literal [')'] rfl)
    simpa [Filter.choiceFragment, hvalues, hothers] using
      hname.append ((sameSkeleton_literal [' '] rfl).append hbehind)

/-- Alternatives that differ only in their texts have fragments of the same skeleton. -/
theorem Clause.SameShape.choiceFragment {clause other : Clause}
    (hfree : clause.EveryName fun name => isQuoteFreeName name) (h : clause.SameShape other) :
    SameSkeleton (Filter.choiceFragment clause) (Filter.choiceFragment other) := by
  have hnothing : SameSkeleton [] [] := sameSkeleton_literal [] rfl
  match clause, other with
  | .allOf _, .allOf _ => exact hnothing
  | .anyOf _, .anyOf _ => exact hnothing
  | .noneOf _, .noneOf _ => exact hnothing
  | .field name value, .field name' other =>
    obtain ⟨rfl, hvalue⟩ : name = name' ∧ value.SameShape other := h
    match value, other with
    | .list values, .list others => exact sameSkeleton_choiceFragment_list hfree hvalue
    | .anything, .anything => exact hnothing
    | .text _, .text _ => exact hnothing
    | .integer _, .integer _ => exact hnothing
    | .float _, .float _ => exact hnothing
    | .range _ _, .range _ _ => exact hnothing

/-- Choices that differ only in their texts have fragments of the same skeleton. -/
theorem sameSkeleton_flatMap_choiceFragment {inner others : List Clause}
    (hfree : everyName (fun name => isQuoteFreeName name) inner) (h : sameShapes inner others) :
    SameSkeleton (inner.flatMap Filter.choiceFragment)
      (others.flatMap Filter.choiceFragment) := by
  induction inner generalizing others with
  | nil =>
    match others with
    | [] => exact sameSkeleton_literal [] rfl
  | cons clause inner ih =>
    match others with
    | other :: others =>
      exact (Clause.SameShape.choiceFragment hfree.1 h.1).append (ih hfree.2 h.2)

/-! ## Skeletons of queries -/

mutual

/-- Clauses that differ only in their texts have fragments of the same skeleton. -/
theorem Clause.SameShape.clauseFragment (clause other : Clause)
    (hfree : clause.EveryName fun name => isQuoteFreeName name) (h : clause.SameShape other) :
    SameSkeleton (Filter.clauseFragment clause) (Filter.clauseFragment other) := by
  cases clause with
  | allOf inner =>
    match other with
    | .allOf others =>
      have hinner := sameSkeleton_fragments inner others hfree h
      by_cases hempty : Filter.fragments inner = []
      · have hothers := hinner.eq_nil_iff.mp hempty
        simpa [Filter.clauseFragment, hempty, hothers] using sameSkeleton_literal [] rfl
      · have hothers := mt hinner.eq_nil_iff.mpr hempty
        have hbehind := hinner.append (sameSkeleton_literal [')'] rfl)
        simpa [Filter.clauseFragment, hempty, hothers] using
          (sameSkeleton_literal "(and".toList rfl).append hbehind
  | anyOf inner =>
    match other with
    | .anyOf others => exact sameSkeleton_flatMap_choiceFragment hfree h
  | noneOf inner =>
    match other with
    | .noneOf others => exact sameSkeleton_literal [] rfl
  | field name value =>
    match other with
    | .field name' other =>
      obtain ⟨rfl, hvalue⟩ : name = name' ∧ value.SameShape other := h
      exact Constraint.SameShape.fieldFragment hfree hvalue

/-- Lists of clauses that differ only in their texts have fragments of the same skeleton. -/
theorem sameSkeleton_fragments (clauses others : List Clause)
    (hfree : everyName (fun name => isQuoteFreeName name) clauses)
    (h : sameShapes clauses others) :
    SameSkeleton (Filter.fragments clauses) (Filter.fragments others) := by
  cases clauses with
  | nil =>
    match others with
    | [] => exact sameSkeleton_literal [] rfl
  | cons clause clauses =>
    match others with
    | other :: others =>
      exact (Clause.SameShape.clauseFragment clause other hfree.1 h.1).append
        (sameSkeleton_fragments clauses others hfree.2 h.2)

end

namespace Filter

/-- Filters that differ only in their texts have queries of the same skeleton, and neither query
leaves a string open. -/
theorem skeleton_query_eq_of_sameShape (filter other : Filter)
    (hfree : filter.EveryName fun name => isQuoteFreeName name) (hshape : filter.SameShape other) :
    skeleton filter.query = skeleton other.query ∧
      EndsOutside filter.query ∧ EndsOutside other.query := by
  obtain ⟨bones, hfilter, hother⟩ := sameSkeleton_fragments filter other hfree hshape
  rw [ScansTo] at hfilter hother
  simp only [skeleton, EndsOutside, query, String.toList_ofList, hfilter, hother, and_self]

/-- A text that would close its string and add a choice has the skeleton of any other text. -/
theorem skeleton_query_eq_of_sameShape_injection :
    let filter : Filter :=
      [.field "name" (.text "fritters"), .anyOf [.field "tags" (.list [.text "a", .integer 2])]]
    let other : Filter :=
      [.field "name" (.text "')(or x 'y\\"),
        .anyOf [.field "tags" (.list [.text "\" ' \\", .integer 2])]]
    (filter.EveryName fun name => isQuoteFreeName name) ∧ filter.SameShape other ∧
      skeleton filter.query = skeleton other.query ∧
      EndsOutside filter.query ∧ EndsOutside other.query := by
  intro filter other
  have hfree : filter.EveryName fun name => isQuoteFreeName name := by
    simp [filter, EveryName, everyName, Clause.EveryName, isQuoteFreeName]
  have hshape : filter.SameShape other := by
    simp [filter, other, SameShape, sameShapes, Clause.SameShape, Constraint.SameShape,
      Scalar.SameShape]
  exact ⟨hfree, hshape, skeleton_query_eq_of_sameShape filter other hfree hshape⟩

end Filter

end HostedSearch
