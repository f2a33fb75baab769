import HostedSearch.Proofs.Filter.Name
import HostedSearch.Proofs.Filter.NormalForm
import HostedSearch.Proofs.Text.Skeleton

/-!
# The groups of a query

A query is made of groups in parentheses, each with a word that tells its kind. Outside of strings
every parenthesis belongs to such a group, and each group is closed where it should be: groups
stand one behind the other or inside each other. Which groups there are can be told from the
filter alone, from the clauses that are reached through `allOf` groups.
-/

namespace HostedSearch

/-! ## Texts made of groups -/

/-- How many parentheses are open behind a text, if `depth` are open before it; none if the text
closes one that is not open. -/
def depthBehind : Nat → List Char → Option Nat
  | depth, [] => some depth
  | depth, '(' :: cs => depthBehind (depth + 1) cs
  | 0, ')' :: _ => none
  | depth + 1, ')' :: cs => depthBehind depth cs
  | depth, _ :: cs => depthBehind depth cs

/-- Every parenthesis that the text closes is open, and in the end none is. -/
def Balanced (cs : List Char) : Prop :=
  depthBehind 0 cs = some 0

instance (cs : List Char) : Decidable (Balanced cs) :=
  inferInstanceAs (Decidable (depthBehind 0 cs = some 0))

/-- A text without parentheses leaves as many open as there were. -/
theorem depthBehind_append_of_forall {cs : List Char}
    (h : ∀ c ∈ cs, c ≠ '(' ∧ c ≠ ')') (depth : Nat)
    (rest : List Char) : depthBehind depth (cs ++ rest) = depthBehind depth rest := by
  induction cs with
  | nil => rfl
  | cons c cs ih =>
    rw [List.forall_mem_cons] at h
    simp [depthBehind, h.1, ih h.2]

/-- A character is found behind a text in which it is not. -/
theorem exists_eq_append_of_notMem {front back before behind : List Char} {c : Char}
    (hfront : c ∉ front) (h : front ++ back = before ++ c :: behind) :
    ∃ between, before = front ++ between ∧ back = between ++ c :: behind := by
  obtain ⟨between, hbefore, hback⟩ | ⟨between, rfl, hbetween⟩ := List.append_eq_append_iff.mp h
  · exact ⟨between, hbefore, hback⟩
  · cases between with
    | nil => exact ⟨[], by simp, hbetween.symm⟩
    | cons d between =>
      obtain ⟨rfl, -⟩ := List.cons.inj hbetween
      exact absurd (by simp) hfront

/-- The kinds of groups in a query. -/
inductive GroupKind where
  | conjunction
  | choice
  | term
  | range
deriving DecidableEq

/-- What stands behind the opening parenthesis of a group. -/
def GroupKind.word : GroupKind → String
  | .conjunction => "and"
  | .choice => "or "
  | .term => "term field="
  | .range => "range field="

/-- The text is made of groups that are closed, and of characters other than parentheses. The kinds
are those of its groups in the order in which they are opened. -/
inductive Nested : List Char → List GroupKind → Prop where
  | nil : Nested [] []
  | plain {c : Char} {cs : List Char} {kinds : List GroupKind} (hopen : c ≠ '(') (hclose : c ≠ ')')
    (hcs : Nested cs kinds) : Nested (c :: cs) kinds
  | group (kind : GroupKind) {inner rest : List Char} {kinds others : List GroupKind}
    (hinner : Nested inner kinds) (hrest : Nested rest others) :
    Nested ('(' :: (kind.word.toList ++ (inner ++ ')' :: rest))) (kind :: (kinds ++ others))

/-- The word of a group has no parenthesis and no quote. -/
theorem GroupKind.of_mem_word {kind : GroupKind} {c : Char} (hc : c ∈ kind.word.toList) :
    (c ≠ '(' ∧ c ≠ ')') ∧ c ≠ '\'' ∧ c ≠ '"' := by
  have hword :
      (kind.word.toList.all fun c => c != '(' && c != ')' && (c != '\'' && c != '"')) = true := by
    cases kind <;> decide
  simpa using List.all_eq_true.mp hword c hc

namespace Nested

variable {cs ds : List Char} {kinds others : List GroupKind}

/-- A text without parentheses has no groups. -/
theorem of_forall (h : ∀ c ∈ cs, c ≠ '(' ∧ c ≠ ')') : Nested cs [] := by
  induction cs with
  | nil => exact .nil
  | cons c cs ih =>
    rw [List.forall_mem_cons] at h
    exact .plain h.1.1 h.1.2 (ih h.2)

/-- Texts made of groups may follow one another. -/
theorem append (hcs : Nested cs kinds) (hds : Nested ds others) :
    Nested (cs ++ ds) (kinds ++ others) := by
  induction hcs with
  | nil => exact hds
  | plain hopen hclose _ ih => exact .plain hopen hclose ih
  | group kind hinner _ _ ih => simpa using Nested.group kind hinner ih

/-- A text made of groups leaves as many parentheses open as there were. -/
theorem depthBehind_append (h : Nested cs kinds) (depth : Nat) (rest : List Char) :
    depthBehind depth (cs ++ rest) = depthBehind depth rest := by
  induction h generalizing depth rest with
  | nil => rfl
  | plain hopen hclose _ ih => simp [depthBehind, hclose, ih]
  | @group kind inner behind _ _ _ _ ihInner ihBehind =>
    have hword : ∀ c ∈ kind.word.toList, c ≠ '(' ∧ c ≠ ')' :=
      fun _ hc => (GroupKind.of_mem_word hc).1
    calc depthBehind depth ('(' :: (kind.word.toList ++ (inner ++ ')' :: behind)) ++ rest)
      _ = depthBehind (depth + 1) (kind.word.toList ++ (inner ++ ')' :: (behind ++ rest))) := by
        simp [depthBehind]
      _ = depthBehind (depth + 1) (')' :: (behind ++ rest)) := by
        rw [depthBehind_append_of_forall hword, ihInner]
      _ = depthBehind depth rest := by simp [depthBehind, ihBehind]

/-- A text made of groups is balanced. -/
theorem balanced (h : Nested cs kinds) : Balanced cs := by
  have hdepth := h.depthBehind_append 0 []
  rwa [List.append_nil] at hdepth

-- To open as many parentheses as are closed is not enough.
example : ¬ Balanced ")(".toList := by decide

/-- As many parentheses are opened as there are groups. -/
theorem count_open (h : Nested cs kinds) : cs.count '(' = kinds.length := by
  induction h with
  | nil => rfl
  | plain hopen _ _ ih => rw [List.count_cons_of_ne hopen, ih]
  | group kind _ _ ihInner ihRest =>
    have hword : kind.word.toList.count '(' = 0 :=
      List.count_eq_zero.mpr fun hmem => (GroupKind.of_mem_word hmem).1.1 rfl
    simp [hword, ihInner, ihRest]

/-- Every parenthesis that is opened begins a group of some kind, which is closed behind a text
that is made of groups itself. -/
theorem exists_group (h : Nested cs kinds) {before behind : List Char}
    (hcs : cs = before ++ '(' :: behind) :
    ∃ kind inner inside rest, behind = (GroupKind.word kind).toList ++ (inner ++ ')' :: rest) ∧
      Nested inner inside := by
  induction h generalizing before behind with
  | nil => simp at hcs
  | plain hopen _ _ ih =>
    cases before with
    | nil => exact absurd (List.cons.inj hcs).1 hopen
    | cons d before => exact ih (List.cons.inj hcs).2
  | @group kind inner rest inside _ hinner _ ihInner ihRest =>
    cases before with
    | nil => exact ⟨kind, inner, inside, rest, (List.cons.inj hcs).2.symm, hinner⟩
    | cons d before =>
      -- The parenthesis stands behind the word, either in the group or behind it.
      have hword : '(' ∉ kind.word.toList := fun hmem => (GroupKind.of_mem_word hmem).1.1 rfl
      obtain ⟨between, -, hback⟩ := exists_eq_append_of_notMem hword (List.cons.inj hcs).2
      obtain ⟨between', -, hrest⟩ | ⟨left, hinside, hbehind⟩ := List.append_eq_append_iff.mp hback
      · cases between' with
        | nil => exact absurd (List.cons.inj hrest).1 (by decide)
        | cons d between' => exact ihRest (List.cons.inj hrest).2
      · cases left with
        | nil => exact absurd (List.cons.inj hbehind).1 (by decide)
        | cons d left =>
          obtain ⟨rfl, rfl⟩ := List.cons.inj hbehind
          obtain ⟨kind', inner', inside', rest', rfl, hinner'⟩ := ihInner hinside
          exact ⟨kind', inner', inside', rest' ++ ')' :: rest, by simp, hinner'⟩

end Nested

/-- The text leaves its reader outside of any string, and its skeleton is made of these groups. -/
def HasGroups (cs : List Char) (kinds : List GroupKind) : Prop :=
  ∃ bones, ScansTo cs bones ∧ Nested bones kinds

namespace HasGroups

variable {cs ds : List Char} {kinds others : List GroupKind}

/-- Nothing has no groups. -/
theorem nil : HasGroups [] [] :=
  ⟨[], rfl, .nil⟩

/-- Only the empty list is the groups of nothing. -/
theorem eq_nil (h : HasGroups [] kinds) : kinds = [] := by
  obtain ⟨bones, hscan, hnested⟩ := h
  obtain rfl := hscan.eq_nil_iff.mp rfl
  cases hnested
  rfl

/-- A text without parentheses and quotes has no groups. -/
theorem of_forall (h : ∀ c ∈ cs, (c ≠ '(' ∧ c ≠ ')') ∧ c ≠ '\'' ∧ c ≠ '"') : HasGroups cs [] :=
  ⟨cs, .of_forall fun c hc => (h c hc).2, .of_forall fun c hc => (h c hc).1⟩

/-- A text without parentheses and quotes, found so by evaluation, has no groups. -/
theorem literal (cs : List Char)
    (h : (cs.all fun c => c != '(' && c != ')' && (c != '\'' && c != '"')) = true) :
    HasGroups cs [] :=
  of_forall fun c hc => by simpa using List.all_eq_true.mp h c hc

/-- A number has no groups. -/
theorem of_isNumeric (h : ∀ c ∈ cs, isNumeric c) : HasGroups cs [] := by
  apply of_forall
  intro c hc
  refine ⟨⟨?_, ?_⟩, ?_, ?_⟩ <;> rintro rfl <;> exact absurd (h _ hc) (by decide)

/-- A single-quoted string has no groups, whatever it holds. -/
theorem quoted (cs : List Char) : HasGroups (quoted cs) [] :=
  ⟨_, scansTo_quoted cs, .of_forall (by simp)⟩

/-- A JSON string has no groups, whatever it holds. -/
theorem stringText (s : String) : HasGroups (Json.stringText s) [] :=
  ⟨_, Json.scansTo_stringText s, .of_forall (by simp)⟩

/-- The groups of texts follow one another. -/
theorem append (hcs : HasGroups cs kinds) (hds : HasGroups ds others) :
    HasGroups (cs ++ ds) (kinds ++ others) := by
  obtain ⟨bones, hscan, hnested⟩ := hcs
  obtain ⟨bones', hscan', hnested'⟩ := hds
  exact ⟨bones ++ bones', hscan.append hscan', hnested.append hnested'⟩

/-- A group is opened before the groups that it holds. -/
theorem group (kind : GroupKind) (h : HasGroups cs kinds) :
    HasGroups ('(' :: (kind.word.toList ++ (cs ++ [')']))) (kind :: kinds) := by
  obtain ⟨bones, hscan, hnested⟩ := h
  have hword : ScansTo ('(' :: kind.word.toList) ('(' :: kind.word.toList) := by
    apply ScansTo.of_forall
    rw [List.forall_mem_cons]
    exact ⟨by decide, fun c hc => (GroupKind.of_mem_word hc).2⟩
  have hclose : ScansTo [')'] [')'] := .of_forall (by simp)
  refine ⟨'(' :: (kind.word.toList ++ (bones ++ [')'])), ?_, ?_⟩
  · simpa using hword.append (hscan.append hclose)
  · simpa using Nested.group kind hnested .nil

/-- A list without groups, if its items and its separator have none. -/
theorem intercalate {separator : List Char} (hseparator : HasGroups separator [])
    {items : List (List Char)} (h : ∀ item ∈ items, HasGroups item []) :
    HasGroups (separator.intercalate items) [] := by
  induction items with
  | nil => exact .nil
  | cons item items ih =>
    rw [List.forall_mem_cons] at h
    cases items with
    | nil => simpa using h.1
    | cons next items =>
      rw [List.intercalate_cons_cons]
      exact (h.1.append hseparator).append (ih h.2)

end HasGroups

/-! ## The groups of a filter -/

/-- Whether a name has no parenthesis, no quote and no backslash. -/
def isUnmarkedName (name : String) : Bool :=
  name.toList.all fun c => c != '(' && c != ')' && (c != '\'' && c != '"' && c != '\\')

/-- The group that a constraint on a field is written as, if it is. -/
def Constraint.groups : Constraint → List GroupKind
  | .integer _ => [.term]
  | .range _ _ => [.term]
  | .list values => if values.isEmpty then [] else [.range]
  | _ => []

/-- The group that a clause directly in a choice is written as, if it is. -/
def Clause.choiceGroups : Clause → List GroupKind
  | .field _ (.list values) => if values.isEmpty then [] else [.choice]
  | _ => []

/-- The groups that a clause is written as, without those of the clauses in an `allOf` group. -/
def Clause.groups : Clause → List GroupKind
  | .allOf inner => if (Filter.fragments inner).isEmpty then [] else [.conjunction]
  | .anyOf inner => inner.flatMap Clause.choiceGroups
  | .noneOf _ => []
  | .field _ value => value.groups

mutual

/-- The clauses that are reached from a clause through `allOf` groups, itself first. -/
def Clause.reached : Clause → List Clause
  | .allOf inner => .allOf inner :: reachedClauses inner
  | clause => [clause]

/-- The clauses that are reached from clauses through `allOf` groups. -/
def reachedClauses : List Clause → List Clause
  | [] => []
  | clause :: clauses => clause.reached ++ reachedClauses clauses

end

/-- The groups that a filter is written as, in the order in which they are opened: those of each
clause that is reached through `allOf` groups. -/
def Filter.groups (filter : Filter) : List GroupKind :=
  (reachedClauses filter).flatMap Clause.groups

/-! ## The groups of fragments -/

/-- An unmarked name has no groups. -/
theorem hasGroups_name {name : String} (h : isUnmarkedName name) : HasGroups name.toList [] := by
  apply HasGroups.of_forall
  intro c hc
  have hmark := List.all_eq_true.mp h c hc
  simp only [Bool.and_eq_true, bne_iff_ne, ne_eq] at hmark
  exact ⟨hmark.1, hmark.2.1⟩

/-- An integer has no groups. -/
theorem hasGroups_int64Text (n : Int64) : HasGroups (Filter.int64Text n) [] :=
  .of_isNumeric fun _ => Filter.isNumeric_of_mem_int64Text

/-- An item between brackets has no groups. -/
theorem hasGroups_literal (value : Scalar) : HasGroups (Filter.literal value) [] := by
  cases value with
  | text s => exact .stringText s
  | integer n => exact hasGroups_int64Text n
  | float x => exact .of_isNumeric fun _ => Filter.isNumeric_of_mem_floatText

/-- The fragment of a constraint is the group of the constraint. -/
theorem hasGroups_fieldFragment {name : String} (hname : isUnmarkedName name)
    (value : Constraint) : HasGroups (Filter.fieldFragment name value) value.groups := by
  have hname := hasGroups_name hname
  have hspace := HasGroups.literal [' '] rfl
  have hcolon := HasGroups.literal [':'] rfl
  cases value with
  | anything => exact .nil
  | text s =>
    by_cases hs : s.isEmpty
    · simpa [Filter.fieldFragment, Constraint.isEmpty, Constraint.groups, hs] using HasGroups.nil
    · simpa [Filter.fieldFragment, Constraint.isEmpty, Constraint.groups, hs] using
        hspace.append (hname.append (hcolon.append (.quoted s.toList)))
  | integer n =>
    have hbody := hname.append (hspace.append (hasGroups_int64Text n))
    simpa [Filter.fieldFragment, Constraint.isEmpty, Constraint.groups, GroupKind.word] using
      hspace.append (.group .term hbody)
  | float x =>
    have hstring := HasGroups.quoted (Filter.floatText x)
    rw [quoted_floatText] at hstring
    simpa [Filter.fieldFragment, Constraint.isEmpty, Constraint.groups] using
      hspace.append (hname.append (hcolon.append hstring))
  | range low high =>
    have hbounds := (hasGroups_int64Text low).append
      ((HasGroups.literal ['.', '.'] rfl).append (hasGroups_int64Text high))
    have hbody := hname.append (hspace.append hbounds)
    simpa [Filter.fieldFragment, Constraint.isEmpty, Constraint.groups, GroupKind.word] using
      hspace.append (.group .term hbody)
  | list values =>
    by_cases hvalues : values.isEmpty
    · simpa [Filter.fieldFragment, Constraint.isEmpty, Constraint.groups, hvalues] using
        HasGroups.nil
    · have hitems : HasGroups ([',', ' '].intercalate (values.map Filter.literal)) [] := by
        apply HasGroups.intercalate (.literal _ rfl)
        rw [List.forall_mem_map]
        exact fun value _ => hasGroups_literal value
      have hlist := (HasGroups.literal ['['] rfl).append (hitems.append (.literal [']'] rfl))
      have hbody := hname.append (hspace.append hlist)
      simpa [Filter.fieldFragment, Constraint.isEmpty, Constraint.groups, hvalues,
        GroupKind.word] using hspace.append (.group .range hbody)

/-- The fragment of a clause directly in a choice is the group of the clause there. -/
theorem hasGroups_choiceFragment {clause : Clause}
    (h : clause.EveryName fun name => isUnmarkedName name) :
    HasGroups (Filter.choiceFragment clause) clause.choiceGroups := by
  cases clause with
  | field name value =>
    cases value with
    | list values =>
      by_cases hvalues : values.isEmpty
      · simpa [Filter.choiceFragment, Clause.choiceGroups, hvalues] using HasGroups.nil
      · have hitems : HasGroups
            ([' '].intercalate (values.map fun value => quoted (Filter.scalarText value))) [] := by
          apply HasGroups.intercalate (.literal _ rfl)
          rw [List.forall_mem_map]
          exact fun value _ => .quoted _
        have hbody := (hasGroups_name h).append ((HasGroups.literal [' '] rfl).append hitems)
        simpa [Filter.choiceFragment, Clause.choiceGroups, hvalues, GroupKind.word] using
          HasGroups.group .choice hbody
    | _ => exact .nil
  | _ => exact .nil

/-- The fragment of a choice has the groups of its clauses. -/
theorem hasGroups_flatMap_choiceFragment {inner : List Clause}
    (h : everyName (fun name => isUnmarkedName name) inner) :
    HasGroups (inner.flatMap Filter.choiceFragment) (inner.flatMap Clause.choiceGroups) := by
  induction inner with
  | nil => exact .nil
  | cons clause inner ih => exact (hasGroups_choiceFragment h.1).append (ih h.2)

mutual

/-- The fragment of a clause has the groups of the clauses that are reached from it. -/
theorem hasGroups_clauseFragment (clause : Clause)
    (h : clause.EveryName fun name => isUnmarkedName name) :
    HasGroups (Filter.clauseFragment clause) (clause.reached.flatMap Clause.groups) := by
  cases clause with
  | allOf inner =>
    have hinner := hasGroups_fragments inner h
    rw [Clause.reached, List.flatMap_cons]
    by_cases hempty : Filter.fragments inner = []
    · rw [hempty] at hinner
      rw [hinner.eq_nil]
      simpa [Filter.clauseFragment, Clause.groups, hempty] using HasGroups.nil
    · simpa [Filter.clauseFragment, Clause.groups, hempty, GroupKind.word] using
        HasGroups.group .conjunction hinner
  | anyOf inner =>
    simpa [Clause.reached, Clause.groups, Filter.clauseFragment] using
      hasGroups_flatMap_choiceFragment h
  | noneOf inner => exact .nil
  | field name value =>
    simpa [Clause.reached, Clause.groups, Filter.clauseFragment] using
      hasGroups_fieldFragment h value

/-- The fragments of clauses have the groups of the clauses that are reached from them. -/
theorem hasGroups_fragments (clauses : List Clause)
    (h : everyName (fun name => isUnmarkedName name) clauses) :
    HasGroups (Filter.fragments clauses) ((reachedClauses clauses).flatMap Clause.groups) := by
  cases clauses with
  | nil => exact .nil
  | cons clause clauses =>
    rw [Filter.fragments, reachedClauses, List.flatMap_append]
    exact (hasGroups_clauseFragment clause h.1).append (hasGroups_fragments clauses h.2)

end

namespace Filter

/-- Outside of strings the parentheses of a query are balanced. Each that is opened begins a group
of one of the four kinds, which is closed behind a balanced text, and the groups are those of the
filter, in order; so their number is the number of parentheses that are opened. -/
theorem query_is_nested (filter : Filter)
    (hnames : filter.EveryName fun name => isUnmarkedName name) :
    EndsOutside filter.query ∧ Balanced (skeleton filter.query) ∧
      (∀ before behind, skeleton filter.query = before ++ '(' :: behind →
        ∃ kind inner rest, behind = (GroupKind.word kind).toList ++ (inner ++ ')' :: rest) ∧
          Balanced inner) ∧
      Nested (skeleton filter.query) filter.groups ∧
      (skeleton filter.query).count '(' = filter.groups.length := by
  obtain ⟨bones, hscan, hnested⟩ := hasGroups_fragments filter hnames
  rw [ScansTo] at hscan
  have hskeleton : skeleton filter.query = bones := by
    rw [skeleton, query, String.toList_ofList, hscan]
  have hends : EndsOutside filter.query := by
    rw [EndsOutside, query, String.toList_ofList, hscan]
  rw [hskeleton]
  refine ⟨hends, hnested.balanced, ?_, hnested, hnested.count_open⟩
  intro before behind hbones
  obtain ⟨kind, inner, inside, rest, hbehind, hinner⟩ := hnested.exists_group hbones
  exact ⟨kind, inner, rest, hbehind, hinner.balanced⟩

/-- Groups in each other, one of them left out since it comes out empty, beside texts that hold
parentheses and quotes. -/
theorem query_is_nested_of_parentheses_in_texts :
    let filter : Filter :=
      [.field "name" (.text "')) (or"),
       .allOf [.allOf [.field "gone" .anything], .field "price" (.range (-1) 10),
         .anyOf [.field "tags" (.list [.text "(\"", .integer 2]), .field "size" (.integer 3)]]]
    (filter.EveryName fun name => isUnmarkedName name) ∧
      filter.groups = [.conjunction, .term, .choice] ∧
      Balanced (skeleton filter.query) ∧ (skeleton filter.query).count '(' = 3 := by
  intro filter
  have hnames : filter.EveryName fun name => isUnmarkedName name := by
    simp [filter, EveryName, everyName, Clause.EveryName, isUnmarkedName]
  obtain ⟨-, hbalanced, -, -, hcount⟩ := query_is_nested filter hnames
  have hgroups : filter.groups = [.conjunction, .term, .choice] := rfl
  exact ⟨hnames, hgroups, hbalanced, by rw [hcount, hgroups]; rfl⟩

end Filter

end HostedSearch
