import HostedSearch.Proofs.Filter.Name
import HostedSearch.Proofs.Filter.NormalForm
import HostedSearch.Proofs.Json.StringText

/-!
# Queries are unambiguous

As long as fields are named by letters, digits and underscores, a query can be taken apart in one
way only, whatever texts it compares with. Its first characters tell what kind of fragment it
begins with, the fragment shows where it ends, and so on to the end or to the parenthesis that
closes the group around. So two filters have the same query exactly when they say the same.
-/

namespace HostedSearch

/-! ## Parts of fragments -/

/-- Digits and minus signs, the characters of integers. -/
def isIntegral (c : Char) : Bool :=
  c.isDigit || c == '-'

/-- A term shows where its value ends. -/
theorem TermValue.chars_append_inj {a b : TermValue} {s t : List Char}
    (h : a.chars ++ ')' :: s = b.chars ++ ')' :: t) : a = b ∧ s = t := by
  have hword (n : Int64) : ∀ c ∈ Filter.int64Text n, isIntegral c := by
    intro c hc
    simpa [isIntegral] using Filter.isDigit_of_mem_int64Text hc
  match a, b with
  | .integer m, .integer n =>
    obtain ⟨hn, hrest⟩ := word_append_inj (hword m) (hword n) (by decide) (by decide) h
    exact ⟨by rw [Filter.int64Text_injective hn], (List.cons.inj hrest).2⟩
  | .integer m, .range low high =>
    simp only [chars, List.append_assoc, List.cons_append] at h
    obtain ⟨-, hrest⟩ := word_append_inj (hword m) (hword low) (by decide) (by decide) h
    exact absurd (List.cons.inj hrest).1 (by decide)
  | .range low high, .integer n =>
    simp only [chars, List.append_assoc, List.cons_append] at h
    obtain ⟨-, hrest⟩ := word_append_inj (hword low) (hword n) (by decide) (by decide) h
    exact absurd (List.cons.inj hrest).1 (by decide)
  | .range low high, .range low' high' =>
    simp only [chars, List.append_assoc, List.cons_append] at h
    obtain ⟨hlow, hrest⟩ := word_append_inj (hword low) (hword low') (by decide) (by decide) h
    have hbehind := (List.cons.inj (List.cons.inj hrest).2).2
    obtain ⟨hhigh, hend⟩ :=
      word_append_inj (hword high) (hword high') (by decide) (by decide) hbehind
    rw [Filter.int64Text_injective hlow, Filter.int64Text_injective hhigh]
    exact ⟨rfl, (List.cons.inj hend).2⟩

/-- A bare item is a number. -/
def ListItem.WellFormed : ListItem → Prop
  | .bare text => ∀ c ∈ text, isNumeric c
  | .quoted _ => True

/-- Quoted texts show where they end. -/
theorem delimited_quoted : Delimited quoted (fun _ => True) (fun _ => True) :=
  fun _ _ _ _ _ _ _ _ _ _ h => quoted_append_inj h

/-- A number does not begin with a double quote. -/
theorem bare_append_ne_quoted_append {text : List Char} (htext : ∀ c ∈ text, isNumeric c)
    {c : Char} (hc : c ≠ '"') (s : List Char) (quoted : String) (t : List Char) :
    text ++ c :: s ≠ Json.stringText quoted ++ t := by
  intro h
  cases text with
  | nil => exact hc (List.cons.inj h).1
  | cons d text =>
    obtain rfl := (List.cons.inj h).1
    exact absurd (htext '"' List.mem_cons_self) (by decide)

/-- Items between brackets show where they end, if no number goes on there. -/
theorem ListItem.delimited_chars :
    Delimited ListItem.chars ListItem.WellFormed (fun c => isNumeric c = false ∧ c ≠ '"') := by
  intro a b c d s t ha hb hc hd h
  match a, b with
  | .bare m, .bare n =>
    obtain ⟨rfl, hrest⟩ := word_append_inj ha hb hc.1 hd.1 h
    exact ⟨rfl, hrest⟩
  | .quoted x, .quoted y =>
    obtain ⟨rfl, hrest⟩ := Json.stringText_append_inj h
    exact ⟨rfl, hrest⟩
  | .bare m, .quoted y => exact absurd h (bare_append_ne_quoted_append ha hc.2 _ _ _)
  | .quoted x, .bare n => exact absurd h.symm (bare_append_ne_quoted_append hb hd.2 _ _ _)

/-! ## Fragments -/

mutual

/-- A fragment that a filter with plain names can give: fields have plain names, lists are not
empty, and what stands bare in them are numbers. -/
def Fragment.WellFormed : Fragment → Prop
  | .group inner => fragmentsWellFormed inner
  | .choice name values => isPlainName name ∧ values ≠ []
  | .phrase name _ => isPlainName name
  | .term name _ => isPlainName name
  | .listing name items => isPlainName name ∧ items ≠ [] ∧ ∀ item ∈ items, item.WellFormed

/-- Fragments that a filter with plain names can give. -/
def fragmentsWellFormed : List Fragment → Prop
  | [] => True
  | fragment :: fragments => fragment.WellFormed ∧ fragmentsWellFormed fragments

end

/-- Nothing goes on behind fragments: the text ends, or the group around them is closed. -/
def EndsFragments (cs : List Char) : Prop :=
  ∀ c ∈ cs.head?, c = ')'

/-- Where fragments end, no fragment begins. -/
theorem EndsFragments.ne_chars_append {cs : List Char} (h : EndsFragments cs) (f : Fragment)
    (s : List Char) : cs ≠ f.chars ++ s := by
  rintro rfl
  obtain ⟨c, rest, hf, hc⟩ := f.exists_chars_eq_cons
  obtain rfl : c = ')' := h c (by simp [hf])
  exact absurd hc (by decide)

/-- The closing parenthesis of a group ends its fragments. -/
theorem endsFragments_paren_cons (cs : List Char) : EndsFragments (')' :: cs) := by
  simp [EndsFragments]

/-- What follows the space before a phrase is no parenthesis. -/
theorem phrase_append_ne_paren {name : String} (hname : isPlainName name) (text s t : List Char) :
    (Fragment.phrase name text).chars ++ s ≠ ' ' :: '(' :: t := by
  intro h
  have hbody : name.toList ++ ':' :: (quoted text ++ s) = '(' :: t := by
    simpa [Fragment.chars] using h
  exact plainName_append_ne_paren_cons hname (by decide) _ _ hbody

mutual

/-- A fragment determines what it says and where it ends. -/
theorem Fragment.chars_append_inj (f g : Fragment) (hf : f.WellFormed) (hg : g.WellFormed)
    {s t : List Char} (h : f.chars ++ s = g.chars ++ t) : f = g ∧ s = t := by
  -- Fragments of two kinds differ in their first three characters.
  cases f with
  | group inner =>
    cases g with
    | group inner' =>
      obtain ⟨rfl, hrest⟩ := fragmentsChars_append_inj inner inner' hf hg
        (endsFragments_paren_cons s) (endsFragments_paren_cons t)
        (by simpa [Fragment.chars] using h)
      exact ⟨rfl, (List.cons.inj hrest).2⟩
    | _ => simp [Fragment.chars] at h
  | choice name values =>
    cases g with
    | choice name' values' =>
      have hbody : name.toList ++ ' ' :: ([' '].intercalate (values.map quoted) ++ ')' :: s) =
          name'.toList ++ ' ' :: ([' '].intercalate (values'.map quoted) ++ ')' :: t) := by
        simpa [Fragment.chars] using h
      obtain ⟨rfl, hvalues⟩ := plainName_append_inj hf.1 hg.1 (by decide) hbody
      obtain ⟨rfl, hrest⟩ := delimited_quoted.intercalate_append_inj trivial trivial (by decide)
        hf.2 hg.2 (fun _ _ => trivial) (fun _ _ => trivial) hvalues
      exact ⟨rfl, hrest⟩
    | _ => simp [Fragment.chars] at h
  | phrase name text =>
    cases g with
    | phrase name' text' =>
      have hbody : name.toList ++ ':' :: (quoted text ++ s) =
          name'.toList ++ ':' :: (quoted text' ++ t) := by
        simpa [Fragment.chars] using h
      obtain ⟨rfl, htext⟩ := plainName_append_inj hf hg (by decide) hbody
      obtain ⟨rfl, hrest⟩ := quoted_append_inj htext
      exact ⟨rfl, hrest⟩
    | term name' value' => exact absurd h (phrase_append_ne_paren hf _ _ _)
    | listing name' items' => exact absurd h (phrase_append_ne_paren hf _ _ _)
    | _ => simp [Fragment.chars] at h
  | term name value =>
    cases g with
    | term name' value' =>
      have hbody : name.toList ++ ' ' :: (value.chars ++ ')' :: s) =
          name'.toList ++ ' ' :: (value'.chars ++ ')' :: t) := by
        simpa [Fragment.chars] using h
      obtain ⟨rfl, hvalue⟩ := plainName_append_inj hf hg (by decide) hbody
      obtain ⟨rfl, hrest⟩ := TermValue.chars_append_inj hvalue
      exact ⟨rfl, hrest⟩
    | phrase name' text' => exact absurd h.symm (phrase_append_ne_paren hg _ _ _)
    | _ => simp [Fragment.chars] at h
  | listing name items =>
    cases g with
    | listing name' items' =>
      have hbody : name.toList ++ ' ' :: '[' ::
            ([',', ' '].intercalate (items.map ListItem.chars) ++ ']' :: ')' :: s) =
          name'.toList ++ ' ' :: '[' ::
            ([',', ' '].intercalate (items'.map ListItem.chars) ++ ']' :: ')' :: t) := by
        simpa [Fragment.chars] using h
      obtain ⟨rfl, hitems⟩ := plainName_append_inj hf.1 hg.1 (by decide) hbody
      obtain ⟨rfl, hrest⟩ := ListItem.delimited_chars.intercalate_append_inj (by decide)
        (by decide) (by decide) hf.2.1 hg.2.1 hf.2.2 hg.2.2 (List.cons.inj hitems).2
      exact ⟨rfl, (List.cons.inj hrest).2⟩
    | phrase name' text' => exact absurd h.symm (phrase_append_ne_paren hg _ _ _)
    | _ => simp [Fragment.chars] at h

/-- Fragments determine what they say and where they end. -/
theorem fragmentsChars_append_inj (fs gs : List Fragment) (hfs : fragmentsWellFormed fs)
    (hgs : fragmentsWellFormed gs) {s t : List Char} (hs : EndsFragments s)
    (ht : EndsFragments t) (h : fragmentsChars fs ++ s = fragmentsChars gs ++ t) :
    fs = gs ∧ s = t := by
  match fs, gs with
  | [], [] => exact ⟨rfl, h⟩
  | [], g :: gs => exact absurd (by simpa [fragmentsChars] using h) (hs.ne_chars_append g _)
  | f :: fs, [] => exact absurd (by simpa [fragmentsChars] using h.symm) (ht.ne_chars_append f _)
  | f :: fs, g :: gs =>
    simp only [fragmentsChars, List.append_assoc] at h
    obtain ⟨rfl, hrest⟩ := Fragment.chars_append_inj f g hfs.1 hgs.1 h
    obtain ⟨rfl, hend⟩ := fragmentsChars_append_inj fs gs hfs.2 hgs.2 hs ht hrest
    exact ⟨rfl, hend⟩

end

/-! ## Filters -/

/-- Well-formed fragments may follow one another. -/
theorem fragmentsWellFormed_append {fs gs : List Fragment} (hfs : fragmentsWellFormed fs)
    (hgs : fragmentsWellFormed gs) : fragmentsWellFormed (fs ++ gs) := by
  induction fs with
  | nil => exact hgs
  | cons f fs ih => exact ⟨hfs.1, ih hfs.2⟩

/-- A scalar is a well-formed item. -/
theorem Scalar.wellFormed_item (value : Scalar) : value.item.WellFormed := by
  cases value with
  | text s => trivial
  | integer n => exact fun _ => Filter.isNumeric_of_mem_int64Text
  | float x => exact fun _ => Filter.isNumeric_of_mem_floatText

/-- A constraint on a plainly named field gives well-formed fragments. -/
theorem Constraint.wellFormed_normalForm {name : String} (hname : isPlainName name)
    (value : Constraint) : fragmentsWellFormed (value.normalForm name) := by
  cases value with
  | anything => trivial
  | text s =>
    by_cases hs : s.isEmpty
    · simp [Constraint.normalForm, hs, fragmentsWellFormed]
    · simp [Constraint.normalForm, hs, fragmentsWellFormed, Fragment.WellFormed, hname]
  | integer n => exact ⟨hname, trivial⟩
  | float x => exact ⟨hname, trivial⟩
  | range low high => exact ⟨hname, trivial⟩
  | list values =>
    by_cases hvalues : values.isEmpty
    · simp [Constraint.normalForm, hvalues, fragmentsWellFormed]
    · have hitems : ∀ item ∈ values.map Scalar.item, item.WellFormed := by
        rw [List.forall_mem_map]
        exact fun value _ => value.wellFormed_item
      have hne : values.map Scalar.item ≠ [] := by simpa using hvalues
      rw [Constraint.normalForm, if_neg hvalues]
      exact ⟨⟨hname, hne, hitems⟩, trivial⟩

/-- An alternative of plainly named fields gives well-formed fragments. -/
theorem Clause.wellFormed_choices {clause : Clause}
    (h : clause.EveryName fun name => isPlainName name) :
    fragmentsWellFormed clause.choices := by
  cases clause with
  | field name value =>
    cases value with
    | list values =>
      by_cases hvalues : values.isEmpty
      · simp [Clause.choices, hvalues, fragmentsWellFormed]
      · have hname : isPlainName name := h
        have hne : values.map Filter.scalarText ≠ [] := by simpa using hvalues
        rw [Clause.choices, if_neg hvalues]
        exact ⟨⟨hname, hne⟩, trivial⟩
    | _ => trivial
  | _ => trivial

/-- A choice between plainly named fields gives well-formed fragments. -/
theorem wellFormed_flatMap_choices {inner : List Clause}
    (h : everyName (fun name => isPlainName name) inner) :
    fragmentsWellFormed (inner.flatMap Clause.choices) := by
  induction inner with
  | nil => trivial
  | cons clause inner ih =>
    rw [List.flatMap_cons]
    exact fragmentsWellFormed_append (Clause.wellFormed_choices h.1) (ih h.2)

mutual

/-- A clause with plain names gives well-formed fragments. -/
theorem Clause.wellFormed_normalForm (clause : Clause)
    (h : clause.EveryName fun name => isPlainName name) :
    fragmentsWellFormed clause.normalForm := by
  cases clause with
  | allOf inner =>
    have hinner := wellFormed_clausesNormalForm inner h
    by_cases hempty : clausesNormalForm inner = []
    · simp [Clause.normalForm, hempty, fragmentsWellFormed]
    · simp [Clause.normalForm, hempty, fragmentsWellFormed, Fragment.WellFormed, hinner]
  | anyOf inner => exact wellFormed_flatMap_choices h
  | noneOf inner => trivial
  | field name value => exact value.wellFormed_normalForm h

/-- Clauses with plain names give well-formed fragments. -/
theorem wellFormed_clausesNormalForm (clauses : List Clause)
    (h : everyName (fun name => isPlainName name) clauses) :
    fragmentsWellFormed (clausesNormalForm clauses) := by
  cases clauses with
  | nil => trivial
  | cons clause clauses =>
    exact fragmentsWellFormed_append (Clause.wellFormed_normalForm clause h.1)
      (wellFormed_clausesNormalForm clauses h.2)

end

namespace Filter

/-- Filters that say the same have the same query, and with plain names filters that have the
same query say the same. -/
theorem query_determines_normalForm (filter other : Filter) :
    (filter.normalForm = other.normalForm → filter.query = other.query) ∧
      ((filter.EveryName fun name => isPlainName name) →
        (other.EveryName fun name => isPlainName name) →
        filter.query = other.query → filter.normalForm = other.normalForm) := by
  constructor
  · intro hsame
    rw [query_eq_ofList_normalForm, query_eq_ofList_normalForm, hsame]
  · intro hfilter hother hquery
    rw [query_eq_ofList_normalForm, query_eq_ofList_normalForm, String.ofList_inj] at hquery
    have hends : EndsFragments [] := by simp [EndsFragments]
    exact (fragmentsChars_append_inj _ _ (wellFormed_clausesNormalForm _ hfilter)
      (wellFormed_clausesNormalForm _ hother) hends hends (congrArg (· ++ []) hquery)).1

/-- An exclusion and an open constraint leave no trace in a query, though the text beside them
holds quotes and parentheses. -/
theorem query_determines_normalForm_of_exclusion :
    let filter : Filter :=
      [.allOf [.noneOf [.field "stale" (.text "yes")], .field "type" (.text "a')(or b \\'")]]
    let other : Filter := [.allOf [.field "type" (.text "a')(or b \\'"), .field "x" .anything]]
    (filter.EveryName fun name => isPlainName name) ∧
      (other.EveryName fun name => isPlainName name) ∧
      filter.query = other.query ∧ filter.normalForm = other.normalForm := by
  intro filter other
  have hfilter : filter.EveryName fun name => isPlainName name := by
    simp [filter, EveryName, everyName, Clause.EveryName, isPlainName]
  have hother : other.EveryName fun name => isPlainName name := by
    simp [other, EveryName, everyName, Clause.EveryName, isPlainName]
  have hquery : filter.query = other.query :=
    (query_determines_normalForm filter other).1 (by rfl)
  exact ⟨hfilter, hother, hquery,
    (query_determines_normalForm filter other).2 hfilter hother hquery⟩

end Filter

end HostedSearch
