import HostedSearch.Filter.Json
import HostedSearch.Proofs.Filter.RangeText
import HostedSearch.Proofs.Json.ValueText
import HostedSearch.Proofs.Number.IntegerText

/-!
# Texts that are read as ranges

A text that constrains a field is a range when it is written as one, with ASCII digits, and both of
its integers fit. Any other text stands for itself, with two exceptions. A range of integers that
do not fit is refused, as it should be. But the form of a range is looked for with digits of all
scripts, while only ASCII digits can be read: so a text with other digits in that form is refused
too, though it is no range. The text that a query has for a range is always read back.
-/

namespace HostedSearch

namespace Range

/-- The text is two integers with `..` between them, and white space around either. -/
def IsLiteral (cs : List Char) (low high : Int) : Prop :=
  ∃ lowText highText, HasForm cs lowText highText ∧ IsInteger lowText low ∧ IsInteger highText high

/-- The text has the form of a range, but a digit in it is no ASCII digit. -/
def HasForeignDigit (cs : List Char) : Prop :=
  ∃ low high, HasForm cs low high ∧ ∃ c ∈ low ++ high, c ≠ '-' ∧ c.isDigit = false

/-- The form of a range shows its bounds. -/
theorem HasForm.unique {cs low high low' high' : List Char} (h : HasForm cs low high)
    (h' : HasForm cs low' high') : low = low' ∧ high = high' := by
  have hbounds := bounds?_eq_some_iff.mpr h
  rw [bounds?_eq_some_iff.mpr h', Option.some.injEq, Prod.mk.injEq] at hbounds
  exact ⟨hbounds.1.symm, hbounds.2.symm⟩

/-- The bounds of a text in the form of a range are bounds. -/
theorem HasForm.isBound {cs low high : List Char} (h : HasForm cs low high) :
    IsBound low ∧ IsBound high := by
  obtain ⟨-, -, -, -, -, hlow, hhigh, -⟩ := h
  exact ⟨hlow, hhigh⟩

/-! ## Bounds -/

/-- A bound has no plus sign in front. -/
theorem IsBound.ne_plus_cons {cs : List Char} (h : IsBound cs) (rest : List Char) :
    cs ≠ '+' :: rest := by
  obtain ⟨digits, -, hdigits, rfl | rfl⟩ := h
  · rintro rfl
    exact absurd (hdigits '+' List.mem_cons_self) (by decide)
  · simp

/-- A bound is an integer exactly when all its digits are ASCII digits. -/
theorem IsBound.exists_isInteger_iff {cs : List Char} (h : IsBound cs) :
    (∃ i, IsInteger cs i) ↔ ∀ c ∈ cs, c ≠ '-' → c.isDigit := by
  constructor
  · rintro ⟨i, ⟨-, hdigits⟩ | ⟨-, hdigits⟩⟩
    · exact fun c hc _ => hdigits c hc
    · intro c hc hminus
      exact hdigits c ((List.mem_cons.mp hc).resolve_left hminus)
  · intro hascii
    obtain ⟨digits, hne, hdigits, hcs⟩ := h
    have hminus : ∀ c ∈ digits, c ≠ '-' := by
      rintro c hc rfl
      exact absurd (hdigits '-' hc) (by decide)
    obtain rfl | rfl := hcs
    · exact ⟨_, .digits hne fun c hc => hascii c hc (hminus c hc)⟩
    · exact ⟨_, .negative hne fun c hc => hascii c (List.mem_cons_of_mem _ hc) (hminus c hc)⟩

/-- A bound is read exactly as the integer that it stands for, if that fits. -/
theorem IsBound.readBound_eq_ok_iff {cs : List Char} (h : IsBound cs) {n : Int64} :
    readBound cs = .ok n ↔ IsInteger cs n.toInt := by
  rw [← readInt64_eq_ok_iff h.ne_plus_cons, readBound]
  cases readInt64 cs <;> simp

/-- A bound that is an integer is read exactly when it fits. -/
theorem IsBound.exists_readBound_iff {cs : List Char} (h : IsBound cs) {i : Int}
    (hi : IsInteger cs i) : (∃ n, readBound cs = .ok n) ↔ FitsInt64 i := by
  constructor
  · rintro ⟨n, hn⟩
    rw [hi.unique (h.readBound_eq_ok_iff.mp hn)]
    exact fitsInt64_toInt n
  · intro hfits
    refine ⟨Int64.ofInt i, h.readBound_eq_ok_iff.mpr ?_⟩
    rwa [hfits.toInt_ofInt]

/-! ## Literals -/

/-- A text is a range of two integers only. -/
theorem IsLiteral.unique {cs : List Char} {low high low' high' : Int} (h : IsLiteral cs low high)
    (h' : IsLiteral cs low' high') : low = low' ∧ high = high' := by
  obtain ⟨lowText, highText, hform, hlow, hhigh⟩ := h
  obtain ⟨lowText', highText', hform', hlow', hhigh'⟩ := h'
  obtain ⟨rfl, rfl⟩ := hform.unique hform'
  exact ⟨hlow.unique hlow', hhigh.unique hhigh'⟩

/-- A range of integers has no foreign digit. -/
theorem IsLiteral.not_hasForeignDigit {cs : List Char} {low high : Int}
    (h : IsLiteral cs low high) : ¬ HasForeignDigit cs := by
  rintro ⟨lowText, highText, hform, c, hc, hminus, hdigit⟩
  obtain ⟨lowText', highText', hform', hlow, hhigh⟩ := h
  obtain ⟨rfl, rfl⟩ := hform.unique hform'
  obtain ⟨hboundLow, hboundHigh⟩ := hform.isBound
  have hascii : c.isDigit := by
    obtain hc | hc := List.mem_append.mp hc
    · exact hboundLow.exists_isInteger_iff.mp ⟨low, hlow⟩ c hc hminus
    · exact hboundHigh.exists_isInteger_iff.mp ⟨high, hhigh⟩ c hc hminus
  rw [hascii] at hdigit
  cases hdigit

/-- A text in the form of a range whose bounds are read is a range of the integers read. -/
theorem HasForm.isLiteral_toInt {cs lowText highText : List Char} (h : HasForm cs lowText highText)
    {low high : Int64} (hlow : readBound lowText = .ok low)
    (hhigh : readBound highText = .ok high) : IsLiteral cs low.toInt high.toInt :=
  ⟨lowText, highText, h, h.isBound.1.readBound_eq_ok_iff.mp hlow,
    h.isBound.2.readBound_eq_ok_iff.mp hhigh⟩

/-- A text in the form of a range is one of integers, if it has no foreign digit. -/
theorem HasForm.exists_isLiteral {cs lowText highText : List Char} (h : HasForm cs lowText highText)
    (hforeign : ¬ HasForeignDigit cs) :
    ∃ low high, IsInteger lowText low ∧ IsInteger highText high := by
  have hascii : ∀ c ∈ lowText ++ highText, c ≠ '-' → c.isDigit := by
    intro c hc hminus
    by_contra hdigit
    exact hforeign ⟨lowText, highText, h, c, hc, hminus, by simpa using hdigit⟩
  rw [List.forall_mem_append] at hascii
  obtain ⟨hboundLow, hboundHigh⟩ := h.isBound
  obtain ⟨low, hlow⟩ := hboundLow.exists_isInteger_iff.mpr hascii.1
  obtain ⟨high, hhigh⟩ := hboundHigh.exists_isInteger_iff.mpr hascii.2
  exact ⟨low, high, hlow, hhigh⟩

end Range

namespace Filter

open HostedSearch.Range

/-! ## Texts as constraints -/

/-- A text in the form of a range is refused if one of its bounds is not read. -/
theorem exists_constraintOfText_eq_error {s : String} {lowText highText : List Char}
    (h : HasForm s.toList lowText highText)
    (hread : ¬ ((∃ low, readBound lowText = .ok low) ∧ ∃ high, readBound highText = .ok high)) :
    ∃ fault, constraintOfText s = .error (.badBound fault) := by
  have herror : ∃ fault, ofText? s = .error fault := by
    rw [ofText?, bounds?_eq_some_iff.mpr h]
    cases hlow : readBound lowText with
    | error fault => exact ⟨fault, by simp only [hlow]; rfl⟩
    | ok low =>
      cases hhigh : readBound highText with
      | error fault => exact ⟨fault, by simp only [hlow, hhigh]; rfl⟩
      | ok high => exact absurd ⟨⟨low, hlow⟩, high, hhigh⟩ hread
  obtain ⟨fault, hfault⟩ := herror
  exact ⟨fault, by rw [constraintOfText, hfault]⟩

/-- What a text comes to as a constraint. -/
inductive TextReading (s : String) : Except Fault Constraint → Prop where
  /-- A text without the form of a range stands for itself. -/
  | text (h : ∀ low high, ¬ HasForm s.toList low high) : TextReading s (.ok (.text s))
  /-- A range of integers that fit. -/
  | range {low high : Int64} (h : IsLiteral s.toList low.toInt high.toInt) :
    TextReading s (.ok (.range low high))
  /-- A range of integers that do not both fit is refused. -/
  | unfit {low high : Int} (h : IsLiteral s.toList low high)
    (hunfit : ¬ (FitsInt64 low ∧ FitsInt64 high)) (fault : BoundFault) :
    TextReading s (.error (.badBound fault))
  /-- The form of a range with a foreign digit is refused. -/
  | foreign (h : HasForeignDigit s.toList) (fault : BoundFault) :
    TextReading s (.error (.badBound fault))

/-- There are no more cases than these. -/
theorem textReading_constraintOfText (s : String) : TextReading s (constraintOfText s) := by
  by_cases hform : ∃ low high, HasForm s.toList low high
  · obtain ⟨lowText, highText, hform⟩ := hform
    by_cases hforeign : HasForeignDigit s.toList
    · have hread : ¬ ((∃ low, readBound lowText = .ok low) ∧
          ∃ high, readBound highText = .ok high) := by
        rintro ⟨⟨low, hlow⟩, high, hhigh⟩
        exact (hform.isLiteral_toInt hlow hhigh).not_hasForeignDigit hforeign
      obtain ⟨fault, hfault⟩ := exists_constraintOfText_eq_error hform hread
      rw [hfault]
      exact .foreign hforeign fault
    · obtain ⟨low, high, hlow, hhigh⟩ := hform.exists_isLiteral hforeign
      have hreadLow := hform.isBound.1.exists_readBound_iff hlow
      have hreadHigh := hform.isBound.2.exists_readBound_iff hhigh
      by_cases hfit : FitsInt64 low ∧ FitsInt64 high
      · obtain ⟨low', hlow'⟩ := hreadLow.mpr hfit.1
        obtain ⟨high', hhigh'⟩ := hreadHigh.mpr hfit.2
        rw [constraintOfText, ofText?_of_readBound hform hlow' hhigh']
        exact .range (hform.isLiteral_toInt hlow' hhigh')
      · have hread : ¬ ((∃ low, readBound lowText = .ok low) ∧
            ∃ high, readBound highText = .ok high) := by
          rwa [hreadLow, hreadHigh]
        obtain ⟨fault, hfault⟩ := exists_constraintOfText_eq_error hform hread
        rw [hfault]
        exact .unfit ⟨lowText, highText, hform, hlow, hhigh⟩ hfit fault
  · have hnone : ∀ low high, ¬ HasForm s.toList low high :=
      fun low high h => hform ⟨low, high, h⟩
    rw [constraintOfText, ofText?_of_not_hasForm hnone]
    exact .text hnone

/-- A text is read as a range exactly when it is written as one of integers that fit. -/
theorem constraintOfText_eq_range_iff {s : String} {low high : Int64} :
    constraintOfText s = .ok (.range low high) ↔ IsLiteral s.toList low.toInt high.toInt := by
  have hreading := textReading_constraintOfText s
  generalize constraintOfText s = result at hreading
  cases hreading with
  | text hnone =>
    refine ⟨fun h => (by cases h), fun ⟨lowText, highText, hform, _⟩ => ?_⟩
    exact absurd hform (hnone lowText highText)
  | @range low' high' hliteral =>
    constructor
    · intro h
      obtain ⟨rfl, rfl⟩ := Constraint.range.inj (Except.ok.inj h)
      exact hliteral
    · intro h
      obtain ⟨hlow, hhigh⟩ := hliteral.unique h
      rw [Int64.toInt_inj.mp hlow, Int64.toInt_inj.mp hhigh]
  | unfit hliteral hunfit =>
    refine ⟨fun h => (by cases h), fun h => ?_⟩
    obtain ⟨rfl, rfl⟩ := hliteral.unique h
    exact absurd ⟨fitsInt64_toInt low, fitsInt64_toInt high⟩ hunfit
  | foreign hforeign =>
    exact ⟨fun h => (by cases h), fun h => absurd hforeign h.not_hasForeignDigit⟩

/-- A text stands for itself exactly when it is not written as a range and has no foreign digit. -/
theorem constraintOfText_eq_text_iff {s : String} :
    constraintOfText s = .ok (.text s) ↔
      (∀ low high, ¬ IsLiteral s.toList low high) ∧ ¬ HasForeignDigit s.toList := by
  have hreading := textReading_constraintOfText s
  generalize constraintOfText s = result at hreading
  cases hreading with
  | text hnone =>
    refine ⟨fun _ => ⟨?_, ?_⟩, fun _ => rfl⟩
    · rintro low high ⟨lowText, highText, hform, -⟩
      exact hnone lowText highText hform
    · rintro ⟨lowText, highText, hform, -⟩
      exact hnone lowText highText hform
  | range hliteral => exact ⟨fun h => (by cases h), fun h => absurd hliteral (h.1 _ _)⟩
  | unfit hliteral _ => exact ⟨fun h => (by cases h), fun h => absurd hliteral (h.1 _ _)⟩
  | foreign hforeign => exact ⟨fun h => (by cases h), fun h => absurd hforeign h.2⟩

/-- A text is refused exactly when it is written as a range of integers that do not both fit, or
has a foreign digit. -/
theorem exists_constraintOfText_eq_error_iff {s : String} :
    (∃ fault, constraintOfText s = .error fault) ↔
      (∃ low high, IsLiteral s.toList low high ∧ ¬ (FitsInt64 low ∧ FitsInt64 high)) ∨
        HasForeignDigit s.toList := by
  have hreading := textReading_constraintOfText s
  generalize constraintOfText s = result at hreading
  cases hreading with
  | text hnone =>
    refine ⟨fun ⟨_, h⟩ => (by cases h), ?_⟩
    rintro (⟨-, -, ⟨lowText, highText, hform, -⟩, -⟩ | ⟨lowText, highText, hform, -⟩)
    · exact absurd hform (hnone lowText highText)
    · exact absurd hform (hnone lowText highText)
  | range hliteral =>
    refine ⟨fun ⟨_, h⟩ => (by cases h), ?_⟩
    rintro (⟨low', high', hliteral', hunfit⟩ | hforeign)
    · obtain ⟨rfl, rfl⟩ := hliteral.unique hliteral'
      exact absurd ⟨fitsInt64_toInt _, fitsInt64_toInt _⟩ hunfit
    · exact absurd hforeign hliteral.not_hasForeignDigit
  | unfit hliteral hunfit => exact ⟨fun _ => .inl ⟨_, _, hliteral, hunfit⟩, fun _ => ⟨_, rfl⟩⟩
  | foreign hforeign => exact ⟨fun _ => .inr hforeign, fun _ => ⟨_, rfl⟩⟩

/-! ## Texts as members -/

/-- The member of a text is a clause exactly when the text is its constraint. -/
theorem clauseOfMember_string_eq_ok_iff {name s : String} {value : Constraint} :
    clauseOfMember name (.string s) = .ok (.field name value) ↔ constraintOfText s = .ok value := by
  change (constraintOfText s).map (Clause.field name) = _ ↔ _
  cases constraintOfText s with
  | error fault => exact ⟨fun h => (by cases h), fun h => (by cases h)⟩
  | ok value' =>
    constructor
    · intro h
      obtain ⟨-, rfl⟩ := Clause.field.inj (Except.ok.inj h)
      rfl
    · intro h
      rw [Except.ok.inj h]
      rfl

/-- The member of a text is refused exactly when the text is. -/
theorem exists_clauseOfMember_string_eq_error_iff {name s : String} :
    (∃ fault, clauseOfMember name (.string s) = .error fault) ↔
      ∃ fault, constraintOfText s = .error fault := by
  change (∃ fault, (constraintOfText s).map (Clause.field name) = .error fault) ↔ _
  cases constraintOfText s with
  | error fault => exact ⟨fun _ => ⟨fault, rfl⟩, fun _ => ⟨fault, rfl⟩⟩
  | ok value => exact ⟨fun ⟨_, h⟩ => (by cases h), fun ⟨_, h⟩ => (by cases h)⟩

/-- A text as the value of a field is read as a range exactly when it is written as one of integers
that fit, is refused exactly when it is written as one of integers that do not both fit, and stands
for itself exactly when it is not written as a range. -/
structure ReadAsWritten (name s : String) : Prop where
  range_iff (low high : Int64) :
    clauseOfMember name (.string s) = .ok (.field name (.range low high)) ↔
      IsLiteral s.toList low.toInt high.toInt
  refused_iff :
    (∃ fault, clauseOfMember name (.string s) = .error fault) ↔
      ∃ low high, IsLiteral s.toList low high ∧ ¬ (FitsInt64 low ∧ FitsInt64 high)
  text_iff :
    clauseOfMember name (.string s) = .ok (.field name (.text s)) ↔
      ∀ low high, ¬ IsLiteral s.toList low high

/-- A text is read as it is written exactly when it is not in the form of a range with a foreign
digit. The texts with such a digit are those that are refused without being written as a range. -/
theorem readAsWritten_iff_not_hasForeignDigit (name s : String) :
    (ReadAsWritten name s ↔ ¬ HasForeignDigit s.toList) ∧
      ((∀ low high, ¬ IsLiteral s.toList low high) ∧
          (∃ fault, clauseOfMember name (.string s) = .error fault) ↔
        HasForeignDigit s.toList) := by
  have hrefused :
      (∃ fault, clauseOfMember name (.string s) = .error fault) ↔
        (∃ low high, IsLiteral s.toList low high ∧ ¬ (FitsInt64 low ∧ FitsInt64 high)) ∨
          HasForeignDigit s.toList := by
    rw [exists_clauseOfMember_string_eq_error_iff, exists_constraintOfText_eq_error_iff]
  have hnone (h : HasForeignDigit s.toList) (low high : Int) : ¬ IsLiteral s.toList low high :=
    fun hliteral => hliteral.not_hasForeignDigit h
  constructor
  · constructor
    · intro hwritten h
      obtain ⟨fault, hfault⟩ := hrefused.mpr (.inr h)
      rw [hwritten.text_iff.mpr (hnone h)] at hfault
      cases hfault
    · intro h
      refine ⟨fun low high => ?_, ?_, ?_⟩
      · rw [clauseOfMember_string_eq_ok_iff, constraintOfText_eq_range_iff]
      · rw [hrefused, or_iff_left h]
      · rw [clauseOfMember_string_eq_ok_iff, constraintOfText_eq_text_iff, and_iff_left h]
  · constructor
    · rintro ⟨hplain, hfault⟩
      obtain ⟨low, high, hliteral, -⟩ | h := hrefused.mp hfault
      · exact absurd hliteral (hplain low high)
      · exact h
    · intro h
      exact ⟨hnone h, hrefused.mpr (.inr h)⟩

/-- A text with Arabic digits around two dots is refused, though it is not written as a range. -/
theorem foreign_digits_are_refused :
    (∀ low high, ¬ IsLiteral "\u0661..\u0662".toList low high) ∧
      ∃ fault, ofJson (.object [("size", .string "\u0661..\u0662")]) = .error fault := by
  have hform : HasForm "\u0661..\u0662".toList ['\u0661'] ['\u0662'] :=
    bounds?_eq_some_iff.mp (by decide)
  have hforeign : HasForeignDigit "\u0661..\u0662".toList :=
    ⟨_, _, hform, '\u0661', List.mem_cons_self, by decide, by decide⟩
  exact ⟨fun low high hliteral => hliteral.not_hasForeignDigit hforeign, _, rfl⟩

/-! ## Ranges of queries -/

/-- The text of a range, with white space around its bounds. -/
def paddedRange (before behindLow beforeHigh behind : List Char) (low high : Int64) : String :=
  String.ofList (before ++ (int64Text low ++ (behindLow ++ '.' :: '.' ::
    (beforeHigh ++ (int64Text high ++ behind)))))

/-- A range is read back from its text with white space around its bounds. -/
theorem constraintOfText_paddedRange {before behindLow beforeHigh behind : List Char}
    (hblank : ∀ c ∈ before ++ behindLow ++ beforeHigh ++ behind, isBlank c) (low high : Int64) :
    constraintOfText (paddedRange before behindLow beforeHigh behind low high) =
      .ok (.range low high) := by
  have hread : ofText? (paddedRange before behindLow beforeHigh behind low high) =
      .ok (some ⟨low, high⟩) := by
    apply ofText?_of_hasForm
    refine ⟨before, behindLow, beforeHigh, behind, hblank, isBound_int64Text low,
      isBound_int64Text high, ?_⟩
    rw [paddedRange, String.toList_ofList]
  rw [constraintOfText, hread]

/-- An object with a text as its only member is read back from its text as that member. -/
theorem ofText_compact_string (field s : String) :
    ofText (Json.object [(field, .string s)]).compact =
      (clauseOfMember field (.string s)).map fun clause => [clause] := by
  have hreadable : Json.Readable Json.maxDepth (.object [(field, .string s)]) := by
    refine .object (by simp) ?_
    rw [List.forall_mem_singleton]
    exact .scalar ⟨by simp, by simp⟩
  rw [ofText, Json.parse_compact hreadable]
  change ofMembers [(field, .string s)] = _
  rw [ofMembers]
  cases clauseOfMember field (.string s) <;> rfl

/-- The query of a range holds the text of its bounds with two dots between them. This text, alone
or with white space around its bounds, is read as the same range, as the value of any field of a
filter in JSON. -/
theorem range_text_reads_back (name field : String) (low high : Int64)
    {before behindLow beforeHigh behind : List Char}
    (hblank : ∀ c ∈ before ++ behindLow ++ beforeHigh ++ behind, isBlank c) :
    query [.field name (.range low high)] =
        " (term field=" ++ name ++ " " ++ paddedRange [] [] [] [] low high ++ ")" ∧
      constraintOfJson field (.string (paddedRange [] [] [] [] low high)) = .ok (.range low high) ∧
      constraintOfJson field (.string (paddedRange before behindLow beforeHigh behind low high)) =
        .ok (.range low high) ∧
      ofText (Json.object
          [(field, .string (paddedRange before behindLow beforeHigh behind low high))]).compact =
        .ok [.field field (.range low high)] := by
  have hpadded := constraintOfText_paddedRange hblank low high
  refine ⟨?_, constraintOfText_paddedRange (by simp) low high, hpadded, ?_⟩
  · rw [← String.toList_inj]
    simp [query, fragments, clauseFragment, fieldFragment, Constraint.isEmpty, paddedRange]
  · rw [ofText_compact_string, clauseOfMember_string_eq_ok_iff.mpr hpadded]
    rfl

/-- The least integer and a negative upper bound, with a line break and wide spaces around them. -/
theorem range_text_reads_back_of_least :
    (∀ c ∈ ['\n'] ++ ['\u00a0', '\t'] ++ [] ++ ['\u3000'], isBlank c) ∧
      constraintOfJson "price"
          (.string (paddedRange ['\n'] ['\u00a0', '\t'] [] ['\u3000'] Int64.minValue (-1))) =
        .ok (.range Int64.minValue (-1)) := by
  have hblank : ∀ c ∈ ['\n'] ++ ['\u00a0', '\t'] ++ [] ++ ['\u3000'], isBlank c :=
    List.all_eq_true.mp rfl
  exact ⟨hblank, (range_text_reads_back "price" "price" Int64.minValue (-1) hblank).2.2.1⟩

end Filter

end HostedSearch
