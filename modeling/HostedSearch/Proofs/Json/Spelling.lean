import HostedSearch.Proofs.Association
import HostedSearch.Proofs.Json.Enclosed
import HostedSearch.Proofs.Json.NumberText
import HostedSearch.Proofs.Json.Record
import HostedSearch.Proofs.Json.Skipping
import HostedSearch.Proofs.Json.StringText

/-!
# Spellings of values

A value may be spelled in many ways: with space around its tokens, with escapes in its strings, with
small or capital exponents. Whatever the spelling, the general reader takes the value back, if no
more containers are nested than it allows. What is only passed over need not be a value at all, as
long as it is well-formed: its numbers may be of any size, its containers of any depth, its code
units unpaired and its names repeated.
-/

namespace HostedSearch

namespace Json

/-- The body of a well-formed string, whose code units need not stand for characters. -/
inductive IsStringBody : List Char → Prop
  | nil : IsStringBody []
  | plain {c : Char} {cs : List Char} (hprintable : 0x20 ≤ c.toNat) (hquote : c ≠ '"')
      (hslash : c ≠ '\\') (h : IsStringBody cs) : IsStringBody (c :: cs)
  | escape {letter : Char} {cs : List Char} (hletter : (unescapeLetter? letter).isSome)
      (h : IsStringBody cs) : IsStringBody ('\\' :: letter :: cs)
  | unit {a b c d : Char} {cs : List Char} (hunit : (hexValue4? a b c d).isSome)
      (h : IsStringBody cs) : IsStringBody ('\\' :: 'u' :: a :: b :: c :: d :: cs)

/-- A well-formed string between its quotes. -/
inductive IsStringText : List Char → Prop
  | mk {body : List Char} (h : IsStringBody body) : IsStringText ('"' :: (body ++ ['"']))

/-- The value is one of the three that have a word of their own. -/
inductive IsLiteral : Json → Prop
  | null : IsLiteral .null
  | bool (b : Bool) : IsLiteral (.bool b)

/-- A well-formed text, whether there is a value for it or not. -/
inductive IsText : List Char → Prop
  | literal {v : Json} (h : v.IsLiteral) : IsText v.literalText
  | number {numeral : Numeral} {text : List Char} (hnumeral : numeral.WellFormed)
      (h : numeral.SpelledAs text) : IsText text
  | string {text : List Char} (h : IsStringText text) : IsText text
  | array {items : List (List Char)} {text : List Char} (hitems : ∀ item ∈ items, IsText item)
      (h : Enclosed '[' ']' items text) : IsText text
  | object {members : List (Unit × List Char)} {texts : List (List Char)} {text : List Char}
      (hvalues : ∀ m ∈ members, IsText m.2)
      (hspelled : List.Forall₂ (MemberSpelledAs fun _ => IsStringText) members texts)
      (h : Enclosed '{' '}' texts text) : IsText text

/-- A text of a value in which at most `depth` containers are nested and no name is repeated. -/
inductive IsTextOf : Nat → Json → List Char → Prop
  | literal {depth : Nat} {v : Json} (h : v.IsLiteral) : IsTextOf depth v v.literalText
  | number {depth : Nat} {numeral : Numeral} {n : Number} {text : List Char}
      (hnumeral : numeral.WellFormed) (hn : numeral.toNumber? = some n)
      (h : numeral.SpelledAs text) : IsTextOf depth (.number n) text
  | string {depth : Nat} {s : String} {text : List Char} (h : StringSpelledAs s text) :
    IsTextOf depth (.string s) text
  | array {depth : Nat} {items : List (Json × List Char)} {text : List Char}
      (hitems : ∀ item ∈ items, IsTextOf depth item.1 item.2)
      (h : Enclosed '[' ']' (items.map Prod.snd) text) :
    IsTextOf (depth + 1) (.array (items.map Prod.fst)) text
  | object {depth : Nat} {members : List (String × Json × List Char)} {texts : List (List Char)}
      {text : List Char} (hnames : (members.map Prod.fst).Nodup)
      (hvalues : ∀ m ∈ members, IsTextOf depth m.2.1 m.2.2)
      (hspelled : List.Forall₂ (MemberSpelledAs StringSpelledAs)
        (members.map fun m => (m.1, m.2.2)) texts)
      (h : Enclosed '{' '}' texts text) :
    IsTextOf (depth + 1) (.object (members.map fun m => (m.1, m.2.1))) text

/-! ## First characters -/

/-- What is enclosed begins with the opening character. -/
theorem Enclosed.startsItem {opening closing : Char} {texts : List (List Char)} {whole : List Char}
    (h : Enclosed opening closing texts whole)
    (hopening : isSpace opening = false ∧ opening ≠ ']') : StartsItem whole := by
  cases h with
  | empty hspace => exact ⟨opening, _, rfl, hopening⟩
  | full hbefore h => exact ⟨opening, _, rfl, hopening⟩

/-- The first character of a number is no space and no closing bracket. -/
theorem isSpace_eq_false_of_isDigit_or_minus {c : Char} (hc : c.isDigit ∨ c = '-') :
    isSpace c = false ∧ c ≠ ']' := by
  obtain hc | rfl := hc
  · refine ⟨Bool.eq_false_iff.mpr fun hspace => ?_, ?_⟩
    · have hnumeric := isNumeric_eq_false_of_isSpace hspace
      rw [isNumeric_of_isDigit hc] at hnumeric
      cases hnumeric
    · rintro rfl
      exact absurd hc (by decide)
  · decide

/-- A number begins with a digit or a minus sign, and with nothing else. -/
theorem Numeral.WellFormed.append_ne_cons {numeral : Numeral} (hnumeral : numeral.WellFormed)
    {text : List Char} (h : numeral.SpelledAs text) (rest : List Char) {d : Char}
    (hd : ¬ (d.isDigit ∨ d = '-')) (cs : List Char) : text ++ rest ≠ d :: cs := by
  obtain ⟨c, cs', rfl, hc⟩ := hnumeral.exists_eq_cons h
  rintro heq
  obtain ⟨rfl, -⟩ := List.cons.inj heq
  exact hd hc

/-- A number is no container. -/
theorem Numeral.WellFormed.startsScalar {numeral : Numeral} (hnumeral : numeral.WellFormed)
    {text : List Char} (h : numeral.SpelledAs text) (rest : List Char) :
    StartsScalar (text ++ rest) :=
  ⟨hnumeral.append_ne_cons h rest (by decide), hnumeral.append_ne_cons h rest (by decide)⟩

/-- A number begins with a token. -/
theorem Numeral.WellFormed.startsItem {numeral : Numeral} (hnumeral : numeral.WellFormed)
    {text : List Char} (h : numeral.SpelledAs text) : StartsItem text := by
  obtain ⟨c, cs, htext, hc⟩ := hnumeral.exists_eq_cons h
  exact ⟨c, cs, htext, isSpace_eq_false_of_isDigit_or_minus hc⟩

/-- A well-formed string begins with its quote. -/
theorem IsStringText.startsItem {text : List Char} (h : IsStringText text) : StartsItem text := by
  obtain ⟨-⟩ := h
  exact ⟨_, _, rfl, by decide⟩

/-- A string begins with its quote. -/
theorem StringSpelledAs.startsItem {s : String} {text : List Char} (h : StringSpelledAs s text) :
    StartsItem text := by
  obtain ⟨-⟩ := h
  exact ⟨_, _, rfl, by decide⟩

/-- A word begins with a letter. -/
theorem IsLiteral.startsItem {v : Json} (h : v.IsLiteral) : StartsItem v.literalText := by
  obtain _ | b := h
  · exact ⟨_, _, rfl, by decide⟩
  · cases b <;> exact ⟨_, _, rfl, by decide⟩

/-- A well-formed text begins with a token. -/
theorem IsText.startsItem {text : List Char} (h : IsText text) : StartsItem text := by
  cases h with
  | literal h => exact h.startsItem
  | number hnumeral h => exact hnumeral.startsItem h
  | string h => exact h.startsItem
  | array hitems h => exact h.startsItem (by decide)
  | object hvalues hspelled h => exact h.startsItem (by decide)

/-- A text of a value begins with a token. -/
theorem IsTextOf.startsItem {depth : Nat} {v : Json} {text : List Char}
    (h : IsTextOf depth v text) : StartsItem text := by
  cases h with
  | literal h => exact h.startsItem
  | number hnumeral hn h => exact hnumeral.startsItem h
  | string h => exact h.startsItem
  | array hitems h => exact h.startsItem (by decide)
  | object hnames hvalues hspelled h => exact h.startsItem (by decide)

/-- Space before a token is passed over. -/
theorem StartsItem.skipSpace_append {text space : List Char} (h : StartsItem text)
    (hspace : IsSpaces space) (rest : List Char) :
    skipSpace (space ++ (text ++ rest)) = text ++ rest := by
  obtain ⟨c, cs, rfl, hc, -⟩ := h
  exact hspace.skipSpace_append_cons hc (cs ++ rest)

/-! ## Passing over texts -/

/-- A well-formed string is passed over, the quote before it taken. -/
theorem skipString_of_isStringBody {body : List Char} (h : IsStringBody body) (rest : List Char) :
    skipString (body ++ '"' :: rest) = .ok ((), rest) := by
  induction h with
  | nil => rfl
  | plain hprintable hquote hslash _ ih =>
    simp [skipString, hslash, Nat.not_lt.mpr hprintable, ih]
  | @escape letter _ hletter _ ih =>
    have hu : letter ≠ 'u' := by
      rintro rfl
      exact absurd hletter (by decide)
    simp [skipString, hu, hletter, ih]
  | unit hunit _ ih => simp [skipString, hunit, ih]

/-- The names of members that are passed over are well-formed strings. -/
theorem takesNames_skipString : TakesNames skipString fun _ => IsStringText := by
  rintro n text ⟨h⟩
  exact ⟨_, rfl, fun rest => by simpa using skipString_of_isStringBody h rest⟩

/-- A word is passed over. -/
theorem IsLiteral.skipScalar_append {v : Json} (h : v.IsLiteral) (rest : List Char) :
    StartsScalar (v.literalText ++ rest) ∧ skipScalar (v.literalText ++ rest) = .ok ((), rest) := by
  obtain _ | b := h
  · exact ⟨⟨by simp [literalText], by simp [literalText]⟩, rfl⟩
  · cases b <;> exact ⟨⟨by simp [literalText], by simp [literalText]⟩, rfl⟩

/-- A number is passed over, whatever its size. -/
theorem skipScalar_of_spelledAs {numeral : Numeral} (hnumeral : numeral.WellFormed)
    {text rest : List Char} (h : numeral.SpelledAs text) (hrest : Stops isNumeric rest) :
    StartsScalar (text ++ rest) ∧ skipScalar (text ++ rest) = .ok ((), rest) := by
  refine ⟨hnumeral.startsScalar h rest, ?_⟩
  have hread := Numeral.readNumeral_of_spelledAs hnumeral h hrest
  rw [skipScalar.eq_5 _ (hnumeral.append_ne_cons h rest (by decide))
    (fun _ => hnumeral.append_ne_cons h rest (by decide) _)
    (fun _ => hnumeral.append_ne_cons h rest (by decide) _)
    (fun _ => hnumeral.append_ne_cons h rest (by decide) _), hread]
  rfl

/-- A well-formed string is passed over. -/
theorem IsStringText.skipScalar_append {text : List Char} (h : IsStringText text)
    (rest : List Char) :
    StartsScalar (text ++ rest) ∧ skipScalar (text ++ rest) = .ok ((), rest) := by
  obtain ⟨h⟩ := h
  refine ⟨⟨by simp, by simp⟩, ?_⟩
  simpa [skipScalar] using skipString_of_isStringBody h rest

/-- What is passed over as a scalar is passed over behind space, whatever the bound. -/
theorem takesText_skipNested_of_skipScalar {text : List Char} (hstarts : StartsItem text)
    (hskip : ∀ rest, Stops isNumeric rest →
      StartsScalar (text ++ rest) ∧ skipScalar (text ++ rest) = .ok ((), rest))
    {bound : Nat} (hbound : 0 < bound) : TakesText (skipNested bound) text () := by
  intro space rest hspace hrest
  obtain ⟨bound, rfl⟩ := Nat.exists_eq_add_of_le' hbound
  refine skipNested_succ_eq_ok_iff.mpr (.inr (.inr ?_))
  rw [hstarts.skipSpace_append hspace]
  exact hskip rest hrest

/-- Members are passed over, if their values are. -/
theorem takesMembers_skipMember {value : Reader Unit} {members : List (Unit × List Char)}
    (hvalues : ∀ m ∈ members, TakesText value m.2 ()) :
    TakesMembers (skipMember value) () members () := by
  rw [← List.map_id members]
  refine takesMembers_map (fun _ => ()) fun before m behind heq => ?_
  intro space space' rest hspace hspace' hrest
  exact skipMember_eq_ok_iff.mpr
    ⟨_, hspace.takeColon_append _, hvalues m (by simp [heq]) _ _ hspace' hrest⟩

/-- A well-formed text is passed over, if it is shorter than the bound. -/
theorem takesText_skipNested {text : List Char} (h : IsText text) {bound : Nat}
    (hbound : text.length < bound) : TakesText (skipNested bound) text () := by
  -- What is enclosed is shorter than the container, so one container deeper the bound is one less.
  induction h generalizing bound with
  | literal h =>
    exact takesText_skipNested_of_skipScalar h.startsItem (fun rest _ => h.skipScalar_append rest)
      (Nat.zero_lt_of_lt hbound)
  | number hnumeral h =>
    exact takesText_skipNested_of_skipScalar (hnumeral.startsItem h)
      (fun _ hrest => skipScalar_of_spelledAs hnumeral h hrest) (Nat.zero_lt_of_lt hbound)
  | string h =>
    exact takesText_skipNested_of_skipScalar h.startsItem (fun rest _ => h.skipScalar_append rest)
      (Nat.zero_lt_of_lt hbound)
  | @array items text hitems h ih =>
    intro space rest hspace hrest
    obtain ⟨bound, rfl⟩ := Nat.exists_eq_add_of_le' (Nat.zero_lt_of_lt hbound)
    have htaken : List.Forall₂ (TakesText (skipNested bound)) items (items.map fun _ => ()) := by
      rw [List.forall₂_map_right_iff, List.forall₂_same]
      intro item hitem
      have hlt := h.length_lt_of_mem hitem
      exact ih item hitem (by omega)
    obtain ⟨cs, hcs, hread⟩ :=
      readArray_of_enclosed h htaken (fun item hitem => (hitems item hitem).startsItem) rest
    have hskip := (h.startsItem (by decide)).skipSpace_append hspace rest
    exact skipNested_succ_eq_ok_iff.mpr (.inl ⟨cs, _, hskip.trans hcs, hread⟩)
  | @object members texts text hvalues hspelled h ih =>
    intro space rest hspace hrest
    obtain ⟨bound, rfl⟩ := Nat.exists_eq_add_of_le' (Nat.zero_lt_of_lt hbound)
    have htaken : TakesMembers (skipMember (skipNested bound)) () members () :=
      takesMembers_skipMember fun m hm => ih m hm
        (Nat.lt_of_lt_of_le (h.length_lt_of_spelledAs hspelled hm) (Nat.le_of_lt_succ hbound))
    obtain ⟨cs, hcs, hread⟩ := readObject_of_enclosed takesNames_skipString h hspelled htaken rest
    have hskip := (h.startsItem (by decide)).skipSpace_append hspace rest
    exact skipNested_succ_eq_ok_iff.mpr (.inr (.inl ⟨cs, hskip.trans hcs, hread⟩))

/-- A well-formed text is passed over. -/
theorem takesText_skipValue {text : List Char} (h : IsText text) : TakesText skipValue text () := by
  intro space rest hspace hrest
  refine takesText_skipNested h ?_ space rest hspace hrest
  simp only [List.length_append]
  omega

/-! ## Reading texts -/

/-- The names of members that are read are spelled as strings. -/
theorem takesNames_readString : TakesNames readString StringSpelledAs := by
  rintro s text ⟨h⟩
  exact ⟨_, rfl, fun rest => by simpa using readString_of_charsSpelledAs h rest⟩

/-- A word is read as the value that it stands for. -/
theorem IsLiteral.readScalar_append {v : Json} (h : v.IsLiteral) (rest : List Char) :
    StartsScalar (v.literalText ++ rest) ∧ readScalar (v.literalText ++ rest) = .ok (v, rest) := by
  refine ⟨(h.skipScalar_append rest).1, ?_⟩
  obtain _ | b := h
  · rfl
  · cases b <;> rfl

/-- A number is read as the one that it stands for. -/
theorem readScalar_of_spelledAs {numeral : Numeral} (hnumeral : numeral.WellFormed) {n : Number}
    (hn : numeral.toNumber? = some n) {text rest : List Char} (h : numeral.SpelledAs text)
    (hrest : Stops isNumeric rest) :
    StartsScalar (text ++ rest) ∧ readScalar (text ++ rest) = .ok (.number n, rest) := by
  refine ⟨hnumeral.startsScalar h rest, ?_⟩
  have hread := readNumber_of_spelledAs hnumeral hn h hrest
  rw [readScalar.eq_5 _ (fun _ => hnumeral.append_ne_cons h rest (by decide) _)
    (fun _ => hnumeral.append_ne_cons h rest (by decide) _)
    (fun _ => hnumeral.append_ne_cons h rest (by decide) _)
    (hnumeral.append_ne_cons h rest (by decide)), hread]
  rfl

/-- A word stands for no container. -/
theorem IsLiteral.isScalar {v : Json} (h : v.IsLiteral) : v.IsScalar := by
  obtain _ | b := h <;> exact ⟨by simp, by simp⟩

/-- A string is read from any spelling. -/
theorem StringSpelledAs.readScalar_append {s : String} {text : List Char}
    (h : StringSpelledAs s text) (rest : List Char) :
    StartsScalar (text ++ rest) ∧ readScalar (text ++ rest) = .ok (.string s, rest) := by
  obtain ⟨h⟩ := h
  refine ⟨⟨by simp, by simp⟩, ?_⟩
  have hread := readString_of_charsSpelledAs h rest
  simp only [List.cons_append, List.append_assoc, List.nil_append, readScalar, hread, bind,
    Except.bind]
  rfl

/-- What is read as a scalar is read behind space, at whatever depth. -/
theorem takesText_readValue_of_readScalar {v : Json} (hv : v.IsScalar) {text : List Char}
    (hstarts : StartsItem text)
    (hread : ∀ rest, Stops isNumeric rest →
      StartsScalar (text ++ rest) ∧ readScalar (text ++ rest) = .ok (v, rest)) (depth : Nat) :
    TakesText (readValue depth) text v := by
  intro space rest hspace hrest
  rw [readValue_eq_scalar_iff hv, hstarts.skipSpace_append hspace]
  exact hread rest hrest

/-- Members without repeated names are taken in order, if their values are. -/
theorem takesMembers_readMember {depth : Nat} {members : List (String × Json × List Char)}
    (hnames : (members.map Prod.fst).Nodup)
    (hvalues : ∀ m ∈ members, TakesText (readValue depth) m.2.2 m.2.1) :
    TakesMembers (readMember (readValue depth)) [] (members.map fun m => (m.1, m.2.2))
      (members.map fun m => (m.1, m.2.1)) := by
  let read (members : List (String × Json × List Char)) : Members :=
    members.map fun m => (m.1, m.2.1)
  refine takesMembers_map read fun before m behind heq => ?_
  subst heq
  have hnew : m.1 ∉ (read before).map Prod.fst := by
    rw [List.map_append, List.nodup_append] at hnames
    rw [List.map_map]
    exact fun h => hnames.2.2 _ h _ List.mem_cons_self rfl
  have hread : read (before ++ [m]) = Association.set m.1 m.2.1 (read before) := by
    rw [Association.set_of_notMem hnew]
    exact List.map_append
  intro space space' rest hspace hspace' hrest
  exact readMember_eq_ok_iff.mpr ⟨_, m.2.1, hspace.takeColon_append _,
    hvalues m (by simp) _ _ hspace' hrest, hread⟩

/-- A value is read from any of its texts. -/
theorem takesText_readValue {depth : Nat} {v : Json} {text : List Char}
    (h : IsTextOf depth v text) : TakesText (readValue depth) text v := by
  induction h with
  | literal h =>
    exact takesText_readValue_of_readScalar h.isScalar h.startsItem
      (fun rest _ => h.readScalar_append rest) _
  | number hnumeral hn h =>
    exact takesText_readValue_of_readScalar ⟨by simp, by simp⟩ (hnumeral.startsItem h)
      (fun _ hrest => readScalar_of_spelledAs hnumeral hn h hrest) _
  | string h =>
    exact takesText_readValue_of_readScalar ⟨by simp, by simp⟩ h.startsItem
      (fun rest _ => h.readScalar_append rest) _
  | @array depth items text hitems h ih =>
    intro space rest hspace hrest
    have htaken : List.Forall₂ (TakesText (readValue depth)) (items.map Prod.snd)
        (items.map Prod.fst) := by
      rw [List.forall₂_map_left_iff, List.forall₂_map_right_iff, List.forall₂_same]
      exact ih
    have hstarts : ∀ text ∈ items.map Prod.snd, StartsItem text :=
      List.forall_mem_map.mpr fun item hitem => (hitems item hitem).startsItem
    obtain ⟨cs, hcs, hread⟩ := readArray_of_enclosed h htaken hstarts rest
    have hskip := (h.startsItem (by decide)).skipSpace_append hspace rest
    exact readValue_eq_array_iff.mpr ⟨cs, hskip.trans hcs, hread⟩
  | @object depth members texts text hnames hvalues hspelled h ih =>
    intro space rest hspace hrest
    have htaken := takesMembers_readMember hnames ih
    obtain ⟨cs, hcs, hread⟩ := readObject_of_enclosed takesNames_readString h hspelled htaken rest
    have hskip := (h.startsItem (by decide)).skipSpace_append hspace rest
    exact readValue_eq_object_iff.mpr ⟨cs, hskip.trans hcs, hread⟩

/-- A scalar that is accepted is read from any of its texts. -/
theorem takesText_readAs {α : Type} {want : Json → Option α}
    (hwant : ∀ v a, want v = some a → v.IsScalar) {v : Json} {a : α} (ha : want v = some a)
    {text : List Char} (h : IsTextOf 0 v text) : TakesText (readAs want) text a := by
  intro space rest hspace hrest
  exact (readAs_eq_ok_iff_readValue hwant).mpr
    ⟨v, takesText_readValue h space rest hspace hrest, ha⟩

/-- The members of an object are read from any of its texts. -/
theorem takesText_readAnyObject {depth : Nat} {members : Members} {text : List Char}
    (h : IsTextOf (depth + 1) (.object members) text) :
    TakesText (readAnyObject depth) text members := by
  intro space rest hspace hrest
  obtain ⟨cs, hopen, hread⟩ :=
    readValue_eq_object_iff.mp (takesText_readValue h space rest hspace hrest)
  simp only [readAnyObject, hopen, hread]

/-- A list of items is read from any of its texts. -/
theorem takesText_readListOf {α : Type} {item : Reader α} {texts : List (List Char)}
    {whole : List Char} (h : Enclosed '[' ']' texts whole) {as : List α}
    (hitems : List.Forall₂ (TakesText item) texts as) (hstarts : ∀ text ∈ texts, StartsItem text) :
    TakesText (readListOf item) whole as := by
  intro space rest hspace hrest
  obtain ⟨cs, hcs, hread⟩ := readArray_of_enclosed h hitems hstarts rest
  have hskip := (h.startsItem (by decide)).skipSpace_append hspace rest
  simp only [readListOf, hskip.trans hcs, hread]

end Json

end HostedSearch
