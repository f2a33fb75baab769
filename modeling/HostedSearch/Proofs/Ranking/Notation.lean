import HostedSearch.Proofs.Text.Words
import HostedSearch.Ranking

/-!
# The two notations of a ranking

The direction of a ranking is written as a second word, or as a minus sign before the field, and it
is sent as a sign. Whichever notation is used, what is sent is the signed form of the words, and it
is a single word. Read again it stands for the ranking that was sent, with one exception: where the
two notations disagree, a sign before the field and a second word that does not mean downward, the
word counts and the sign stays with the field. What is sent then is downward, though the ranking is
upward.
-/

namespace HostedSearch

namespace Ranking

variable {ranking : Ranking}

/-- The words of a text, as texts. -/
def textWords (text : String) : List String :=
  (words text.toList).map String.ofList

/-- The ranking that a single word stands for. -/
def ofWord (word : List Char) : Ranking :=
  match signedField? word with
  | some field => ⟨field, .descending⟩
  | none => ⟨String.ofList word, .ascending⟩

/-- The ranking that a field and a word behind it stand for. -/
def ofPair (field direction : String) : Ranking :=
  ⟨field, (Direction.ofText? direction).getD .ascending⟩

/-! ## What is sent -/

/-- A signed word is its field behind a minus sign. -/
theorem ofList_of_signedField? {word : List Char} {field : String}
    (h : signedField? word = some field) : String.ofList word = "-" ++ field := by
  unfold signedField? at h
  split at h
  · obtain rfl := Option.some.inj h
    rw [String.ofList_cons]
    rfl
  · cases h

/-- A single word is sent as it is. -/
theorem parameter_ofWord (word : List Char) : (ofWord word).parameter = String.ofList word := by
  unfold ofWord
  split
  · next field hfield => exact (ofList_of_signedField? hfield).symm
  · rfl

/-- A field and a word behind it are sent in their signed form. -/
theorem parameter_ofPair (field direction : String) :
    (ofPair field direction).parameter = signedForm [field, direction] := by
  rw [signedForm, List.headD_cons, ofPair]
  -- Only a word that is read as downward puts the minus sign there.
  cases hread : Direction.ofText? direction with
  | none => rfl
  | some read => cases read <;> rfl

/-- A missing direction is upward. -/
theorem signedForm_singleton (field : String) : signedForm [field] = field := by
  have hascending : Direction.ofText? Direction.ascending.word ≠ some .descending := by decide
  rw [signedForm, List.headD_nil, if_neg hascending]

/-- The signed form of one or two words; any other number of words has none. -/
def checkedSignedForm (texts : List String) : Except RankingFault String :=
  if texts.length = 1 ∨ texts.length = 2 then .ok (signedForm texts) else .error ⟨texts.length⟩

/-- A ranking made of words is sent as their signed form. -/
theorem map_parameter_ofWords (texts : List String) :
    (ofWords texts).map parameter = checkedSignedForm texts := by
  match texts with
  | [] => rfl
  | [field] => exact congrArg Except.ok (signedForm_singleton field).symm
  | [field, direction] => exact congrArg Except.ok (parameter_ofPair field direction)
  | _ :: _ :: _ :: _ => exact (if_neg (by simp)).symm

/-- A text of one word. -/
theorem ofText_of_words_eq_singleton {text : String} {word : List Char}
    (h : words text.toList = [word]) : ofText text = .ok (ofWord word) := by
  simp only [ofText, h, ofWord]
  cases signedField? word <;> rfl

/-- A text of two words. -/
theorem ofText_of_words_eq_pair {text : String} {field direction : List Char}
    (h : words text.toList = [field, direction]) :
    ofText text = .ok (ofPair (String.ofList field) (String.ofList direction)) := by
  simp only [ofText, h]
  rfl

/-- A text is sent as if its words had been given one by one. -/
theorem map_parameter_ofText (text : String) :
    (ofText text).map parameter = (ofWords (textWords text)).map parameter := by
  rw [textWords]
  match hwords : words text.toList with
  | [word] =>
    rw [ofText_of_words_eq_singleton hwords]
    exact congrArg Except.ok (parameter_ofWord word)
  | [] => simp only [ofText, hwords]
  | _ :: _ :: _ => simp only [ofText, hwords]

/-- A ranking is sent as the signed form of the words it is written in. -/
theorem parameter_of_ofText {text : String} (h : ofText text = .ok ranking) :
    ranking.parameter = signedForm (textWords text) := by
  have hsent := (map_parameter_ofText text).trans (map_parameter_ofWords _)
  rw [h, checkedSignedForm] at hsent
  split at hsent
  · exact Except.ok.inj hsent
  · cases hsent

/-- Words and texts that are accepted are one or two words, and what is sent for them is the signed
form that is taken from the words directly; any other number of words is refused, and named. -/
theorem sent_as_signedForm (texts : List String) (text : String) :
    (ofWords texts).map parameter = checkedSignedForm texts ∧
      (ofText text).map parameter = checkedSignedForm (textWords text) :=
  ⟨map_parameter_ofWords texts, (map_parameter_ofText text).trans (map_parameter_ofWords _)⟩

/-! ## What is sent is read back -/

/-- The texts that stand for a ranking are a word, or a field and a word behind it. -/
theorem ofText_eq_ok_iff {text : String} :
    ofText text = .ok ranking ↔
      (∃ word, words text.toList = [word] ∧ ranking = ofWord word) ∨
        ∃ field direction, words text.toList = [field, direction] ∧
          ranking = ofPair (String.ofList field) (String.ofList direction) := by
  constructor
  · intro h
    match hwords : words text.toList with
    | [word] =>
      rw [ofText_of_words_eq_singleton hwords] at h
      exact .inl ⟨word, rfl, (Except.ok.inj h).symm⟩
    | [field, direction] =>
      rw [ofText_of_words_eq_pair hwords] at h
      exact .inr ⟨field, direction, rfl, (Except.ok.inj h).symm⟩
    | [] => simp only [ofText, hwords, List.map_nil, ofWords, reduceCtorEq] at h
    | _ :: _ :: _ :: _ => simp only [ofText, hwords, List.map_cons, ofWords, reduceCtorEq] at h
  · rintro (⟨word, hwords, rfl⟩ | ⟨field, direction, hwords, rfl⟩)
    · exact ofText_of_words_eq_singleton hwords
    · exact ofText_of_words_eq_pair hwords

/-- The characters of the field behind a sign are a word. -/
theorem isWord_of_signedField? {word : List Char} {field : String} (hword : IsWord word)
    (h : signedField? word = some field) : IsWord field.toList := by
  unfold signedField? at h
  split at h
  · next c cs =>
    obtain rfl := Option.some.inj h
    rw [String.toList_ofList]
    exact ⟨List.cons_ne_nil c cs, fun d hd => hword.not_isBlank d (List.mem_cons_of_mem _ hd)⟩
  · cases h

/-- The field of a ranking that is read is a word. -/
theorem isWord_field_of_ofText {text : String} (h : ofText text = .ok ranking) :
    IsWord ranking.field.toList := by
  have hword {word : List Char} {others : List (List Char)}
      (hwords : words text.toList = word :: others) : IsWord word :=
    isWord_of_mem_words (hwords ▸ List.mem_cons_self)
  obtain ⟨word, hwords, rfl⟩ | ⟨field, direction, hwords, rfl⟩ := ofText_eq_ok_iff.mp h
  · unfold ofWord
    split
    · next field hfield => exact isWord_of_signedField? (hword hwords) hfield
    · rw [String.toList_ofList]
      exact hword hwords
  · rw [ofPair, String.toList_ofList]
    exact hword hwords

/-- What is sent for a field that is a word is a word. -/
theorem isWord_parameter (hfield : IsWord ranking.field.toList) :
    IsWord ranking.parameter.toList := by
  obtain ⟨field, direction⟩ := ranking
  cases direction with
  | ascending => exact hfield
  | descending =>
    rw [parameter, String.toList_append]
    refine ⟨List.cons_ne_nil '-' _, fun c hc => ?_⟩
    obtain rfl | hc := List.mem_cons.mp hc
    · decide
    · exact hfield.not_isBlank c hc

/-- What is sent for a field that is a word is read as a single word. -/
theorem ofText_parameter (hfield : IsWord ranking.field.toList) :
    ofText ranking.parameter = .ok (ofWord ranking.parameter.toList) :=
  ofText_of_words_eq_singleton (isWord_parameter hfield).words_eq

/-- The ranking is upward, and its field begins with a sign all the same. -/
def HidesSign (ranking : Ranking) : Prop :=
  ranking.direction = .ascending ∧ (signedField? ranking.field.toList).isSome

/-- What is sent stands for the ranking, unless its field hides a sign. -/
theorem ofWord_parameter_eq_iff (hfield : IsWord ranking.field.toList) :
    ofWord ranking.parameter.toList = ranking ↔ ¬ ranking.HidesSign := by
  obtain ⟨field, direction⟩ := ranking
  cases direction with
  | ascending =>
    simp only [parameter, ofWord, HidesSign, true_and]
    cases hsigned : signedField? field.toList with
    | none => simp
    | some behind => simp
  | descending =>
    obtain ⟨c, cs, hcons⟩ := List.exists_cons_of_ne_nil hfield.ne_nil
    have hparameter : (⟨field, .descending⟩ : Ranking).parameter.toList = '-' :: c :: cs := by
      rw [parameter, String.toList_append, hcons]
      rfl
    have hsame : String.ofList (c :: cs) = field := by
      rw [← hcons, String.ofList_toList]
    simp [hparameter, ofWord, signedField?, hsame, HidesSign]

/-- Apart from a field that is a lone minus sign, what is sent begins with a minus sign just when
the ranking is downward, unless the field hides a sign. -/
theorem head?_parameter_iff (hfield : IsWord ranking.field.toList) (hlone : ranking.field ≠ "-") :
    (ranking.parameter.toList.head? = some '-' ↔ ranking.direction = .descending) ↔
      ¬ ranking.HidesSign := by
  obtain ⟨field, direction⟩ := ranking
  cases direction with
  | ascending =>
    obtain ⟨c, cs, hcons⟩ := List.exists_cons_of_ne_nil hfield.ne_nil
    have hsign : (signedField? (c :: cs)).isSome ↔ c = '-' := by
      cases cs with
      | cons d cs => by_cases hc : c = '-' <;> simp [signedField?, hc]
      | nil =>
        have hc : c ≠ '-' := by
          rintro rfl
          exact hlone (String.toList_inj.mp hcons)
        simp [signedField?, hc]
    simp only [HidesSign, true_and, parameter, hcons, hsign]
    simp
  | descending => simp [parameter, String.toList_append, HidesSign]

/-- The text has a minus sign before the field, and a second word that does not mean downward. -/
def OverrulesSign (text : String) : Prop :=
  ∃ signed word, words text.toList = [signed, word] ∧ (signedField? signed).isSome ∧
    Direction.ofText? (String.ofList word) ≠ some .descending

/-- A single word hides no sign. -/
theorem not_hidesSign_ofWord (word : List Char) : ¬ (ofWord word).HidesSign := by
  unfold ofWord HidesSign
  split
  · next field hfield => simp
  · next hnone => simp [hnone]

/-- A ranking hides a sign just when it is written with a sign that a second word overrules. -/
theorem hidesSign_iff_overrulesSign {text : String} (h : ofText text = .ok ranking) :
    ranking.HidesSign ↔ OverrulesSign text := by
  obtain ⟨word, hwords, rfl⟩ | ⟨field, direction, hwords, rfl⟩ := ofText_eq_ok_iff.mp h
  · simp [not_hidesSign_ofWord, OverrulesSign, hwords]
  · have hupward : (Direction.ofText? (String.ofList direction)).getD .ascending = .ascending ↔
        Direction.ofText? (String.ofList direction) ≠ some .descending := by
      cases Direction.ofText? (String.ofList direction) with
      | none => simp
      | some read => cases read <;> simp
    simp only [HidesSign, ofPair, OverrulesSign, hwords, hupward, String.toList_ofList,
      List.cons.injEq, and_true]
    constructor
    · rintro ⟨hword, hsigned⟩
      exact ⟨field, direction, ⟨rfl, rfl⟩, hsigned, hword⟩
    · rintro ⟨_, _, ⟨rfl, rfl⟩, hsigned, hword⟩
      exact ⟨hword, hsigned⟩

/-- What is sent for a text can always be read again, and is sent for what is read then too. It
stands for the ranking that was read first, and its sign shows the direction of that ranking, if and
only if the text does not overrule a sign; a lone minus sign as a field shows no direction. -/
theorem reads_back_iff_not_overrulesSign {text : String} (h : ofText text = .ok ranking) :
    (∃ again, ofText ranking.parameter = .ok again ∧ again.parameter = ranking.parameter) ∧
      (ofText ranking.parameter = .ok ranking ↔ ¬ OverrulesSign text) ∧
      (ranking.field ≠ "-" →
        ((ranking.parameter.toList.head? = some '-' ↔ ranking.direction = .descending) ↔
          ¬ OverrulesSign text)) := by
  have hfield := isWord_field_of_ofText h
  have hagain := ofText_parameter hfield
  rw [← hidesSign_iff_overrulesSign h]
  refine ⟨⟨_, hagain, ?_⟩, ?_, head?_parameter_iff hfield⟩
  · rw [parameter_ofWord, String.ofList_toList]
  · rw [hagain, Except.ok.injEq]
    exact ofWord_parameter_eq_iff hfield

/-- A field with a long word for downward in capitals is read back. -/
theorem reads_back_iff_not_overrulesSign_of_capitals :
    ofText " price\u3000DESCENDING" = .ok ⟨"price", .descending⟩ ∧
      (⟨"price", .descending⟩ : Ranking).parameter = "-price" ∧
      ofText "-price" = .ok ⟨"price", .descending⟩ := by
  have hread : ofText " price\u3000DESCENDING" = .ok ⟨"price", .descending⟩ := by
    with_unfolding_all rfl
  obtain ⟨-, hback, -⟩ := reads_back_iff_not_overrulesSign hread
  refine ⟨hread, rfl, hback.mpr ?_⟩
  rw [← hidesSign_iff_overrulesSign hread]
  exact fun hhides => absurd hhides.1 (by decide)

/-- An upward ranking of a signed field is sent as the downward ranking of the field. -/
theorem overruled_sign_is_sent :
    ofText "-price asc" = .ok ⟨"-price", .ascending⟩ ∧
      (⟨"-price", .ascending⟩ : Ranking).parameter = "-price" ∧
      ofText "-price" = .ok ⟨"price", .descending⟩ ∧
      ¬ ∀ text ranking, ofText text = .ok ranking → ofText ranking.parameter = .ok ranking := by
  have hread : ofText "-price asc" = .ok ⟨"-price", .ascending⟩ := by with_unfolding_all rfl
  have hagain : ofText "-price" = .ok ⟨"price", .descending⟩ := by with_unfolding_all rfl
  refine ⟨hread, rfl, hagain, fun hback => ?_⟩
  have hsame : ofText "-price" = .ok ⟨"-price", .ascending⟩ := hback _ _ hread
  rw [hagain] at hsame
  exact absurd (Except.ok.inj hsame) (by decide)

end Ranking

end HostedSearch
