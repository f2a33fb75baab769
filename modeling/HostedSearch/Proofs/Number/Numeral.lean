import HostedSearch.Filter.Query

/-!
# The characters of numbers

Integers are written with digits and a minus sign, binary64 numbers also with a point, an
exponent, or as one of the words for what is not finite. So numbers never contain a quote, a
backslash, a separator or a bracket, and they end where one of these stands. An integer can be
told from its digits.
-/

namespace HostedSearch

/-- Whether a character can stand in a number. -/
def isNumeric (c : Char) : Bool :=
  c.isAlphanum || c == '-' || c == '+' || c == '.'

/-- Digits are numeric. -/
theorem isNumeric_of_isDigit {c : Char} (h : c.isDigit) : isNumeric c := by
  simp [isNumeric, Char.isAlphanum, h]

/-- A natural number is written with digits. -/
theorem isDigit_of_mem_digitsOf {n : Nat} {c : Char} (h : c ∈ digitsOf n) : c.isDigit :=
  Nat.isDigit_of_mem_toDigits (by decide) (by decide) h

/-- Different natural numbers have different digits. -/
theorem digitsOf_injective : Function.Injective digitsOf := by
  intro m n h
  have hvalue := congrArg (fun digits => Nat.ofDigitChars 10 digits 0) h
  simpa [digitsOf] using hvalue

/-- A minus sign does not begin a natural number. -/
theorem digitsOf_ne_minus_cons (n : Nat) (cs : List Char) : digitsOf n ≠ '-' :: cs := by
  intro h
  have hdigit : Char.isDigit '-' := isDigit_of_mem_digitsOf (h ▸ List.mem_cons_self)
  exact absurd hdigit (by decide)

/-- Different integers are written differently. -/
theorem integerText_injective : Function.Injective integerText := by
  intro i j h
  match i, j with
  | .ofNat m, .ofNat n => rw [digitsOf_injective h]
  | .ofNat m, .negSucc n => exact absurd h (digitsOf_ne_minus_cons m _)
  | .negSucc m, .ofNat n => exact absurd h.symm (digitsOf_ne_minus_cons n _)
  | .negSucc m, .negSucc n =>
    have hsucc := digitsOf_injective (List.cons.inj h).2
    rw [Nat.succ.inj hsucc]

/-- An integer is written with digits behind an optional minus sign. -/
theorem isDigit_of_mem_integerText {i : Int} {c : Char} (h : c ∈ integerText i) :
    c.isDigit ∨ c = '-' := by
  cases i with
  | ofNat n => exact .inl (isDigit_of_mem_digitsOf h)
  | negSucc n =>
    obtain rfl | h := List.mem_cons.mp h
    · exact .inr rfl
    · exact .inl (isDigit_of_mem_digitsOf h)

/-- The significant digits of a decimal are digits. -/
theorem Decimal.isDigit_of_mem_significant {d : Decimal} {c : Char} (h : c ∈ d.significant) :
    c.isDigit := by
  have hmem := (List.dropWhile_suffix _).subset (List.mem_reverse.mp h)
  exact isDigit_of_mem_digitsOf (List.mem_reverse.mp hmem)

/-- Digits laid out positionally are numeric. -/
theorem isNumeric_of_mem_positionalText {digits : List Char} {leading : Int} {c : Char}
    (hdigits : ∀ d ∈ digits, d.isDigit) (h : c ∈ positionalText digits leading) :
    isNumeric c := by
  have hdigit : ∀ d ∈ digits, isNumeric d := fun d hd => isNumeric_of_isDigit (hdigits d hd)
  have htake (n : Nat) : c ∈ digits.take n → isNumeric c :=
    fun hc => hdigit c (List.mem_of_mem_take hc)
  have hdrop (n : Nat) : c ∈ digits.drop n → isNumeric c :=
    fun hc => hdigit c (List.mem_of_mem_drop hc)
  unfold positionalText at h
  dsimp only at h
  split at h
  · simp only [List.mem_cons, List.mem_append, List.mem_replicate] at h
    obtain rfl | rfl | ⟨-, rfl⟩ | h := h
    · decide
    · decide
    · decide
    · exact hdigit c h
  · split at h <;> simp only [List.mem_cons, List.mem_append, List.mem_replicate,
      List.not_mem_nil, or_false] at h
    · obtain (h | ⟨-, rfl⟩) | rfl | rfl := h
      · exact htake _ h
      · decide
      · decide
      · decide
    · obtain (h | ⟨-, rfl⟩) | rfl | h := h
      · exact htake _ h
      · decide
      · decide
      · exact hdrop _ h

/-- Digits laid out with an exponent are numeric. -/
theorem isNumeric_of_mem_scientificText {digits : List Char} {leading : Int} {c : Char}
    (hdigits : ∀ d ∈ digits, d.isDigit) (h : c ∈ scientificText digits leading) :
    isNumeric c := by
  have hdigit : ∀ d ∈ digits, isNumeric d := fun d hd => isNumeric_of_isDigit (hdigits d hd)
  unfold scientificText at h
  dsimp only at h
  simp only [List.mem_append, List.mem_cons] at h
  obtain (h | h) | rfl | rfl | h := h
  · exact hdigit c (List.mem_of_mem_take h)
  · split at h
    · exact absurd h List.not_mem_nil
    · obtain rfl | h := List.mem_cons.mp h
      · decide
      · exact hdigit c (List.mem_of_mem_drop h)
  · decide
  · split <;> decide
  · exact isNumeric_of_isDigit (isDigit_of_mem_digitsOf h)

/-- A magnitude is written with numeric characters. -/
theorem Magnitude.isNumeric_of_mem_text {layout : Layout} {x : Magnitude} {c : Char}
    (h : c ∈ x.text layout) : isNumeric c := by
  unfold Magnitude.text at h
  dsimp only at h
  split at h
  · simp only [List.mem_cons, List.not_mem_nil, or_false] at h
    obtain rfl | rfl | rfl := h <;> decide
  · split at h
    · simp only [List.mem_append, List.mem_cons, List.not_mem_nil, or_false] at h
      obtain h | rfl | rfl := h
      · exact isNumeric_of_isDigit (isDigit_of_mem_digitsOf h)
      · decide
      · decide
    · split at h
      · exact isNumeric_of_mem_positionalText (fun _ => Decimal.isDigit_of_mem_significant) h
      · exact isNumeric_of_mem_scientificText (fun _ => Decimal.isDigit_of_mem_significant) h

namespace Filter

/-- Different 64-bit integers are written differently. -/
theorem int64Text_injective : Function.Injective int64Text :=
  fun _ _ h => Int64.toInt_inj.mp (integerText_injective h)

/-- A 64-bit integer is written with digits behind an optional minus sign. -/
theorem isDigit_of_mem_int64Text {n : Int64} {c : Char} (h : c ∈ int64Text n) :
    c.isDigit ∨ c = '-' :=
  isDigit_of_mem_integerText h

/-- A 64-bit integer is written with numeric characters. -/
theorem isNumeric_of_mem_int64Text {n : Int64} {c : Char} (h : c ∈ int64Text n) :
    isNumeric c := by
  obtain h | rfl := isDigit_of_mem_int64Text h
  · exact isNumeric_of_isDigit h
  · decide

/-- A binary64 number is written with numeric characters. -/
theorem isNumeric_of_mem_floatText {x : Binary64} {c : Char} (h : c ∈ floatText x) :
    isNumeric c := by
  unfold floatText at h
  split at h
  · unfold Finite64.text at h
    split at h
    · obtain rfl | h := List.mem_cons.mp h
      · decide
      · exact Magnitude.isNumeric_of_mem_text h
    · exact Magnitude.isNumeric_of_mem_text h
  all_goals exact List.all_eq_true.mp rfl c h

end Filter

end HostedSearch
