import HostedSearch.Json.Printer
import HostedSearch.Json.Reader
import HostedSearch.Proofs.Json.Step
import HostedSearch.Proofs.Number.Significant
import HostedSearch.Proofs.Text.Span

/-!
# Reading back JSON numbers

What is written for a number is read back as that number. A whole number is written with its
digits, any other always with a fraction or an exponent, and so is never taken for a whole one.
Each layout writes a numeral that stands for the same decimal, apart from trailing zeros. A
number ends where a character stands that is not numeric. An exponent may also be spelled with a
capital mark, or without its plus sign.
-/

namespace HostedSearch

namespace Json

namespace Numeral

/-- The digits of a fraction behind a point. -/
def fractionText : Option (List Char) → List Char
  | none => []
  | some digits => '.' :: digits

/-- The digits of an exponent behind its mark and sign. -/
def exponentText : Option (Bool × List Char) → List Char
  | none => []
  | some (negative, digits) => 'e' :: (if negative then '-' else '+') :: digits

/-- The text of a numeral, its sign apart. -/
def unsignedText (n : Numeral) : List Char :=
  n.whole ++ (fractionText n.fraction ++ exponentText n.exponent)

/-- The text of a numeral. -/
def text (n : Numeral) : List Char :=
  if n.negative then '-' :: n.unsignedText else n.unsignedText

/-- The spellings of an exponent: its mark is a small or a capital letter, and a plus sign may be
left out. -/
inductive ExponentSpelledAs : Option (Bool × List Char) → List Char → Prop
  | none : ExponentSpelledAs none []
  | unsigned {mark : Char} {digits : List Char} (hmark : mark = 'e' ∨ mark = 'E') :
    ExponentSpelledAs (some (false, digits)) (mark :: digits)
  | signed {mark : Char} {negative : Bool} {digits : List Char} (hmark : mark = 'e' ∨ mark = 'E') :
    ExponentSpelledAs (some (negative, digits)) (mark :: (if negative then '-' else '+') :: digits)

/-- The spellings of a numeral differ in those of its exponent. -/
inductive SpelledAs (n : Numeral) : List Char → Prop
  | mk {exponent : List Char} (h : ExponentSpelledAs n.exponent exponent) :
    n.SpelledAs ((if n.negative then ['-'] else []) ++
      (n.whole ++ (fractionText n.fraction ++ exponent)))

/-- The text of an exponent is one of its spellings. -/
theorem exponentSpelledAs_exponentText (exponent : Option (Bool × List Char)) :
    ExponentSpelledAs exponent (exponentText exponent) := by
  cases exponent with
  | none => exact .none
  | some signed => exact .signed (.inl rfl)

/-- The text of a numeral is one of its spellings. -/
theorem spelledAs_text (n : Numeral) : n.SpelledAs n.text := by
  have htext := SpelledAs.mk (n := n) (exponentSpelledAs_exponentText n.exponent)
  unfold text
  cases hnegative : n.negative <;> simpa [hnegative, unsignedText] using htext

/-- One or more digits. -/
def SomeDigits (digits : List Char) : Prop :=
  digits ≠ [] ∧ ∀ c ∈ digits, c.isDigit

/-- One or more digits, of which the first is not zero. -/
def LeadingDigits (digits : List Char) : Prop :=
  (∀ c ∈ digits, c.isDigit) ∧ ∃ c, digits.head? = some c ∧ c ≠ '0'

/-- The digits of the parts are as a reader expects them: the whole part has no zero in front,
unless it is zero, and no part that is there is empty. -/
structure WellFormed (n : Numeral) : Prop where
  whole : n.whole = ['0'] ∨ LeadingDigits n.whole
  fraction : ∀ digits, n.fraction = some digits → SomeDigits digits
  exponent : ∀ negative digits, n.exponent = some (negative, digits) → SomeDigits digits

/-- Some of the digits of a text, and zeros, are digits. -/
theorem SomeDigits.of_mem {digits others : List Char} (hdigits : SomeDigits digits)
    (hne : others ≠ []) (hmem : ∀ c ∈ others, c ∈ digits ∨ c = '0') : SomeDigits others := by
  refine ⟨hne, fun c hc => ?_⟩
  obtain hc | rfl := hmem c hc
  · exact hdigits.2 c hc
  · decide

/-- Leading digits are digits. -/
theorem LeadingDigits.someDigits {digits : List Char} (hdigits : LeadingDigits digits) :
    SomeDigits digits := by
  obtain ⟨hall, c, hhead, -⟩ := hdigits
  exact ⟨List.ne_nil_of_mem (List.mem_of_head? hhead), hall⟩

/-- Leading digits begin with one that is not zero. -/
theorem LeadingDigits.ne_zero_cons {digits : List Char} (hdigits : LeadingDigits digits)
    (cs : List Char) : digits ≠ '0' :: cs := by
  obtain ⟨-, c, hhead, hc⟩ := hdigits
  rintro rfl
  exact hc (Option.some.inj hhead).symm

/-- Some of the digits, and zeros, are leading digits if the first digit is the same. -/
theorem LeadingDigits.of_head? {digits others : List Char} (hdigits : LeadingDigits digits)
    (hhead : others.head? = digits.head?) (hmem : ∀ c ∈ others, c ∈ digits ∨ c = '0') :
    LeadingDigits others := by
  have hsome := hdigits.someDigits
  obtain ⟨-, c, hc, hzero⟩ := hdigits
  rw [← hhead] at hc
  exact ⟨(hsome.of_mem (List.ne_nil_of_mem (List.mem_of_head? hc)) hmem).2, c, hc, hzero⟩

/-! ## The readers of the parts -/

/-- Digits are read up to what is no digit. -/
theorem readSomeDigits_append {digits rest : List Char} (hdigits : SomeDigits digits)
    (hrest : Stops Char.isDigit rest) : readSomeDigits (digits ++ rest) = .ok (digits, rest) := by
  simp only [readSomeDigits]
  rw [takeWhile_append_of_stops hdigits.2 hrest, dropWhile_append_of_stops hdigits.2 hrest,
    if_neg (by simpa using hdigits.1)]

/-- The whole part is read up to what is no digit. -/
theorem readWholeDigits_append {whole rest : List Char}
    (hwhole : whole = ['0'] ∨ LeadingDigits whole) (hrest : Stops Char.isDigit rest) :
    readWholeDigits (whole ++ rest) = .ok (whole, rest) := by
  obtain rfl | hdigits := hwhole
  · change (if (rest.takeWhile Char.isDigit).isEmpty then _ else _) = _
    rw [hrest.takeWhile_eq_nil]
    rfl
  · have hother : ∀ cs, whole ++ rest ≠ '0' :: cs := by
      intro cs heq
      obtain ⟨c, digits, rfl⟩ := List.exists_cons_of_ne_nil hdigits.someDigits.1
      obtain ⟨rfl, -⟩ := List.cons.inj heq
      exact hdigits.ne_zero_cons digits rfl
    rw [readWholeDigits.eq_2 _ hother]
    exact readSomeDigits_append hdigits.someDigits hrest

/-- A fraction is read up to what is no digit; without one there is no point. -/
theorem readFraction_append {fraction : Option (List Char)} {rest : List Char}
    (hfraction : ∀ digits, fraction = some digits → SomeDigits digits)
    (hdigit : Stops Char.isDigit rest) (hpoint : Stops (· == '.') rest) :
    readFraction (fractionText fraction ++ rest) = .ok (fraction, rest) := by
  cases fraction with
  | none =>
    have hother : ∀ cs, rest ≠ '.' :: cs := by
      rintro cs rfl
      exact absurd (hpoint '.' rfl) (by decide)
    rw [fractionText, List.nil_append, readFraction.eq_2 _ hother]
  | some digits =>
    rw [fractionText, List.cons_append, readFraction,
      readSomeDigits_append (hfraction digits rfl) hdigit]
    rfl

/-- Behind a sign that is left out there are digits. -/
theorem takeSign_append {digits : List Char} (hdigits : SomeDigits digits) (rest : List Char) :
    takeSign (digits ++ rest) = (false, digits ++ rest) := by
  obtain ⟨hne, hall⟩ := hdigits
  obtain ⟨c, cs, rfl⟩ := List.exists_cons_of_ne_nil hne
  have hc := hall c List.mem_cons_self
  unfold takeSign
  split
  · next heq =>
    obtain rfl := (List.cons.inj heq).1
    exact absurd hc (by decide)
  · next heq =>
    obtain rfl := (List.cons.inj heq).1
    exact absurd hc (by decide)
  · rfl

/-- An exponent is read up to what is no digit; without one there is no mark. -/
theorem readExponent_append {exponent : Option (Bool × List Char)} {text rest : List Char}
    (htext : ExponentSpelledAs exponent text)
    (hexponent : ∀ negative digits, exponent = some (negative, digits) → SomeDigits digits)
    (hdigit : Stops Char.isDigit rest) (hmark : Stops (fun c => c == 'e' || c == 'E') rest) :
    readExponent (text ++ rest) = .ok (exponent, rest) := by
  cases htext with
  | none =>
    cases rest with
    | nil => rfl
    | cons c rest =>
      have hother : ¬ (c = 'e' ∨ c = 'E') := by simpa using hmark c rfl
      rw [List.nil_append, readExponent, if_neg hother]
  | unsigned hletter =>
    have hdigits := hexponent false _ rfl
    rw [List.cons_append, readExponent, if_pos hletter, takeSign_append hdigits]
    simp only [readSomeDigits_append hdigits hdigit]
    rfl
  | @signed _ negative _ hletter =>
    rw [List.cons_append, readExponent, if_pos hletter]
    cases negative <;>
      simp only [List.cons_append, takeSign, Bool.false_eq_true, if_true, if_false,
        readSomeDigits_append (hexponent _ _ rfl) hdigit] <;>
      rfl

/-- An exponent that is written begins with its mark. -/
theorem ExponentSpelledAs.stops {kind : Char → Bool} (hsmall : kind 'e' = false)
    (hcapital : kind 'E' = false) {exponent : Option (Bool × List Char)} {text rest : List Char}
    (htext : ExponentSpelledAs exponent text) (hrest : Stops kind rest) :
    Stops kind (text ++ rest) := by
  have hmark {c : Char} (hc : c = 'e' ∨ c = 'E') : kind c = false := by
    obtain rfl | rfl := hc
    · exact hsmall
    · exact hcapital
  cases htext with
  | none => exact hrest
  | unsigned hletter => exact Stops.cons (hmark hletter) _
  | signed hletter => exact Stops.cons (hmark hletter) _

/-- A fraction that is written begins with a point. -/
theorem stops_fractionText {kind : Char → Bool} (hpoint : kind '.' = false)
    (fraction : Option (List Char)) {rest : List Char} (hrest : Stops kind rest) :
    Stops kind (fractionText fraction ++ rest) := by
  cases fraction with
  | none => exact hrest
  | some digits => exact Stops.cons hpoint _

/-- A numeral without its sign is read back from any spelling. -/
theorem readUnsigned_append {n : Numeral} (hn : n.WellFormed) {exponent rest : List Char}
    (hexponent : ExponentSpelledAs n.exponent exponent) (hrest : Stops isNumeric rest) :
    readUnsigned n.negative (n.whole ++ (fractionText n.fraction ++ (exponent ++ rest))) =
      .ok (n, rest) := by
  have hdigit : Stops Char.isDigit rest := hrest.of_imp fun c hc => isNumeric_of_isDigit hc
  have hpoint : Stops (· == '.') rest := by
    refine hrest.of_imp fun c hc => ?_
    obtain rfl := beq_iff_eq.mp hc
    decide
  have hmark : Stops (fun c => c == 'e' || c == 'E') rest := by
    refine hrest.of_imp fun c hc => ?_
    obtain rfl | rfl : c = 'e' ∨ c = 'E' := by simpa using hc
    · decide
    · decide
  have hdigits := hexponent.stops (by decide) (by decide) hdigit
  have hwhole := readWholeDigits_append hn.whole (stops_fractionText (by decide) n.fraction hdigits)
  have hfraction := readFraction_append hn.fraction hdigits
    (hexponent.stops (by decide) (by decide) hpoint)
  simp only [readUnsigned, hwhole, hfraction,
    readExponent_append hexponent hn.exponent hdigit hmark, bind, Except.bind]
  rfl

/-! ## The layouts -/

/-- The text is a numeral with a fraction or an exponent, of either sign, that stands for the
decimal, trailing zeros apart. -/
def Writes (text : List Char) (d : Decimal) : Prop :=
  ∀ negative, ∃ n : Numeral, n.negative = negative ∧ n.WellFormed ∧ n.unsignedText = text ∧
    n.toInt? = none ∧ ∃ zeros, n.toDecimal = d.shift zeros

/-- A decimal below one is written with zeros behind the point. -/
theorem writes_positionalText_of_neg {digits : List Char} (hdigits : SomeDigits digits)
    {leading : Int} (hleading : leading < 0) :
    Writes (positionalText digits leading) (.ofDigits digits leading) := by
  intro negative
  obtain ⟨zeros, hzeros⟩ : ∃ zeros : Nat, leading = -zeros - 1 := ⟨(-leading - 1).toNat, by omega⟩
  have hfraction : SomeDigits (List.replicate zeros '0' ++ digits) := by
    refine hdigits.of_mem (by simp [hdigits.1]) fun c hc => ?_
    obtain hc | hc := List.mem_append.mp hc
    · exact .inr (List.eq_of_mem_replicate hc)
    · exact .inl hc
  have hcount : (-leading - 1).toNat = zeros := by omega
  refine ⟨⟨negative, ['0'], some (List.replicate zeros '0' ++ digits), none⟩, rfl,
    ⟨.inl rfl, ?_, by simp⟩, ?_, rfl, 0, ?_⟩
  · rintro _ ⟨⟩
    exact hfraction
  · simp only [positionalText, if_pos hleading, hcount, unsignedText, fractionText,
      exponentText, List.append_nil, List.cons_append, List.nil_append]
  · refine congrArg₂ Decimal.mk ?_ ?_
    · change natOfDigits (List.replicate (zeros + 1) '0' ++ digits) = natOfDigits digits * 10 ^ 0
      rw [natOfDigits_append, natOfDigits_replicate_zero, Nat.zero_mul, Nat.zero_add, Nat.pow_zero,
        Nat.mul_one]
    · change (0 : Int) - (List.replicate zeros '0' ++ digits).length =
        leading + 1 - digits.length - (0 : Nat)
      rw [List.length_append, List.length_replicate]
      omega

/-- A whole decimal is written with a zero behind the point. -/
theorem writes_positionalText_of_length_le {digits : List Char} (hdigits : LeadingDigits digits)
    {places : Nat} (hplaces : digits.length ≤ places + 1) :
    Writes (positionalText digits places) (.ofDigits digits places) := by
  intro negative
  obtain ⟨zeros, hzeros⟩ : ∃ zeros, places + 1 = digits.length + zeros :=
    ⟨places + 1 - digits.length, by omega⟩
  have hhead : (digits ++ List.replicate zeros '0').head? = digits.head? := by
    obtain ⟨-, c, hc, -⟩ := hdigits
    rw [List.head?_append, hc, Option.some_or]
  have hwhole : LeadingDigits (digits ++ List.replicate zeros '0') := by
    refine hdigits.of_head? hhead fun c hc => ?_
    obtain hc | hc := List.mem_append.mp hc
    · exact .inl hc
    · exact .inr (List.eq_of_mem_replicate hc)
  refine ⟨⟨negative, digits ++ List.replicate zeros '0', some ['0'], none⟩, rfl,
    ⟨.inr hwhole, ?_, by simp⟩, ?_, rfl, zeros + 1, ?_⟩
  · rintro _ ⟨⟩
    exact hdigits.someDigits.of_mem (by simp) (by simp)
  · have hnone : ¬ (places : Int) < 0 := by omega
    have htake : digits.take (digits.length + zeros) = digits :=
      List.take_of_length_le (Nat.le_add_right _ _)
    simp [positionalText, hnone, hzeros, htake, unsignedText, fractionText, exponentText]
  · refine congrArg₂ Decimal.mk ?_ ?_
    · change natOfDigits (digits ++ List.replicate zeros '0' ++ ['0']) = _
      rw [List.append_assoc, ← List.replicate_succ', natOfDigits_append,
        natOfDigits_replicate_zero, List.length_replicate, Nat.add_zero]
      rfl
    · change (0 : Int) - 1 = places + 1 - digits.length - (zeros + 1 : Nat)
      omega

/-- Any other decimal is written with its digits on both sides of the point. -/
theorem writes_positionalText_of_lt_length {digits : List Char} (hdigits : LeadingDigits digits)
    {places : Nat} (hplaces : places + 1 < digits.length) :
    Writes (positionalText digits places) (.ofDigits digits places) := by
  intro negative
  have hdrop : digits.drop (places + 1) ≠ [] := by
    rw [ne_eq, List.drop_eq_nil_iff]
    omega
  have hhead : (digits.take (places + 1)).head? = digits.head? := by
    rw [List.head?_take, if_neg (Nat.succ_ne_zero places)]
  have hwhole : LeadingDigits (digits.take (places + 1)) :=
    hdigits.of_head? hhead fun c hc => .inl (List.mem_of_mem_take hc)
  refine ⟨⟨negative, digits.take (places + 1), some (digits.drop (places + 1)), none⟩, rfl,
    ⟨.inr hwhole, ?_, by simp⟩, ?_, rfl, 0, ?_⟩
  · rintro _ ⟨⟩
    exact hdigits.someDigits.of_mem hdrop fun c hc => .inl (List.mem_of_mem_drop hc)
  · have hnone : ¬ (places : Int) < 0 := by omega
    have hpad : places + 1 - digits.length = 0 := by omega
    simp [positionalText, hnone, hpad, hdrop, unsignedText, fractionText, exponentText]
  · refine congrArg₂ Decimal.mk ?_ ?_
    · change natOfDigits (digits.take (places + 1) ++ digits.drop (places + 1)) =
        natOfDigits digits * 10 ^ 0
      rw [List.take_append_drop, Nat.pow_zero, Nat.mul_one]
    · change (0 : Int) - (digits.drop (places + 1)).length = places + 1 - digits.length - (0 : Nat)
      rw [List.length_drop]
      omega

/-- Digits without a zero in front that are laid out positionally stand for themselves. -/
theorem writes_positionalText {digits : List Char} (hdigits : LeadingDigits digits)
    (leading : Int) :
    Writes (positionalText digits leading) (.ofDigits digits leading) := by
  by_cases hleading : leading < 0
  · exact writes_positionalText_of_neg hdigits.someDigits hleading
  · obtain ⟨places, rfl⟩ : ∃ places : Nat, leading = places := ⟨leading.toNat, by omega⟩
    by_cases hplaces : digits.length ≤ places + 1
    · exact writes_positionalText_of_length_le hdigits hplaces
    · exact writes_positionalText_of_lt_length hdigits (by omega)

/-- The exponent that is written stands for the exponent of the leading digit. -/
theorem toDecimal_of_exponent (negative : Bool) (whole : List Char) (fraction : Option (List Char))
    (leading : Int) :
    toDecimal ⟨negative, whole, fraction, some (decide (leading < 0), digitsOf leading.natAbs)⟩ =
      ⟨natOfDigits (whole ++ fraction.getD []), leading - (fraction.getD []).length⟩ := by
  by_cases hleading : leading < 0
  · have habs : -(leading.natAbs : Int) = leading := by
      rw [Int.ofNat_natAbs_of_nonpos (by omega), Int.neg_neg]
    simp only [toDecimal, hleading, decide_true, natOfDigits_digitsOf, habs]
  · have habs : (leading.natAbs : Int) = leading := Int.natAbs_of_nonneg (by omega)
    simp only [toDecimal, hleading, decide_false, natOfDigits_digitsOf, habs]

/-- Digits without a zero in front that are laid out with an exponent stand for themselves. -/
theorem writes_scientificText {digits : List Char} (hdigits : LeadingDigits digits)
    (leading : Int) : Writes (scientificText digits leading) (.ofDigits digits leading) := by
  intro negative
  obtain ⟨c, cs, rfl⟩ := List.exists_cons_of_ne_nil hdigits.someDigits.1
  have hwhole : LeadingDigits [c] := hdigits.of_head? rfl (by simp)
  have hexponent (negative' : Bool) (digits' : List Char)
      (h : some (decide (leading < 0), digitsOf leading.natAbs) = some (negative', digits')) :
      SomeDigits digits' := by
    obtain ⟨-, rfl⟩ := Prod.mk.inj (Option.some.inj h)
    exact ⟨digitsOf_ne_nil _, fun c hc => isDigit_of_mem_digitsOf hc⟩
  cases cs with
  | nil =>
    refine ⟨⟨negative, [c], none, some (decide (leading < 0), digitsOf leading.natAbs)⟩, rfl,
      ⟨.inr hwhole, by simp, hexponent⟩, ?_, rfl, 0, ?_⟩
    · simp [scientificText, unsignedText, fractionText, exponentText]
    · rw [toDecimal_of_exponent]
      refine congrArg₂ Decimal.mk (Nat.mul_one _).symm ?_
      change leading - 0 = leading + 1 - 1 - (0 : Nat)
      omega
  | cons d cs =>
    refine ⟨⟨negative, [c], some (d :: cs), some (decide (leading < 0), digitsOf leading.natAbs)⟩,
      rfl, ⟨.inr hwhole, ?_, hexponent⟩, ?_, rfl, 0, ?_⟩
    · rintro _ ⟨⟩
      exact hdigits.someDigits.of_mem (by simp) fun e he => .inl (List.mem_cons_of_mem c he)
    · simp [scientificText, unsignedText, fractionText, exponentText]
    · rw [toDecimal_of_exponent]
      refine congrArg₂ Decimal.mk (Nat.mul_one _).symm ?_
      change leading - (cs.length + 1 : Nat) = leading + 1 - (cs.length + 1 + 1 : Nat) - (0 : Nat)
      omega

/-! ## Numbers -/

/-- The digits of a natural number are a whole part. -/
theorem digitsOf_eq_zero_or_leadingDigits (n : Nat) :
    digitsOf n = ['0'] ∨ LeadingDigits (digitsOf n) := by
  obtain ⟨c, cs, hdigits, -⟩ := exists_digitsOf_eq_cons n
  by_cases hzero : c = '0'
  · obtain rfl := eq_zero_of_digitsOf_eq_cons (hzero ▸ hdigits)
    exact .inl rfl
  · exact .inr ⟨fun c hc => isDigit_of_mem_digitsOf hc, c, by rw [hdigits]; rfl, hzero⟩

/-- The digits of a natural number are a numeral. -/
theorem wellFormed_digitsOf (negative : Bool) (n : Nat) :
    WellFormed ⟨negative, digitsOf n, none, none⟩ :=
  ⟨digitsOf_eq_zero_or_leadingDigits n, by simp, by simp⟩

/-- A natural number is written with all its digits and a zero behind the point. -/
theorem writes_digitsOf (n : Nat) : Writes (digitsOf n ++ ['.', '0']) ⟨n, 0⟩ := by
  intro negative
  have hzero : SomeDigits ['0'] := ⟨by simp, List.forall_mem_singleton.mpr (by decide)⟩
  refine ⟨⟨negative, digitsOf n, some ['0'], none⟩, rfl,
    ⟨digitsOf_eq_zero_or_leadingDigits n, ?_, by simp⟩, ?_, rfl, 1, ?_⟩
  · rintro _ ⟨⟩
    exact hzero
  · simp [unsignedText, fractionText, exponentText]
  · refine congrArg₂ Decimal.mk ?_ rfl
    change natOfDigits (digitsOf n ++ ['0']) = n * 10 ^ 1
    rw [natOfDigits_append, natOfDigits_digitsOf]
    rfl

/-- In any layout a magnitude is written as a decimal that is rounded to it. -/
theorem exists_writes_text (layout : Layout) (x : Magnitude) :
    ∃ d, Writes (x.text layout) d ∧ Magnitude.ofDecimal? d = some x := by
  by_cases hx : x.units = 0
  · obtain rfl := Magnitude.eq_zero_of_units_eq_zero hx
    refine ⟨⟨0, 0⟩, ?_, if_pos rfl⟩
    rw [Magnitude.text, if_pos hx]
    exact writes_digitsOf 0
  · simp only [Magnitude.text, if_neg hx]
    split
    · next hexact =>
      obtain ⟨-, hwhole⟩ := Bool.and_eq_true_iff.mp hexact
      exact ⟨_, writes_digitsOf _, Magnitude.ofDecimal?_of_isWhole hwhole⟩
    · have hcoefficient := Magnitude.coefficient_shortest_ne_zero layout.tie hx
      obtain ⟨c, cs, hsignificant, hc⟩ := Decimal.exists_significant_eq_cons hcoefficient
      have hdigits : LeadingDigits (x.shortest layout.tie).significant :=
        ⟨fun c hc => Decimal.isDigit_of_mem_significant hc, c, by rw [hsignificant]; rfl, hc⟩
      refine ⟨.ofDigits (x.shortest layout.tie).significant (x.shortest layout.tie).leading, ?_, ?_⟩
      · split
        · exact writes_positionalText hdigits _
        · exact writes_scientificText hdigits _
      · rw [Magnitude.ofDecimal?_ofDigits, Magnitude.ofDecimal?_shortest _ hx]

/-- In any layout a finite number is written as a numeral that stands for it, and for no whole
number. -/
theorem exists_finiteText_eq (layout : Layout) (x : Finite64) :
    ∃ numeral : Numeral, numeral.WellFormed ∧ numeral.text = x.text layout ∧
      numeral.toNumber? = some (.decimal x) := by
  obtain ⟨d, hwrites, hd⟩ := exists_writes_text layout x.magnitude
  obtain ⟨n, hnegative, hn, htext, hint, zeros, hdecimal⟩ := hwrites x.negative
  refine ⟨n, hn, ?_, ?_⟩
  · rw [text, hnegative, htext, Finite64.text]
  · rw [toNumber?, hint, Option.bind_none, toFinite?, Finite64.ofDecimal?, hdecimal,
      Magnitude.ofDecimal?_shift, hd, hnegative]
    rfl

/-- The whole part begins with a digit. -/
theorem WellFormed.exists_whole_eq_cons {n : Numeral} (hn : n.WellFormed) :
    ∃ c cs, n.whole = c :: cs ∧ c.isDigit := by
  obtain hwhole | hdigits := hn.whole
  · exact ⟨'0', [], hwhole, by decide⟩
  · obtain ⟨c, digits, hcons⟩ := List.exists_cons_of_ne_nil hdigits.someDigits.1
    exact ⟨c, digits, hcons, hdigits.1 c (hcons ▸ List.mem_cons_self)⟩

/-- A numeral is read back from any spelling. -/
theorem readNumeral_of_spelledAs {n : Numeral} (hn : n.WellFormed) {text rest : List Char}
    (htext : n.SpelledAs text) (hrest : Stops isNumeric rest) :
    readNumeral (text ++ rest) = .ok (n, rest) := by
  obtain ⟨hexponent⟩ := htext
  have hread := readUnsigned_append hn hexponent hrest
  simp only [List.append_assoc]
  cases hnegative : n.negative with
  | true =>
    rw [hnegative] at hread
    exact hread
  | false =>
    rw [hnegative] at hread
    obtain ⟨c, digits, hcons, hc⟩ := hn.exists_whole_eq_cons
    have hminus : c ≠ '-' := by
      rintro rfl
      exact absurd hc (by decide)
    rw [hcons] at hread ⊢
    rw [if_neg (by decide), List.nil_append, List.cons_append,
      readNumeral.eq_2 _ (by simpa using hminus)]
    exact hread

/-- A number is written as a numeral that stands for it. -/
theorem exists_text_eq (n : Number) :
    ∃ numeral : Numeral, numeral.WellFormed ∧ numeral.text = n.text ∧
      numeral.toNumber? = some n := by
  cases n with
  | whole n =>
    obtain ⟨value, hlower, hupper⟩ := n
    have hbounds : Whole.ofInt? value = some ⟨value, hlower, hupper⟩ := dif_pos ⟨hlower, hupper⟩
    cases value with
    | ofNat m =>
      have hint : toInt? ⟨false, digitsOf m, none, none⟩ = some (Int.ofNat m) := by
        simp [toInt?, natOfDigits_digitsOf]
      refine ⟨_, wellFormed_digitsOf false m, ?_, ?_⟩
      · simp [text, unsignedText, fractionText, exponentText, Number.text, integerText]
      · rw [toNumber?, hint, Option.bind_some, hbounds]
    | negSucc m =>
      have hint : toInt? ⟨true, digitsOf (m + 1), none, none⟩ = some (Int.negSucc m) := by
        simp [toInt?, natOfDigits_digitsOf, Int.negSucc_eq]
      refine ⟨_, wellFormed_digitsOf true (m + 1), ?_, ?_⟩
      · simp [text, unsignedText, fractionText, exponentText, Number.text, integerText]
      · rw [toNumber?, hint, Option.bind_some, hbounds]
  | decimal x => exact exists_finiteText_eq numberLayout x

end Numeral

/-- A number is read from any spelling of a numeral that stands for it. -/
theorem readNumber_of_spelledAs {numeral : Numeral} (hnumeral : numeral.WellFormed) {n : Number}
    (hn : numeral.toNumber? = some n) {text rest : List Char} (htext : numeral.SpelledAs text)
    (hrest : Stops isNumeric rest) : readNumber (text ++ rest) = .ok (n, rest) := by
  rw [readNumber, Numeral.readNumeral_of_spelledAs hnumeral htext hrest]
  simp only [bind, Except.bind, hn]
  rfl

/-- A numeral begins with a digit or a minus sign. -/
theorem Numeral.WellFormed.exists_eq_cons {numeral : Numeral} (h : numeral.WellFormed)
    {text : List Char} (htext : numeral.SpelledAs text) :
    ∃ c cs, text = c :: cs ∧ (c.isDigit ∨ c = '-') := by
  obtain ⟨-⟩ := htext
  cases numeral.negative with
  | true => exact ⟨'-', _, rfl, .inr rfl⟩
  | false =>
    obtain ⟨c, cs, hcons, hc⟩ := h.exists_whole_eq_cons
    rw [hcons]
    exact ⟨c, _, rfl, .inl hc⟩

/-! ## Machine words -/

/-- A signed 64-bit integer is found in its JSON value. -/
theorem toInt64?_int64 (n : Int64) : (int64 n).toInt64? = some n := by
  have hbounds : Int64.minValue.toInt ≤ n.toInt ∧ n.toInt ≤ Int64.maxValue.toInt :=
    ⟨n.minValue_le_toInt, n.toInt_le⟩
  change int64OfInt? n.toInt = some n
  rw [int64OfInt?, if_pos hbounds, Int64.ofInt_toInt]

/-- An unsigned 64-bit integer is found in its JSON value. -/
theorem toUInt64?_uint64 (n : UInt64) : (uint64 n).toUInt64? = some n := by
  change (if 0 ≤ (n.toNat : Int) then some (UInt64.ofNat (n.toNat : Int).toNat) else none) = _
  rw [if_pos (Int.natCast_nonneg _), Int.toNat_natCast, UInt64.ofNat_toNat]

end Json

end HostedSearch
