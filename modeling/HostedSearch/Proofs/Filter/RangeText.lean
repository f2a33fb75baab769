import HostedSearch.Filter.Range
import HostedSearch.Proofs.Number.Digits
import HostedSearch.Proofs.Text.Span

/-!
# The form of a range

A text has the form of a range when it is two bounds with `..` between them and white space around
either. White space, digits, the minus sign and the dot are told apart by every character, so the
parts of such a text can be found in one way only, from left to right. A range that is written
with its bounds in decimal is read back.
-/

namespace HostedSearch

/-- White space is no digit of any script. -/
theorem isDecimalDigit_eq_false_of_isBlank {c : Char} (hc : isBlank c) :
    isDecimalDigit c = false := by
  have hapart : ∀ range ∈ blankRanges, ∀ start ∈ digitZeros,
      range.2 < start ∨ start + 10 ≤ range.1 := by
    decide
  obtain ⟨range, hrange, hin⟩ := List.any_eq_true.mp hc
  rw [isDecimalDigit, List.any_eq_false]
  intro start hstart
  simp only [Bool.and_eq_true, decide_eq_true_eq] at hin ⊢
  have hranges := hapart range hrange start hstart
  omega

/-- A digit of any script is no white space. -/
theorem isBlank_eq_false_of_isDecimalDigit {c : Char} (hc : isDecimalDigit c) :
    isBlank c = false := by
  cases hblank : isBlank c with
  | false => rfl
  | true => rw [isDecimalDigit_eq_false_of_isBlank hblank] at hc; exact hc.symm

/-- The ten ASCII digits are decimal digits. -/
theorem isDecimalDigit_of_isDigit {c : Char} (hc : c.isDigit) : isDecimalDigit c := by
  rw [isDecimalDigit, List.any_eq_true]
  refine ⟨0x30, List.mem_cons_self, ?_⟩
  obtain ⟨hlower, hupper⟩ : '0'.toNat ≤ c.toNat ∧ c.toNat ≤ '9'.toNat := by
    simpa [Char.isDigit, UInt32.le_iff_toNat_le] using hc
  change 0x30 ≤ c.toNat at hlower
  change c.toNat ≤ 0x39 at hupper
  simp only [Bool.and_eq_true, decide_eq_true_eq]
  omega

namespace Range

/-- The text is a bound: digits behind an optional minus sign. -/
def IsBound (cs : List Char) : Prop :=
  ∃ digits, digits ≠ [] ∧ (∀ c ∈ digits, isDecimalDigit c) ∧ (cs = digits ∨ cs = '-' :: digits)

/-- The text has the form of a range with these bounds. -/
def HasForm (cs low high : List Char) : Prop :=
  ∃ before behindLow beforeHigh behind,
    (∀ c ∈ before ++ behindLow ++ beforeHigh ++ behind, isBlank c) ∧ IsBound low ∧ IsBound high ∧
      cs = before ++ (low ++ (behindLow ++ '.' :: '.' :: (beforeHigh ++ (high ++ behind))))

/-- A bound does not begin with white space. -/
theorem IsBound.stops_isBlank {cs : List Char} (h : IsBound cs) (rest : List Char) :
    Stops isBlank (cs ++ rest) := by
  obtain ⟨digits, hne, hdigits, rfl | rfl⟩ := h
  · obtain ⟨c, digits, rfl⟩ := List.exists_cons_of_ne_nil hne
    exact Stops.cons (isBlank_eq_false_of_isDecimalDigit (hdigits c List.mem_cons_self)) _
  · exact Stops.cons (by decide) _

/-! ## The readers of the parts -/

/-- Digits are taken as far as they go. -/
theorem takeDigits?_eq_some_iff {cs digits rest : List Char} :
    takeDigits? cs = some (digits, rest) ↔
      digits ≠ [] ∧ (∀ c ∈ digits, isDecimalDigit c) ∧ Stops isDecimalDigit rest ∧
        cs = digits ++ rest := by
  simp only [takeDigits?]
  constructor
  · intro h
    split at h
    · cases h
    · next hne =>
      obtain ⟨rfl, rfl⟩ := Prod.mk.inj (Option.some.inj h)
      exact ⟨fun hnil => hne (List.isEmpty_iff.mpr hnil),
        fun c hc => List.mem_takeWhile_imp hc, stops_dropWhile cs,
        List.takeWhile_append_dropWhile.symm⟩
  · rintro ⟨hne, hdigits, hrest, rfl⟩
    rw [takeWhile_append_of_stops hdigits hrest, dropWhile_append_of_stops hdigits hrest,
      if_neg (by simpa using hne)]

/-- A bound is taken as far as its digits go. -/
theorem takeBound?_eq_some_iff {cs bound rest : List Char} :
    takeBound? cs = some (bound, rest) ↔
      IsBound bound ∧ Stops isDecimalDigit rest ∧ cs = bound ++ rest := by
  constructor
  · intro h
    unfold takeBound? at h
    split at h
    · next cs' =>
      obtain ⟨⟨digits, rest'⟩, hdigits, h⟩ := Option.map_eq_some_iff.mp h
      obtain ⟨rfl, rfl⟩ := Prod.mk.inj h
      obtain ⟨hne, hall, hstops, rfl⟩ := takeDigits?_eq_some_iff.mp hdigits
      exact ⟨⟨digits, hne, hall, .inr rfl⟩, hstops, rfl⟩
    · obtain ⟨hne, hall, hstops, rfl⟩ := takeDigits?_eq_some_iff.mp h
      exact ⟨⟨bound, hne, hall, .inl rfl⟩, hstops, rfl⟩
  · rintro ⟨⟨digits, hne, hall, rfl | rfl⟩, hstops, rfl⟩
    · -- Digits alone do not begin with the minus sign.
      have hminus : ∀ cs', bound ++ rest ≠ '-' :: cs' := by
        intro cs' heq
        obtain ⟨c, digits, rfl⟩ := List.exists_cons_of_ne_nil hne
        obtain ⟨rfl, -⟩ := List.cons.inj heq
        exact absurd (hall '-' List.mem_cons_self) (by decide)
      rw [takeBound?.eq_2 _ hminus]
      exact takeDigits?_eq_some_iff.mpr ⟨hne, hall, hstops, rfl⟩
    · rw [List.cons_append, takeBound?,
        takeDigits?_eq_some_iff.mpr ⟨hne, hall, hstops, rfl⟩]
      rfl

/-- The two dots are taken from the front. -/
theorem takeDots?_eq_some_iff {cs rest : List Char} :
    takeDots? cs = some rest ↔ cs = '.' :: '.' :: rest := by
  unfold takeDots?
  split
  · simp
  · next hother =>
    constructor
    · intro h
      cases h
    · intro h
      exact absurd h (hother rest)

/-- The two bounds are found in a text exactly when it has the form of a range with them. -/
theorem bounds?_eq_some_iff {cs low high : List Char} :
    bounds? cs = some (low, high) ↔ HasForm cs low high := by
  simp only [bounds?, Option.bind_eq_bind, Option.bind_eq_some_iff, Prod.exists,
    takeBound?_eq_some_iff, takeDots?_eq_some_iff]
  constructor
  · rintro ⟨low', cs₁, ⟨hlow, -, hcs⟩, cs₂, hdots, high', cs₃, ⟨hhigh, -, hcs₂⟩, h⟩
    split at h
    · next hblank =>
      obtain ⟨rfl, rfl⟩ := Prod.mk.inj (Option.some.inj h)
      refine ⟨cs.takeWhile isBlank, cs₁.takeWhile isBlank, cs₂.takeWhile isBlank, cs₃, ?_, hlow,
        hhigh, ?_⟩
      · intro c hc
        simp only [List.mem_append] at hc
        obtain ((hc | hc) | hc) | hc := hc
        · exact List.mem_takeWhile_imp hc
        · exact List.mem_takeWhile_imp hc
        · exact List.mem_takeWhile_imp hc
        · exact List.all_eq_true.mp hblank c hc
      · rw [← hcs₂, dropBlank, List.takeWhile_append_dropWhile, ← hdots, dropBlank,
          List.takeWhile_append_dropWhile, ← hcs, dropBlank, List.takeWhile_append_dropWhile]
    · cases h
  · rintro ⟨before, behindLow, beforeHigh, behind, hblank, hlow, hhigh, rfl⟩
    have hbefore : ∀ c ∈ before, isBlank c := fun c hc => hblank c (by simp [hc])
    have hbehindLow : ∀ c ∈ behindLow, isBlank c := fun c hc => hblank c (by simp [hc])
    have hbeforeHigh : ∀ c ∈ beforeHigh, isBlank c := fun c hc => hblank c (by simp [hc])
    have hbehind : ∀ c ∈ behind, isBlank c := fun c hc => hblank c (by simp [hc])
    refine ⟨low, behindLow ++ '.' :: '.' :: (beforeHigh ++ (high ++ behind)), ⟨hlow, ?_, ?_⟩,
      beforeHigh ++ (high ++ behind), ?_, high, behind, ⟨hhigh, ?_, ?_⟩, ?_⟩
    · exact Stops.append (fun c hc => isDecimalDigit_eq_false_of_isBlank (hbehindLow c hc))
        (Stops.cons (by decide) _)
    · exact dropWhile_append_of_stops hbefore (hlow.stops_isBlank _)
    · exact dropWhile_append_of_stops hbehindLow (Stops.cons (by decide) _)
    · rw [← List.append_nil behind]
      exact Stops.append (fun c hc => isDecimalDigit_eq_false_of_isBlank (hbehind c hc)) Stops.nil
    · exact dropWhile_append_of_stops hbeforeHigh (hhigh.stops_isBlank _)
    · rw [isAllBlank, if_pos (List.all_eq_true.mpr hbehind)]

/-- A text in which no two bounds are found has not the form of a range. -/
theorem not_hasForm_of_bounds?_eq_none {cs : List Char} (h : bounds? cs = none)
    (low high : List Char) : ¬ HasForm cs low high := by
  intro hform
  rw [bounds?_eq_some_iff.mpr hform] at h
  cases h

/-! ## Ranges in decimal -/

/-- The text of a range, its bounds in decimal. -/
def text (range : Range) : List Char :=
  Filter.int64Text range.low ++ '.' :: '.' :: Filter.int64Text range.high

/-- An integer in decimal is a bound. -/
theorem isBound_int64Text (n : Int64) : IsBound (Filter.int64Text n) := by
  rw [Filter.int64Text]
  cases n.toInt with
  | ofNat m =>
    exact ⟨digitsOf m, digitsOf_ne_nil m,
      fun c hc => isDecimalDigit_of_isDigit (isDigit_of_mem_digitsOf hc), .inl rfl⟩
  | negSucc m =>
    exact ⟨digitsOf (m + 1), digitsOf_ne_nil (m + 1),
      fun c hc => isDecimalDigit_of_isDigit (isDigit_of_mem_digitsOf hc), .inr rfl⟩

/-- A text in the form of a range whose bounds are read is read as their range. -/
theorem ofText?_of_readBound {s : String} {lowText highText : List Char}
    (h : HasForm s.toList lowText highText) {low high : Int64}
    (hlow : readBound lowText = .ok low) (hhigh : readBound highText = .ok high) :
    ofText? s = .ok (some ⟨low, high⟩) := by
  rw [ofText?, bounds?_eq_some_iff.mpr h]
  simp only [hlow, hhigh]
  rfl

/-- A text in the form of a range whose bounds are integers in decimal is read as their range. -/
theorem ofText?_of_hasForm {s : String} {low high : Int64}
    (h : HasForm s.toList (Filter.int64Text low) (Filter.int64Text high)) :
    ofText? s = .ok (some ⟨low, high⟩) := by
  have hread (n : Int64) : readBound (Filter.int64Text n) = .ok n := by
    rw [readBound, readInt64_int64Text]
  exact ofText?_of_readBound h (hread low) (hread high)

/-- A text that has not the form of a range is none. -/
theorem ofText?_of_not_hasForm {s : String} (h : ∀ low high, ¬ HasForm s.toList low high) :
    ofText? s = .ok none := by
  have hnone : bounds? s.toList = none := by
    apply Option.eq_none_iff_forall_ne_some.mpr
    rintro ⟨low, high⟩ hbounds
    exact h low high (bounds?_eq_some_iff.mp hbounds)
  rw [ofText?, hnone]

/-- A range is read back from its text. -/
theorem ofText?_text (range : Range) : ofText? (String.ofList range.text) = .ok (some range) := by
  apply ofText?_of_hasForm
  refine ⟨[], [], [], [], by simp, isBound_int64Text _, isBound_int64Text _, ?_⟩
  simp [text]

end Range

end HostedSearch
