import HostedSearch.Proofs.Json.Step
import Mathlib.Data.List.TakeWhile

/-!
# Passing over values makes progress

What is left behind a value that has been passed over is never longer than the text before it.
For arrays and objects this follows from the readers of their items, names and members.
-/

namespace HostedSearch

namespace Json

variable {α ν σ : Type}

/-- A reader that never leaves more than it was given. -/
def Shrinks (reader : Reader α) : Prop :=
  ∀ ⦃cs a rest⦄, reader cs = .ok (a, rest) → rest.length ≤ cs.length

/-- Passing over space leaves no more than there was. -/
theorem length_skipSpace_le (cs : List Char) : (skipSpace cs).length ≤ cs.length :=
  List.length_dropWhile_le isSpace cs

/-- A token behind space is part of the text. -/
theorem length_lt_of_skipSpace_eq_cons {cs rest : List Char} {c : Char}
    (h : skipSpace cs = c :: rest) : rest.length < cs.length := by
  have hle := length_skipSpace_le cs
  rw [h, List.length_cons] at hle
  omega

/-- The colon behind a name is part of the text. -/
theorem length_lt_of_takeColon_eq_ok {cs rest : List Char} (h : takeColon cs = .ok rest) :
    rest.length < cs.length :=
  length_lt_of_skipSpace_eq_cons (takeColon_eq_ok_iff.mp h)

/-! ## Scalars -/

/-- Passing over a string makes progress. -/
theorem shrinks_skipString : Shrinks skipString := by
  intro cs a rest h
  fun_induction skipString cs with
  | case1 => simp at h
  | case2 cs =>
    obtain rfl := (Prod.mk.inj (Except.ok.inj h)).2
    simp
  | case3 a b c d cs hhex ih =>
    have := ih h
    simp only [List.length_cons]
    omega
  | case4 => simp at h
  | case5 letter cs hu hletter ih =>
    have := ih h
    simp only [List.length_cons]
    omega
  | case6 => simp at h
  | case7 => simp at h
  | case8 c cs _ _ _ _ ih =>
    have := ih h
    simp only [List.length_cons]
    omega

/-- Reading digits makes progress. -/
theorem shrinks_readSomeDigits : Shrinks readSomeDigits := by
  intro cs digits rest h
  unfold readSomeDigits at h
  dsimp only at h
  split at h
  · simp at h
  · obtain ⟨-, rfl⟩ := Prod.mk.inj (Except.ok.inj h)
    exact List.length_dropWhile_le _ cs

/-- Reading the digits before the point makes progress. -/
theorem shrinks_readWholeDigits : Shrinks readWholeDigits := by
  intro cs digits rest h
  unfold readWholeDigits at h
  split at h
  · next cs =>
    split at h
    · obtain ⟨-, rfl⟩ := Prod.mk.inj (Except.ok.inj h)
      simp
    · simp at h
  · exact shrinks_readSomeDigits h

/-- Reading a fraction makes progress. -/
theorem shrinks_readFraction : Shrinks readFraction := by
  intro cs fraction rest h
  unfold readFraction at h
  split at h
  · next cs =>
    obtain ⟨⟨digits, cs'⟩, hdigits, h⟩ := bind_eq_ok.mp h
    obtain ⟨-, rfl⟩ := Prod.mk.inj (Except.ok.inj h)
    have := shrinks_readSomeDigits hdigits
    simp only [List.length_cons]
    omega
  · obtain ⟨-, rfl⟩ := Prod.mk.inj (Except.ok.inj h)
    exact Nat.le_refl _

/-- Behind a sign there is no more than before it. -/
theorem length_takeSign_le (cs : List Char) : (takeSign cs).2.length ≤ cs.length := by
  unfold takeSign
  split <;> simp

/-- Reading an exponent makes progress. -/
theorem shrinks_readExponent : Shrinks readExponent := by
  intro cs exponent rest h
  unfold readExponent at h
  split at h
  · obtain ⟨-, rfl⟩ := Prod.mk.inj (Except.ok.inj h)
    exact Nat.le_refl _
  · next c cs =>
    split at h
    · obtain ⟨⟨digits, cs'⟩, hdigits, h⟩ := bind_eq_ok.mp h
      obtain ⟨-, rfl⟩ := Prod.mk.inj (Except.ok.inj h)
      have hsign := length_takeSign_le cs
      have hrest : cs'.length ≤ (takeSign cs).2.length := shrinks_readSomeDigits hdigits
      simp only [List.length_cons]
      omega
    · obtain ⟨-, rfl⟩ := Prod.mk.inj (Except.ok.inj h)
      exact Nat.le_refl _

/-- Reading a number without its sign makes progress. -/
theorem shrinks_readUnsigned (negative : Bool) : Shrinks (readUnsigned negative) := by
  intro cs numeral rest h
  obtain ⟨⟨whole, cs₁⟩, hwhole, h⟩ := bind_eq_ok.mp h
  obtain ⟨⟨fraction, cs₂⟩, hfraction, h⟩ := bind_eq_ok.mp h
  obtain ⟨⟨exponent, cs₃⟩, hexponent, h⟩ := bind_eq_ok.mp h
  obtain ⟨-, rfl⟩ := Prod.mk.inj (Except.ok.inj h)
  calc cs₃.length
    _ ≤ cs₂.length := shrinks_readExponent hexponent
    _ ≤ cs₁.length := shrinks_readFraction hfraction
    _ ≤ cs.length := shrinks_readWholeDigits hwhole

/-- Reading a number makes progress. -/
theorem shrinks_readNumeral : Shrinks readNumeral := by
  intro cs numeral rest h
  unfold readNumeral at h
  split at h
  · exact Nat.le_succ_of_le (shrinks_readUnsigned true h)
  · exact shrinks_readUnsigned false h

/-- Passing over a scalar makes progress. -/
theorem shrinks_skipScalar : Shrinks skipScalar := by
  intro cs a rest h
  unfold skipScalar at h
  split at h
  · exact Nat.le_succ_of_le (shrinks_skipString h)
  · obtain ⟨-, rfl⟩ := Prod.mk.inj (Except.ok.inj h)
    simp only [List.length_cons]
    omega
  · obtain ⟨-, rfl⟩ := Prod.mk.inj (Except.ok.inj h)
    simp only [List.length_cons]
    omega
  · obtain ⟨-, rfl⟩ := Prod.mk.inj (Except.ok.inj h)
    simp only [List.length_cons]
    omega
  · obtain ⟨⟨numeral, cs'⟩, hnumeral, h⟩ := bind_eq_ok.mp h
    obtain ⟨-, rfl⟩ := Prod.mk.inj (Except.ok.inj h)
    exact shrinks_readNumeral hnumeral

/-! ## Containers -/

/-- Reading items makes progress if reading one does. -/
theorem shrinks_readItems {item : Reader α} (hitem : Shrinks item) (bound : Nat) :
    Shrinks (readItems item bound) := by
  induction bound with
  | zero => exact fun _ _ _ h => by simp [readItems] at h
  | succ bound ih =>
    intro cs items rest h
    obtain ⟨first, cs₁, hfirst, ⟨cs₂, others, hcomma, hothers, -⟩ | ⟨hbracket, -⟩⟩ :=
      readItems_succ_eq_ok_iff.mp h
    · have hitemLe := hitem hfirst
      have hcommaLt := length_lt_of_skipSpace_eq_cons hcomma
      have hothersLe := ih hothers
      omega
    · have hitemLe := hitem hfirst
      have hbracketLt := length_lt_of_skipSpace_eq_cons hbracket
      omega

/-- Reading an array makes progress if reading an item does. -/
theorem shrinks_readArray {item : Reader α} (hitem : Shrinks item) : Shrinks (readArray item) := by
  intro cs items rest h
  obtain ⟨hbracket, -⟩ | ⟨-, hitems⟩ := readArray_eq_ok_iff.mp h
  · exact Nat.le_of_lt (length_lt_of_skipSpace_eq_cons hbracket)
  · exact Nat.le_trans (shrinks_readItems hitem _ hitems) (length_skipSpace_le cs)

/-- An array of two items, if reading an item makes progress: then there is room for the second. -/
theorem readArray_pair_eq_ok_iff {item : Reader α} (hitem : Shrinks item) {cs rest : List Char}
    {a b : α} :
    readArray item cs = .ok ([a, b], rest) ↔
      (∀ cs', skipSpace cs ≠ ']' :: cs') ∧
        ∃ cs₁ cs₂ cs₃, item (skipSpace cs) = .ok (a, cs₁) ∧ skipSpace cs₁ = ',' :: cs₂ ∧
          item cs₂ = .ok (b, cs₃) ∧ skipSpace cs₃ = ']' :: rest := by
  have hroom : ∀ {cs₁ cs₂}, item (skipSpace cs) = .ok (a, cs₁) → skipSpace cs₁ = ',' :: cs₂ →
      ∃ bound, (skipSpace cs).length = bound + 1 := by
    intro cs₁ cs₂ ha hcomma
    have hitemLe := hitem ha
    have hcommaLt := length_lt_of_skipSpace_eq_cons hcomma
    exact ⟨(skipSpace cs).length - 1, by omega⟩
  simp only [readArray_eq_ok_iff, readItems_succ_eq_ok_iff, List.cons.injEq, reduceCtorEq,
    and_false, false_or, or_false]
  refine and_congr_right fun _ => ?_
  constructor
  · rintro ⟨_, cs₁, ha, cs₂, _, hcomma, hothers, rfl, rfl⟩
    obtain ⟨bound, hbound⟩ := hroom ha hcomma
    rw [hbound] at hothers
    obtain ⟨cs₃, hb, hbracket⟩ := readItems_singleton_eq_ok_iff.mp hothers
    exact ⟨cs₁, cs₂, cs₃, ha, hcomma, hb, hbracket⟩
  · rintro ⟨cs₁, cs₂, cs₃, ha, hcomma, hb, hbracket⟩
    obtain ⟨bound, hbound⟩ := hroom ha hcomma
    refine ⟨a, cs₁, ha, cs₂, [b], hcomma, ?_, rfl, rfl⟩
    rw [hbound]
    exact readItems_singleton_eq_ok_iff.mpr ⟨cs₃, hb, hbracket⟩

/-- Reading members makes progress if reading names and values does. -/
theorem shrinks_readMembers {name : Reader ν} {member : σ → ν → Reader σ} (hname : Shrinks name)
    (hmember : ∀ state n, Shrinks (member state n)) (bound : Nat) (state : σ) :
    Shrinks (readMembers name member bound state) := by
  induction bound generalizing state with
  | zero => exact fun _ _ _ h => by simp [readMembers] at h
  | succ bound ih =>
    intro cs last rest h
    obtain ⟨cs₀, n, cs₁, next, cs₂, rfl, hn, hnext, hend⟩ := readMembers_succ_eq_ok_iff.mp h
    have hnameLe := hname hn
    have hmemberLe := hmember state n hnext
    rw [List.length_cons]
    obtain ⟨cs₃, hcomma, hothers⟩ | ⟨hbrace, -⟩ := hend
    · have hcommaLt := length_lt_of_skipSpace_eq_cons hcomma
      have hothersLe := ih next hothers
      have hspaceLe := length_skipSpace_le cs₃
      omega
    · have hbraceLt := length_lt_of_skipSpace_eq_cons hbrace
      omega

/-- Reading an object makes progress if reading names and values does. -/
theorem shrinks_readObject {name : Reader ν} {member : σ → ν → Reader σ} (hname : Shrinks name)
    (hmember : ∀ state n, Shrinks (member state n)) (start : σ) :
    Shrinks (readObject name member start) := by
  intro cs last rest h
  obtain ⟨hbrace, -⟩ | hmembers := readObject_eq_ok_iff.mp h
  · exact Nat.le_of_lt (length_lt_of_skipSpace_eq_cons hbrace)
  · exact Nat.le_trans (shrinks_readMembers hname hmember _ _ hmembers) (length_skipSpace_le cs)

/-- Passing over a member makes progress if passing over its value does. -/
theorem shrinks_skipMember {value : Reader Unit} (hvalue : Shrinks value) (state n : Unit) :
    Shrinks (skipMember value state n) := by
  intro cs a rest h
  obtain ⟨cs', hcolon, hrest⟩ := skipMember_eq_ok_iff.mp h
  have hcolonLt := length_lt_of_takeColon_eq_ok hcolon
  have hvalueLe := hvalue hrest
  omega

/-- Passing over a value makes progress. -/
theorem shrinks_skipNested (bound : Nat) : Shrinks (skipNested bound) := by
  induction bound with
  | zero => exact fun _ _ _ h => by simp [skipNested] at h
  | succ bound ih =>
    intro cs a rest h
    obtain ⟨cs', items, hopen, hitems⟩ | ⟨cs', hopen, hmembers⟩ | ⟨-, hscalar⟩ :=
      skipNested_succ_eq_ok_iff.mp h
    · have hopenLt := length_lt_of_skipSpace_eq_cons hopen
      have hitemsLe := shrinks_readArray ih hitems
      omega
    · have hopenLt := length_lt_of_skipSpace_eq_cons hopen
      have hmembersLe := shrinks_readObject shrinks_skipString (shrinks_skipMember ih) () hmembers
      omega
    · exact Nat.le_trans (shrinks_skipScalar hscalar) (length_skipSpace_le cs)

end Json

end HostedSearch
