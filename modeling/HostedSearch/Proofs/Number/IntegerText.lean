import HostedSearch.Proofs.Number.WordText

/-!
# Texts that are integers

An integer is written with ASCII digits behind an optional minus sign. The reader of signed words
takes such a text exactly when its integer fits the word, down to the least one, whose magnitude is
beyond that of the greatest.
-/

namespace HostedSearch

/-- One or more digits, perhaps behind a minus sign, and the integer that they stand for. -/
inductive IsInteger : List Char → Int → Prop where
  | digits {cs : List Char} (hcs : cs ≠ []) (hdigits : ∀ c ∈ cs, c.isDigit) :
      IsInteger cs (natOfDigits cs)
  | negative {cs : List Char} (hcs : cs ≠ []) (hdigits : ∀ c ∈ cs, c.isDigit) :
      IsInteger ('-' :: cs) (-(natOfDigits cs : Int))

/-- The integer is within the range of signed 64-bit words. -/
def FitsInt64 (i : Int) : Prop :=
  Int64.minValue.toInt ≤ i ∧ i ≤ Int64.maxValue.toInt

/-- A signed word is within its range. -/
theorem fitsInt64_toInt (n : Int64) : FitsInt64 n.toInt :=
  ⟨n.minValue_le_toInt, n.toInt_le⟩

/-- An integer within the range is that of a word. -/
theorem FitsInt64.toInt_ofInt {i : Int} (h : FitsInt64 i) : (Int64.ofInt i).toInt = i := by
  obtain ⟨hlower, hupper⟩ := h
  change -(2 ^ 63 : Int) ≤ i at hlower
  change i ≤ (2 ^ 63 : Int) - 1 at hupper
  exact Int64.toInt_ofInt_of_le hlower (by omega)

/-- A minus sign is no digit. -/
theorem not_forall_isDigit_minus_cons {cs : List Char} : ¬ ∀ c ∈ '-' :: cs, c.isDigit :=
  fun h => absurd (h '-' List.mem_cons_self) (by decide)

/-- A text stands for one integer only. -/
theorem IsInteger.unique {cs : List Char} {i j : Int} (hi : IsInteger cs i) (hj : IsInteger cs j) :
    i = j := by
  cases hi with
  | digits _ hdigits =>
    cases hj with
    | digits _ _ => rfl
    | negative _ _ => exact absurd hdigits not_forall_isDigit_minus_cons
  | negative _ _ =>
    cases hj with
    | digits _ hdigits => exact absurd hdigits not_forall_isDigit_minus_cons
    | negative _ _ => rfl

/-- Digits alone are an integer exactly when they are there and stand for it. -/
theorem isInteger_iff_of_ne_minus {cs : List Char} (h : ∀ rest, cs ≠ '-' :: rest) {i : Int} :
    IsInteger cs i ↔ cs ≠ [] ∧ (∀ c ∈ cs, c.isDigit) ∧ (natOfDigits cs : Int) = i := by
  constructor
  · rintro (⟨hcs, hdigits⟩ | ⟨hcs, hdigits⟩)
    · exact ⟨hcs, hdigits, rfl⟩
    · exact absurd rfl (h _)
  · rintro ⟨hcs, hdigits, rfl⟩
    exact .digits hcs hdigits

/-- Behind a minus sign digits are an integer exactly when they are there and stand for its
opposite. -/
theorem isInteger_minus_cons_iff {cs : List Char} {i : Int} :
    IsInteger ('-' :: cs) i ↔ cs ≠ [] ∧ (∀ c ∈ cs, c.isDigit) ∧ -(natOfDigits cs : Int) = i := by
  constructor
  · rintro (⟨-, hdigits⟩ | ⟨hcs, hdigits⟩)
    · exact absurd hdigits not_forall_isDigit_minus_cons
    · exact ⟨hcs, hdigits, rfl⟩
  · rintro ⟨hcs, hdigits, rfl⟩
    exact .negative hcs hdigits

/-- A magnitude that is read and put behind a sign is a word, if the word's range allows it. -/
theorem map_readMagnitude_eq_ok_iff {limit : Nat} {beyond : IntegerFault} (sign : Int → Int)
    (hsign : ∀ m : Nat, m ≤ limit ↔ FitsInt64 (sign m)) {cs : List Char} {n : Int64} :
    ((readMagnitude limit beyond cs).map fun i => Int64.ofInt (sign i)) = .ok n ↔
      cs ≠ [] ∧ (∀ c ∈ cs, c.isDigit) ∧ sign (natOfDigits cs) = n.toInt := by
  constructor
  · intro h
    cases hread : readMagnitude limit beyond cs with
    | error fault => rw [hread] at h; cases h
    | ok m =>
      obtain ⟨hcs, hdigits, rfl, hlimit⟩ := readMagnitude_eq_ok_iff.mp hread
      rw [hread] at h
      obtain rfl : Int64.ofInt (sign (natOfDigits cs)) = n := Except.ok.inj h
      exact ⟨hcs, hdigits, ((hsign _).mp hlimit).toInt_ofInt.symm⟩
  · rintro ⟨hcs, hdigits, hvalue⟩
    have hlimit := (hsign (natOfDigits cs)).mpr (hvalue ▸ fitsInt64_toInt n)
    rw [readMagnitude_eq_ok_iff.mpr ⟨hcs, hdigits, rfl, hlimit⟩]
    change Except.ok (Int64.ofInt (sign (natOfDigits cs))) = _
    rw [hvalue, Int64.ofInt_toInt]

/-- A text without a plus sign in front is read exactly as the integer that it stands for, if that
fits. -/
theorem readInt64_eq_ok_iff {cs : List Char} (hplus : ∀ rest, cs ≠ '+' :: rest) {n : Int64} :
    readInt64 cs = .ok n ↔ IsInteger cs n.toInt := by
  have hnegative (m : Nat) : m ≤ UInt64.size / 2 ↔ FitsInt64 (-(m : Int)) := by
    change m ≤ 2 ^ 63 ↔ -(2 ^ 63 : Int) ≤ -(m : Int) ∧ -(m : Int) ≤ 2 ^ 63 - 1
    omega
  have hpositive (m : Nat) : m ≤ UInt64.size / 2 - 1 ↔ FitsInt64 (m : Int) := by
    change m ≤ 2 ^ 63 - 1 ↔ -(2 ^ 63 : Int) ≤ (m : Int) ∧ (m : Int) ≤ 2 ^ 63 - 1
    omega
  unfold readInt64
  split
  · rw [isInteger_iff_of_ne_minus (by simp)]
    simp
  · rw [isInteger_minus_cons_iff]
    exact map_readMagnitude_eq_ok_iff (fun i => -i) hnegative
  · exact absurd rfl (hplus _)
  · next hminus _ =>
    rw [isInteger_iff_of_ne_minus hminus]
    exact map_readMagnitude_eq_ok_iff (fun i => i) hpositive

/-- A text without a minus sign in front is read exactly as the natural number that it stands for,
if that fits. -/
theorem readInt64_eq_ok_iff_isNatural {cs : List Char} (hminus : ∀ rest, cs ≠ '-' :: rest)
    {n : Int64} : readInt64 cs = .ok n ↔ ∃ m : Nat, IsNatural cs m ∧ (m : Int) = n.toInt := by
  have hpositive (m : Nat) : m ≤ UInt64.size / 2 - 1 ↔ FitsInt64 (m : Int) := by
    change m ≤ 2 ^ 63 - 1 ↔ -(2 ^ 63 : Int) ≤ (m : Int) ∧ (m : Int) ≤ 2 ^ 63 - 1
    omega
  have hread : readInt64 cs =
      (readNatural (UInt64.size / 2 - 1) cs).map fun m => Int64.ofInt (m : Int) := by
    unfold readInt64 readNatural
    split
    · rfl
    · exact absurd rfl (hminus _)
    · rfl
    · next hplus => simp_all
  rw [hread]
  constructor
  · intro h
    cases hnatural : readNatural (UInt64.size / 2 - 1) cs with
    | error fault => rw [hnatural] at h; cases h
    | ok m =>
      obtain ⟨htext, hlimit⟩ := readNatural_eq_ok_iff.mp hnatural
      rw [hnatural] at h
      obtain rfl : Int64.ofInt (m : Int) = n := Except.ok.inj h
      exact ⟨m, htext, ((hpositive m).mp hlimit).toInt_ofInt.symm⟩
  · rintro ⟨m, htext, hvalue⟩
    have hlimit := (hpositive m).mpr (hvalue ▸ fitsInt64_toInt n)
    rw [readNatural_eq_ok_iff.mpr ⟨htext, hlimit⟩]
    change Except.ok (Int64.ofInt (m : Int)) = _
    rw [hvalue, Int64.ofInt_toInt]

end HostedSearch
