import HostedSearch.Filter.Query
import HostedSearch.Number.Integer
import HostedSearch.Proofs.Number.Numeral
import Mathlib.Algebra.Group.Nat.Defs

/-!
# Reading digits back

The digits of a natural number stand for that number, and digits one behind the other for the sum
that their places give. A machine word is read back from its digits, since these never carry the
number past the word's limit on the way.
-/

namespace HostedSearch

/-- The number that digits stand for, by the general reader of digits in base ten. -/
theorem natOfDigits_eq_ofDigitChars (digits : List Char) :
    natOfDigits digits = Nat.ofDigitChars 10 digits 0 := by
  rw [natOfDigits, Nat.ofDigitChars]
  simp only [Nat.mul_comm]

/-- The digits of a natural number stand for it. -/
theorem natOfDigits_digitsOf (n : Nat) : natOfDigits (digitsOf n) = n := by
  rw [natOfDigits_eq_ofDigitChars]
  exact Nat.ofDigitChars_ten_toDigits

/-- Digits behind others shift those by their number of places. -/
theorem natOfDigits_append (left right : List Char) :
    natOfDigits (left ++ right) = natOfDigits left * 10 ^ right.length + natOfDigits right := by
  simp only [natOfDigits_eq_ofDigitChars, Nat.ofDigitChars_append]
  rw [Nat.ofDigitChars_eq_ofDigitChars_zero, Nat.mul_comm]

/-- Zeros alone stand for zero. -/
theorem natOfDigits_replicate_zero (n : Nat) : natOfDigits (List.replicate n '0') = 0 := by
  induction n with
  | zero => rfl
  | succ n ih => rw [List.replicate_succ', natOfDigits_append, ih]; rfl

/-- A natural number has at least one digit. -/
theorem digitsOf_ne_nil (n : Nat) : digitsOf n ≠ [] :=
  Nat.toDigits_ne_nil

/-- The first digit of a natural number. -/
theorem exists_digitsOf_eq_cons (n : Nat) :
    ∃ c cs, digitsOf n = c :: cs ∧ c.isDigit := by
  obtain ⟨c, cs, h⟩ := List.exists_cons_of_ne_nil (digitsOf_ne_nil n)
  exact ⟨c, cs, h, isDigit_of_mem_digitsOf (h ▸ List.mem_cons_self)⟩

/-- Only zero is written with a zero in front. -/
theorem eq_zero_of_digitsOf_eq_cons {n : Nat} {cs : List Char} (h : digitsOf n = '0' :: cs) :
    n = 0 := by
  induction n using Nat.strongRecOn generalizing cs with
  | ind n ih =>
    rw [digitsOf, Nat.toDigits_eq_if (by decide)] at h
    split at h
    · next hn =>
      have hzero : ∀ m < 10, m.digitChar = '0' → m = 0 := by decide
      exact hzero n hn (List.cons.inj h).1
    · next hn =>
      obtain ⟨c, cs', hfront, -⟩ := exists_digitsOf_eq_cons (n / 10)
      rw [← digitsOf, hfront, List.cons_append] at h
      obtain ⟨rfl, -⟩ := List.cons.inj h
      have hzero := ih (n / 10) (by omega) hfront
      omega

/-! ## Machine words -/

/-- Reading on never makes the number smaller. -/
theorem le_ofDigitChars (digits : List Char) (total : Nat) :
    total ≤ Nat.ofDigitChars 10 digits total := by
  rw [Nat.ofDigitChars_eq_ofDigitChars_zero]
  have hpow : 0 < 10 ^ digits.length := Nat.pow_pos (by decide)
  have hmul := Nat.le_mul_of_pos_left total hpow
  omega

/-- Digits are read if they do not carry the number past the limit. -/
theorem readDigits_eq_ok {limit : Nat} {beyond : IntegerFault} {digits : List Char} {total : Nat}
    (hdigits : ∀ c ∈ digits, c.isDigit) (hlimit : Nat.ofDigitChars 10 digits total ≤ limit) :
    readDigits limit beyond total digits = .ok (Nat.ofDigitChars 10 digits total) := by
  induction digits generalizing total with
  | nil => rfl
  | cons c digits ih =>
    rw [Nat.ofDigitChars_cons, Nat.mul_comm] at hlimit ⊢
    have hnext : total * 10 + (c.toNat - '0'.toNat) ≤ limit :=
      Nat.le_trans (le_ofDigitChars digits _) hlimit
    rw [readDigits, if_pos (hdigits c List.mem_cons_self), if_pos hnext]
    exact ih (fun d hd => hdigits d (List.mem_cons_of_mem c hd)) hlimit

/-- A natural number up to the limit is read back from its digits. -/
theorem readMagnitude_digitsOf {limit : Nat} (beyond : IntegerFault) {n : Nat} (h : n ≤ limit) :
    readMagnitude limit beyond (digitsOf n) = .ok n := by
  have hvalue : Nat.ofDigitChars 10 (digitsOf n) 0 = n := Nat.ofDigitChars_ten_toDigits
  have hread : readDigits limit beyond 0 (digitsOf n) = .ok n := by
    rw [readDigits_eq_ok (fun c hc => isDigit_of_mem_digitsOf hc) (by rwa [hvalue]), hvalue]
  obtain ⟨c, cs, hdigits, -⟩ := exists_digitsOf_eq_cons n
  rw [hdigits] at hread ⊢
  exact hread

/-- An unsigned 64-bit integer is read back from its digits. -/
theorem readUInt64_digitsOf (n : UInt64) : readUInt64 (digitsOf n.toNat) = .ok n := by
  have hlimit : n.toNat ≤ UInt64.size - 1 := Nat.le_sub_one_of_lt n.toNat_lt_size
  have hread := readMagnitude_digitsOf .tooLarge hlimit
  obtain ⟨c, cs, hdigits, hc⟩ := exists_digitsOf_eq_cons n.toNat
  have hplus : c ≠ '+' := by
    rintro rfl
    exact absurd hc (by decide)
  rw [hdigits] at hread ⊢
  rw [readUInt64, readNatural.eq_3 _ _ (by simp) (by simp [hplus]), hread]
  simp [Except.map]

/-- A numeral that begins with a digit has no sign. -/
theorem readInt64_cons_of_isDigit {c : Char} (hc : c.isDigit) (cs : List Char) :
    readInt64 (c :: cs) =
      (readMagnitude (UInt64.size / 2 - 1) .tooLarge (c :: cs)).map fun n => Int64.ofInt n := by
  have hminus : c ≠ '-' := by
    rintro rfl
    exact absurd hc (by decide)
  have hplus : c ≠ '+' := by
    rintro rfl
    exact absurd hc (by decide)
  simp [readInt64, hminus, hplus]

/-- A signed 64-bit integer is read back from its text. -/
theorem readInt64_int64Text (n : Int64) : readInt64 (Filter.int64Text n) = .ok n := by
  have hlower : -(2 ^ 63 : Int) ≤ n.toInt := n.minValue_le_toInt
  have hupper : n.toInt ≤ 2 ^ 63 - 1 := n.toInt_le
  have hback : Int64.ofInt n.toInt = n := Int64.ofInt_toInt n
  rw [Filter.int64Text]
  cases hn : n.toInt with
  | ofNat m =>
    rw [hn] at hupper hback
    have hlimit : m ≤ UInt64.size / 2 - 1 := Int.ofNat_le.mp hupper
    obtain ⟨c, cs, hdigits, hc⟩ := exists_digitsOf_eq_cons m
    rw [integerText, hdigits, readInt64_cons_of_isDigit hc, ← hdigits,
      readMagnitude_digitsOf .tooLarge hlimit]
    exact congrArg Except.ok hback
  | negSucc m =>
    rw [hn] at hlower hback
    have hlimit : m + 1 ≤ UInt64.size / 2 := by
      change -(2 ^ 63 : Int) ≤ -((m : Int) + 1) at hlower
      have hsize : UInt64.size / 2 = 2 ^ 63 := rfl
      omega
    rw [integerText, readInt64, readMagnitude_digitsOf .tooSmall hlimit]
    exact congrArg Except.ok hback

end HostedSearch
