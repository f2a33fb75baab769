import HostedSearch.Number.Layout
import HostedSearch.Proofs.Number.Digits
import HostedSearch.Proofs.Number.Rounding
import Mathlib.Data.List.TakeWhile

/-!
# Significant digits

A decimal that is not zero is its significant digits at the place of its leading one, apart from
trailing zeros.
-/

namespace HostedSearch

namespace Decimal

/-- The decimal that digits stand for when the first has the exponent `leading`. -/
def ofDigits (digits : List Char) (leading : Int) : Decimal :=
  ⟨natOfDigits digits, leading + 1 - digits.length⟩

/-- The digits of the coefficient are the significant ones and zeros behind them. -/
theorem exists_digitsOf_coefficient_eq (d : Decimal) :
    ∃ zeros, digitsOf d.coefficient = d.significant ++ List.replicate zeros '0' := by
  have hzeros : (digitsOf d.coefficient).reverse.takeWhile (· == '0') =
      List.replicate ((digitsOf d.coefficient).reverse.takeWhile (· == '0')).length '0' := by
    refine List.eq_replicate_of_mem fun c hc => ?_
    simpa using List.mem_takeWhile_imp hc
  refine ⟨((digitsOf d.coefficient).reverse.takeWhile (· == '0')).length, ?_⟩
  have hsplit := congrArg List.reverse
    (List.takeWhile_append_dropWhile (p := (· == '0')) (l := (digitsOf d.coefficient).reverse))
  rw [List.reverse_append, List.reverse_reverse, hzeros, List.reverse_replicate] at hsplit
  exact hsplit.symm

/-- A decimal is its significant digits, shifted by its trailing zeros. -/
theorem exists_eq_shift_ofDigits (d : Decimal) :
    ∃ zeros, d = (ofDigits d.significant d.leading).shift zeros := by
  obtain ⟨zeros, hdigits⟩ := d.exists_digitsOf_coefficient_eq
  refine ⟨zeros, ?_⟩
  have hcoefficient : d.coefficient = natOfDigits d.significant * 10 ^ zeros := by
    rw [← natOfDigits_digitsOf d.coefficient, hdigits, natOfDigits_append,
      natOfDigits_replicate_zero, List.length_replicate, Nat.add_zero]
  have hlength : digitCount d.coefficient = d.significant.length + zeros := by
    rw [digitCount, hdigits, List.length_append, List.length_replicate]
  have hexponent : d.exponent = d.leading + 1 - d.significant.length - zeros := by
    rw [leading, hlength]
    omega
  exact congrArg₂ Decimal.mk hcoefficient hexponent

/-- The significant digits of a decimal that is not zero begin with one that is not zero. -/
theorem exists_significant_eq_cons {d : Decimal} (hd : d.coefficient ≠ 0) :
    ∃ c cs, d.significant = c :: cs ∧ c ≠ '0' := by
  obtain ⟨zeros, hdigits⟩ := d.exists_digitsOf_coefficient_eq
  cases hsignificant : d.significant with
  | nil =>
    rw [hsignificant, List.nil_append] at hdigits
    have hzero := natOfDigits_digitsOf d.coefficient
    rw [hdigits, natOfDigits_replicate_zero] at hzero
    exact absurd hzero.symm hd
  | cons c cs =>
    refine ⟨c, cs, rfl, ?_⟩
    rintro rfl
    rw [hsignificant, List.cons_append] at hdigits
    exact hd (eq_zero_of_digitsOf_eq_cons hdigits)

end Decimal

/-- A decimal is rounded as its significant digits are. -/
theorem Magnitude.ofDecimal?_ofDigits (d : Decimal) :
    ofDecimal? (Decimal.ofDigits d.significant d.leading) = ofDecimal? d := by
  obtain ⟨zeros, hd⟩ := d.exists_eq_shift_ofDigits
  rw [← ofDecimal?_shift _ zeros, ← hd]

end HostedSearch
