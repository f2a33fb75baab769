import HostedSearch.Number.Shortest
import Mathlib.Tactic.Ring

/-!
# Rounding depends on the value alone

A decimal can be written with more or fewer trailing zeros. The magnitude it is rounded to is the
same each time: the two cases in which a decimal is decided by its size alone agree with the general
case, and that depends on a quotient alone. A quotient that is a magnitude is rounded to itself. So
the decimal that stands for a magnitude is read as that magnitude, however it is laid out.
-/

namespace HostedSearch

namespace Magnitude

/-! ## Quotients -/

/-- The number of units in one is a power of two. Its exponent is kept as a variable, so that the
power is never computed. -/
theorem unitsPerOne_eq {e : Nat} (he : 1074 = e) : unitsPerOne = 2 ^ e := by
  unfold unitsPerOne
  rw [he]
  rfl

/-- There are units in one. -/
theorem unitsPerOne_pos : 0 < unitsPerOne := by
  obtain ⟨e, he⟩ : ∃ e, 1074 = e := ⟨_, rfl⟩
  rw [unitsPerOne_eq he]
  exact Nat.two_pow_pos e

/-- Rounding does not see a common factor. -/
theorem roundDiv_mul_right (num den : Nat) {k : Nat} (hk : 0 < k) :
    roundDiv (num * k) (den * k) = roundDiv num den := by
  have htwice : 2 * (num % den * k) = 2 * (num % den) * k := by ring
  simp only [roundDiv, Nat.mul_div_mul_right _ _ hk, Nat.mul_mod_mul_right, htwice,
    Nat.mul_lt_mul_right hk, Nat.mul_left_inj (Nat.ne_of_gt hk)]

/-- The nearest magnitude does not see a common factor. -/
theorem ofQuotient?_mul_right (num den : Nat) {k : Nat} (hk : 0 < k) :
    ofQuotient? (num * k) (den * k) = ofQuotient? num den := by
  have hscaled : num * k * unitsPerOne = num * unitsPerOne * k := by ring
  have hden (scale : Nat) : den * k * Nat.pow 2 scale = den * Nat.pow 2 scale * k := by ring
  simp only [ofQuotient?, hscaled, hden, Nat.mul_div_mul_right _ _ hk, roundDiv_mul_right _ _ hk]

/-- Equal quotients have the same nearest magnitude. -/
theorem ofQuotient?_congr {num den num' den' : Nat} (hden : 0 < den) (hden' : 0 < den')
    (h : num * den' = num' * den) : ofQuotient? num den = ofQuotient? num' den' := by
  rw [← ofQuotient?_mul_right num den hden', h, Nat.mul_comm den den',
    ofQuotient?_mul_right num' den' hden]

/-- A number without a remainder is rounded to the quotient. -/
theorem roundDiv_mul_left (n : Nat) {den : Nat} (hden : 0 < den) : roundDiv (n * den) den = n := by
  simp [roundDiv, Nat.mul_div_cancel n hden, hden]

/-- The parts of a magnitude make it up. -/
theorem ofParts?_self (x : Magnitude) : ofParts? x.coefficient x.scale = some x := by
  rw [ofParts?, dif_pos ⟨x.coefficient_lt, x.canonical, x.scale_le⟩]

/-- The scale of a magnitude can be told from its size. -/
theorem log2_units (x : Magnitude) : Nat.log2 x.units - 52 = x.scale := by
  have hlt : x.coefficient < 2 ^ 53 := x.coefficient_lt
  have hunits : x.units = x.coefficient * 2 ^ x.scale := rfl
  obtain hscale | hlarge := x.canonical
  · have hsmall : x.units < 2 ^ 53 := by rwa [hunits, hscale, Nat.pow_zero, Nat.mul_one]
    have hlog : Nat.log2 x.units < 53 := by
      by_cases hzero : x.units = 0
      · rw [hzero]; decide
      · exact (Nat.log2_lt hzero).mpr hsmall
    omega
  · have hlarge : 2 ^ 52 ≤ x.coefficient := hlarge
    have hlower : 2 ^ (52 + x.scale) ≤ x.units := by
      rw [hunits, Nat.pow_add]
      exact Nat.mul_le_mul_right _ hlarge
    have hupper : x.units < 2 ^ (52 + x.scale + 1) := by
      rw [hunits, Nat.add_right_comm, Nat.pow_add]
      exact Nat.mul_lt_mul_of_pos_right hlt (Nat.pow_pos (by decide))
    have hpos : x.units ≠ 0 := Nat.ne_of_gt (Nat.lt_of_lt_of_le (Nat.pow_pos (by decide)) hlower)
    rw [(Nat.log2_eq_iff hpos).mpr ⟨hlower, hupper⟩, Nat.add_sub_cancel_left]

/-- A magnitude is the nearest one to itself. -/
theorem ofQuotient?_units (x : Magnitude) : ofQuotient? x.units unitsPerOne = some x := by
  have hscaled : x.units * unitsPerOne / unitsPerOne = x.units :=
    Nat.mul_div_cancel _ unitsPerOne_pos
  have hround : roundDiv (x.units * unitsPerOne) (unitsPerOne * Nat.pow 2 x.scale) =
      x.coefficient := by
    have hproduct : x.units * unitsPerOne =
        x.coefficient * (unitsPerOne * Nat.pow 2 x.scale) := by
      rw [units]; ring
    rw [hproduct]
    exact roundDiv_mul_left _ (Nat.mul_pos unitsPerOne_pos (Nat.pow_pos (by decide)))
  simp only [ofQuotient?, hscaled, log2_units, hround, if_neg (Nat.ne_of_lt x.coefficient_lt),
    ofParts?_self]

/-! ## Decimals decided by their size -/

/-- A power of ten is larger than that of two with three times the exponent. -/
theorem two_pow_le_ten_pow (k : Nat) : 2 ^ (3 * k) ≤ 10 ^ k := by
  rw [Nat.pow_mul]
  exact Nat.pow_le_pow_left (by decide) k

/-- From `10 ^ 400` on there is no magnitude. -/
theorem ofQuotient?_of_large {num k : Nat} (hk : 400 ≤ k) (h : 10 ^ k ≤ num) :
    ofQuotient? num 1 = none := by
  obtain ⟨e, he⟩ : ∃ e, 1074 = e := ⟨_, rfl⟩
  have hscaled : 2 ^ (3 * k + e) ≤ num * unitsPerOne := by
    rw [Nat.pow_add, unitsPerOne_eq he]
    exact Nat.mul_le_mul_right _ (Nat.le_trans (two_pow_le_ten_pow k) h)
  have hpos : num * unitsPerOne ≠ 0 :=
    Nat.ne_of_gt (Nat.lt_of_lt_of_le (Nat.two_pow_pos _) hscaled)
  have hscale : 2045 < Nat.log2 (num * unitsPerOne) - 52 := by
    have hlog := (Nat.le_log2 hpos).mpr hscaled
    omega
  have hparts (coefficient scale : Nat) (hlarge : 2045 < scale) :
      ofParts? coefficient scale = none := by
    rw [ofParts?, dif_neg]
    intro hbounds
    omega
  simp only [ofQuotient?, Nat.div_one]
  split
  · exact hparts _ _ (Nat.lt_succ_of_lt hscale)
  · exact hparts _ _ hscale

/-- A quotient below half a unit is rounded to zero. -/
theorem ofQuotient?_of_small {num den : Nat} (h : 2 * (num * unitsPerOne) < den) :
    ofQuotient? num den = some zero := by
  have hden : num * unitsPerOne < den := by omega
  have hround : roundDiv (num * unitsPerOne) (den * Nat.pow 2 0) = 0 := by
    simp [roundDiv, Nat.div_eq_of_lt hden, Nat.mod_eq_of_lt hden, h]
  simp only [ofQuotient?, Nat.div_eq_of_lt hden]
  change (if roundDiv (num * unitsPerOne) (den * Nat.pow 2 0) = Nat.pow 2 53 then _ else
    ofParts? (roundDiv (num * unitsPerOne) (den * Nat.pow 2 0)) 0) = _
  rw [hround]
  rfl

/-- From `10 ^ 400` on a number is larger than two units for each one. -/
theorem two_mul_unitsPerOne_le {k : Nat} (hk : 400 ≤ k) : 2 * unitsPerOne ≤ 10 ^ k := by
  obtain ⟨e, he⟩ : ∃ e, 1074 = e := ⟨_, rfl⟩
  calc 2 * unitsPerOne
    _ = 2 ^ (e + 1) := by rw [unitsPerOne_eq he, Nat.pow_succ']
    _ ≤ 2 ^ (3 * k) := Nat.pow_le_pow_right (by decide) (by omega)
    _ ≤ 10 ^ k := two_pow_le_ten_pow k

/-- A natural number is less than the power of ten with its number of digits. -/
theorem lt_pow_digitCount (n : Nat) : n < 10 ^ digitCount n := by
  have hpos : 0 < digitCount n := List.length_pos_iff.mpr Nat.toDigits_ne_nil
  exact (Nat.length_toDigits_le_iff (by decide) hpos).mp (Nat.le_refl _)

/-- The quotient that a decimal is decides which magnitude it is rounded to. -/
theorem ofDecimal?_eq_ofQuotient? {d : Decimal} (hd : d.coefficient ≠ 0) :
    ofDecimal? d =
      ofQuotient? (d.coefficient * 10 ^ d.exponent.toNat) (10 ^ (-d.exponent).toNat) := by
  rw [ofDecimal?, if_neg hd]
  split
  · next hlarge =>
    have hexponent : (-d.exponent).toNat = 0 := by omega
    rw [hexponent, Nat.pow_zero]
    exact (ofQuotient?_of_large (by omega)
      (Nat.le_mul_of_pos_left _ (Nat.pos_of_ne_zero hd))).symm
  · split
    · next hwhole =>
      have hexponent : (-d.exponent).toNat = 0 := by omega
      rw [hexponent]
      rfl
    · next hfraction =>
      have hexponent : d.exponent.toNat = 0 := by omega
      rw [hexponent, Nat.pow_zero, Nat.mul_one]
      split
      · next hsmall =>
        rw [ofQuotient?_of_small]
        obtain ⟨k, hk⟩ : ∃ k, (-d.exponent).toNat = digitCount d.coefficient + k :=
          ⟨(-d.exponent).toNat - digitCount d.coefficient, by omega⟩
        calc 2 * (d.coefficient * unitsPerOne)
          _ = d.coefficient * (2 * unitsPerOne) := by ring
          _ ≤ d.coefficient * 10 ^ k :=
            Nat.mul_le_mul_left _ (two_mul_unitsPerOne_le (by omega))
          _ < 10 ^ digitCount d.coefficient * 10 ^ k :=
            Nat.mul_lt_mul_of_pos_right (lt_pow_digitCount _) (Nat.pow_pos (by decide))
          _ = 10 ^ (-d.exponent).toNat := by rw [hk, Nat.pow_add]
      · rfl

end Magnitude

/-! ## Trailing zeros -/

/-- The same decimal with more digits: so many zeros are put behind the coefficient. -/
def Decimal.shift (d : Decimal) (places : Nat) : Decimal :=
  ⟨d.coefficient * 10 ^ places, d.exponent - places⟩

namespace Magnitude

/-- Trailing zeros do not change the magnitude that a decimal is rounded to. -/
theorem ofDecimal?_shift (d : Decimal) (places : Nat) :
    ofDecimal? (d.shift places) = ofDecimal? d := by
  by_cases hd : d.coefficient = 0
  · have hshift : (d.shift places).coefficient = 0 := by rw [Decimal.shift, hd, Nat.zero_mul]
    rw [ofDecimal?, if_pos hshift, ofDecimal?, if_pos hd]
  · have hshift : (d.shift places).coefficient ≠ 0 :=
      Nat.mul_ne_zero hd (Nat.ne_of_gt (Nat.pow_pos (by decide)))
    rw [ofDecimal?_eq_ofQuotient? hd, ofDecimal?_eq_ofQuotient? hshift]
    refine ofQuotient?_congr (Nat.pow_pos (by decide)) (Nat.pow_pos (by decide)) ?_
    have hplaces : places + (d.exponent - places).toNat + (-d.exponent).toNat =
        d.exponent.toNat + (-(d.exponent - places)).toNat := by omega
    change d.coefficient * 10 ^ places * 10 ^ (d.exponent - places).toNat *
        10 ^ (-d.exponent).toNat = d.coefficient * 10 ^ d.exponent.toNat *
        10 ^ (-(d.exponent - places)).toNat
    simp only [Nat.mul_assoc, ← Nat.pow_add]
    rw [hplaces]

/-! ## The decimal that stands for a magnitude -/

/-- The decimal with all digits of a magnitude. -/
theorem exact_eq (x : Magnitude) {e : Nat} (he : 1074 = e) : x.exact = ⟨x.units * 5 ^ e, -e⟩ := by
  have hexponent : (-1074 : Int) = -e := by omega
  unfold exact
  rw [hexponent, he]
  rfl

/-- All digits of a magnitude are read as that magnitude. -/
theorem ofDecimal?_exact {x : Magnitude} (hx : x.units ≠ 0) : ofDecimal? x.exact = some x := by
  obtain ⟨e, he⟩ : ∃ e, 1074 = e := ⟨_, rfl⟩
  have hcoefficient : x.units * 5 ^ e ≠ 0 :=
    Nat.mul_ne_zero hx (Nat.ne_of_gt (Nat.pow_pos (by decide)))
  rw [x.exact_eq he, ofDecimal?_eq_ofQuotient? hcoefficient, ← ofQuotient?_units x]
  refine ofQuotient?_congr (Nat.pow_pos (by decide)) unitsPerOne_pos ?_
  have hexponent : (-(-(e : Int))).toNat = e := by omega
  have hnone : (-(e : Int)).toNat = 0 := by omega
  have hten : (10 : Nat) ^ e = 2 ^ e * 5 ^ e := by rw [← Nat.mul_pow]
  simp only [hexponent, hnone, unitsPerOne_eq he, hten]
  ring

/-- What is chosen on a grid is read back. -/
theorem readsBack_of_onGrid? {tie : Tie} {x : Magnitude} {exponent : Int} {d : Decimal}
    (h : x.onGrid? tie exponent = some d) : x.readsBack d := by
  simp only [onGrid?] at h
  split at h
  · next hlower =>
    obtain rfl := Option.some.inj h
    exact (Bool.and_eq_true_iff.mp hlower).1
  · split at h
    · next hupper =>
      obtain rfl := Option.some.inj h
      exact hupper
    · cases h

/-- The decimal that stands for a magnitude is read as that magnitude. -/
theorem ofDecimal?_shortest (tie : Tie) {x : Magnitude} (hx : x.units ≠ 0) :
    ofDecimal? (x.shortest tie) = some x := by
  rw [shortest]
  cases hfound : (List.range 17).findSome? fun (n : Nat) => x.onGrid? tie (x.leading - n) with
  | none => exact ofDecimal?_exact hx
  | some d =>
    obtain ⟨n, -, hgrid⟩ := List.exists_of_findSome?_eq_some hfound
    exact beq_iff_eq.mp (readsBack_of_onGrid? hgrid)

/-- The decimal that stands for a magnitude other than zero is not zero. -/
theorem coefficient_shortest_ne_zero (tie : Tie) {x : Magnitude} (hx : x.units ≠ 0) :
    (x.shortest tie).coefficient ≠ 0 := by
  intro hzero
  have hread := ofDecimal?_shortest tie hx
  rw [ofDecimal?, if_pos hzero] at hread
  obtain rfl := Option.some.inj hread
  exact hx (Nat.zero_mul _)

/-- Only zero has no units. -/
theorem eq_zero_of_units_eq_zero {x : Magnitude} (hx : x.units = 0) : x = zero := by
  have hcoefficient : x.coefficient = 0 :=
    (Nat.mul_eq_zero.mp hx).resolve_right (Nat.ne_of_gt (Nat.pow_pos (by decide)))
  have hscale : x.scale = 0 := by
    refine x.canonical.resolve_right ?_
    rw [hcoefficient]
    decide
  cases x
  cases hcoefficient
  cases hscale
  rfl

/-- A magnitude that is a whole number is read from that number. -/
theorem ofDecimal?_of_isWhole {x : Magnitude} (h : x.isWhole) :
    ofDecimal? ⟨x.units / unitsPerOne, 0⟩ = some x := by
  have hwhole : x.units / unitsPerOne * unitsPerOne = x.units :=
    Nat.div_mul_cancel (Nat.dvd_of_mod_eq_zero (beq_iff_eq.mp h))
  by_cases hx : x.units = 0
  · obtain rfl := eq_zero_of_units_eq_zero hx
    rw [hx, Nat.zero_div]
    exact if_pos rfl
  · have hcoefficient : x.units / unitsPerOne ≠ 0 := by
      intro hzero
      rw [hzero, Nat.zero_mul] at hwhole
      exact hx hwhole.symm
    rw [ofDecimal?_eq_ofQuotient? hcoefficient, ← ofQuotient?_units x]
    refine ofQuotient?_congr (Nat.pow_pos (by decide)) unitsPerOne_pos ?_
    change x.units / unitsPerOne * 1 * unitsPerOne = x.units * 1
    rw [Nat.mul_one, Nat.mul_one, hwhole]

end Magnitude

end HostedSearch
