import HostedSearch.Number.Decimal

/-!
# Binary64 numbers

The numbers of the 64-bit binary floating-point format, held exactly. A finite magnitude is a
whole number of units of `2 ^ -1074`, written as a coefficient below `2 ^ 53` and a power of
two in the one canonical form, so that equal magnitudes are equal values. A quotient of natural
numbers, and with it any decimal, is rounded to the nearest magnitude, an exact tie going to
the even coefficient; all arithmetic is on natural numbers.
-/

namespace HostedSearch

/-- A finite magnitude: `coefficient · 2 ^ scale` units of `2 ^ -1074`, in canonical form. -/
structure Magnitude where
  coefficient : Nat
  scale : Nat
  coefficient_lt : coefficient < Nat.pow 2 53
  canonical : scale = 0 ∨ Nat.pow 2 52 ≤ coefficient
  scale_le : scale ≤ 2045
deriving DecidableEq

/-- A finite binary64 number; zero keeps its sign. -/
structure Finite64 where
  negative : Bool
  magnitude : Magnitude
deriving DecidableEq

/-- A binary64 number: finite, infinite, or not a number. -/
inductive Binary64 where
  | finite (x : Finite64)
  | infinite (negative : Bool)
  | nan
deriving DecidableEq

namespace Magnitude

/-- The zero magnitude. -/
def zero : Magnitude :=
  ⟨0, 0, by decide, .inl rfl, by decide⟩

/-- The magnitude with these parts, if they are in canonical form and within range. -/
def ofParts? (coefficient scale : Nat) : Option Magnitude :=
  if h : coefficient < Nat.pow 2 53 ∧ (scale = 0 ∨ Nat.pow 2 52 ≤ coefficient) ∧ scale ≤ 2045 then
    some ⟨coefficient, scale, h.1, h.2.1, h.2.2⟩
  else
    none

/-- How many units of `2 ^ -1074` make one. -/
def unitsPerOne : Nat :=
  Nat.pow 2 1074

/-- The magnitude as a number of units of `2 ^ -1074`. -/
def units (x : Magnitude) : Nat :=
  x.coefficient * Nat.pow 2 x.scale

/-- Whether the magnitude is a whole number. -/
def isWhole (x : Magnitude) : Bool :=
  x.units % unitsPerOne == 0

/-- The quotient rounded to the nearest natural number, an exact tie going to the even one. -/
def roundDiv (num den : Nat) : Nat :=
  let quotient := num / den
  let twice := 2 * (num % den)
  if twice < den ∨ (twice = den ∧ quotient % 2 = 0) then quotient else quotient + 1

/-- The magnitude nearest to `num / den`, or none when that lies beyond the largest one. -/
def ofQuotient? (num den : Nat) : Option Magnitude :=
  let scaled := num * unitsPerOne
  let scale := Nat.log2 (scaled / den) - 52
  let coefficient := roundDiv scaled (den * Nat.pow 2 scale)
  if coefficient = Nat.pow 2 53 then ofParts? (Nat.pow 2 52) (scale + 1)
  else ofParts? coefficient scale

/-- The magnitude nearest to a decimal, or none when that lies beyond the largest one. Decimals
above `10 ^ 400` or below `10 ^ -400` are decided by their size alone. -/
def ofDecimal? (d : Decimal) : Option Magnitude :=
  if d.coefficient = 0 then
    some zero
  else if 400 < d.exponent then
    none
  else if 0 ≤ d.exponent then
    ofQuotient? (d.coefficient * Nat.pow 10 d.exponent.toNat) 1
  else if d.exponent + digitCount d.coefficient < -400 then
    some zero
  else
    ofQuotient? d.coefficient (Nat.pow 10 (-d.exponent).toNat)

end Magnitude

namespace Finite64

/-- The number nearest to a signed decimal, or none when it is beyond the largest one. -/
def ofDecimal? (negative : Bool) (d : Decimal) : Option Finite64 :=
  (Magnitude.ofDecimal? d).map (⟨negative, ·⟩)

/-- Negative zero. -/
def negativeZero : Finite64 :=
  ⟨true, .zero⟩

end Finite64

end HostedSearch
