import HostedSearch.Number.Binary64

/-!
# Shortest decimals

The decimal that stands for a magnitude is the one with the fewest digits that is read back as
that magnitude, and among those the nearest. For one digit, two digits and so on up to
seventeen, the two neighbours of the magnitude on that decimal grid are tried. Should no grid
have a neighbour that reads back, the exact value is taken, so what is chosen always reads back.
-/

namespace HostedSearch

/-- Which of two equally near decimals is taken. -/
inductive Tie where
  | toEven
  | upward
deriving DecidableEq

/-- Whether a tie between `below` and `below + 1` goes to `below`. -/
def Tie.staysBelow : Tie → Nat → Bool
  | .toEven, below => below % 2 == 0
  | .upward, _ => false

namespace Magnitude

/-- Whether a decimal is read as this magnitude. -/
def readsBack (x : Magnitude) (d : Decimal) : Bool :=
  ofDecimal? d == some x

/-- The exponent of the leading decimal digit of a nonzero magnitude. -/
def leading (x : Magnitude) : Int :=
  if unitsPerOne ≤ x.units then
    digitCount (x.units / unitsPerOne) - 1
  else
    -(digitCount ((unitsPerOne - 1) / x.units) : Int)

/-- Numerator and denominator of the magnitude counted in steps of `10 ^ exponent`. -/
def steps (x : Magnitude) (exponent : Int) : Nat × Nat :=
  (x.units * Nat.pow 10 (-exponent).toNat, unitsPerOne * Nat.pow 10 exponent.toNat)

/-- Of the two neighbours on the grid of `10 ^ exponent`, the nearer one that reads back. -/
def onGrid? (tie : Tie) (x : Magnitude) (exponent : Int) : Option Decimal :=
  let (num, den) := x.steps exponent
  let below := num / den
  let twice := 2 * (num % den)
  let lower : Decimal := ⟨below, exponent⟩
  let upper : Decimal := ⟨below + 1, exponent⟩
  let lowerIsNearer := twice < den || (twice == den && tie.staysBelow below)
  if x.readsBack lower && (lowerIsNearer || !x.readsBack upper) then some lower
  else if x.readsBack upper then some upper
  else none

/-- All digits of the magnitude. -/
def exact (x : Magnitude) : Decimal :=
  ⟨x.units * Nat.pow 5 1074, -1074⟩

/-- The shortest decimal that is read back as this nonzero magnitude. -/
def shortest (tie : Tie) (x : Magnitude) : Decimal :=
  ((List.range 17).findSome? fun (n : Nat) => x.onGrid? tie (x.leading - n)).getD x.exact

end Magnitude

end HostedSearch
