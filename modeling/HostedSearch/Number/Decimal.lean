/-!
# Decimals

A decimal is a whole coefficient times a power of ten. It is the common ground between the
digits of a text and a binary number: numerals are read into decimals, and binary numbers are
written through them.
-/

namespace HostedSearch

/-- The value `coefficient · 10 ^ exponent`. -/
structure Decimal where
  coefficient : Nat
  exponent : Int
deriving DecidableEq

/-- The decimal digits of a natural number, most significant first; zero has one digit. -/
def digitsOf (n : Nat) : List Char :=
  Nat.toDigits 10 n

/-- The number of decimal digits of a natural number. -/
def digitCount (n : Nat) : Nat :=
  (digitsOf n).length

/-- The decimal digits of an integer, after a minus sign when it is negative. -/
def integerText : Int → List Char
  | .ofNat n => digitsOf n
  | .negSucc n => '-' :: digitsOf (n + 1)

/-- The natural number that a list of decimal digits stands for. -/
def natOfDigits (digits : List Char) : Nat :=
  digits.foldl (fun total c => total * 10 + (c.toNat - '0'.toNat)) 0

/-- The sign at the front of a numeral, true for a minus, and the rest. -/
def takeSign : List Char → Bool × List Char
  | '-' :: cs => (true, cs)
  | '+' :: cs => (false, cs)
  | cs => (false, cs)

namespace Decimal

/-- The digits of the coefficient without its trailing zeros. -/
def significant (d : Decimal) : List Char :=
  ((digitsOf d.coefficient).reverse.dropWhile (· == '0')).reverse

/-- The exponent of the leading digit: a nonzero decimal is `x.yz · 10 ^ leading`. -/
def leading (d : Decimal) : Int :=
  d.exponent + digitCount d.coefficient - 1

end Decimal

end HostedSearch
