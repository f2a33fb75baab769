import HostedSearch.Number.Shortest

/-!
# Layout of decimal numbers

How the digits of a binary64 number are laid out as text: positionally, with at least one digit
on either side of the point, or with an exponent that always carries its sign. A `Layout` says
which form is taken when; the formats that write numbers each give one.
-/

namespace HostedSearch

/-- The decisions of a number format. -/
structure Layout where
  /-- Which of two equally near shortest decimals is written. -/
  tie : Tie
  /-- Which exponents of the leading digit are written positionally. -/
  positional : Int → Bool
  /-- Whether whole numbers are written with all their digits instead of the shortest ones. -/
  wholeExact : Bool

/-- Digits with a point after the digit of exponent zero; the first digit has exponent `leading`. -/
def positionalText (digits : List Char) (leading : Int) : List Char :=
  if leading < 0 then
    '0' :: '.' :: (List.replicate (-leading - 1).toNat '0' ++ digits)
  else
    let places := leading.toNat + 1
    let fraction := digits.drop places
    digits.take places ++ List.replicate (places - digits.length) '0' ++
      '.' :: (if fraction.isEmpty then ['0'] else fraction)

/-- Digits with a point after the first, and a signed exponent. -/
def scientificText (digits : List Char) (leading : Int) : List Char :=
  let fraction := digits.drop 1
  digits.take 1 ++ (if fraction.isEmpty then [] else '.' :: fraction) ++
    'e' :: (if leading < 0 then '-' else '+') :: digitsOf leading.natAbs

/-- The text of a magnitude. -/
def Magnitude.text (layout : Layout) (x : Magnitude) : List Char :=
  if x.units = 0 then
    ['0', '.', '0']
  else if layout.wholeExact && x.isWhole then
    digitsOf (x.units / Magnitude.unitsPerOne) ++ ['.', '0']
  else
    let d := x.shortest layout.tie
    if layout.positional d.leading then positionalText d.significant d.leading
    else scientificText d.significant d.leading

/-- The text of a finite number: its magnitude after a minus sign when it is negative. -/
def Finite64.text (layout : Layout) (x : Finite64) : List Char :=
  if x.negative then '-' :: x.magnitude.text layout else x.magnitude.text layout

end HostedSearch
