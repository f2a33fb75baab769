import HostedSearch.Number.Decimal

/-!
# Integer numerals

Reading a decimal integer that has to fit a machine word. The digits are taken from left to
right, and the first problem met is the one reported: a character that is no digit, or a digit
that carries the number over its limit.
-/

namespace HostedSearch

/-- Why a text is not an integer of the wanted width. -/
inductive IntegerFault where
  | empty
  | invalidDigit
  | tooLarge
  | tooSmall
deriving DecidableEq

/-- The wording of an integer fault. -/
def IntegerFault.message : IntegerFault → String
  | .empty => "cannot parse integer from empty string"
  | .invalidDigit => "invalid digit found in string"
  | .tooLarge => "number too large to fit in target type"
  | .tooSmall => "number too small to fit in target type"

/-- Continue the number `total` with digits, up to `limit`; `beyond` is the fault past it. -/
def readDigits (limit : Nat) (beyond : IntegerFault) : Nat → List Char → Except IntegerFault Nat
  | total, [] => .ok total
  | total, c :: cs =>
    if c.isDigit then
      let next := total * 10 + (c.toNat - '0'.toNat)
      if next ≤ limit then readDigits limit beyond next cs else .error beyond
    else
      .error .invalidDigit

/-- One or more digits, up to `limit`; a sign alone has an invalid digit. -/
def readMagnitude (limit : Nat) (beyond : IntegerFault) : List Char → Except IntegerFault Nat
  | [] => .error .invalidDigit
  | cs => readDigits limit beyond 0 cs

/-- A natural number up to `limit`, with an optional plus sign. -/
def readNatural (limit : Nat) : List Char → Except IntegerFault Nat
  | [] => .error .empty
  | '+' :: cs => readMagnitude limit .tooLarge cs
  | cs => readMagnitude limit .tooLarge cs

/-- A signed 64-bit integer, with an optional sign. -/
def readInt64 : List Char → Except IntegerFault Int64
  | [] => .error .empty
  | '-' :: cs => (readMagnitude (UInt64.size / 2) .tooSmall cs).map fun n => Int64.ofInt (-n)
  | '+' :: cs => (readMagnitude (UInt64.size / 2 - 1) .tooLarge cs).map fun n => Int64.ofInt n
  | cs => (readMagnitude (UInt64.size / 2 - 1) .tooLarge cs).map fun n => Int64.ofInt n

/-- The integer as a signed 64-bit integer, if it fits. -/
def int64OfInt? (i : Int) : Option Int64 :=
  if Int64.minValue.toInt ≤ i ∧ i ≤ Int64.maxValue.toInt then some (Int64.ofInt i) else none

/-- An unsigned 64-bit integer, with an optional plus sign. -/
def readUInt64 (cs : List Char) : Except IntegerFault UInt64 :=
  (readNatural (UInt64.size - 1) cs).map UInt64.ofNat

end HostedSearch
