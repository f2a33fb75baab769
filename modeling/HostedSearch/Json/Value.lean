import HostedSearch.Association
import HostedSearch.Number.Integer
import HostedSearch.Number.Layout

/-!
# JSON values

A JSON value keeps the order of its object members. Whole numbers that fit a signed or unsigned
64-bit word are kept exactly; every other number is a finite binary64 number, so `2` and `2.0`
are different values.
-/

namespace HostedSearch

namespace Json

/-- A whole number from the least signed to the greatest unsigned 64-bit integer. -/
structure Whole where
  value : Int
  lower : Int64.minValue.toInt ≤ value
  upper : value < UInt64.size
deriving DecidableEq

/-- A JSON number. -/
inductive Number where
  | whole (n : Whole)
  | decimal (x : Finite64)
deriving DecidableEq

namespace Whole

/-- The integer as a whole number, if it is within range. -/
def ofInt? (i : Int) : Option Whole :=
  if h : Int64.minValue.toInt ≤ i ∧ i < UInt64.size then some ⟨i, h.1, h.2⟩ else none

/-- A signed 64-bit integer. -/
def ofInt64 (i : Int64) : Whole :=
  ⟨i.toInt, i.minValue_le_toInt, Int.lt_of_le_of_lt i.toInt_le (by decide)⟩

/-- An unsigned 64-bit integer. -/
def ofUInt64 (n : UInt64) : Whole :=
  ⟨n.toNat, Int.le_trans (by decide) (Int.natCast_nonneg _), Int.ofNat_lt.2 n.toNat_lt_size⟩

/-- The number as a signed 64-bit integer, if it fits. -/
def toInt64? (n : Whole) : Option Int64 :=
  int64OfInt? n.value

/-- The number as an unsigned 64-bit integer, if it fits. -/
def toUInt64? (n : Whole) : Option UInt64 :=
  if 0 ≤ n.value then some (UInt64.ofNat n.value.toNat) else none

end Whole

end Json

/-- A JSON value; the members of an object stand in order. -/
inductive Json where
  | null
  | bool (b : Bool)
  | number (n : Json.Number)
  | string (s : String)
  | array (items : List Json)
  | object (members : List (String × Json))
deriving BEq, Inhabited

namespace Json

/-- The members of an object. -/
abbrev Members := List (String × Json)

/-- The value of the first member of that name. -/
def Members.value? (members : Members) (name : String) : Option Json :=
  members.lookup name

/-- A signed 64-bit integer as a JSON value. -/
def int64 (i : Int64) : Json :=
  .number (.whole (.ofInt64 i))

/-- An unsigned 64-bit integer as a JSON value. -/
def uint64 (n : UInt64) : Json :=
  .number (.whole (.ofUInt64 n))

/-- A binary64 number as a JSON value; what is not finite has no number and becomes null. -/
def binary64 : Binary64 → Json
  | .finite x => .number (.decimal x)
  | _ => .null

/-- The value as a signed 64-bit integer, if it is a whole number that fits. -/
def toInt64? : Json → Option Int64
  | .number (.whole n) => n.toInt64?
  | _ => none

/-- The value as an unsigned 64-bit integer, if it is a whole number that fits. -/
def toUInt64? : Json → Option UInt64
  | .number (.whole n) => n.toUInt64?
  | _ => none

/-- The text of the value, if it is a string. -/
def toString? : Json → Option String
  | .string s => some s
  | _ => none

end Json

end HostedSearch
