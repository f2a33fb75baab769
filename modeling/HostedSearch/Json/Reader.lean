import HostedSearch.Json.Value
import HostedSearch.Number.Hexadecimal

/-!
# Reading JSON

Readers take characters from the front of a text and hand back the rest. A reader stops at the
first problem it meets, and says which of two kinds it is: the text is not well-formed JSON, or
it is well-formed so far but has another shape than the reader wants. The general reader of
values has no shape to miss; it bounds how deep containers may nest. An object that repeats a
member keeps the first position and the last value.
-/

namespace HostedSearch

namespace Json

/-- The two kinds of problem a reader can meet. -/
inductive Fault where
  /-- The text is not well-formed JSON. -/
  | malformed
  /-- A well-formed value has another shape than the reader wants. -/
  | mismatched
deriving DecidableEq

/-- A reader takes a value from the front of a text and hands back the rest. -/
abbrev Reader (α : Type) := List Char → Except Fault (α × List Char)

/-- Whether a character may stand between the tokens of a JSON text. -/
def isSpace (c : Char) : Bool :=
  c == ' ' || c == '\n' || c == '\r' || c == '\t'

/-- The text from its first token on. -/
def skipSpace (cs : List Char) : List Char :=
  cs.dropWhile isSpace

/-! ## Strings -/

/-- The character that a letter after a backslash stands for. -/
def unescapeLetter? : Char → Option Char
  | '"' => some '"'
  | '\\' => some '\\'
  | '/' => some '/'
  | 'b' => some '\x08'
  | 'f' => some '\x0c'
  | 'n' => some '\n'
  | 'r' => some '\r'
  | 't' => some '\t'
  | _ => none

/-- Whether a code unit opens a surrogate pair. -/
def isHighSurrogate (unit : Nat) : Bool :=
  0xD800 ≤ unit && unit < 0xDC00

/-- Whether a code unit closes a surrogate pair. -/
def isLowSurrogate (unit : Nat) : Bool :=
  0xDC00 ≤ unit && unit < 0xE000

/-- The character that a surrogate pair stands for. -/
def pairedChar (high low : Nat) : Char :=
  Char.ofNat (0x10000 + (high - 0xD800) * 0x400 + (low - 0xDC00))

/-- Put a character before what a string reader has read. -/
def consChar (c : Char) :
    Except Fault (List Char × List Char) → Except Fault (List Char × List Char)
  | .ok (text, rest) => .ok (c :: text, rest)
  | .error fault => .error fault

/-- The text of a string up to its closing quote; the opening quote has been taken. -/
def readChars : Reader (List Char)
  | [] => .error .malformed
  | '"' :: cs => .ok ([], cs)
  | '\\' :: 'u' :: a :: b :: c :: d :: cs =>
    match hexValue4? a b c d with
    | none => .error .malformed
    | some unit =>
      if isHighSurrogate unit then
        match cs with
        | '\\' :: 'u' :: e :: f :: g :: h :: cs =>
          match hexValue4? e f g h with
          | none => .error .malformed
          | some low =>
            if isLowSurrogate low then consChar (pairedChar unit low) (readChars cs)
            else .error .malformed
        | _ => .error .malformed
      else if isLowSurrogate unit then .error .malformed
      else consChar (Char.ofNat unit) (readChars cs)
  | '\\' :: letter :: cs =>
    match unescapeLetter? letter with
    | some c => consChar c (readChars cs)
    | none => .error .malformed
  | c :: cs => if c.toNat < 0x20 then .error .malformed else consChar c (readChars cs)

/-- A string whose opening quote has been taken. -/
def readString : Reader String := fun cs => do
  let (text, cs) ← readChars cs
  return (String.ofList text, cs)

/-- Pass over a string whose opening quote has been taken; its escapes have to be well-formed,
but need not stand for characters. -/
def skipString : Reader Unit
  | [] => .error .malformed
  | '"' :: cs => .ok ((), cs)
  | '\\' :: 'u' :: a :: b :: c :: d :: cs =>
    if (hexValue4? a b c d).isSome then skipString cs else .error .malformed
  | '\\' :: letter :: cs =>
    if (unescapeLetter? letter).isSome then skipString cs else .error .malformed
  | c :: cs => if c.toNat < 0x20 then .error .malformed else skipString cs

/-! ## Numbers -/

/-- The parts of a number as written. -/
structure Numeral where
  negative : Bool
  whole : List Char
  fraction : Option (List Char)
  exponent : Option (Bool × List Char)

/-- Zero alone, or digits that do not begin with a zero. -/
def readWholeDigits : Reader (List Char)
  | '0' :: cs => if (cs.takeWhile Char.isDigit).isEmpty then .ok (['0'], cs) else .error .malformed
  | cs =>
    let digits := cs.takeWhile Char.isDigit
    if digits.isEmpty then .error .malformed else .ok (digits, cs.dropWhile Char.isDigit)

/-- One or more digits. -/
def readSomeDigits : Reader (List Char) := fun cs =>
  let digits := cs.takeWhile Char.isDigit
  if digits.isEmpty then .error .malformed else .ok (digits, cs.dropWhile Char.isDigit)

/-- A fraction, if there is a point. -/
def readFraction : Reader (Option (List Char))
  | '.' :: cs => do
    let (digits, cs) ← readSomeDigits cs
    return (some digits, cs)
  | cs => .ok (none, cs)

/-- An exponent, if there is its mark. -/
def readExponent : Reader (Option (Bool × List Char))
  | [] => .ok (none, [])
  | c :: cs =>
    if c = 'e' ∨ c = 'E' then do
      let (negative, cs) := takeSign cs
      let (digits, cs) ← readSomeDigits cs
      return (some (negative, digits), cs)
    else
      .ok (none, c :: cs)

/-- A number without its sign. -/
def readUnsigned (negative : Bool) : Reader Numeral := fun cs => do
  let (whole, cs) ← readWholeDigits cs
  let (fraction, cs) ← readFraction cs
  let (exponent, cs) ← readExponent cs
  return (⟨negative, whole, fraction, exponent⟩, cs)

/-- A number as written. -/
def readNumeral : Reader Numeral
  | '-' :: cs => readUnsigned true cs
  | cs => readUnsigned false cs

namespace Numeral

/-- The decimal that a numeral stands for, its sign apart. -/
def toDecimal (n : Numeral) : Decimal :=
  let fraction := n.fraction.getD []
  let exponent : Int :=
    match n.exponent with
    | none => 0
    | some (true, digits) => -(natOfDigits digits)
    | some (false, digits) => natOfDigits digits
  ⟨natOfDigits (n.whole ++ fraction), exponent - fraction.length⟩

/-- The nearest binary64 number, if there is one; beyond the largest one there is none. -/
def toFinite? (n : Numeral) : Option Finite64 :=
  Finite64.ofDecimal? n.negative n.toDecimal

/-- The integer that a numeral without fraction and exponent stands for; a negative zero is none. -/
def toInt? (n : Numeral) : Option Int :=
  if n.fraction.isSome || n.exponent.isSome then none
  else
    let magnitude := natOfDigits n.whole
    if n.negative then (if magnitude = 0 then none else some (-magnitude)) else some magnitude

/-- A whole number within range is kept exactly; anything else is rounded, if it can be. -/
def toNumber? (n : Numeral) : Option Number :=
  match n.toInt?.bind Whole.ofInt? with
  | some whole => some (.whole whole)
  | none => n.toFinite?.map .decimal

end Numeral

/-- A number; one beyond the largest binary64 number is malformed. -/
def readNumber : Reader Number := fun cs => do
  let (numeral, cs) ← readNumeral cs
  match numeral.toNumber? with
  | some n => return (n, cs)
  | none => .error .malformed

/-! ## Values -/

/-- A value that is neither an array nor an object. -/
def readScalar : Reader Json
  | 'n' :: 'u' :: 'l' :: 'l' :: cs => .ok (.null, cs)
  | 't' :: 'r' :: 'u' :: 'e' :: cs => .ok (.bool true, cs)
  | 'f' :: 'a' :: 'l' :: 's' :: 'e' :: cs => .ok (.bool false, cs)
  | '"' :: cs => do
    let (s, cs) ← readString cs
    return (.string s, cs)
  | cs => do
    let (n, cs) ← readNumber cs
    return (.number n, cs)

/-- Items up to the closing bracket, at least one; `bound` limits their number. -/
def readItems {α : Type} (item : Reader α) : (bound : Nat) → Reader (List α)
  | 0, _ => .error .malformed
  | bound + 1, cs => do
    let (first, cs) ← item cs
    match skipSpace cs with
    | ',' :: cs => do
      let (others, cs) ← readItems item bound cs
      return (first :: others, cs)
    | ']' :: cs => return ([first], cs)
    | _ => .error .malformed

/-- The items of an array whose opening bracket has been taken. -/
def readArray {α : Type} (item : Reader α) : Reader (List α) := fun cs =>
  match skipSpace cs with
  | ']' :: cs => .ok ([], cs)
  | cs => readItems item (cs.length + 1) cs

/-- Members up to the closing brace, at least one; `bound` limits their number. A name is taken by
`name`, and `member` reads from behind the name on, given what the earlier members left. -/
def readMembers {ν σ : Type} (name : Reader ν) (member : σ → ν → Reader σ) :
    (bound : Nat) → σ → Reader σ
  | 0, _, _ => .error .malformed
  | bound + 1, state, '"' :: cs => do
    let (n, cs) ← name cs
    let (state, cs) ← member state n cs
    match skipSpace cs with
    | ',' :: cs => readMembers name member bound state (skipSpace cs)
    | '}' :: cs => return (state, cs)
    | _ => .error .malformed
  | _, _, _ => .error .malformed

/-- The members of an object whose opening brace has been taken. -/
def readObject {ν σ : Type} (name : Reader ν) (member : σ → ν → Reader σ) (start : σ) :
    Reader σ := fun cs =>
  match skipSpace cs with
  | '}' :: cs => .ok (start, cs)
  | cs => readMembers name member (cs.length + 1) start cs

/-- The rest behind the colon that follows the name of a member. -/
def takeColon (cs : List Char) : Except Fault (List Char) :=
  match skipSpace cs with
  | ':' :: cs => .ok cs
  | _ => .error .malformed

/-- Read the value of a member and set it among the members before it. -/
def readMember (value : Reader Json) (members : Members) (name : String) : Reader Members :=
  fun cs => do
    let cs ← takeColon cs
    let (v, cs) ← value cs
    return (Association.set name v members, cs)

/-- A value in which at most `depth` containers are nested. -/
def readValue : (depth : Nat) → Reader Json
  | 0, cs =>
    match skipSpace cs with
    | '[' :: _ => .error .malformed
    | '{' :: _ => .error .malformed
    | cs => readScalar cs
  | depth + 1, cs =>
    match skipSpace cs with
    | '[' :: cs => do
      let (items, cs) ← readArray (readValue depth) cs
      return (.array items, cs)
    | '{' :: cs => do
      let (members, cs) ← readObject readString (readMember (readValue depth)) [] cs
      return (.object members, cs)
    | cs => readScalar cs

/-- Pass over a value that is neither an array nor an object; a number may be of any size. -/
def skipScalar : Reader Unit
  | '"' :: cs => skipString cs
  | 'n' :: 'u' :: 'l' :: 'l' :: cs => .ok ((), cs)
  | 't' :: 'r' :: 'u' :: 'e' :: cs => .ok ((), cs)
  | 'f' :: 'a' :: 'l' :: 's' :: 'e' :: cs => .ok ((), cs)
  | cs => do
    let (_, cs) ← readNumeral cs
    return ((), cs)

/-- Pass over the value of a member. -/
def skipMember (value : Reader Unit) (_ _ : Unit) : Reader Unit := fun cs => do
  let cs ← takeColon cs
  value cs

/-- Pass over a value in which at most `bound` containers are nested. -/
def skipNested : (bound : Nat) → Reader Unit
  | 0, _ => .error .malformed
  | bound + 1, cs =>
    match skipSpace cs with
    | '[' :: cs => do
      let (_, cs) ← readArray (skipNested bound) cs
      return ((), cs)
    | '{' :: cs => readObject skipString (skipMember (skipNested bound)) () cs
    | cs => skipScalar cs

/-- Pass over a value of any depth: every container takes up a character of the text. -/
def skipValue : Reader Unit := fun cs =>
  skipNested (cs.length + 1) cs

/-- How deep containers may nest in a text. -/
def maxDepth : Nat := 127

/-- Read a whole text: nothing but space may follow what `reader` reads. -/
def readWhole {α : Type} (reader : Reader α) (text : String) : Except Fault α := do
  let (value, cs) ← reader text.toList
  if (skipSpace cs).isEmpty then return value else .error .malformed

/-- Read a text as one JSON value. -/
def parse (text : String) : Except Fault Json :=
  readWhole (readValue maxDepth) text

end Json

end HostedSearch
