import HostedSearch.Calendar
import HostedSearch.Number.Hexadecimal
import HostedSearch.Number.Integer
import HostedSearch.Toml.Table

/-!
# Reading TOML

The grammar of TOML 1.0. A reader takes a piece from the front of a text and hands back the
rest, or gives up; why it gives up is not told apart, since a text is either TOML or not.
-/

namespace HostedSearch

namespace Toml

/-- A reader takes a piece from the front of a text and hands back the rest. -/
abbrev Reader (α : Type) := List Char → Option (α × List Char)

/-! ## Characters -/

/-- Space within a line. -/
def isSpace (c : Char) : Bool :=
  c == ' ' || c == '\t'

/-- The text behind the space at its front. -/
def skipSpace (cs : List Char) : List Char :=
  cs.dropWhile isSpace

/-- Characters that may stand in comments and strings: no control character but the tab. -/
def isTextChar (c : Char) : Bool :=
  c == '\t' || (0x20 ≤ c.toNat && c.toNat != 0x7F)

/-- The text behind a line break. -/
def takeBreak? : List Char → Option (List Char)
  | '\n' :: cs => some cs
  | '\r' :: '\n' :: cs => some cs
  | _ => none

/-- The text behind a comment, if there is one. -/
def skipComment : List Char → List Char
  | '#' :: cs => cs.dropWhile isTextChar
  | cs => cs

/-- The text behind space, a comment and the end of the line. -/
def takeLineEnd? (cs : List Char) : Option (List Char) :=
  match skipComment (skipSpace cs) with
  | [] => some []
  | cs => takeBreak? cs

/-- The text behind blank lines, comments and space; `bound` limits the number of lines. -/
def skipLines : (bound : Nat) → List Char → List Char
  | 0, cs => cs
  | bound + 1, cs =>
    let cs := skipSpace cs
    match takeBreak? (skipComment cs) with
    | some cs => skipLines bound cs
    | none => cs

/-- The text behind everything that may stand between the items of an array. -/
def skipGap (cs : List Char) : List Char :=
  skipLines (cs.length + 1) cs

/-! ## Strings -/

/-- Put a character before what a string reader has read. -/
def consChar (c : Char) : Option (List Char × List Char) → Option (List Char × List Char) :=
  Option.map fun (text, rest) => (c :: text, rest)

/-- The character that a letter after a backslash stands for. -/
def unescapeLetter? : Char → Option Char
  | 'b' => some '\x08'
  | 't' => some '\t'
  | 'n' => some '\n'
  | 'f' => some '\x0c'
  | 'r' => some '\r'
  | '"' => some '"'
  | '\\' => some '\\'
  | _ => none

/-- The character with a code point. -/
def charOf? (code : Nat) : Option Char :=
  if h : code.isValidChar then some (Char.ofNatAux code h) else none

/-- The character with a code point of four hexadecimal digits. -/
def charOfHex4? (a b c d : Char) : Option Char :=
  (hexValue4? a b c d).bind charOf?

/-- The character with a code point of eight hexadecimal digits. -/
def charOfHex8? (a b c d e f g h : Char) : Option Char := do
  charOf? ((← hexValue4? a b c d) * 0x10000 + (← hexValue4? e f g h))

/-- A string on one line up to its closing double quote. -/
def readBasic : Reader (List Char)
  | [] => none
  | '"' :: cs => some ([], cs)
  | '\\' :: 'u' :: a :: b :: c :: d :: cs =>
    (charOfHex4? a b c d).bind fun x => consChar x (readBasic cs)
  | '\\' :: 'U' :: a :: b :: c :: d :: e :: f :: g :: h :: cs =>
    (charOfHex8? a b c d e f g h).bind fun x => consChar x (readBasic cs)
  | '\\' :: letter :: cs => (unescapeLetter? letter).bind fun x => consChar x (readBasic cs)
  | c :: cs => if isTextChar c then consChar c (readBasic cs) else none

/-- A string without escapes on one line up to its closing single quote. -/
def readLiteral : Reader (List Char)
  | [] => none
  | '\'' :: cs => some ([], cs)
  | c :: cs => if isTextChar c then consChar c (readLiteral cs) else none

/-- A string over several lines up to its three closing double quotes, of which up to two more may
belong to the text. After a backslash at the end of a line, `skipping` passes over space and line
breaks. -/
def readBasicLines (skipping : Bool) : Reader (List Char)
  | [] => none
  | '"' :: '"' :: '"' :: '"' :: '"' :: cs => some (['"', '"'], cs)
  | '"' :: '"' :: '"' :: '"' :: cs => some (['"'], cs)
  | '"' :: '"' :: '"' :: cs => some ([], cs)
  | '\\' :: 'u' :: a :: b :: c :: d :: cs =>
    (charOfHex4? a b c d).bind fun x => consChar x (readBasicLines false cs)
  | '\\' :: 'U' :: a :: b :: c :: d :: e :: f :: g :: h :: cs =>
    (charOfHex8? a b c d e f g h).bind fun x => consChar x (readBasicLines false cs)
  | '\\' :: letter :: cs =>
    match unescapeLetter? letter with
    | some x => consChar x (readBasicLines false cs)
    | none =>
      if (takeBreak? (skipSpace (letter :: cs))).isSome then readBasicLines true cs else none
  | '\r' :: '\n' :: cs =>
    if skipping then readBasicLines true cs else consChar '\n' (readBasicLines false cs)
  | '\n' :: cs =>
    if skipping then readBasicLines true cs else consChar '\n' (readBasicLines false cs)
  | c :: cs =>
    if skipping && isSpace c then readBasicLines true cs
    else if isTextChar c then consChar c (readBasicLines false cs)
    else none

/-- A string without escapes over several lines up to its three closing single quotes. -/
def readLiteralLines : Reader (List Char)
  | [] => none
  | '\'' :: '\'' :: '\'' :: '\'' :: '\'' :: cs => some (['\'', '\''], cs)
  | '\'' :: '\'' :: '\'' :: '\'' :: cs => some (['\''], cs)
  | '\'' :: '\'' :: '\'' :: cs => some ([], cs)
  | '\r' :: '\n' :: cs => consChar '\n' (readLiteralLines cs)
  | '\n' :: cs => consChar '\n' (readLiteralLines cs)
  | c :: cs => if isTextChar c then consChar c (readLiteralLines cs) else none

/-- A string over several lines may begin with a line break that does not belong to it. -/
def skipFirstBreak (cs : List Char) : List Char :=
  (takeBreak? cs).getD cs

/-- A string of any of the four forms; none if no quote stands here. -/
def readString : Reader String := fun cs =>
  let text :=
    match cs with
    | '"' :: '"' :: '"' :: cs => readBasicLines false (skipFirstBreak cs)
    | '\'' :: '\'' :: '\'' :: cs => readLiteralLines (skipFirstBreak cs)
    | '"' :: cs => readBasic cs
    | '\'' :: cs => readLiteral cs
    | _ => none
  text.map fun (text, rest) => (String.ofList text, rest)

/-! ## Keys -/

/-- The characters of a key without quotes. -/
def isBareChar (c : Char) : Bool :=
  c.isAlphanum || c == '-' || c == '_'

/-- One part of a key. -/
def readKeyPart : Reader String
  | '"' :: cs => (readBasic cs).map fun (text, rest) => (String.ofList text, rest)
  | '\'' :: cs => (readLiteral cs).map fun (text, rest) => (String.ofList text, rest)
  | cs =>
    let bare := cs.takeWhile isBareChar
    if bare.isEmpty then none else some (String.ofList bare, cs.dropWhile isBareChar)

/-- A key as the path before its last part and that part; `bound` limits the number of parts. -/
def readKeyParts : (bound : Nat) → Reader (List String × String)
  | 0, _ => none
  | bound + 1, cs => do
    let (part, cs) ← readKeyPart (skipSpace cs)
    match skipSpace cs with
    | '.' :: cs => do
      let ((path, name), cs) ← readKeyParts bound cs
      some ((part :: path, name), cs)
    | cs => some (([], part), cs)

/-- How many parts a key may have. -/
def maxParts : Nat := 79

/-- A key, with the space around it. -/
def readKey : Reader (List String × String) :=
  readKeyParts maxParts

/-! ## Numbers and moments -/

/-- The characters of numbers and moments. -/
def isWordChar (c : Char) : Bool :=
  isBareChar c || c == '+' || c == '.' || c == ':'

/-- Digits among which single underscores may stand, without the underscores. -/
def digitsOnly? (isDigit : Char → Bool) : List Char → Option (List Char)
  | [] => none
  | [c] => if isDigit c then some [c] else none
  | c :: '_' :: cs => if isDigit c then (digitsOnly? isDigit cs).map (c :: ·) else none
  | c :: cs => if isDigit c then (digitsOnly? isDigit cs).map (c :: ·) else none

/-- The number that digits of a base stand for. -/
def natOfBase (base : Nat) (digits : List Char) : Nat :=
  digits.foldl (fun total c => total * base + (hexValue? c).getD 0) 0

/-- Whether a character is a digit of a base up to sixteen. -/
def isDigitOf (base : Nat) (c : Char) : Bool :=
  match hexValue? c with
  | some n => n < base
  | none => false

/-- An integer of a base that has a mark of its own. -/
def markedInteger? (base : Nat) (cs : List Char) : Option Int :=
  (digitsOnly? (isDigitOf base) cs).map fun digits => (natOfBase base digits : Int)

/-- The digits of a decimal integer: no zero stands in front. -/
def plainDigits? (cs : List Char) : Option (List Char) :=
  match digitsOnly? Char.isDigit cs with
  | some ('0' :: _ :: _) => none
  | digits => digits

/-- An integer in any of its forms. -/
def integer? : List Char → Option Int
  | '0' :: 'x' :: cs => markedInteger? 16 cs
  | '0' :: 'o' :: cs => markedInteger? 8 cs
  | '0' :: 'b' :: cs => markedInteger? 2 cs
  | cs =>
    let (negative, digits) := takeSign cs
    (plainDigits? digits).map fun digits =>
      if negative then -(natOfDigits digits) else (natOfDigits digits : Int)

/-- Whether a character is the mark of an exponent. -/
def isExponentMark (c : Char) : Bool :=
  c == 'e' || c == 'E'

/-- The exponent of a float, which is zero where there is none. -/
def exponent? : List Char → Option Int
  | [] => some 0
  | _ :: cs =>
    let (negative, digits) := takeSign cs
    (digitsOnly? Char.isDigit digits).map fun digits =>
      if negative then -(natOfDigits digits) else (natOfDigits digits : Int)

/-- The fraction digits of a float, of which there are none without a point. -/
def fraction? : List Char → Option (List Char)
  | '.' :: cs => digitsOnly? Char.isDigit cs
  | [] => some []
  | _ => none

/-- A decimal with a fraction or an exponent, its sign apart. -/
def decimal? (cs : List Char) : Option Decimal := do
  let mantissa := cs.takeWhile fun c => !isExponentMark c
  let whole ← plainDigits? (mantissa.takeWhile (· != '.'))
  let fraction ← fraction? (mantissa.dropWhile (· != '.'))
  let exponent ← exponent? (cs.dropWhile fun c => !isExponentMark c)
  some ⟨natOfDigits (whole ++ fraction), exponent - fraction.length⟩

/-- A float; one above the largest is refused, one below the smallest is infinite. -/
def float? (cs : List Char) : Option Binary64 :=
  let (negative, rest) := takeSign cs
  if rest = ['i', 'n', 'f'] then some (.infinite negative)
  else if rest = ['n', 'a', 'n'] then some .nan
  else do
    let d ← decimal? rest
    match Finite64.ofDecimal? negative d with
    | some x => some (.finite x)
    | none => if negative then some (.infinite true) else none

/-- A number of two digits, from `low` to `high`. -/
def twoDigits? (low high : Nat) (a b : Char) : Option Nat :=
  if a.isDigit && b.isDigit then
    let n := natOfDigits [a, b]
    if low ≤ n && n ≤ high then some n else none
  else none

/-- A number of four digits. -/
def fourDigits? (a b c d : Char) : Option Nat :=
  if [a, b, c, d].all Char.isDigit then some (natOfDigits [a, b, c, d]) else none

/-- The text behind a date. -/
def takeDate? : List Char → Option (List Char)
  | y1 :: y2 :: y3 :: y4 :: '-' :: m1 :: m2 :: '-' :: d1 :: d2 :: cs => do
    let year ← fourDigits? y1 y2 y3 y4
    let month ← twoDigits? 1 12 m1 m2
    let _ ← twoDigits? 1 (Calendar.daysInMonth year month) d1 d2
    some cs
  | _ => none

/-- The text behind the fraction of a second, if there is a point. -/
def takeSubsecond? : List Char → Option (List Char)
  | '.' :: cs =>
    if (cs.takeWhile Char.isDigit).isEmpty then none else some (cs.dropWhile Char.isDigit)
  | cs => some cs

/-- The text behind a time of day. -/
def takeTime? : List Char → Option (List Char)
  | h1 :: h2 :: ':' :: m1 :: m2 :: ':' :: s1 :: s2 :: cs => do
    let _ ← twoDigits? 0 23 h1 h2
    let _ ← twoDigits? 0 59 m1 m2
    let _ ← twoDigits? 0 60 s1 s2
    takeSubsecond? cs
  | _ => none

/-- Whether a text is nothing, or an offset from universal time. -/
def isOffset : List Char → Bool
  | [] => true
  | ['Z'] => true
  | ['z'] => true
  | [sign, h1, h2, ':', m1, m2] =>
    (sign == '+' || sign == '-') && (twoDigits? 0 23 h1 h2).isSome && (twoDigits? 0 59 m1 m2).isSome
  | _ => false

/-- Whether a text is a time of day. -/
def isTime (cs : List Char) : Bool :=
  takeTime? cs == some []

/-- Whether a text is a time of day with an optional offset. -/
def isOffsetTime (cs : List Char) : Bool :=
  match takeTime? cs with
  | some rest => isOffset rest
  | none => false

/-- Whether a text is a date, or a date and a time that the letter T stands between. -/
def isMoment (cs : List Char) : Bool :=
  match takeDate? cs with
  | some [] => true
  | some (mark :: rest) => (mark == 'T' || mark == 't') && isOffsetTime rest
  | none => isTime cs

/-- A time that stands behind a date and a space belongs to the date. -/
def takeSpacedTime? (date : List Char) : Reader (List Char)
  | ' ' :: cs =>
    let time := cs.takeWhile isWordChar
    if takeDate? date == some [] && isOffsetTime time then
      some (date ++ ' ' :: time, cs.dropWhile isWordChar)
    else none
  | _ => none

/-- A number or a moment. -/
def readWord : Reader Value := fun cs => do
  let word := cs.takeWhile isWordChar
  let rest := cs.dropWhile isWordChar
  match takeSpacedTime? word rest with
  | some (text, rest) => some (.moment (String.ofList text), rest)
  | none =>
    if isMoment word then some (.moment (String.ofList word), rest)
    else
      match integer? word with
      | some i => (int64OfInt? i).map fun n => (.integer n, rest)
      | none => (float? word).map fun x => (.float x, rest)

/-! ## Values -/

/-- A value that is neither an array nor an inline table. -/
def readScalar : Reader Value
  | 't' :: 'r' :: 'u' :: 'e' :: cs => some (.boolean true, cs)
  | 'f' :: 'a' :: 'l' :: 's' :: 'e' :: cs => some (.boolean false, cs)
  | cs =>
    match cs with
    | '"' :: _ => (readString cs).map fun (s, rest) => (.string s, rest)
    | '\'' :: _ => (readString cs).map fun (s, rest) => (.string s, rest)
    | cs => readWord cs

/-- The items of an array up to its closing bracket; a comma may stand behind the last. -/
def readItems (item : Reader Value) : (bound : Nat) → Reader (List Value)
  | 0, _ => none
  | bound + 1, cs =>
    match skipGap cs with
    | ']' :: cs => some ([], cs)
    | cs => do
      let (first, cs) ← item cs
      match skipGap cs with
      | ',' :: cs => (readItems item bound cs).map fun (others, rest) => (first :: others, rest)
      | ']' :: cs => some ([first], cs)
      | _ => none

/-- A key with its value, as it stands in a line or an inline table. -/
def readAssignment (value : Reader Value) : Reader (List String × String × Value) := fun cs => do
  let ((path, name), cs) ← readKey cs
  match cs with
  | '=' :: cs => do
    let (v, cs) ← value (skipSpace cs)
    some ((path, name, v), cs)
  | _ => none

/-- The assignments of an inline table up to its closing brace, at least one. -/
def readAssignments (value : Reader Value) : (bound : Nat) →
    Reader (List (List String × String × Value))
  | 0, _ => none
  | bound + 1, cs => do
    let (first, cs) ← readAssignment value cs
    match skipSpace cs with
    | ',' :: cs =>
      (readAssignments value bound cs).map fun (others, rest) => (first :: others, rest)
    | '}' :: cs => some ([first], cs)
    | _ => none

/-- The assignments of an inline table whose opening brace has been taken. -/
def readInline (value : Reader Value) : Reader (List (List String × String × Value)) := fun cs =>
  match skipSpace cs with
  | '}' :: cs => some ([], cs)
  | cs => readAssignments value (cs.length + 1) cs

mutual

/-- An item as a value. -/
def Item.toValue : Item → Value
  | .value v => v
  | .table _ _ entries => .inlineTable (entriesToValues entries)
  | .tables earlier last =>
    .array (tablesToValues earlier ++ [.inlineTable (entriesToValues last)])

/-- Lists of entries as values. -/
def tablesToValues : List (List (String × Item)) → List Value
  | [] => []
  | entries :: rest => .inlineTable (entriesToValues entries) :: tablesToValues rest

/-- Entries as values. -/
def entriesToValues : List (String × Item) → List (String × Value)
  | [] => []
  | (name, item) :: rest => (name, item.toValue) :: entriesToValues rest

end

/-- The inline table that assignments build, unless they contradict each other. -/
def inlineTable? (assignments : List (List String × String × Value)) : Option Value := do
  let entries ← assignments.foldlM
    (fun entries (path, name, value) => assign path name value false entries) []
  some (.inlineTable (entriesToValues entries))

/-- A value in which at most `depth` arrays and inline tables are nested. -/
def readValue : (depth : Nat) → Reader Value
  | 0, cs =>
    match cs with
    | '[' :: _ => none
    | '{' :: _ => none
    | cs => readScalar cs
  | depth + 1, cs =>
    match cs with
    | '[' :: cs => (readItems (readValue depth) (cs.length + 1) cs).map
        fun (items, rest) => (.array items, rest)
    | '{' :: cs => do
      let (assignments, cs) ← readInline (readValue depth) cs
      let table ← inlineTable? assignments
      some (table, cs)
    | cs => readScalar cs

/-- How deep arrays and inline tables may nest. -/
def maxDepth : Nat := 79

/-! ## Statements -/

/-- A key up to the bracket that closes it. -/
def readHeader : Reader (List String × String) := fun cs => do
  let (key, cs) ← readKey cs
  match cs with
  | ']' :: cs => some (key, cs)
  | _ => none

/-- A statement, without the end of its line. -/
def readStatement : Reader Statement
  | '[' :: '[' :: cs => do
    let ((path, name), cs) ← readHeader cs
    match cs with
    | ']' :: cs => some (.listHeader path name, cs)
    | _ => none
  | '[' :: cs => do
    let ((path, name), cs) ← readHeader cs
    some (.header path name, cs)
  | cs => do
    let ((path, name, value), cs) ← readAssignment (readValue maxDepth) cs
    some (.assign path name value, cs)

/-- The statements of a text, each on a line of its own; `bound` limits their number. -/
def readStatements : (bound : Nat) → List Char → Option (List Statement)
  | 0, _ => none
  | bound + 1, cs =>
    match skipComment (skipGap cs) with
    | [] => some []
    | cs => do
      let (statement, cs) ← readStatement cs
      let cs ← takeLineEnd? cs
      let statements ← readStatements bound cs
      some (statement :: statements)

/-- The text without the byte order mark that may stand at its front. -/
def dropMark : List Char → List Char
  | '\ufeff' :: cs => cs
  | cs => cs

/-- Read a text as TOML. -/
def parse? (text : String) : Option Entries := do
  let cs := dropMark text.toList
  build? (← readStatements (cs.length + 1) cs)

end Toml

end HostedSearch
