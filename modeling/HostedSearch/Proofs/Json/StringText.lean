import HostedSearch.Json.Printer
import HostedSearch.Json.Reader

/-!
# Reading back JSON strings

A string is read back from any of its spellings: every character is spelled as itself or as an
escape that stands for it, and no character is spelled so that the string ends early. What is
written for a string is one of its spellings. So a written string shows by itself where it ends and
what it holds.
-/

namespace HostedSearch

namespace Json

/-- The spellings of a character inside a string: itself, unless it would be taken for something
else, a short escape, a code unit, or a pair of code units. -/
inductive CharSpelledAs : Char → List Char → Prop
  | plain {c : Char} (hprintable : 0x20 ≤ c.toNat) (hquote : c ≠ '"') (hslash : c ≠ '\\') :
    CharSpelledAs c [c]
  | escape {c letter : Char} (h : unescapeLetter? letter = some c) :
    CharSpelledAs c ['\\', letter]
  | unit {a b c d : Char} {unit : Nat} (h : hexValue4? a b c d = some unit)
      (hhigh : isHighSurrogate unit = false) (hlow : isLowSurrogate unit = false) :
    CharSpelledAs (Char.ofNat unit) ['\\', 'u', a, b, c, d]
  | pair {a b c d e f g h : Char} {high low : Nat} (hfirst : hexValue4? a b c d = some high)
      (hhigh : isHighSurrogate high) (hsecond : hexValue4? e f g h = some low)
      (hlow : isLowSurrogate low) :
    CharSpelledAs (pairedChar high low) ['\\', 'u', a, b, c, d, '\\', 'u', e, f, g, h]

/-- The spellings of characters one after the other. -/
inductive CharsSpelledAs : List Char → List Char → Prop
  | nil : CharsSpelledAs [] []
  | cons {c : Char} {cs text texts : List Char} (hc : CharSpelledAs c text)
      (hcs : CharsSpelledAs cs texts) : CharsSpelledAs (c :: cs) (text ++ texts)

/-- The spellings of a string, between its quotes. -/
inductive StringSpelledAs (s : String) : List Char → Prop
  | mk {body : List Char} (h : CharsSpelledAs s.toList body) :
    StringSpelledAs s ('"' :: (body ++ ['"']))

/-- A short escape does not begin like a code unit. -/
theorem ne_u_of_unescapeLetter? {letter c : Char} (h : unescapeLetter? letter = some c) :
    letter ≠ 'u' := by
  rintro rfl
  cases h

/-- A character is read back from any spelling. -/
theorem readChars_of_charSpelledAs {c : Char} {text : List Char} (h : CharSpelledAs c text)
    (cs : List Char) : readChars (text ++ cs) = consChar c (readChars cs) := by
  cases h with
  | plain hprintable hquote hslash =>
    have hlarge : ¬ c.toNat < 0x20 := by omega
    simp [readChars, hslash, hlarge]
  | escape h => simp [readChars, h, ne_u_of_unescapeLetter? h]
  | unit h hhigh hlow => simp [readChars, h, hhigh, hlow]
  | pair hfirst hhigh hsecond hlow => simp [readChars, hfirst, hhigh, hsecond, hlow]

/-- Characters are read back from any spelling up to the closing quote. -/
theorem readChars_of_charsSpelledAs {cs text : List Char} (h : CharsSpelledAs cs text)
    (rest : List Char) : readChars (text ++ '"' :: rest) = .ok (cs, rest) := by
  induction h with
  | nil => rfl
  | cons hc _ ih =>
    rw [List.append_assoc, readChars_of_charSpelledAs hc, ih]
    rfl

/-- A string is read back from any spelling, the quote before it taken. -/
theorem readString_of_charsSpelledAs {s : String} {body : List Char}
    (h : CharsSpelledAs s.toList body) (rest : List Char) :
    readString (body ++ '"' :: rest) = .ok (s, rest) := by
  simp only [readString, readChars_of_charsSpelledAs h, bind, Except.bind, String.ofList_toList]
  rfl

/-! ## The spelling that is written -/

/-- The letter of a short escape stands for its character. -/
theorem unescapeLetter?_of_escapeLetter? {c letter : Char} (h : escapeLetter? c = some letter) :
    unescapeLetter? letter = some c := by
  unfold escapeLetter? at h
  split at h
  case h_8 => exact absurd h (by simp)
  all_goals
    obtain rfl := Option.some.inj h
    rfl

/-- Two hexadecimal digits give back a number below `0x20`. -/
theorem hexValue4?_of_lt {n : Nat} (h : n < 0x20) :
    hexValue4? '0' '0' (Nat.digitChar (n / 16)) (Nat.digitChar (n % 16)) = some n := by
  revert n
  decide

/-- A control character is spelled by its hexadecimal escape. -/
theorem charSpelledAs_control {c : Char} (h : c.toNat < 0x20) :
    CharSpelledAs c ['\\', 'u', '0', '0', Nat.digitChar (c.toNat / 16),
      Nat.digitChar (c.toNat % 16)] := by
  have hhigh : isHighSurrogate c.toNat = false := by
    simp only [isHighSurrogate, Bool.and_eq_false_iff, decide_eq_false_iff_not]
    omega
  have hlow : isLowSurrogate c.toNat = false := by
    simp only [isLowSurrogate, Bool.and_eq_false_iff, decide_eq_false_iff_not]
    omega
  have hunit := CharSpelledAs.unit (hexValue4?_of_lt h) hhigh hlow
  rwa [Char.ofNat_toNat] at hunit

/-- What is written for a character spells it. -/
theorem charSpelledAs_charText (c : Char) : CharSpelledAs c (charText c) := by
  unfold charText
  split
  · next letter h => exact .escape (unescapeLetter?_of_escapeLetter? h)
  · next h =>
    split
    · next hsmall => exact charSpelledAs_control hsmall
    · next hlarge =>
      refine .plain (Nat.le_of_not_lt hlarge) ?_ ?_
      · rintro rfl
        exact absurd h (by decide)
      · rintro rfl
        exact absurd h (by decide)

/-- What is written for characters spells them. -/
theorem charsSpelledAs_flatMap_charText (cs : List Char) :
    CharsSpelledAs cs (cs.flatMap charText) := by
  induction cs with
  | nil => exact .nil
  | cons c cs ih =>
    rw [List.flatMap_cons]
    exact .cons (charSpelledAs_charText c) ih

/-- What is written for a string spells it. -/
theorem stringSpelledAs_stringText (s : String) : StringSpelledAs s (stringText s) :=
  .mk (charsSpelledAs_flatMap_charText s.toList)

/-- The written characters of a string are read back up to the closing quote. -/
theorem readChars_flatMap_charText (text rest : List Char) :
    readChars (text.flatMap charText ++ '"' :: rest) = .ok (text, rest) :=
  readChars_of_charsSpelledAs (charsSpelledAs_flatMap_charText text) rest

/-- A written string determines the string and where it ends. -/
theorem stringText_append_inj {a b : String} {s t : List Char}
    (h : stringText a ++ s = stringText b ++ t) : a = b ∧ s = t := by
  have hbody : a.toList.flatMap charText ++ '"' :: s = b.toList.flatMap charText ++ '"' :: t := by
    simpa [stringText] using h
  have hread := congrArg readChars hbody
  rw [readChars_flatMap_charText, readChars_flatMap_charText] at hread
  simpa [String.toList_inj] using hread

end Json

end HostedSearch
