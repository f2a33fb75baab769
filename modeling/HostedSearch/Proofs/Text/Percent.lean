import HostedSearch.Text.Percent

/-!
# Reading percent-encoded text

Decoding takes an escape for the byte that its two digits give, and every other character for its
own UTF-8 bytes; the bytes together have to be the UTF-8 form of a text. Encoded text decodes to
the text it was made of, whichever further characters stand for themselves, as long as the percent
sign is not one of them. Outside of its escapes it holds only characters that stand for themselves.
-/

namespace HostedSearch

/-- Whether a character is a digit or a capital letter up to F. -/
def isCapitalHexDigit (c : Char) : Bool :=
  c.isDigit || ('A' ≤ c && c ≤ 'F')

/-- A text whose characters stand for themselves or are part of an escape; `keep` tells which
characters stand for themselves besides the unreserved ones. -/
inductive IsPercentEncoded (keep : Char → Bool) : List Char → Prop where
  | nil : IsPercentEncoded keep []
  | kept {c : Char} {cs : List Char} (hc : isUnreserved c || keep c)
      (hcs : IsPercentEncoded keep cs) : IsPercentEncoded keep (c :: cs)
  | escape {high low : Char} {cs : List Char} (hhigh : isCapitalHexDigit high)
      (hlow : isCapitalHexDigit low) (hcs : IsPercentEncoded keep cs) :
      IsPercentEncoded keep ('%' :: high :: low :: cs)

/-- The bytes that a percent-encoded text stands for, if each percent sign begins an escape. -/
def percentBytes? : List Char → Option (List UInt8)
  | [] => some []
  | '%' :: high :: low :: cs =>
    match hexValue? high, hexValue? low with
    | some h, some l => (percentBytes? cs).map (UInt8.ofNat (h * 16 + l) :: ·)
    | _, _ => none
  | c :: cs => if c = '%' then none else (percentBytes? cs).map (String.utf8EncodeChar c ++ ·)

/-- The text that a percent-encoded text stands for, if its bytes are UTF-8. -/
def percentDecode? (cs : List Char) : Option String :=
  (percentBytes? cs).bind fun bytes => String.fromUTF8? bytes.toByteArray

/-! ## Escapes -/

/-- A digit that is written is read as the number it stands for. -/
theorem hexValue?_hexDigit {n : Nat} (h : n < 16) : hexValue? (hexDigit n) = some n := by
  revert n
  decide

/-- A digit that is written is a capital digit. -/
theorem isCapitalHexDigit_hexDigit {n : Nat} (h : n < 16) : isCapitalHexDigit (hexDigit n) := by
  revert n
  decide

/-- Escapes of bytes are read back byte by byte. -/
theorem percentBytes?_flatMap_percentByte_append (bytes : List UInt8) (cs : List Char) :
    percentBytes? (bytes.flatMap percentByte ++ cs) = (percentBytes? cs).map (bytes ++ ·) := by
  induction bytes with
  | nil => simp
  | cons b bytes ih =>
    have hb : b.toNat < 256 := b.toNat_lt
    have hhigh := hexValue?_hexDigit (n := b.toNat / 16) (by omega)
    have hlow := hexValue?_hexDigit (n := b.toNat % 16) (by omega)
    have hbyte : UInt8.ofNat (b.toNat / 16 * 16 + b.toNat % 16) = b := by
      rw [Nat.div_add_mod', UInt8.ofNat_toNat]
    rw [List.flatMap_cons, List.append_assoc]
    change percentBytes? ('%' :: _ :: _ :: (bytes.flatMap percentByte ++ cs)) = _
    simp only [percentBytes?, hhigh, hlow, hbyte, ih, Option.map_map]
    rfl

/-- A character that is no percent sign is read as its own bytes. -/
theorem percentBytes?_cons {c : Char} (hc : c ≠ '%') (cs : List Char) :
    percentBytes? (c :: cs) = (percentBytes? cs).map (String.utf8EncodeChar c ++ ·) := by
  rw [percentBytes?, if_neg hc]
  rintro _ _ _ rfl
  exact absurd rfl hc

/-! ## Encoded text -/

variable {keep : Char → Bool}

/-- When a separator stands for itself, the texts between its occurrences are encoded one by one. -/
theorem percentEncode_eq_intercalate_splitOn (separator : Char) (cs : List Char) :
    percentEncode (· == separator) cs =
      [separator].intercalate ((cs.splitOn separator).map (percentEncode fun _ => false)) := by
  induction cs with
  | nil => rfl
  | cons c cs ih =>
    obtain ⟨piece, pieces, hsplit⟩ := List.exists_cons_of_ne_nil (List.splitOn_ne_nil separator cs)
    rw [hsplit, List.map_cons] at ih
    rw [percentEncode, List.flatMap_cons, ← percentEncode, ih, List.splitOn_cons_eq_if_modifyHead,
      hsplit]
    -- A separator opens a new piece; any other character goes in front of the first piece.
    by_cases hc : c == separator
    · obtain rfl := beq_iff_eq.mp hc
      simp [percentEncode]
    · cases pieces <;> simp [percentEncode, hc]

/-- Encoded text stands for the UTF-8 bytes of the text it was made of. -/
theorem percentBytes?_percentEncode (hkeep : keep '%' = false) (cs : List Char) :
    percentBytes? (percentEncode keep cs) = some (cs.flatMap String.utf8EncodeChar) := by
  induction cs with
  | nil => rfl
  | cons c cs ih =>
    rw [percentEncode, List.flatMap_cons, ← percentEncode]
    split
    · next hc =>
      have hpercent : c ≠ '%' := by
        rintro rfl
        rw [hkeep] at hc
        exact absurd hc (by decide)
      rw [List.singleton_append, percentBytes?_cons hpercent, ih]
      simp
    · rw [percentBytes?_flatMap_percentByte_append, ih]
      simp

/-- Encoded text decodes to the text it was made of. -/
theorem percentDecode?_percentEncode (hkeep : keep '%' = false) (s : String) :
    percentDecode? (percentEncode keep s.toList) = some s := by
  have hvalid : s.toList.utf8Encode.IsValidUTF8 := ByteArray.isValidUTF8_utf8Encode
  rw [percentDecode?, percentBytes?_percentEncode hkeep]
  change String.fromUTF8? s.toList.utf8Encode = some s
  rw [String.fromUTF8?, dif_pos hvalid]
  change some (String.ofList s.toList) = some s
  rw [String.ofList_toList]

/-- Escapes in front of encoded text leave it encoded. -/
theorem IsPercentEncoded.flatMap_percentByte_append {cs : List Char}
    (hcs : IsPercentEncoded keep cs) (bytes : List UInt8) :
    IsPercentEncoded keep (bytes.flatMap percentByte ++ cs) := by
  induction bytes with
  | nil => exact hcs
  | cons b bytes ih =>
    have hb : b.toNat < 256 := b.toNat_lt
    rw [List.flatMap_cons, List.append_assoc]
    exact .escape (isCapitalHexDigit_hexDigit (by omega)) (isCapitalHexDigit_hexDigit (by omega)) ih

/-- What is written for a text is percent-encoded. -/
theorem isPercentEncoded_percentEncode (keep : Char → Bool) (cs : List Char) :
    IsPercentEncoded keep (percentEncode keep cs) := by
  induction cs with
  | nil => exact .nil
  | cons c cs ih =>
    rw [percentEncode, List.flatMap_cons, ← percentEncode]
    split
    · next hc => exact .kept hc ih
    · exact ih.flatMap_percentByte_append _

/-- A capital hexadecimal digit is unreserved. -/
theorem isUnreserved_of_isCapitalHexDigit {c : Char} (hc : isCapitalHexDigit c) :
    isUnreserved c := by
  simp only [isCapitalHexDigit, Bool.or_eq_true, Bool.and_eq_true, decide_eq_true_eq] at hc
  have halphanum : c.isAlphanum := by
    change (c.isUpper || c.isLower || c.isDigit) = true
    obtain hdigit | ⟨hlow, hhigh⟩ := hc
    · simp [hdigit]
    · have hupper : c.isUpper :=
        decide_eq_true ⟨hlow, Char.le_trans hhigh (by decide : 'F' ≤ 'Z')⟩
      simp [hupper]
  simp [isUnreserved, halphanum]

/-- Percent-encoded text holds characters that stand for themselves, and percent signs. -/
theorem IsPercentEncoded.of_mem {cs : List Char} (hcs : IsPercentEncoded keep cs) {c : Char}
    (hc : c ∈ cs) : isUnreserved c ∨ keep c ∨ c = '%' := by
  induction hcs with
  | nil => cases hc
  | kept hd _ ih =>
    obtain rfl | hc := List.mem_cons.mp hc
    · rw [Bool.or_eq_true] at hd
      exact hd.imp_right Or.inl
    · exact ih hc
  | escape hhigh hlow _ ih =>
    simp only [List.mem_cons] at hc
    obtain rfl | rfl | rfl | hc := hc
    · exact .inr (.inr rfl)
    · exact .inl (isUnreserved_of_isCapitalHexDigit hhigh)
    · exact .inl (isUnreserved_of_isCapitalHexDigit hlow)
    · exact ih hc

/-- A character that does not stand for itself, other than the percent sign, is not written. -/
theorem notMem_percentEncode {c : Char} (hunreserved : isUnreserved c = false)
    (hkeep : keep c = false) (hpercent : c ≠ '%') (cs : List Char) : c ∉ percentEncode keep cs := by
  intro hc
  obtain h | h | h := (isPercentEncoded_percentEncode keep cs).of_mem hc
  · exact absurd (hunreserved.symm.trans h) (by decide)
  · exact absurd (hkeep.symm.trans h) (by decide)
  · exact hpercent h

end HostedSearch
