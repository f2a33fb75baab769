import HostedSearch.Number.Hexadecimal

/-!
# Percent encoding

Text inside a URL: letters, digits and `- _ . ~` stand for themselves, every other character is
written as its UTF-8 bytes, each as a percent sign and two capital hexadecimal digits. A caller
may name further characters that stand for themselves.
-/

namespace HostedSearch

/-- The characters that stand for themselves everywhere in a URL. -/
def isUnreserved (c : Char) : Bool :=
  c.isAlphanum || c == '-' || c == '_' || c == '.' || c == '~'

/-- A byte as a percent sign and two hexadecimal digits. -/
def percentByte (b : UInt8) : List Char :=
  ['%', hexDigit (b.toNat / 16), hexDigit (b.toNat % 16)]

/-- Percent encoding in which the characters chosen by `keep` stand for themselves too. -/
def percentEncode (keep : Char → Bool) (cs : List Char) : List Char :=
  cs.flatMap fun c =>
    if isUnreserved c || keep c then [c] else (String.utf8EncodeChar c).flatMap percentByte

end HostedSearch
