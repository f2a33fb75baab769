import HostedSearch.Proofs.Json.StringText
import HostedSearch.Proofs.Text.Quoted
import Mathlib.Data.List.Forall2

/-!
# Skeletons

A reader that knows nothing of a query but its strings enters a string at a quote of either kind,
takes a backslash inside a string to protect the next character, and leaves at the matching quote.
The skeleton of a text is what remains when the contents of its strings are erased. A text that
the reader leaves outside of any string may be followed by another, and then their skeletons
follow one another. All single-quoted strings have the same skeleton, and so have all JSON strings.
-/

namespace HostedSearch

/-- Where a reader of strings stands. -/
inductive Position where
  | outside
  /-- In a string that was entered at this quote. -/
  | inside (quote : Char)
  /-- Behind a backslash in such a string. -/
  | escaped (quote : Char)
deriving DecidableEq

namespace Position

/-- Where the reader stands behind a character. -/
def next : Position → Char → Position
  | .outside, c => if c = '\'' ∨ c = '"' then .inside c else .outside
  | .inside quote, c =>
    if c = '\\' then .escaped quote else if c = quote then .outside else .inside quote
  | .escaped quote, _ => .inside quote

/-- Whether a character belongs to the skeleton: it stands outside of strings, or ends one. -/
def shows : Position → Char → Bool
  | .outside, _ => true
  | .inside quote, c => c == quote
  | .escaped _, _ => false

/-- The skeleton of a text, read from a position on, and where the reader stands behind it. -/
def scan : Position → List Char → List Char × Position
  | position, [] => ([], position)
  | position, c :: cs =>
    let (skeleton, last) := (position.next c).scan cs
    (if position.shows c then c :: skeleton else skeleton, last)

/-- A text is read on from where the reader stands behind the text before it. -/
theorem scan_append (position : Position) (cs ds : List Char) :
    position.scan (cs ++ ds) =
      ((position.scan cs).1 ++ ((position.scan cs).2.scan ds).1,
        ((position.scan cs).2.scan ds).2) := by
  induction cs generalizing position with
  | nil => rfl
  | cons c cs ih =>
    by_cases hshows : position.shows c
    · simp [scan, hshows, ih]
    · simp [scan, hshows, ih]

end Position

/-- The skeleton of a text. -/
def skeleton (text : String) : List Char :=
  (Position.outside.scan text.toList).1

/-- Whether a text leaves its reader outside of any string. -/
def EndsOutside (text : String) : Prop :=
  (Position.outside.scan text.toList).2 = .outside

/-- The text leaves its reader outside of any string, and has this skeleton. -/
def ScansTo (cs bones : List Char) : Prop :=
  Position.outside.scan cs = (bones, .outside)

namespace ScansTo

/-- Skeletons follow one another. -/
theorem append {cs ds bones bones' : List Char} (hcs : ScansTo cs bones)
    (hds : ScansTo ds bones') : ScansTo (cs ++ ds) (bones ++ bones') := by
  rw [ScansTo, Position.scan_append, hcs, hds]

/-- A text without quotes is its own skeleton. -/
theorem of_forall {cs : List Char} (h : ∀ c ∈ cs, c ≠ '\'' ∧ c ≠ '"') : ScansTo cs cs := by
  induction cs with
  | nil => rfl
  | cons c cs ih =>
    rw [List.forall_mem_cons] at h
    have hnext : Position.outside.next c = .outside := by simp [Position.next, h.1]
    rw [ScansTo, Position.scan, hnext, ih h.2]
    rfl

/-- Outside of strings the first character always shows. -/
theorem eq_nil_iff {cs bones : List Char} (h : ScansTo cs bones) : cs = [] ↔ bones = [] := by
  cases cs with
  | nil =>
    have hbones : [] = bones := congrArg Prod.fst h
    simp [← hbones]
  | cons c cs =>
    have hbones : c :: ((Position.outside.next c).scan cs).1 = bones := congrArg Prod.fst h
    simp [← hbones]

end ScansTo

/-! ## Strings -/

/-- Nothing that is escaped shows or ends its string. -/
theorem scan_escapeQuoted (cs rest : List Char) :
    (Position.inside '\'').scan (escapeQuoted cs ++ rest) = (Position.inside '\'').scan rest := by
  induction cs with
  | nil => rfl
  | cons c cs ih =>
    by_cases hc : needsBackslash c
    · simp [escapeQuoted, hc, Position.scan, Position.next, Position.shows, ih]
    · obtain ⟨hquote, hslash⟩ : c ≠ '\'' ∧ c ≠ '\\' := by simpa [needsBackslash] using hc
      simp [escapeQuoted, hc, Position.scan, Position.next, Position.shows, ih, hquote, hslash]

/-- Of a single-quoted string its quotes remain. -/
theorem scansTo_quoted (cs : List Char) : ScansTo (quoted cs) ['\'', '\''] := by
  simp [ScansTo, quoted, Position.scan, Position.next, Position.shows, scan_escapeQuoted]

namespace Json

/-- No character of a string is written so that it shows or ends the string. -/
theorem scan_charText (c : Char) (rest : List Char) :
    (Position.inside '"').scan (charText c ++ rest) = (Position.inside '"').scan rest := by
  unfold charText
  split
  · simp [Position.scan, Position.next, Position.shows]
  · next hescape =>
    split
    · next hsmall =>
      have hdigit : ∀ m < 16, Nat.digitChar m ≠ '"' ∧ Nat.digitChar m ≠ '\\' := by decide
      have hhigh := hdigit (c.toNat / 16) (by omega)
      have hlow := hdigit (c.toNat % 16) (by omega)
      simp [Position.scan, Position.next, Position.shows, hhigh, hlow]
    · have hquote : c ≠ '"' := by
        rintro rfl
        exact absurd hescape (by decide)
      have hslash : c ≠ '\\' := by
        rintro rfl
        exact absurd hescape (by decide)
      simp [Position.scan, Position.next, Position.shows, hquote, hslash]

/-- No text is written so that it shows or ends its string. -/
theorem scan_flatMap_charText (text rest : List Char) :
    (Position.inside '"').scan (text.flatMap charText ++ rest) =
      (Position.inside '"').scan rest := by
  induction text with
  | nil => rfl
  | cons c text ih => rw [List.flatMap_cons, List.append_assoc, scan_charText, ih]

/-- Of a JSON string its quotes remain. -/
theorem scansTo_stringText (s : String) : ScansTo (stringText s) ['"', '"'] := by
  simp [ScansTo, stringText, Position.scan, Position.next, Position.shows, scan_flatMap_charText]

end Json

/-! ## Texts of the same skeleton -/

/-- Both texts leave their reader outside of any string, and their skeletons agree. -/
def SameSkeleton (cs ds : List Char) : Prop :=
  ∃ bones, ScansTo cs bones ∧ ScansTo ds bones

namespace SameSkeleton

/-- A text without quotes has the same skeleton as itself. -/
theorem of_forall {cs : List Char} (h : ∀ c ∈ cs, c ≠ '\'' ∧ c ≠ '"') : SameSkeleton cs cs :=
  ⟨cs, .of_forall h, .of_forall h⟩

/-- All single-quoted strings have the same skeleton. -/
theorem quoted (cs ds : List Char) : SameSkeleton (quoted cs) (quoted ds) :=
  ⟨_, scansTo_quoted cs, scansTo_quoted ds⟩

/-- All JSON strings have the same skeleton. -/
theorem stringText (s t : String) : SameSkeleton (Json.stringText s) (Json.stringText t) :=
  ⟨_, Json.scansTo_stringText s, Json.scansTo_stringText t⟩

/-- Texts of the same skeleton may be followed by texts of the same skeleton. -/
theorem append {cs cs' ds ds' : List Char} (hcs : SameSkeleton cs cs')
    (hds : SameSkeleton ds ds') : SameSkeleton (cs ++ ds) (cs' ++ ds') := by
  obtain ⟨bones, hcs, hcs'⟩ := hcs
  obtain ⟨bones', hds, hds'⟩ := hds
  exact ⟨bones ++ bones', hcs.append hds, hcs'.append hds'⟩

/-- Of two texts of the same skeleton, both are empty or none is. -/
theorem eq_nil_iff {cs ds : List Char} (h : SameSkeleton cs ds) : cs = [] ↔ ds = [] := by
  obtain ⟨bones, hcs, hds⟩ := h
  rw [hcs.eq_nil_iff, hds.eq_nil_iff]

/-- Items of the same skeletons may be joined with a separator without quotes. -/
theorem intercalate {separator : List Char} (hseparator : SameSkeleton separator separator)
    {xs ys : List (List Char)} (h : List.Forall₂ SameSkeleton xs ys) :
    SameSkeleton (separator.intercalate xs) (separator.intercalate ys) := by
  induction h with
  | nil => exact ⟨[], rfl, rfl⟩
  | cons hhead htail ih =>
    cases htail with
    | nil => simpa using hhead
    | cons hnext hrest =>
      rw [List.intercalate_cons_cons, List.intercalate_cons_cons]
      exact (hhead.append hseparator).append ih

end SameSkeleton

end HostedSearch
