import HostedSearch.Text.Quoted

/-!
# Reading single-quoted strings

The reader takes a backslash to protect the character after it and stops at the first quote
that is not protected. It takes back exactly what was escaped, whatever follows, so a quoted
string shows by itself where it ends and what it holds. Strings with a space between each and the
next are therefore read back one by one, even where a text looks like the end of one string and the
beginning of another.
-/

namespace HostedSearch

/-- The text up to the first unprotected quote, and the rest behind that quote. The opening quote
has been taken. -/
def readQuoted : List Char → Option (List Char × List Char)
  | [] => none
  | '\'' :: cs => some ([], cs)
  | ['\\'] => none
  | '\\' :: c :: cs => (readQuoted cs).map fun (text, rest) => (c :: text, rest)
  | c :: cs => (readQuoted cs).map fun (text, rest) => (c :: text, rest)

/-- What stands between two quotes is an escape of a text: each backslash in it protects the
character after it, and no quote is left unprotected. -/
inductive IsEscapeOf : List Char → List Char → Prop where
  | nil : IsEscapeOf [] []
  | guarded (c : Char) {body text : List Char} (h : IsEscapeOf body text) :
    IsEscapeOf ('\\' :: c :: body) (c :: text)
  | plain {c : Char} (hc : needsBackslash c = false) {body text : List Char}
    (h : IsEscapeOf body text) : IsEscapeOf (c :: body) (c :: text)

/-- The reader stops at a quote exactly when an escape of the text stands before it. -/
theorem readQuoted_eq_some_iff {cs text rest : List Char} :
    readQuoted cs = some (text, rest) ↔
      ∃ body, IsEscapeOf body text ∧ cs = body ++ '\'' :: rest := by
  constructor
  · intro h
    fun_induction readQuoted cs generalizing text with
    | case1 => cases h
    | case2 cs =>
      obtain ⟨rfl, rfl⟩ := Prod.mk.inj (Option.some.inj h)
      exact ⟨[], .nil, rfl⟩
    | case3 => cases h
    | case4 c cs ih =>
      obtain ⟨⟨tail, rest'⟩, hread, htext⟩ := Option.map_eq_some_iff.mp h
      obtain ⟨rfl, rfl⟩ := Prod.mk.inj htext
      obtain ⟨body, hbody, rfl⟩ := ih hread
      exact ⟨_, .guarded c hbody, rfl⟩
    | case5 c cs hquote hlast hguarded ih =>
      -- A backslash is the last character or guards one, and both were cases before.
      have hslash : c ≠ '\\' := by
        intro hc
        cases cs with
        | nil => exact hlast hc rfl
        | cons d ds => exact hguarded d ds hc rfl
      have hc : needsBackslash c = false := by simpa [needsBackslash, hslash] using hquote
      obtain ⟨⟨tail, rest'⟩, hread, htext⟩ := Option.map_eq_some_iff.mp h
      obtain ⟨rfl, rfl⟩ := Prod.mk.inj htext
      obtain ⟨body, hbody, rfl⟩ := ih hread
      exact ⟨_, .plain hc hbody, rfl⟩
  · rintro ⟨body, hbody, rfl⟩
    induction hbody with
    | nil => rfl
    | guarded c h ih => simp [readQuoted, ih]
    | plain hc h ih =>
      obtain ⟨hquote, hslash⟩ : _ ≠ '\'' ∧ _ ≠ '\\' := by simpa [needsBackslash] using hc
      simp [readQuoted, ih, hslash]

/-- Putting a backslash before every quote and backslash gives an escape of a text. -/
theorem isEscapeOf_escapeQuoted (cs : List Char) : IsEscapeOf (escapeQuoted cs) cs := by
  induction cs with
  | nil => exact .nil
  | cons c cs ih =>
    by_cases hc : needsBackslash c
    · rw [escapeQuoted, if_pos hc]
      exact .guarded c ih
    · rw [escapeQuoted, if_neg hc]
      exact .plain (Bool.eq_false_iff.mpr hc) ih

/-- Reading takes back what was escaped and leaves what stands behind the closing quote. -/
theorem readQuoted_escapeQuoted (cs rest : List Char) :
    readQuoted (escapeQuoted cs ++ '\'' :: rest) = some (cs, rest) :=
  readQuoted_eq_some_iff.mpr ⟨escapeQuoted cs, isEscapeOf_escapeQuoted cs, rfl⟩

/-- A quoted string determines its text and where it ends. -/
theorem quoted_append_inj {cs ds s t : List Char} (h : quoted cs ++ s = quoted ds ++ t) :
    cs = ds ∧ s = t := by
  have hbody : escapeQuoted cs ++ '\'' :: s = escapeQuoted ds ++ '\'' :: t := by
    simpa [quoted] using h
  have hread := congrArg readQuoted hbody
  rw [readQuoted_escapeQuoted, readQuoted_escapeQuoted] at hread
  simpa using hread

/-- A text without quotes and backslashes is not changed by escaping. -/
theorem escapeQuoted_of_forall {cs : List Char} (h : ∀ c ∈ cs, needsBackslash c = false) :
    escapeQuoted cs = cs := by
  induction cs with
  | nil => rfl
  | cons c cs ih =>
    rw [List.forall_mem_cons] at h
    simp [escapeQuoted, h.1, ih h.2]

/-! ## Strings one after the other -/

/-- What is behind a quoted string is shorter than what the string was read from. -/
theorem length_lt_of_readQuoted {cs text rest : List Char} (h : readQuoted cs = some (text, rest)) :
    rest.length < cs.length := by
  obtain ⟨body, -, rfl⟩ := readQuoted_eq_some_iff.mp h
  rw [List.length_append, List.length_cons]
  omega

/-- The texts of quoted strings with a space between each and the next, and the rest behind the
closing quote of the last, which is the first that no space follows. -/
def readQuotedList : List Char → Option (List (List Char) × List Char)
  | '\'' :: cs =>
    match _h : readQuoted cs with
    | none => none
    | some (text, rest) =>
      if rest.head? = some ' ' then
        (readQuotedList rest.tail).map fun (texts, rest) => (text :: texts, rest)
      else some ([text], rest)
  | _ => none
termination_by cs => cs.length
decreasing_by
  have hrest := length_lt_of_readQuoted _h
  rw [List.length_tail, List.length_cons]
  omega

/-- A quoted string is read, and behind a space the strings that follow it. -/
theorem readQuotedList_quoted_append (text rest : List Char) :
    readQuotedList (quoted text ++ rest) =
      if rest.head? = some ' ' then
        (readQuotedList rest.tail).map fun (texts, rest) => (text :: texts, rest)
      else some ([text], rest) := by
  have hquoted : quoted text ++ rest = '\'' :: (escapeQuoted text ++ '\'' :: rest) := by
    simp [quoted]
  rw [hquoted, readQuotedList]
  split
  · next h =>
    rw [readQuoted_escapeQuoted] at h
    cases h
  · next h =>
    rw [readQuoted_escapeQuoted] at h
    obtain ⟨rfl, rfl⟩ := Prod.mk.inj (Option.some.inj h)
    rfl

/-- Quoted strings with a space between each and the next are read back, if there are any and no
space follows the last. -/
theorem readQuotedList_intercalate {texts : List (List Char)} (htexts : texts ≠ [])
    {rest : List Char} (hrest : rest.head? ≠ some ' ') :
    readQuotedList ([' '].intercalate (texts.map quoted) ++ rest) = some (texts, rest) := by
  induction texts with
  | nil => exact absurd rfl htexts
  | cons text texts ih =>
    cases texts with
    | nil =>
      rw [List.map_singleton, List.intercalate_singleton, readQuotedList_quoted_append,
        if_neg hrest]
    | cons next texts =>
      have hmore := ih (List.cons_ne_nil next texts)
      rw [List.map_cons] at hmore
      rw [List.map_cons, List.map_cons, List.intercalate_cons_cons, List.append_assoc,
        List.append_assoc, readQuotedList_quoted_append, List.singleton_append, List.head?_cons,
        if_pos rfl, List.tail_cons, hmore]
      rfl

end HostedSearch
