import HostedSearch.Proofs.Text.Span
import HostedSearch.Text.Blank

/-!
# The words of a text

A word of a text has at least one character and no white space. The words of a text are the longest
such runs in it, in order, whatever white space stands around and between them. A text of this kind
is its own only word, so a single word that is written out is found again.
-/

namespace HostedSearch

/-- Characters, at least one, none of which is white space. -/
structure IsWord (cs : List Char) : Prop where
  ne_nil : cs ≠ []
  not_isBlank : ∀ c ∈ cs, isBlank c = false

/-- The text is made of these words, in order, and of white space; a word goes on until there is
white space or the text ends. -/
inductive HasWords : List Char → List (List Char) → Prop where
  | nil : HasWords [] []
  | blank {c : Char} {cs : List Char} {found : List (List Char)} (hc : isBlank c)
    (h : HasWords cs found) : HasWords (c :: cs) found
  | word {word rest : List Char} {found : List (List Char)} (hword : IsWord word)
    (hrest : Stops (fun c => !isBlank c) rest) (h : HasWords rest found) :
    HasWords (word ++ rest) (word :: found)

variable {word cs : List Char} {found : List (List Char)}

/-- White space in front belongs to no word. -/
theorem words_cons_of_isBlank {c : Char} (hc : isBlank c) (cs : List Char) :
    words (c :: cs) = words cs := by
  rw [words, List.splitOnP_cons_eq_if_modifyHead, if_pos hc]
  rfl

/-- A word in front is the first, and the others are those of the rest. -/
theorem words_append (hword : IsWord word) {rest : List Char}
    (hrest : Stops (fun c => !isBlank c) rest) : words (word ++ rest) = word :: words rest := by
  have hpieces : word.splitOnP isBlank = [word] := List.splitOnP_eq_singleton hword.not_isBlank
  cases rest with
  | nil => simp [words, hpieces, hword.ne_nil]
  | cons c rest =>
    have hc : isBlank c := by simpa using hrest c rfl
    rw [words_cons_of_isBlank hc, words, List.splitOnP_append_cons word rest hc, hpieces]
    simp [words, hword.ne_nil]

/-- Every text has words, perhaps none. -/
theorem exists_hasWords (cs : List Char) : ∃ found, HasWords cs found := by
  induction cs with
  | nil => exact ⟨[], .nil⟩
  | cons c cs ih =>
    obtain ⟨found, hfound⟩ := ih
    by_cases hc : isBlank c
    · exact ⟨found, .blank hc hfound⟩
    · -- The character is a word, or it stands in front of one.
      have hletter : isBlank c = false := Bool.eq_false_iff.mpr hc
      have hsingle : IsWord [c] := ⟨by simp, List.forall_mem_singleton.mpr hletter⟩
      cases hfound with
      | nil => exact ⟨[[c]], .word hsingle .nil .nil⟩
      | blank hblank h => exact ⟨[c] :: found, .word hsingle (.cons (by simpa) _) (.blank hblank h)⟩
      | word hword hrest h =>
        exact ⟨_, .word ⟨by simp, List.forall_mem_cons.mpr ⟨hletter, hword.not_isBlank⟩⟩ hrest h⟩

/-- The words of a text are the words that it is made of. -/
theorem words_eq_iff : words cs = found ↔ HasWords cs found := by
  have hwords {found : List (List Char)} (h : HasWords cs found) : words cs = found := by
    induction h with
    | nil => rfl
    | blank hc h ih => rw [words_cons_of_isBlank hc, ih]
    | word hword hrest h ih => rw [words_append hword hrest, ih]
  constructor
  · rintro rfl
    obtain ⟨found, hfound⟩ := exists_hasWords cs
    rwa [hwords hfound]
  · exact hwords

/-- What a text is made of besides white space are words. -/
theorem HasWords.isWord (h : HasWords cs found) : ∀ word ∈ found, IsWord word := by
  induction h with
  | nil => simp
  | blank hc h ih => exact ih
  | word hword hrest h ih => exact List.forall_mem_cons.mpr ⟨hword, ih⟩

/-- The words of a text are words. -/
theorem isWord_of_mem_words (h : word ∈ words cs) : IsWord word :=
  (words_eq_iff.mp rfl).isWord word h

/-- A word is the only word in itself. -/
theorem IsWord.words_eq (h : IsWord word) : words word = [word] := by
  have hword : HasWords (word ++ []) [word] := .word h .nil .nil
  rw [List.append_nil] at hword
  exact words_eq_iff.mpr hword

end HostedSearch
