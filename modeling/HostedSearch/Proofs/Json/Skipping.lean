import HostedSearch.Proofs.Json.Progress

/-!
# What can be read can be passed over

Readers that agree item by item and member by member on what they leave of a text agree on whole
arrays and objects. In this way every value that can be read can be passed over, and the same text
is left behind it. The converse does not hold: a number beyond range, a nest of containers that is
too deep and half a surrogate pair can be passed over, but are no values.
-/

namespace HostedSearch

namespace Json

variable {α β ν μ σ τ : Type}

/-- What one reader of items can read the other can, and leaves the same text, if that holds of
the readers of an item on all texts below a length. -/
theorem readItems_simulates {item : Reader α} {item' : Reader β} (limit : Nat)
    (hshrinks : Shrinks item')
    (hitem : ∀ ⦃cs a rest⦄, cs.length < limit → item cs = .ok (a, rest) →
      ∃ b, item' cs = .ok (b, rest))
    {bound : Nat} {cs rest : List Char} {items : List α} (hcs : cs.length < limit)
    (h : readItems item bound cs = .ok (items, rest)) :
    ∃ items', readItems item' bound cs = .ok (items', rest) := by
  induction bound generalizing cs items with
  | zero => simp [readItems] at h
  | succ bound ih =>
    obtain ⟨first, cs₁, hfirst, hend⟩ := readItems_succ_eq_ok_iff.mp h
    obtain ⟨first', hfirst'⟩ := hitem hcs hfirst
    obtain ⟨cs₂, others, hcomma, hothers, -⟩ | ⟨hbracket, -⟩ := hend
    · have hitemLe := hshrinks hfirst'
      have hcommaLt := length_lt_of_skipSpace_eq_cons hcomma
      obtain ⟨others', hothers'⟩ := ih (by omega) hothers
      exact ⟨first' :: others', readItems_succ_eq_ok_iff.mpr
        ⟨first', cs₁, hfirst', .inl ⟨cs₂, others', hcomma, hothers', rfl⟩⟩⟩
    · exact ⟨[first'], readItems_succ_eq_ok_iff.mpr ⟨first', cs₁, hfirst', .inr ⟨hbracket, rfl⟩⟩⟩

/-- What one reader of an array can read the other can, and leaves the same text, if that holds of
the readers of an item on all texts below a length. -/
theorem readArray_simulates {item : Reader α} {item' : Reader β} (limit : Nat)
    (hshrinks : Shrinks item')
    (hitem : ∀ ⦃cs a rest⦄, cs.length < limit → item cs = .ok (a, rest) →
      ∃ b, item' cs = .ok (b, rest))
    {cs rest : List Char} {items : List α} (hcs : cs.length < limit)
    (h : readArray item cs = .ok (items, rest)) :
    ∃ items', readArray item' cs = .ok (items', rest) := by
  obtain ⟨hbracket, -⟩ | ⟨hne, hitems⟩ := readArray_eq_ok_iff.mp h
  · exact ⟨[], readArray_eq_ok_iff.mpr (.inl ⟨hbracket, rfl⟩)⟩
  · have hspaceLe := length_skipSpace_le cs
    obtain ⟨items', hitems'⟩ := readItems_simulates limit hshrinks hitem (by omega) hitems
    exact ⟨items', readArray_eq_ok_iff.mpr (.inr ⟨hne, hitems'⟩)⟩

/-- What one reader of members can read the other can, from whatever states, and leaves the same
text, if that holds of names, and of single members on all texts below a length. -/
theorem readMembers_simulates {name : Reader ν} {name' : Reader μ} {member : σ → ν → Reader σ}
    {member' : τ → μ → Reader τ} (limit : Nat) (hnameShrinks : Shrinks name')
    (hmemberShrinks : ∀ t n, Shrinks (member' t n))
    (hname : ∀ ⦃cs n rest⦄, name cs = .ok (n, rest) → ∃ n', name' cs = .ok (n', rest))
    (hmember : ∀ ⦃s n cs next rest⦄, cs.length < limit → member s n cs = .ok (next, rest) →
      ∀ t n', ∃ next', member' t n' cs = .ok (next', rest))
    {bound : Nat} {s last : σ} (t : τ) {cs rest : List Char} (hcs : cs.length < limit)
    (h : readMembers name member bound s cs = .ok (last, rest)) :
    ∃ last', readMembers name' member' bound t cs = .ok (last', rest) := by
  induction bound generalizing cs s t with
  | zero => simp [readMembers] at h
  | succ bound ih =>
    obtain ⟨cs₀, n, cs₁, next, cs₂, rfl, hn, hnext, hend⟩ := readMembers_succ_eq_ok_iff.mp h
    rw [List.length_cons] at hcs
    obtain ⟨n', hn'⟩ := hname hn
    have hnameLe := hnameShrinks hn'
    obtain ⟨next', hnext'⟩ := hmember (by omega) hnext t n'
    have hmemberLe := hmemberShrinks t n' hnext'
    obtain ⟨cs₃, hcomma, hothers⟩ | ⟨hbrace, -⟩ := hend
    · have hcommaLt := length_lt_of_skipSpace_eq_cons hcomma
      have hspaceLe := length_skipSpace_le cs₃
      obtain ⟨last', hothers'⟩ := ih next' (by omega) hothers
      exact ⟨last', readMembers_succ_eq_ok_iff.mpr
        ⟨cs₀, n', cs₁, next', cs₂, rfl, hn', hnext', .inl ⟨cs₃, hcomma, hothers'⟩⟩⟩
    · exact ⟨next', readMembers_succ_eq_ok_iff.mpr
        ⟨cs₀, n', cs₁, next', cs₂, rfl, hn', hnext', .inr ⟨hbrace, rfl⟩⟩⟩

/-- What one reader of an object can read the other can, from whatever states, and leaves the same
text, if that holds of names, and of single members on all texts below a length. -/
theorem readObject_simulates {name : Reader ν} {name' : Reader μ} {member : σ → ν → Reader σ}
    {member' : τ → μ → Reader τ} (limit : Nat) (hnameShrinks : Shrinks name')
    (hmemberShrinks : ∀ t n, Shrinks (member' t n))
    (hname : ∀ ⦃cs n rest⦄, name cs = .ok (n, rest) → ∃ n', name' cs = .ok (n', rest))
    (hmember : ∀ ⦃s n cs next rest⦄, cs.length < limit → member s n cs = .ok (next, rest) →
      ∀ t n', ∃ next', member' t n' cs = .ok (next', rest))
    {s last : σ} (t : τ) {cs rest : List Char} (hcs : cs.length < limit)
    (h : readObject name member s cs = .ok (last, rest)) :
    ∃ last', readObject name' member' t cs = .ok (last', rest) := by
  obtain ⟨hbrace, -⟩ | hmembers := readObject_eq_ok_iff.mp h
  · exact ⟨t, readObject_eq_ok_iff.mpr (.inl ⟨hbrace, rfl⟩)⟩
  · have hspaceLe := length_skipSpace_le cs
    obtain ⟨last', hmembers'⟩ := readMembers_simulates limit hnameShrinks hmemberShrinks
      hname hmember t (by omega) hmembers
    exact ⟨last', readObject_eq_ok_iff.mpr (.inr hmembers')⟩

/-- What is put before a string that was read comes first in it. -/
theorem consChar_eq_ok_iff {c : Char} {x : Except Fault (List Char × List Char)}
    {text rest : List Char} :
    consChar c x = .ok (text, rest) ↔ ∃ tail, x = .ok (tail, rest) ∧ text = c :: tail := by
  cases x with
  | error fault => simp [consChar]
  | ok read =>
    obtain ⟨tail, left⟩ := read
    simp only [consChar, Except.ok.injEq, Prod.mk.injEq]
    grind

/-- A string that can be read can be passed over. -/
theorem skipString_of_readChars {cs text rest : List Char} (h : readChars cs = .ok (text, rest)) :
    skipString cs = .ok ((), rest) := by
  fun_induction readChars cs generalizing text with
  | case2 cs =>
    obtain ⟨-, rfl⟩ := Prod.mk.inj (Except.ok.inj h)
    rfl
  | case5 a b c d high hfirst _ e f g h' cs low hsecond _ ih =>
    obtain ⟨tail, htail, -⟩ := consChar_eq_ok_iff.mp h
    simp [skipString, hfirst, hsecond, ih htail]
  | case9 a b c d cs unit hunit _ _ ih =>
    obtain ⟨tail, htail, -⟩ := consChar_eq_ok_iff.mp h
    simp [skipString, hunit, ih htail]
  | case10 letter cs hu c hletter ih =>
    obtain ⟨tail, htail, -⟩ := consChar_eq_ok_iff.mp h
    simp [skipString, hletter, ih htail]
  | case13 c cs hquote hunicode hescape hlarge ih =>
    obtain ⟨tail, htail, -⟩ := consChar_eq_ok_iff.mp h
    simp [skipString, hlarge, ih htail]
  | _ => simp at h

/-- A string that can be read can be passed over, the quote before it taken. -/
theorem skipString_of_readString {cs rest : List Char} {s : String}
    (h : readString cs = .ok (s, rest)) : skipString cs = .ok ((), rest) := by
  obtain ⟨⟨text, cs'⟩, htext, h⟩ := bind_eq_ok.mp h
  obtain ⟨-, rfl⟩ : _ ∧ cs' = rest := Prod.mk.inj (pure_eq_ok.mp h)
  exact skipString_of_readChars htext

/-- A number that can be read can be passed over. -/
theorem readNumeral_of_readNumber {cs rest : List Char} {n : Number}
    (h : readNumber cs = .ok (n, rest)) : ∃ numeral, readNumeral cs = .ok (numeral, rest) := by
  obtain ⟨⟨numeral, cs'⟩, hnumeral, h⟩ := bind_eq_ok.mp h
  dsimp only at h
  split at h
  · obtain ⟨-, rfl⟩ : _ ∧ cs' = rest := Prod.mk.inj (pure_eq_ok.mp h)
    exact ⟨numeral, hnumeral⟩
  · simp at h

/-- A scalar that can be read can be passed over. -/
theorem skipScalar_of_readScalar {cs rest : List Char} {v : Json}
    (h : readScalar cs = .ok (v, rest)) : skipScalar cs = .ok ((), rest) := by
  unfold readScalar at h
  split at h
  · obtain ⟨-, rfl⟩ := Prod.mk.inj (Except.ok.inj h)
    rfl
  · obtain ⟨-, rfl⟩ := Prod.mk.inj (Except.ok.inj h)
    rfl
  · obtain ⟨-, rfl⟩ := Prod.mk.inj (Except.ok.inj h)
    rfl
  · obtain ⟨⟨s, cs'⟩, hs, h⟩ := bind_eq_ok.mp h
    obtain ⟨-, rfl⟩ : _ ∧ cs' = rest := Prod.mk.inj (pure_eq_ok.mp h)
    exact skipString_of_readString hs
  · next hnull htrue hfalse hquote =>
    obtain ⟨⟨n, cs'⟩, hn, h⟩ := bind_eq_ok.mp h
    obtain ⟨-, rfl⟩ : _ ∧ cs' = rest := Prod.mk.inj (pure_eq_ok.mp h)
    obtain ⟨numeral, hnumeral⟩ := readNumeral_of_readNumber hn
    simp [skipScalar, hnumeral, bind, Except.bind, pure, Except.pure]

/-- A value that can be read can be passed over, whatever the bound, as long as it exceeds the
length of the text. -/
theorem skipNested_of_readValue {depth bound : Nat} {cs rest : List Char} {v : Json}
    (hbound : cs.length < bound) (h : readValue depth cs = .ok (v, rest)) :
    skipNested bound cs = .ok ((), rest) := by
  -- One container deeper the bound is one less, and so is, at least, what is left of the text.
  induction depth generalizing cs rest v bound with
  | zero =>
    obtain ⟨bound, rfl⟩ : ∃ b, bound = b + 1 := ⟨bound - 1, by omega⟩
    obtain ⟨hstarts, hscalar⟩ := readValue_zero_eq_ok_iff.mp h
    exact skipNested_succ_eq_ok_iff.mpr (.inr (.inr ⟨hstarts, skipScalar_of_readScalar hscalar⟩))
  | succ depth ih =>
    obtain ⟨bound, rfl⟩ : ∃ b, bound = b + 1 := ⟨bound - 1, by omega⟩
    obtain ⟨cs', items, hopen, hitems, -⟩ | ⟨cs', members, hopen, hmembers, -⟩ |
      ⟨hstarts, hscalar⟩ := readValue_succ_eq_ok_iff.mp h
    · have hopenLt := length_lt_of_skipSpace_eq_cons hopen
      obtain ⟨items', hitems'⟩ := readArray_simulates bound (shrinks_skipNested bound)
        (fun cs a rest hcs hread => ⟨(), ih hcs hread⟩) (by omega) hitems
      exact skipNested_succ_eq_ok_iff.mpr (.inl ⟨cs', items', hopen, hitems'⟩)
    · have hopenLt := length_lt_of_skipSpace_eq_cons hopen
      have hmember : ∀ ⦃s : Members⦄ ⦃n cs next rest⦄, cs.length < bound →
          readMember (readValue depth) s n cs = .ok (next, rest) →
          ∀ t n' : Unit, ∃ next', skipMember (skipNested bound) t n' cs = .ok (next', rest) := by
        intro s n cs next rest hcs hnext t n'
        obtain ⟨cs'', w, hcolon, hw, -⟩ := readMember_eq_ok_iff.mp hnext
        have hcolonLt := length_lt_of_takeColon_eq_ok hcolon
        exact ⟨(), skipMember_eq_ok_iff.mpr ⟨cs'', hcolon, ih (by omega) hw⟩⟩
      obtain ⟨last', hmembers'⟩ := readObject_simulates bound shrinks_skipString
        (shrinks_skipMember (shrinks_skipNested bound))
        (fun cs n rest hn => ⟨(), skipString_of_readString hn⟩) hmember () (by omega) hmembers
      exact skipNested_succ_eq_ok_iff.mpr (.inr (.inl ⟨cs', hopen, hmembers'⟩))
    · exact skipNested_succ_eq_ok_iff.mpr (.inr (.inr ⟨hstarts, skipScalar_of_readScalar hscalar⟩))

/-- A value that can be read can be passed over. -/
theorem skipValue_of_readValue {depth : Nat} {cs rest : List Char} {v : Json}
    (h : readValue depth cs = .ok (v, rest)) : skipValue cs = .ok ((), rest) :=
  skipNested_of_readValue (Nat.lt_succ_self _) h

/-- Passing over a value makes progress, at whatever depth. -/
theorem shrinks_skipValue : Shrinks skipValue :=
  fun cs _ _ h => shrinks_skipNested (cs.length + 1) h

/-- Reading a value makes progress. -/
theorem shrinks_readValue (depth : Nat) : Shrinks (readValue depth) :=
  fun _ _ _ h => shrinks_skipValue (skipValue_of_readValue h)

end Json

end HostedSearch
