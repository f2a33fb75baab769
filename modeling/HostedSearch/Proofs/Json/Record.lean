import HostedSearch.Json.Shape
import HostedSearch.Proofs.Json.Step

/-!
# Reading values of a known shape succeeds

When the readers for values of a known shape succeed, the general reader of values succeeds too:
a scalar is accepted if it is the value that is read, and a list of values is an array that is
read. A record is an object or an array.
-/

namespace HostedSearch

namespace Json

variable {α σ : Type}

/-- A scalar is read and accepted. -/
theorem readAs_eq_ok_iff {want : Json → Option α} {cs rest : List Char} {a : α} :
    readAs want cs = .ok (a, rest) ↔
      StartsScalar (skipSpace cs) ∧
        ∃ v, readScalar (skipSpace cs) = .ok (v, rest) ∧ want v = some a := by
  unfold readAs
  split
  · next cs' hbracket => simp [StartsScalar, hbracket]
  · next cs' hbrace => simp [StartsScalar, hbrace]
  · next hbracket hbrace =>
    have hstarts : StartsScalar (skipSpace cs) := ⟨hbracket, hbrace⟩
    simp only [bind_eq_ok, Prod.exists, hstarts, true_and]
    constructor
    · rintro ⟨v, cs', hv, h⟩
      split at h
      · next b hb =>
        obtain ⟨rfl, rfl⟩ := Prod.mk.inj (pure_eq_ok.mp h)
        exact ⟨v, hv, hb⟩
      · simp at h
    · rintro ⟨v, hv, ha⟩
      exact ⟨v, rest, hv, by simp [ha, pure_eq_ok]⟩

/-- Where only scalars are accepted, a value is read and accepted, at whatever depth. -/
theorem readAs_eq_ok_iff_readValue {want : Json → Option α}
    (hwant : ∀ v a, want v = some a → v.IsScalar) {depth : Nat} {cs rest : List Char} {a : α} :
    readAs want cs = .ok (a, rest) ↔
      ∃ v, readValue depth cs = .ok (v, rest) ∧ want v = some a := by
  rw [readAs_eq_ok_iff]
  constructor
  · rintro ⟨hstarts, v, hv, ha⟩
    exact ⟨v, (readValue_eq_scalar_iff (hwant v a ha)).mpr ⟨hstarts, hv⟩, ha⟩
  · rintro ⟨v, hv, ha⟩
    obtain ⟨hstarts, hv⟩ := (readValue_eq_scalar_iff (hwant v a ha)).mp hv
    exact ⟨hstarts, v, hv, ha⟩

/-- What is refused is never read. -/
theorem refuse_ne_ok {cs rest : List Char} {a : α} : refuse cs ≠ .ok (a, rest) := by
  simp [refuse, readAs_eq_ok_iff]

/-- A list of values is an array. -/
theorem readListOf_readValue_eq_ok_iff {depth : Nat} {cs rest : List Char} {items : List Json} :
    readListOf (readValue depth) cs = .ok (items, rest) ↔
      readValue (depth + 1) cs = .ok (.array items, rest) := by
  rw [readValue_eq_array_iff]
  unfold readListOf
  split
  · next cs' hbracket => simp [hbracket]
  · next hbracket =>
    constructor
    · exact fun h => absurd h refuse_ne_ok
    · rintro ⟨cs', hopen, -⟩
      exact absurd hopen (hbracket cs')

/-- Behind the last position of a record there is only the closing bracket. -/
theorem readMorePositions_nil_eq_ok_iff {state last : σ} {cs rest : List Char} :
    readMorePositions [] state cs = .ok (last, rest) ↔
      skipSpace cs = ']' :: rest ∧ last = state := by
  unfold readMorePositions
  split
  · next cs' hbracket =>
    simp only [Except.ok.injEq, Prod.mk.injEq, hbracket]
    grind
  · next hother => grind

/-- A record ends before a position, which then has to be omittable as all behind it, or the
position is read behind a comma. -/
theorem readMorePositions_cons_eq_ok_iff {field : Field σ} {fields : List (Field σ)}
    {state last : σ} {cs rest : List Char} :
    readMorePositions (field :: fields) state cs = .ok (last, rest) ↔
      (skipSpace cs = ']' :: rest ∧ (field :: fields).all (·.omittable) ∧ last = state) ∨
        ∃ cs₁ next cs₂, skipSpace cs = ',' :: cs₁ ∧ field.read state cs₁ = .ok (next, cs₂) ∧
          readMorePositions fields next cs₂ = .ok (last, rest) := by
  rw [readMorePositions]
  split
  · next cs' hbracket =>
    split
    · next hall =>
      simp only [Except.ok.injEq, Prod.mk.injEq, hbracket, hall]
      grind
    · next hall => grind
  · next cs' hcomma =>
    simp only [bind_eq_ok, Prod.exists, hcomma]
    grind
  · next hbracket hcomma => grind

/-- A record that may not be empty has its first position read at once. -/
theorem readPositions_cons_eq_ok_iff {field : Field σ} {fields : List (Field σ)}
    (hfield : field.omittable = false) {state last : σ} {cs rest : List Char} :
    readPositions (field :: fields) state cs = .ok (last, rest) ↔
      (∀ cs', skipSpace cs ≠ ']' :: cs') ∧
        ∃ next cs₁, field.read state (skipSpace cs) = .ok (next, cs₁) ∧
          readMorePositions fields next cs₁ = .ok (last, rest) := by
  unfold readPositions
  split
  · next hnil => simp at hnil
  · next cs' hbracket _ =>
    have hspace : skipSpace (']' :: cs') = ']' :: cs' := rfl
    rw [readMorePositions_cons_eq_ok_iff, hspace]
    simp [hfield, hbracket]
  · next hfields hbracket =>
    obtain ⟨rfl, rfl⟩ := List.cons.inj hfields
    simp only [bind_eq_ok, Prod.exists]
    grind

/-- Make a value of the state into which fields have been read, unless a field is missing. -/
def finishWith (finish : σ → Option α) (read : Except Fault (σ × List Char)) :
    Except Fault (α × List Char) := do
  let (state, cs) ← read
  match finish state with
  | some a => return (a, cs)
  | none => .error .mismatched

/-- A value is made of a state that has been read. -/
theorem finishWith_eq_ok_iff {finish : σ → Option α} {read : Except Fault (σ × List Char)}
    {rest : List Char} {a : α} :
    finishWith finish read = .ok (a, rest) ↔
      ∃ state, read = .ok (state, rest) ∧ finish state = some a := by
  simp only [finishWith, bind_eq_ok, Prod.exists]
  constructor
  · rintro ⟨state, rest', hstate, h⟩
    split at h
    · next b hb =>
      obtain ⟨rfl, rfl⟩ := Prod.mk.inj (pure_eq_ok.mp h)
      exact ⟨state, hstate, hb⟩
    · simp at h
  · rintro ⟨state, hstate, ha⟩
    exact ⟨state, rest, hstate, by simp [ha, pure_eq_ok]⟩

/-- A record is an object or an array whose fields are read, and from which the value is made. -/
theorem readRecord_eq_ok_iff {fields : List (Field σ)} {start : σ} {finish : σ → Option α}
    {cs rest : List Char} {a : α} :
    readRecord fields start finish cs = .ok (a, rest) ↔
      ∃ state, ((∃ cs', skipSpace cs = '{' :: cs' ∧
            readObject readString (readField fields) start cs' = .ok (state, rest)) ∨
          ∃ cs', skipSpace cs = '[' :: cs' ∧ readPositions fields start cs' = .ok (state, rest)) ∧
        finish state = some a := by
  unfold readRecord
  split
  · next cs' hbrace =>
    change finishWith finish (readObject readString (readField fields) start cs') = _ ↔ _
    rw [finishWith_eq_ok_iff]
    simp [hbrace]
  · next cs' hbracket =>
    change finishWith finish (readPositions fields start cs') = _ ↔ _
    rw [finishWith_eq_ok_iff]
    simp [hbracket]
  · next hbrace hbracket =>
    change finishWith finish (refuse (skipSpace cs)) = _ ↔ _
    rw [finishWith_eq_ok_iff]
    constructor
    · rintro ⟨state, h, -⟩
      exact absurd h refuse_ne_ok
    · rintro ⟨state, ⟨cs', hopen, -⟩ | ⟨cs', hopen, -⟩, -⟩
      · exact absurd hopen (hbrace cs')
      · exact absurd hopen (hbracket cs')

end Json

end HostedSearch
