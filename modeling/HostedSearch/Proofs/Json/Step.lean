import HostedSearch.Json.Reader

/-!
# The steps of the readers

For each reader of a container one statement says exactly when it succeeds, in terms of the
readers that it is made of. The statements about whole values are drawn from these.
-/

namespace HostedSearch

namespace Json

variable {α ν σ : Type}

/-- A sequence of steps succeeds exactly when its first step does and the others do behind it. -/
theorem bind_eq_ok {ε β γ : Type} {x : Except ε β} {f : β → Except ε γ} {c : γ} :
    x >>= f = .ok c ↔ ∃ b, x = .ok b ∧ f b = .ok c := by
  cases x <;> simp [bind, Except.bind]

/-- A step whose outcome is passed through a function succeeds exactly when the step does. -/
theorem map_eq_ok {ε β γ : Type} {x : Except ε β} {f : β → γ} {c : γ} :
    x.map f = .ok c ↔ ∃ b, x = .ok b ∧ f b = c := by
  cases x <;> simp [Except.map]

/-- What is returned is what a step succeeds with. -/
theorem pure_eq_ok {ε β : Type} {b c : β} : (pure b : Except ε β) = .ok c ↔ b = c := by
  simp [pure, Except.pure]

/-- The text does not begin with a container. -/
def StartsScalar (cs : List Char) : Prop :=
  (∀ rest, cs ≠ '[' :: rest) ∧ ∀ rest, cs ≠ '{' :: rest

/-- The value is no container. -/
def IsScalar (v : Json) : Prop :=
  (∀ items, v ≠ .array items) ∧ ∀ members, v ≠ .object members

/-- The colon is taken from behind the space before it. -/
theorem takeColon_eq_ok_iff {cs rest : List Char} :
    takeColon cs = .ok rest ↔ skipSpace cs = ':' :: rest := by
  unfold takeColon
  split
  · next cs' hcolon => simp [hcolon]
  · next hother => simpa using hother rest

/-- Items are an item and, behind a comma, further items, or an item and the closing bracket. -/
theorem readItems_succ_eq_ok_iff {item : Reader α} {bound : Nat} {cs rest : List Char}
    {items : List α} :
    readItems item (bound + 1) cs = .ok (items, rest) ↔
      ∃ first cs₁, item cs = .ok (first, cs₁) ∧
        ((∃ cs₂ others, skipSpace cs₁ = ',' :: cs₂ ∧
            readItems item bound cs₂ = .ok (others, rest) ∧ items = first :: others) ∨
          skipSpace cs₁ = ']' :: rest ∧ items = [first]) := by
  rw [readItems, bind_eq_ok, Prod.exists]
  refine exists₂_congr fun first cs₁ => and_congr_right fun _ => ?_
  dsimp only
  split
  · next cs₂ hcomma =>
    simp only [bind_eq_ok, pure_eq_ok, Prod.exists, Prod.mk.injEq, hcomma]
    grind
  · next cs₂ hbracket =>
    simp only [pure_eq_ok, Prod.mk.injEq, hbracket]
    grind
  · next hcomma hbracket => grind

/-- Where items are read there is at least one. -/
theorem ne_nil_of_readItems {item : Reader α} {bound : Nat} {cs rest : List Char} {items : List α}
    (h : readItems item bound cs = .ok (items, rest)) : items ≠ [] := by
  cases bound with
  | zero => simp [readItems] at h
  | succ bound =>
    obtain ⟨first, cs₁, -, ⟨cs₂, others, -, -, rfl⟩ | ⟨-, rfl⟩⟩ := readItems_succ_eq_ok_iff.mp h
    · exact List.cons_ne_nil first others
    · exact List.cons_ne_nil first []

/-- A single item has the closing bracket behind it. -/
theorem readItems_singleton_eq_ok_iff {item : Reader α} {bound : Nat} {cs rest : List Char}
    {a : α} :
    readItems item (bound + 1) cs = .ok ([a], rest) ↔
      ∃ cs₁, item cs = .ok (a, cs₁) ∧ skipSpace cs₁ = ']' :: rest := by
  rw [readItems_succ_eq_ok_iff]
  constructor
  · rintro ⟨first, cs₁, hfirst, ⟨cs₂, others, -, hothers, hitems⟩ | ⟨hbracket, hitems⟩⟩
    · obtain ⟨-, rfl⟩ := List.cons.inj hitems
      exact absurd rfl (ne_nil_of_readItems hothers)
    · obtain ⟨rfl, -⟩ := List.cons.inj hitems
      exact ⟨cs₁, hfirst, hbracket⟩
  · rintro ⟨cs₁, ha, hbracket⟩
    exact ⟨a, cs₁, ha, .inr ⟨hbracket, rfl⟩⟩

/-- An array is closed at once, or it has items. -/
theorem readArray_eq_ok_iff {item : Reader α} {cs rest : List Char} {items : List α} :
    readArray item cs = .ok (items, rest) ↔
      skipSpace cs = ']' :: rest ∧ items = [] ∨
        (∀ cs', skipSpace cs ≠ ']' :: cs') ∧
          readItems item ((skipSpace cs).length + 1) (skipSpace cs) = .ok (items, rest) := by
  unfold readArray
  split
  · next cs' hbracket =>
    simp only [Except.ok.injEq, Prod.mk.injEq, hbracket]
    grind
  · next hother => grind

/-- An array of a single item. -/
theorem readArray_singleton_eq_ok_iff {item : Reader α} {cs rest : List Char} {a : α} :
    readArray item cs = .ok ([a], rest) ↔
      (∀ cs', skipSpace cs ≠ ']' :: cs') ∧
        ∃ cs₁, item (skipSpace cs) = .ok (a, cs₁) ∧ skipSpace cs₁ = ']' :: rest := by
  simp [readArray_eq_ok_iff, readItems_singleton_eq_ok_iff]

/-- Members are a name with what belongs to it and, behind a comma, further members, or the
closing brace. -/
theorem readMembers_succ_eq_ok_iff {name : Reader ν} {member : σ → ν → Reader σ} {bound : Nat}
    {state last : σ} {cs rest : List Char} :
    readMembers name member (bound + 1) state cs = .ok (last, rest) ↔
      ∃ cs₀ n cs₁ next cs₂, cs = '"' :: cs₀ ∧ name cs₀ = .ok (n, cs₁) ∧
        member state n cs₁ = .ok (next, cs₂) ∧
        ((∃ cs₃, skipSpace cs₂ = ',' :: cs₃ ∧
            readMembers name member bound next (skipSpace cs₃) = .ok (last, rest)) ∨
          skipSpace cs₂ = '}' :: rest ∧ last = next) := by
  match cs with
  | [] => simp [readMembers]
  | c :: cs =>
    by_cases hquote : c = '"'
    · subst hquote
      simp only [readMembers, bind_eq_ok, Prod.exists, List.cons.injEq, true_and,
        exists_and_left, exists_eq_left']
      refine exists₂_congr fun n cs₁ => and_congr_right fun _ => ?_
      refine exists₂_congr fun next cs₂ => and_congr_right fun _ => ?_
      split
      · next cs₃ hcomma => grind
      · next cs₃ hbrace =>
        simp only [pure_eq_ok, Prod.mk.injEq, hbrace]
        grind
      · next hcomma hbrace => grind
    · simp [readMembers, hquote]

/-- An object is closed at once, or it has members. -/
theorem readObject_eq_ok_iff {name : Reader ν} {member : σ → ν → Reader σ} {start last : σ}
    {cs rest : List Char} :
    readObject name member start cs = .ok (last, rest) ↔
      skipSpace cs = '}' :: rest ∧ last = start ∨
        readMembers name member ((skipSpace cs).length + 1) start (skipSpace cs) =
          .ok (last, rest) := by
  unfold readObject
  split
  · next cs' hbrace =>
    simp only [hbrace, Except.ok.injEq, Prod.mk.injEq, readMembers_succ_eq_ok_iff]
    grind
  · next hother => grind

/-- A member is a colon and a value that is set among the members before it. -/
theorem readMember_eq_ok_iff {value : Reader Json} {members last : Members} {name : String}
    {cs rest : List Char} :
    readMember value members name cs = .ok (last, rest) ↔
      ∃ cs' v, takeColon cs = .ok cs' ∧ value cs' = .ok (v, rest) ∧
        last = Association.set name v members := by
  simp only [readMember, bind_eq_ok, pure_eq_ok, Prod.exists, Prod.mk.injEq]
  grind

/-- A member is passed over with its colon and its value. -/
theorem skipMember_eq_ok_iff {value : Reader Unit} {cs rest : List Char} :
    skipMember value () () cs = .ok ((), rest) ↔
      ∃ cs', takeColon cs = .ok cs' ∧ value cs' = .ok ((), rest) := by
  simp only [skipMember, bind_eq_ok]

/-- Where no container may begin there is a scalar. -/
theorem readValue_zero_eq_ok_iff {cs rest : List Char} {v : Json} :
    readValue 0 cs = .ok (v, rest) ↔
      StartsScalar (skipSpace cs) ∧ readScalar (skipSpace cs) = .ok (v, rest) := by
  unfold readValue StartsScalar
  split <;> simp_all

/-- A value is an array, an object or a scalar. -/
theorem readValue_succ_eq_ok_iff {depth : Nat} {cs rest : List Char} {v : Json} :
    readValue (depth + 1) cs = .ok (v, rest) ↔
      (∃ cs' items, skipSpace cs = '[' :: cs' ∧
          readArray (readValue depth) cs' = .ok (items, rest) ∧ v = .array items) ∨
        (∃ cs' members, skipSpace cs = '{' :: cs' ∧
          readObject readString (readMember (readValue depth)) [] cs' = .ok (members, rest) ∧
          v = .object members) ∨
        StartsScalar (skipSpace cs) ∧ readScalar (skipSpace cs) = .ok (v, rest) := by
  unfold readValue StartsScalar
  split
  · next cs' hbracket =>
    simp only [hbracket, bind_eq_ok, pure_eq_ok, Prod.exists, Prod.mk.injEq]
    grind
  · next cs' hbrace =>
    simp only [hbrace, bind_eq_ok, pure_eq_ok, Prod.exists, Prod.mk.injEq]
    grind
  · next hbracket hbrace => grind

/-- What is read as a scalar is no container. -/
theorem isScalar_of_readScalar {cs rest : List Char} {v : Json}
    (h : readScalar cs = .ok (v, rest)) : v.IsScalar := by
  unfold readScalar at h
  split at h
  all_goals simp only [bind_eq_ok, pure_eq_ok, Except.ok.injEq, Prod.mk.injEq] at h
  all_goals grind [IsScalar]

/-- An array is read behind its bracket. -/
theorem readValue_eq_array_iff {depth : Nat} {cs rest : List Char} {items : List Json} :
    readValue (depth + 1) cs = .ok (.array items, rest) ↔
      ∃ cs', skipSpace cs = '[' :: cs' ∧
        readArray (readValue depth) cs' = .ok (items, rest) := by
  rw [readValue_succ_eq_ok_iff]
  constructor
  · rintro (⟨cs', _, hopen, hitems, ⟨⟩⟩ | ⟨_, _, -, -, ⟨⟩⟩ | ⟨-, hscalar⟩)
    · exact ⟨cs', hopen, hitems⟩
    · exact absurd rfl ((isScalar_of_readScalar hscalar).1 items)
  · rintro ⟨cs', hopen, hitems⟩
    exact .inl ⟨cs', items, hopen, hitems, rfl⟩

/-- An object is read behind its brace. -/
theorem readValue_eq_object_iff {depth : Nat} {cs rest : List Char} {members : Members} :
    readValue (depth + 1) cs = .ok (.object members, rest) ↔
      ∃ cs', skipSpace cs = '{' :: cs' ∧
        readObject readString (readMember (readValue depth)) [] cs' = .ok (members, rest) := by
  rw [readValue_succ_eq_ok_iff]
  constructor
  · rintro (⟨_, _, -, -, ⟨⟩⟩ | ⟨cs', _, hopen, hmembers, ⟨⟩⟩ | ⟨-, hscalar⟩)
    · exact ⟨cs', hopen, hmembers⟩
    · exact absurd rfl ((isScalar_of_readScalar hscalar).2 members)
  · rintro ⟨cs', hopen, hmembers⟩
    exact .inr (.inl ⟨cs', members, hopen, hmembers, rfl⟩)

/-- A value that is no container is read as a scalar, at whatever depth. -/
theorem readValue_eq_scalar_iff {depth : Nat} {cs rest : List Char} {v : Json} (hv : v.IsScalar) :
    readValue depth cs = .ok (v, rest) ↔
      StartsScalar (skipSpace cs) ∧ readScalar (skipSpace cs) = .ok (v, rest) := by
  cases depth with
  | zero => exact readValue_zero_eq_ok_iff
  | succ depth =>
    rw [readValue_succ_eq_ok_iff]
    constructor
    · rintro (⟨_, items, -, -, rfl⟩ | ⟨_, members, -, -, rfl⟩ | hscalar)
      · exact absurd rfl (hv.1 items)
      · exact absurd rfl (hv.2 members)
      · exact hscalar
    · exact fun hscalar => .inr (.inr hscalar)

/-- What is passed over is an array, an object or a scalar. -/
theorem skipNested_succ_eq_ok_iff {bound : Nat} {cs rest : List Char} :
    skipNested (bound + 1) cs = .ok ((), rest) ↔
      (∃ cs' items, skipSpace cs = '[' :: cs' ∧
          readArray (skipNested bound) cs' = .ok (items, rest)) ∨
        (∃ cs', skipSpace cs = '{' :: cs' ∧
          readObject skipString (skipMember (skipNested bound)) () cs' = .ok ((), rest)) ∨
        StartsScalar (skipSpace cs) ∧ skipScalar (skipSpace cs) = .ok ((), rest) := by
  unfold skipNested StartsScalar
  split
  · next cs' hbracket =>
    simp only [hbracket, bind_eq_ok, pure_eq_ok, Prod.exists, Prod.mk.injEq]
    grind
  · next cs' hbrace =>
    simp only [hbrace]
    grind
  · next hbracket hbrace => grind

/-- A whole text is read when nothing but space is left of it. -/
theorem readWhole_eq_ok_iff {reader : Reader α} {text : String} {a : α} :
    readWhole reader text = .ok a ↔
      ∃ rest, reader text.toList = .ok (a, rest) ∧ skipSpace rest = [] := by
  simp only [readWhole, bind_eq_ok, Prod.exists]
  constructor
  · rintro ⟨b, rest, hread, hrest⟩
    split at hrest
    · next hempty =>
      obtain rfl := pure_eq_ok.mp hrest
      exact ⟨rest, hread, List.isEmpty_iff.mp hempty⟩
    · simp at hrest
  · rintro ⟨rest, hread, hempty⟩
    exact ⟨a, rest, hread, by simp [hempty, pure_eq_ok]⟩

/-! ## What readers of containers preserve -/

/-- What holds of all that an item reader gives holds of the items. -/
theorem forall_mem_of_readItems {item : Reader α} {p : α → Prop}
    (hitem : ∀ cs a rest, item cs = .ok (a, rest) → p a) {bound : Nat} {cs rest : List Char}
    {items : List α} (h : readItems item bound cs = .ok (items, rest)) : ∀ a ∈ items, p a := by
  induction bound generalizing cs items with
  | zero => simp [readItems] at h
  | succ bound ih =>
    obtain ⟨first, cs₁, hfirst, hend⟩ := readItems_succ_eq_ok_iff.mp h
    have hp := hitem cs first cs₁ hfirst
    obtain ⟨cs₂, others, -, hothers, rfl⟩ | ⟨-, rfl⟩ := hend
    · exact List.forall_mem_cons.mpr ⟨hp, ih hothers⟩
    · exact List.forall_mem_singleton.mpr hp

/-- What holds of all that an item reader gives holds of the items of an array. -/
theorem forall_mem_of_readArray {item : Reader α} {p : α → Prop}
    (hitem : ∀ cs a rest, item cs = .ok (a, rest) → p a) {cs rest : List Char} {items : List α}
    (h : readArray item cs = .ok (items, rest)) : ∀ a ∈ items, p a := by
  obtain ⟨-, rfl⟩ | ⟨-, hitems⟩ := readArray_eq_ok_iff.mp h
  · simp
  · exact forall_mem_of_readItems hitem hitems

/-- What a member reader preserves holds behind the members. -/
theorem of_readMembers {name : Reader ν} {member : σ → ν → Reader σ} (p : σ → Prop)
    (hmember : ∀ state n cs next rest, p state → member state n cs = .ok (next, rest) → p next)
    {bound : Nat} {state last : σ} (hstate : p state) {cs rest : List Char}
    (h : readMembers name member bound state cs = .ok (last, rest)) : p last := by
  induction bound generalizing state cs with
  | zero => simp [readMembers] at h
  | succ bound ih =>
    obtain ⟨cs₀, n, cs₁, next, cs₂, -, -, hnext, hend⟩ := readMembers_succ_eq_ok_iff.mp h
    have hp := hmember state n cs₁ next cs₂ hstate hnext
    obtain ⟨cs₃, -, hothers⟩ | ⟨-, rfl⟩ := hend
    · exact ih hp hothers
    · exact hp

/-- What a member reader preserves holds of an object. -/
theorem of_readObject {name : Reader ν} {member : σ → ν → Reader σ} (p : σ → Prop)
    (hmember : ∀ state n cs next rest, p state → member state n cs = .ok (next, rest) → p next)
    {start last : σ} (hstart : p start) {cs rest : List Char}
    (h : readObject name member start cs = .ok (last, rest)) : p last := by
  obtain ⟨-, rfl⟩ | hmembers := readObject_eq_ok_iff.mp h
  · exact hstart
  · exact of_readMembers p hmember hstart hmembers

end Json

end HostedSearch
