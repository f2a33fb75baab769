import HostedSearch.Proofs.Json.Spelling

/-!
# Reading back JSON values

What is written for a value is one of the value's texts, if no object repeats a name and no more
containers are nested than a reader allows. So the value is read back from it.
-/

namespace HostedSearch

namespace Json

/-- A value in which at most `depth` containers are nested and no object repeats a name. -/
inductive Readable : Nat → Json → Prop
  | scalar {depth : Nat} {v : Json} (h : v.IsScalar) : Readable depth v
  | array {depth : Nat} {items : List Json} (h : ∀ item ∈ items, Readable depth item) :
    Readable (depth + 1) (.array items)
  | object {depth : Nat} {members : Members} (hnames : (members.map Prod.fst).Nodup)
      (h : ∀ m ∈ members, Readable depth m.2) : Readable (depth + 1) (.object members)

/-- What is written for a member. -/
def memberText (m : String × Json) : List Char :=
  stringText m.1 ++ ':' :: m.2.text

/-! ## What is written is a text -/

/-- A value that is no container is written as a literal. -/
theorem text_of_isScalar {v : Json} (hv : v.IsScalar) : v.text = v.literalText := by
  cases v with
  | array items => exact absurd rfl (hv.1 items)
  | object members => exact absurd rfl (hv.2 members)
  | _ => rfl

/-- What is written for a value that is no container is a text of it. -/
theorem isTextOf_text_of_isScalar {v : Json} (hv : v.IsScalar) (depth : Nat) :
    IsTextOf depth v v.text := by
  rw [text_of_isScalar hv]
  cases v with
  | null => exact .literal .null
  | bool b => exact .literal (.bool b)
  | string s => exact .string (stringSpelledAs_stringText s)
  | number n =>
    obtain ⟨numeral, hnumeral, htext, hn⟩ := Numeral.exists_text_eq n
    have hspelled := numeral.spelledAs_text
    rw [htext] at hspelled
    exact .number hnumeral hn hspelled
  | array items => exact absurd rfl (hv.1 items)
  | object members => exact absurd rfl (hv.2 members)

/-- The items of an array are written with commas between them. -/
theorem separated_itemsText (item : Json) (items : List Json) :
    Separated ((item :: items).map text) (itemsText (item :: items)) := by
  induction items generalizing item with
  | nil => simpa [itemsText, moreItemsText] using Separated.singleton item.text
  | cons next items ih => exact .cons item.text (ih next)

/-- The items of an array are written between brackets. -/
theorem enclosed_text_array (items : List Json) :
    Enclosed '[' ']' (items.map text) (Json.array items).text := by
  rw [text]
  cases items with
  | nil => exact .empty .nil
  | cons item items => exact .full .nil (separated_itemsText item items)

/-- A name, a colon and a value are written for a member. -/
theorem spelledAs_memberText (members : Members) :
    List.Forall₂ (MemberSpelledAs StringSpelledAs) (members.map fun m => (m.1, m.2.text))
      (members.map memberText) := by
  rw [List.forall₂_map_left_iff, List.forall₂_map_right_iff, List.forall₂_same]
  exact fun m _ => .mk (stringSpelledAs_stringText m.1) .nil .nil

/-- The members of an object are written with commas between them. -/
theorem separated_membersText (m : String × Json) (members : Members) :
    Separated ((m :: members).map memberText) (membersText (m :: members)) := by
  induction members generalizing m with
  | nil => simpa [membersText, moreMembersText, memberText] using Separated.singleton (memberText m)
  | cons next members ih =>
    have hmore := Separated.cons (memberText m) (ih next)
    simpa [membersText, moreMembersText, memberText] using hmore

/-- The members of an object are written between braces. -/
theorem enclosed_text_object (members : Members) :
    Enclosed '{' '}' (members.map memberText) (Json.object members).text := by
  rw [text]
  cases members with
  | nil => exact .empty .nil
  | cons m members => exact .full .nil (separated_membersText m members)

/-- What is written for a readable value is a text of it. -/
theorem isTextOf_text {depth : Nat} {v : Json} (hv : Readable depth v) :
    IsTextOf depth v v.text := by
  induction hv with
  | scalar hscalar => exact isTextOf_text_of_isScalar hscalar _
  | @array depth items _ ih =>
    have hitems : ∀ item ∈ items.map fun item => (item, item.text),
        IsTextOf depth item.1 item.2 := List.forall_mem_map.mpr ih
    have harray := IsTextOf.array hitems
      (by simpa [Function.comp_def] using enclosed_text_array items)
    simpa [Function.comp_def] using harray
  | @object depth members hnames _ ih =>
    have hvalues : ∀ m ∈ members.map fun m => (m.1, m.2, m.2.text),
        IsTextOf depth m.2.1 m.2.2 := List.forall_mem_map.mpr ih
    have hobject := IsTextOf.object (by simpa [Function.comp_def] using hnames) hvalues
      (by simpa [Function.comp_def] using spelledAs_memberText members)
      (enclosed_text_object members)
    simpa [Function.comp_def] using hobject

/-! ## Reading back -/

/-- A value is read from any of its texts as a whole. -/
theorem readWhole_of_isTextOf {depth : Nat} {v : Json} {text : String}
    (h : IsTextOf depth v text.toList) : readWhole (readValue depth) text = .ok v := by
  have hread := takesText_readValue h [] [] .nil Stops.nil
  rw [List.nil_append, List.append_nil] at hread
  exact readWhole_eq_ok_iff.mpr ⟨[], hread, rfl⟩

/-- A readable value is read from its compact text as a whole. -/
theorem readWhole_compact {depth : Nat} {v : Json} (hv : Readable depth v) :
    readWhole (readValue depth) v.compact = .ok v := by
  apply readWhole_of_isTextOf
  rw [compact, String.toList_ofList]
  exact isTextOf_text hv

/-- A readable value is the value of its compact text. -/
theorem parse_compact {v : Json} (hv : Readable maxDepth v) : parse v.compact = .ok v :=
  readWhole_compact hv

end Json

end HostedSearch
