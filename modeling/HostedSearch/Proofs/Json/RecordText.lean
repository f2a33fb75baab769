import HostedSearch.Proofs.Json.ValueText
import Mathlib.Data.List.Count
import Mathlib.Data.List.Perm.Basic

/-!
# Spellings of records

A record is written as an object that has the members of its fields, in any order, among members of
other names. The reader of the record takes the fields, and passes over the other members: what it
has read depends only on the names that it has met. A field that may be omitted need not be written
where it has its default.
-/

namespace HostedSearch

namespace Json

variable {α σ : Type}

/-- The object of a record has the members of the record's fields, in any order, among members of
other names with any well-formed values. -/
inductive RecordSpelledAs (names : List String) (known : List (String × List Char))
    (text : List Char) : Prop
  | mk {others members : List (String × List Char)} {texts : List (List Char)}
      (hothers : ∀ m ∈ others, m.1 ∉ names ∧ IsText m.2) (horder : members.Perm (known ++ others))
      (hspelled : List.Forall₂ (MemberSpelledAs StringSpelledAs) members texts)
      (h : Enclosed '{' '}' texts text) : RecordSpelledAs names known text

/-- The member of a field that may be omitted, under a condition. -/
inductive OptionalMember (name : String) (spelled : List Char → Prop) (omittable : Prop) :
    List (String × List Char) → Prop
  | written {text : List Char} (h : spelled text) :
    OptionalMember name spelled omittable [(name, text)]
  | omitted (h : omittable) : OptionalMember name spelled omittable []

/-- What has been read of a record depends on the names that have been met: no field is given before
its name is, and a name that is no field's changes nothing. -/
structure FollowsNames (fields : List (Field σ)) (draft : List String → σ) : Prop where
  notGiven : ∀ field ∈ fields, ∀ seen, field.name ∉ seen → field.given (draft seen) = false
  other : ∀ seen name, name ∉ fields.map Field.name → draft (seen ++ [name]) = draft seen

/-- The member of a field is taken into the field, whatever has been read before. -/
def TakesField (fields : List (Field σ)) (draft : List String → σ) (m : String × List Char) :
    Prop :=
  ∃ field, fields.find? (·.name == m.1) = some field ∧
    ∀ seen, TakesText (field.read (draft seen)) m.2 (draft (seen ++ [m.1]))

/-! ## Optional members -/

/-- The member of an optional field is taken, if it is written. -/
theorem OptionalMember.takesField {name : String} {spelled : List Char → Prop} {omittable : Prop}
    {known : List (String × List Char)} (h : OptionalMember name spelled omittable known)
    {fields : List (Field σ)} {draft : List String → σ}
    (hfield : ∀ text, spelled text → TakesField fields draft (name, text)) :
    ∀ m ∈ known, TakesField fields draft m := by
  cases h with
  | written htext => exact List.forall_mem_singleton.mpr (hfield _ htext)
  | omitted _ => simp

/-- The name of an optional field is met, or the field may be omitted. -/
theorem OptionalMember.mem_or {name : String} {spelled : List Char → Prop} {omittable : Prop}
    {known : List (String × List Char)} (h : OptionalMember name spelled omittable known)
    {seen : List String} (hseen : known.map Prod.fst ⊆ seen) : name ∈ seen ∨ omittable := by
  cases h with
  | written _ => exact .inl (hseen (by simp))
  | omitted h => exact .inr h

/-- A value that is given once its name has been met is the default where it may be omitted. -/
theorem getD_ite_of_mem_or {name : String} {seen : List String} {a default : α}
    (h : name ∈ seen ∨ a = default) :
    (if name ∈ seen then some a else none).getD default = a := by
  split
  · rfl
  · next hnone => exact (h.resolve_left hnone).symm

/-! ## Records -/

/-- The text begins with a token. -/
theorem RecordSpelledAs.startsItem {names : List String} {known : List (String × List Char)}
    {text : List Char} (h : RecordSpelledAs names known text) : StartsItem text := by
  obtain ⟨-, -, -, h⟩ := h
  exact h.startsItem (by decide)

/-- What is written for an object is a text of the record whose fields' members it has, in whatever
order. -/
theorem recordSpelledAs_text {names : List String} (members : Members)
    {known : List (String × List Char)} (others : List (String × List Char))
    (hothers : ∀ m ∈ others, m.1 ∉ names ∧ IsText m.2)
    (horder : (members.map fun m => (m.1, m.2.text)).Perm (known ++ others)) :
    RecordSpelledAs names known (Json.object members).text :=
  .mk hothers horder (spelledAs_memberText members) (enclosed_text_object members)

/-- The value of a field's member is taken into the field. -/
theorem takesMember_readField {fields : List (Field σ)} {field : Field σ} {state next : σ}
    {m : String × List Char} (hfind : fields.find? (·.name == m.1) = some field)
    (hgiven : field.given state = false) (hread : TakesText (field.read state) m.2 next) :
    TakesMember (readField fields) state m next := by
  intro before behind rest hbefore hbehind hrest
  have hvalue := hread behind rest hbehind hrest
  simp only [readField, hfind, hgiven, Bool.false_eq_true, if_false, hbefore.takeColon_append, bind,
    Except.bind, hvalue]

/-- A member of another name is passed over. -/
theorem takesMember_readField_of_notMem {fields : List (Field σ)} {state : σ}
    {m : String × List Char} (hname : m.1 ∉ fields.map Field.name) (hm : IsText m.2) :
    TakesMember (readField fields) state m state := by
  intro before behind rest hbefore hbehind hrest
  have hfind : fields.find? (·.name == m.1) = none := by
    rw [List.find?_eq_none]
    intro field hfield heq
    exact hname (List.mem_map.mpr ⟨field, hfield, beq_iff_eq.mp heq⟩)
  have hvalue := takesText_skipValue hm behind rest hbehind hrest
  simp only [readField, hfind, hbefore.takeColon_append, bind, Except.bind, hvalue]
  rfl

/-- A name that is met once among the members is not met before. -/
theorem notMem_of_perm_append {known others before behind : List (String × List Char)}
    {m : String × List Char} (h : (before ++ m :: behind).Perm (known ++ others))
    (hknown : (known.map Prod.fst).Nodup) (hothers : m.1 ∉ others.map Prod.fst) :
    m.1 ∉ before.map Prod.fst := by
  have hcount := (h.map Prod.fst).count_eq m.1
  have honce := List.nodup_iff_count_le_one.mp hknown m.1
  have hnone := List.count_eq_zero.mpr hothers
  simp only [List.map_append, List.map_cons, List.count_append, List.count_cons_self] at hcount
  exact List.count_eq_zero.mp (by omega)

/-- The members of a record are taken in whatever order they stand. -/
theorem takesMembers_readField {fields : List (Field σ)} {draft : List String → σ}
    (hdraft : FollowsNames fields draft) {known others members : List (String × List Char)}
    (hknown : (known.map Prod.fst).Nodup)
    (hread : ∀ m ∈ known, TakesField fields draft m)
    (hothers : ∀ m ∈ others, m.1 ∉ fields.map Field.name ∧ IsText m.2)
    (horder : members.Perm (known ++ others)) :
    TakesMembers (readField fields) (draft []) members (draft (members.map Prod.fst)) := by
  suffices hchain : TakesMembers (readField fields) (draft []) (members.map id)
      (draft (members.map Prod.fst)) by
    rwa [List.map_id] at hchain
  refine takesMembers_map (fun before => draft (before.map Prod.fst)) fun before m behind heq => ?_
  rw [List.map_append, List.map_singleton, id]
  have hm : m ∈ known ++ others := horder.subset (by simp [heq])
  obtain hm | hm := List.mem_append.mp hm
  · obtain ⟨field, hfind, hfield⟩ := hread m hm
    have hmem := List.mem_of_find?_eq_some hfind
    have hname : field.name = m.1 := by simpa using List.find?_some hfind
    have hapart : m.1 ∉ others.map Prod.fst := by
      rintro hother
      obtain ⟨m', hm', heq'⟩ := List.mem_map.mp hother
      exact (hothers m' hm').1 (List.mem_map.mpr ⟨field, hmem, by rw [hname, heq']⟩)
    have hnew := notMem_of_perm_append (heq ▸ horder) hknown hapart
    exact takesMember_readField hfind (hdraft.notGiven field hmem _ (hname ▸ hnew)) (hfield _)
  · obtain ⟨hname, htext⟩ := hothers m hm
    rw [hdraft.other _ _ hname]
    exact takesMember_readField_of_notMem hname htext

/-- A record is read from any of its texts. -/
theorem takesText_readRecord {fields : List (Field σ)} {finish : σ → Option α} {a : α}
    {draft : List String → σ} (hdraft : FollowsNames fields draft)
    {known : List (String × List Char)} (hknown : (known.map Prod.fst).Nodup)
    (hread : ∀ m ∈ known, TakesField fields draft m)
    (hfinish : ∀ seen, known.map Prod.fst ⊆ seen → finish (draft seen) = some a)
    {text : List Char} (h : RecordSpelledAs (fields.map Field.name) known text) :
    TakesText (readRecord fields (draft []) finish) text a := by
  intro space rest hspace hrest
  have hskip := h.startsItem.skipSpace_append hspace rest
  obtain @⟨others, members, texts, hothers, horder, hspelled, h⟩ := h
  have hmembers := takesMembers_readField hdraft hknown hread hothers horder
  obtain ⟨cs, hcs, hobject⟩ := readObject_of_enclosed takesNames_readString h hspelled hmembers rest
  have hseen : known.map Prod.fst ⊆ members.map Prod.fst :=
    List.map_subset _ fun m hm => horder.symm.subset (List.mem_append_left others hm)
  exact readRecord_eq_ok_iff.mpr
    ⟨_, .inl ⟨cs, hskip.trans hcs, hobject⟩, hfinish _ hseen⟩

/-- What is read from a text is put into a state. -/
theorem TakesText.into {reader : Reader α} {text : List Char} {a : α} (h : TakesText reader text a)
    (put : α → σ) {next : σ} (hnext : put a = next) :
    TakesText (fun cs => do
      let (a, cs) ← reader cs
      return (put a, cs)) text next := by
  intro space rest hspace hrest
  simp only [h space rest hspace hrest, bind, Except.bind, hnext]
  rfl

end Json

end HostedSearch
