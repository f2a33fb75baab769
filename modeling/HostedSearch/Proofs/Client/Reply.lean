import HostedSearch.Client.Batch
import HostedSearch.Proofs.Json.Record
import HostedSearch.Proofs.Json.WrittenMembers

/-!
# The reply that a body stands for

A reply is read from an object or from an array. An object has to be read as it is written: each
of the two members may be there once, with a value that fits, and the others do not matter. An
array has the status first and may have the errors behind it.
-/

namespace HostedSearch

namespace Batch

/-- The items of an array. -/
def items? : Json → Option (List Json)
  | .array items => some items
  | _ => none

/-- A reply has the two fields of its shape. -/
theorem eq_of_mem_shape {field : Json.Field Draft} (hfield : field ∈ shape) :
    field = shape[0] ∨ field = shape[1] := by
  rw [shape, List.mem_cons, List.mem_singleton] at hfield
  exact hfield

namespace Draft

/-- The draft with a value for its status, if it has none and the value fits. -/
def withStatus? (draft : Draft) (value : Option Json) : Option Draft :=
  if draft.status.isSome then none
  else (value.bind optionalText?).map fun status => { draft with status := some status }

/-- The draft with a value for its errors, if it has none and the value fits. -/
def withErrors? (draft : Draft) (value : Option Json) : Option Draft :=
  if draft.errors.isSome then none
  else (value.bind items?).map fun errors => { draft with errors := some errors }

/-- The draft with a member, if it is one of interest. -/
def take (draft : Draft) (member : String × Option Json) : Option Draft :=
  if member.1 = "status" then draft.withStatus? member.2
  else if member.1 = "errors" then draft.withErrors? member.2
  else some draft

/-- The draft that is written as an array. -/
def ofItems? : List Json → Option Draft
  | [status] => ({} : Draft).withStatus? (some status)
  | [status, errors] => do
    let draft ← ({} : Draft).withStatus? (some status)
    draft.withErrors? (some errors)
  | _ => none

/-- What is well-formed but no value fits no field. -/
theorem take_none_of_mem_shape {field : Json.Field Draft} (hfield : field ∈ shape)
    (draft : Draft) : draft.take (field.name, none) = none := by
  obtain rfl | rfl := eq_of_mem_shape hfield
  · change draft.take ("status", none) = none
    simp [take, withStatus?]
  · change draft.take ("errors", none) = none
    simp [take, withErrors?]

/-- A field that is given already is not taken again. -/
theorem take_of_given {field : Json.Field Draft} (hfield : field ∈ shape) {draft : Draft}
    (hgiven : field.given draft = true) (value : Option Json) :
    draft.take (field.name, value) = none := by
  obtain rfl | rfl := eq_of_mem_shape hfield
  · change draft.status.isSome = true at hgiven
    change draft.take ("status", value) = none
    simp [take, withStatus?, hgiven]
  · change draft.errors.isSome = true at hgiven
    change draft.take ("errors", value) = none
    simp [take, withErrors?, hgiven]

/-- A name that no field has is of no interest. -/
theorem take_of_forall_name_ne {n : String} (hname : ∀ field ∈ shape, field.name ≠ n)
    (draft : Draft) (value : Option Json) : draft.take (n, value) = some draft := by
  have hstatus : n ≠ "status" := fun h => hname _ (List.mem_cons_self) h.symm
  have herrors : n ≠ "errors" := fun h =>
    hname _ (List.mem_cons_of_mem _ List.mem_cons_self) h.symm
  simp [take, hstatus, herrors]

end Draft

/-- Only a text or null is an optional text. -/
theorem isScalar_of_optionalText? {v : Json} {status : Option String}
    (h : optionalText? v = some status) : v.IsScalar := by
  constructor <;> rintro _ rfl <;> simp [optionalText?] at h

/-- A field that is not given is read from a value that fits. -/
theorem read_eq_ok_iff_of_mem_shape {field : Json.Field Draft} (hfield : field ∈ shape)
    {draft next : Draft} (hgiven : field.given draft = false) {cs rest : List Char} :
    field.read draft cs = .ok (next, rest) ↔
      ∃ v, Json.readValue (Json.maxDepth - 1) cs = .ok (v, rest) ∧
        draft.take (field.name, some v) = some next := by
  obtain rfl | rfl := eq_of_mem_shape hfield
  · have hwant : ∀ v status, optionalText? v = some status → v.IsScalar :=
      fun _ _ => isScalar_of_optionalText?
    have htake : ∀ v, draft.take ("status", some v) = some next ↔
        ∃ status, optionalText? v = some status ∧ { draft with status := some status } = next := by
      intro v
      change draft.status.isSome = false at hgiven
      simp [Draft.take, Draft.withStatus?, hgiven]
    constructor
    · intro h
      obtain ⟨⟨status, cs'⟩, hstatus, h⟩ := Json.bind_eq_ok.mp h
      obtain ⟨hnext, rfl⟩ := Prod.mk.inj (Json.pure_eq_ok.mp h)
      obtain ⟨v, hv, hfits⟩ := (Json.readAs_eq_ok_iff_readValue hwant).mp hstatus
      exact ⟨v, hv, (htake v).mpr ⟨status, hfits, hnext⟩⟩
    · rintro ⟨v, hv, h⟩
      obtain ⟨status, hfits, hnext⟩ := (htake v).mp h
      have hstatus := (Json.readAs_eq_ok_iff_readValue hwant).mpr ⟨v, hv, hfits⟩
      exact Json.bind_eq_ok.mpr ⟨(status, rest), hstatus, by rw [Json.pure_eq_ok, hnext]⟩
  · have htake : ∀ v, draft.take ("errors", some v) = some next ↔
        ∃ errors, v = .array errors ∧ { draft with errors := some errors } = next := by
      intro v
      change draft.errors.isSome = false at hgiven
      cases v <;> simp [Draft.take, Draft.withErrors?, items?, hgiven]
    constructor
    · intro h
      obtain ⟨⟨errors, cs'⟩, herrors, h⟩ := Json.bind_eq_ok.mp h
      obtain ⟨hnext, rfl⟩ := Prod.mk.inj (Json.pure_eq_ok.mp h)
      have hv := Json.readListOf_readValue_eq_ok_iff.mp herrors
      exact ⟨.array errors, hv, (htake _).mpr ⟨errors, rfl, hnext⟩⟩
    · rintro ⟨v, hv, h⟩
      obtain ⟨errors, rfl, hnext⟩ := (htake v).mp h
      have herrors := Json.readListOf_readValue_eq_ok_iff.mpr hv
      exact Json.bind_eq_ok.mpr ⟨(errors, rest), herrors, by rw [Json.pure_eq_ok, hnext]⟩

/-- With only the status there are no errors yet. -/
theorem given_of_withStatus? {value : Option Json} {next : Draft}
    (h : ({} : Draft).withStatus? value = some next) : shape[1].given next = false := by
  obtain ⟨status, -, rfl⟩ := Option.map_eq_some_iff.mp h
  rfl

/-- A member that is read into a reply is taken into it as it is written. -/
theorem follows_readField : Json.Follows (Json.maxDepth - 1) (Json.readField shape) Draft.take := by
  intro draft n cs next rest
  unfold Json.readField
  split
  · next field hfind =>
    have hfield := List.mem_of_find?_eq_some hfind
    obtain rfl : field.name = n := by simpa using List.find?_some hfind
    split
    · next hgiven =>
      simp [Draft.take_of_given hfield hgiven]
    · next hgiven =>
      rw [Bool.not_eq_true] at hgiven
      simp only [Json.bind_eq_ok, read_eq_ok_iff_of_mem_shape hfield hgiven]
      constructor
      · rintro ⟨cs', hcolon, v, hv, htake⟩
        exact ⟨cs', some v, hcolon, Json.readLoosely_eq_some_iff.mpr hv, htake⟩
      · rintro ⟨cs', value, hcolon, hvalue, htake⟩
        cases value with
        | none => simp [Draft.take_none_of_mem_shape hfield] at htake
        | some v => exact ⟨cs', hcolon, v, Json.readLoosely_eq_some_iff.mp hvalue, htake⟩
  · next hfind =>
    have hname : ∀ field ∈ shape, field.name ≠ n := by simpa using hfind
    simp only [Json.bind_eq_ok, Json.pure_eq_ok, Prod.exists, Prod.mk.injEq, Json.readLoosely,
      Draft.take_of_forall_name_ne hname]
    grind

/-- A reply that is written as an array has its status first and may have its errors behind it. -/
theorem readPositions_shape_eq_ok_iff {draft : Draft} {cs rest : List Char} :
    Json.readPositions shape {} cs = .ok (draft, rest) ↔
      ∃ items, Json.readArray (Json.readValue (Json.maxDepth - 1)) cs = .ok (items, rest) ∧
        Draft.ofItems? items = some draft := by
  have hstatus : shape[0] ∈ shape := List.getElem_mem _
  have herrors : shape[1] ∈ shape := List.getElem_mem _
  have hshape : shape = [shape[0], shape[1]] := rfl
  rw [hshape, Json.readPositions_cons_eq_ok_iff rfl]
  constructor
  · rintro ⟨hne, next, cs₁, hread, hmore⟩
    obtain ⟨v, hv, htake⟩ := (read_eq_ok_iff_of_mem_shape hstatus rfl).mp hread
    obtain ⟨hbracket, -, rfl⟩ | ⟨cs₂, last, cs₃, hcomma, hread', hend⟩ :=
      Json.readMorePositions_cons_eq_ok_iff.mp hmore
    · exact ⟨[v], Json.readArray_singleton_eq_ok_iff.mpr ⟨hne, cs₁, hv, hbracket⟩, htake⟩
    · obtain ⟨w, hw, htake'⟩ :=
        (read_eq_ok_iff_of_mem_shape herrors (given_of_withStatus? htake)).mp hread'
      obtain ⟨hbracket, rfl⟩ := Json.readMorePositions_nil_eq_ok_iff.mp hend
      exact ⟨[v, w], (Json.readArray_pair_eq_ok_iff (Json.shrinks_readValue _)).mpr
        ⟨hne, cs₁, cs₂, cs₃, hv, hcomma, hw, hbracket⟩,
        Option.bind_eq_some_iff.mpr ⟨next, htake, htake'⟩⟩
  · rintro ⟨items, hitems, hdraft⟩
    match items with
    | [] => simp [Draft.ofItems?] at hdraft
    | [v] =>
      obtain ⟨hne, cs₁, hv, hbracket⟩ := Json.readArray_singleton_eq_ok_iff.mp hitems
      exact ⟨hne, draft, cs₁, (read_eq_ok_iff_of_mem_shape hstatus rfl).mpr ⟨v, hv, hdraft⟩,
        Json.readMorePositions_cons_eq_ok_iff.mpr (.inl ⟨hbracket, rfl, rfl⟩)⟩
    | [v, w] =>
      obtain ⟨hne, cs₁, cs₂, cs₃, hv, hcomma, hw, hbracket⟩ :=
        (Json.readArray_pair_eq_ok_iff (Json.shrinks_readValue _)).mp hitems
      obtain ⟨next, htake, htake'⟩ := Option.bind_eq_some_iff.mp hdraft
      exact ⟨hne, next, cs₁, (read_eq_ok_iff_of_mem_shape hstatus rfl).mpr ⟨v, hv, htake⟩,
        Json.readMorePositions_cons_eq_ok_iff.mpr (.inr ⟨cs₂, draft, cs₃, hcomma,
          (read_eq_ok_iff_of_mem_shape herrors (given_of_withStatus? htake)).mpr ⟨w, hw, htake'⟩,
          Json.readMorePositions_nil_eq_ok_iff.mpr ⟨hbracket, rfl⟩⟩)⟩
    | _ :: _ :: _ :: _ => simp [Draft.ofItems?] at hdraft

/-! ## Fields that are written at most once -/

/-- What is accepted of values of which there may be at most one. -/
def once? {β : Type} (accept : Json → Option β) : List (Option Json) → Option (Option β)
  | [] => some none
  | [value] => (value.bind accept).map some
  | _ => none

/-- One more value is accepted only as the first. -/
theorem once?_append_singleton {β : Type} {accept : Json → Option β} {values : List (Option Json)}
    {value : Option Json} {accepted : Option β} :
    once? accept (values ++ [value]) = some accepted ↔
      once? accept values = some none ∧ ∃ b, value.bind accept = some b ∧ some b = accepted := by
  match values with
  | [] => simp only [once?, List.nil_append, Option.map_eq_some_iff, true_and]
  | [first] => cases hfirst : first.bind accept <;> simp [once?, hfirst]
  | _ :: _ :: _ => simp [once?]

/-- A value for the status is taken if there is none yet. -/
theorem Draft.withStatus?_eq_some_iff {draft next : Draft} {value : Option Json} :
    draft.withStatus? value = some next ↔ draft.status = none ∧
      ∃ status, value.bind optionalText? = some status ∧
        { draft with status := some status } = next := by
  cases hstatus : draft.status with
  | none => simp only [withStatus?, hstatus, Option.isSome_none, Bool.false_eq_true, if_false,
      Option.map_eq_some_iff, true_and]
  | some status => simp [withStatus?, hstatus]

/-- A value for the errors is taken if there is none yet. -/
theorem Draft.withErrors?_eq_some_iff {draft next : Draft} {value : Option Json} :
    draft.withErrors? value = some next ↔ draft.errors = none ∧
      ∃ errors, value.bind items? = some errors ∧ { draft with errors := some errors } = next := by
  cases herrors : draft.errors with
  | none => simp only [withErrors?, herrors, Option.isSome_none, Bool.false_eq_true, if_false,
      Option.map_eq_some_iff, true_and]
  | some errors => simp [withErrors?, herrors]

/-- Members are taken one after the other exactly when each field is written at most once, with a
value that fits. -/
theorem foldlM_take_eq_some_iff {members : Json.WrittenMembers} {draft : Draft} :
    members.foldlM Draft.take {} = some draft ↔
      once? optionalText? (members.named "status") = some draft.status ∧
        once? items? (members.named "errors") = some draft.errors := by
  induction members using List.reverseRecOn generalizing draft with
  | nil =>
    obtain ⟨status, errors⟩ := draft
    simp [Json.WrittenMembers.named, once?]
  | append_singleton members member ih =>
    obtain ⟨n, value⟩ := member
    have hfold : (members ++ [(n, value)]).foldlM Draft.take {} = some draft ↔
        ∃ before, members.foldlM Draft.take {} = some before ∧
          before.take (n, value) = some draft := by
      simp [List.foldlM_append, Option.bind_eq_some_iff]
    rw [hfold, Json.named_append_singleton, Json.named_append_singleton]
    by_cases hstatus : n = "status"
    · subst hstatus
      have htake : ∀ before : Draft,
          before.take ("status", value) = before.withStatus? value := fun _ => rfl
      rw [if_pos rfl, if_neg (by simp), once?_append_singleton]
      simp only [htake, Draft.withStatus?_eq_some_iff, ih]
      constructor
      · rintro ⟨before, ⟨hbefore, herrors⟩, hnone, status, hvalue, rfl⟩
        rw [hnone] at hbefore
        exact ⟨⟨hbefore, status, hvalue, rfl⟩, herrors⟩
      · rintro ⟨⟨hbefore, status, hvalue, hdraft⟩, herrors⟩
        refine ⟨{ draft with status := none }, ⟨hbefore, herrors⟩, rfl, status, hvalue, ?_⟩
        rw [hdraft]
    by_cases herrors : n = "errors"
    · subst herrors
      have htake : ∀ before : Draft,
          before.take ("errors", value) = before.withErrors? value := fun _ => rfl
      rw [if_neg (by simp), if_pos rfl, once?_append_singleton]
      simp only [htake, Draft.withErrors?_eq_some_iff, ih]
      constructor
      · rintro ⟨before, ⟨hstatus, hbefore⟩, hnone, errors, hvalue, rfl⟩
        rw [hnone] at hbefore
        exact ⟨hstatus, hbefore, errors, hvalue, rfl⟩
      · rintro ⟨hstatus, hbefore, errors, hvalue, hdraft⟩
        refine ⟨{ draft with errors := none }, ⟨hstatus, hbefore⟩, rfl, errors, hvalue, ?_⟩
        rw [hdraft]
    · have htake : ∀ before : Draft, before.take (n, value) = some before := fun before => by
        rw [Draft.take, if_neg hstatus, if_neg herrors]
      rw [if_neg hstatus, if_neg herrors]
      simp only [htake, Option.some.injEq, exists_eq_right, ih]

/-- A reply is read from the members of an object or from the items of an array. -/
theorem Reply.ofText_eq_ok_iff {text : String} {reply : Reply} :
    Reply.ofText text = .ok reply ↔
      ∃ draft : Draft, ((∃ members, Json.writtenMembers text = .ok members ∧
            members.foldlM Draft.take {} = some draft) ∨
          ∃ items, Json.parse text = .ok (.array items) ∧ Draft.ofItems? items = some draft) ∧
        reply = ⟨draft.status.join, draft.errors.getD []⟩ := by
  simp only [Reply.ofText, Json.writtenMembers, Json.parse, Json.readWhole_eq_ok_iff,
    Json.readRecord_eq_ok_iff, Json.readWrittenMembers_eq_ok_iff, readPositions_shape_eq_ok_iff,
    Json.readObject_eq_ok_iff_foldlM follows_readField]
  constructor
  · rintro ⟨rest, ⟨draft, hread, hreply⟩, hend⟩
    refine ⟨draft, ?_, (Option.some.inj hreply).symm⟩
    obtain ⟨cs, hopen, members, hmembers, hfold⟩ | ⟨cs, hopen, items, hitems, hdraft⟩ := hread
    · exact .inl ⟨members, ⟨rest, ⟨cs, hopen, hmembers⟩, hend⟩, hfold⟩
    · exact .inr ⟨items, ⟨rest, Json.readValue_eq_array_iff.mpr ⟨cs, hopen, hitems⟩, hend⟩, hdraft⟩
  · rintro ⟨draft, hread, rfl⟩
    obtain ⟨members, ⟨rest, ⟨cs, hopen, hmembers⟩, hend⟩, hfold⟩ |
      ⟨items, ⟨rest, hitems, hend⟩, hdraft⟩ := hread
    · exact ⟨rest, ⟨draft, .inl ⟨cs, hopen, members, hmembers, hfold⟩, rfl⟩, hend⟩
    · obtain ⟨cs, hopen, hitems⟩ := Json.readValue_eq_array_iff.mp hitems
      exact ⟨rest, ⟨draft, .inr ⟨cs, hopen, items, hitems, hdraft⟩, rfl⟩, hend⟩

end Batch

end HostedSearch
