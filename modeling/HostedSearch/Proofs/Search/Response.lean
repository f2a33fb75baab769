import HostedSearch.Proofs.Json.RecordText
import HostedSearch.ResultPage

/-!
# Reading responses

A response may be written in many ways: the members of every object in any order, with others of no
interest among them, and what has its default left out. Whatever the writing, the page that is read
has the hits in their order, the two counts, and the page size that was asked for.
-/

namespace HostedSearch

namespace Json

/-- A string is read from any of its texts. -/
theorem takesText_readAs_toString? {s : String} {text : List Char}
    (h : IsTextOf 0 (.string s) text) : TakesText (readAs toString?) text s := by
  have hscalar (v : Json) (a : String) (ha : v.toString? = some a) : v.IsScalar := by
    cases v with
    | string s => exact ⟨by simp, by simp⟩
    | _ => cases ha
  exact takesText_readAs hscalar (v := .string s) rfl h

/-- An unsigned 64-bit integer is read from any of its texts. -/
theorem takesText_readAs_toUInt64? {n : UInt64} {text : List Char}
    (h : IsTextOf 0 (uint64 n) text) : TakesText (readAs toUInt64?) text n := by
  have hscalar (v : Json) (a : UInt64) (ha : v.toUInt64? = some a) : v.IsScalar := by
    cases v with
    | number n => exact ⟨by simp, by simp⟩
    | _ => cases ha
  exact takesText_readAs hscalar (toUInt64?_uint64 n) h

end Json

/-! ## Hits -/

namespace Hit

/-- An object with the identifier of a hit and its fields, unless there are none. -/
inductive SpelledAs (depth : Nat) (hit : Hit) (text : List Char) : Prop
  | mk {idText : List Char} {fields : List (String × List Char)}
      (hid : Json.IsTextOf 0 (.string hit.id) idText)
      (hfields : Json.OptionalMember "fields" (Json.IsTextOf (depth + 1) (.object hit.fields))
        (hit.fields = []) fields)
      (h : Json.RecordSpelledAs ["id", "fields"] (("id", idText) :: fields) text)

/-- What has been read of a hit behind members of these names. -/
def draft (hit : Hit) (seen : List String) : Draft where
  id := if "id" ∈ seen then some hit.id else none
  fields := if "fields" ∈ seen then some hit.fields else none

/-- The fields of a hit are given once their names have been met. -/
theorem followsNames_draft (depth : Nat) (hit : Hit) :
    Json.FollowsNames (shape depth) hit.draft where
  notGiven := by simp [shape, draft]
  other := by
    intro seen name hname
    simp only [shape, List.map_cons, List.map_nil, List.mem_cons, List.not_mem_nil, or_false,
      not_or] at hname
    simp [draft, Ne.symm hname.1, Ne.symm hname.2]

/-- A hit is read from any of its texts. -/
theorem takesText_read {depth : Nat} {hit : Hit} {text : List Char} (h : hit.SpelledAs depth text) :
    Json.TakesText (read depth) text hit := by
  obtain @⟨idText, fields, hid, hfields, h⟩ := h
  have hstart : hit.draft [] = {} := by simp [draft]
  rw [read, ← hstart]
  refine Json.takesText_readRecord (followsNames_draft depth hit) ?_ ?_ ?_ h
  · cases hfields <;> simp
  · refine List.forall_mem_cons.mpr ⟨⟨_, rfl, fun seen => ?_⟩, hfields.takesField fun text htext =>
      ⟨_, rfl, fun seen => ?_⟩⟩
    · refine (Json.takesText_readAs_toString? hid).into
        (fun id => { hit.draft seen with id := some id }) ?_
      simp [draft]
    · refine (Json.takesText_readAnyObject htext).into
        (fun fields => { hit.draft seen with fields := some fields }) ?_
      simp [draft]
  · intro seen hseen
    obtain ⟨hidSeen, hfieldsSeen⟩ := List.cons_subset.mp hseen
    rw [ofDraft?, draft, if_pos hidSeen, Json.getD_ite_of_mem_or (hfields.mem_or hfieldsSeen)]
    rfl

/-- An array of hits, in their order. -/
inductive ListSpelledAs (depth : Nat) (hits : List Hit) (text : List Char) : Prop
  | mk {texts : List (List Char)}
      (hhits : List.Forall₂ (fun text hit => SpelledAs depth hit text) texts hits)
      (h : Json.Enclosed '[' ']' texts text)

/-- Hits are read in their order from any of their texts. -/
theorem takesText_readListOf {depth : Nat} {hits : List Hit} {text : List Char}
    (h : ListSpelledAs depth hits text) :
    Json.TakesText (Json.readListOf (read depth)) text hits := by
  obtain @⟨texts, hhits, h⟩ := h
  refine Json.takesText_readListOf h (hhits.imp fun _ _ => takesText_read) fun text htext => ?_
  obtain ⟨hit, -, ⟨-, -, hhit⟩⟩ := Json.exists_mem_of_forall₂ hhits htext
  exact hhit.startsItem

end Hit

/-! ## Responses -/

namespace ResultPage

namespace Section

/-- An object with the number of all results, the start of the page unless it is zero, and the hits
unless there are none. -/
inductive SpelledAs (part : Section) (text : List Char) : Prop
  | mk {foundText : List Char} {start hits : List (String × List Char)}
      (hfound : Json.IsTextOf 0 (.uint64 part.found) foundText)
      (hstart : Json.OptionalMember "start" (Json.IsTextOf 0 (.uint64 part.start))
        (part.start = 0) start)
      (hhits : Json.OptionalMember "hit" (Hit.ListSpelledAs (Json.maxDepth - 5) part.hits)
        (part.hits = []) hits)
      (h : Json.RecordSpelledAs ["found", "start", "hit"] (("found", foundText) :: (start ++ hits))
        text)

/-- What has been read of the hits section behind members of these names. -/
def draft (part : Section) (seen : List String) : Draft where
  found := if "found" ∈ seen then some part.found else none
  start := if "start" ∈ seen then some part.start else none
  hit := if "hit" ∈ seen then some part.hits else none

/-- The fields of the hits section are given once their names have been met. -/
theorem followsNames_draft (part : Section) : Json.FollowsNames shape part.draft where
  notGiven := by simp [shape, draft]
  other := by
    intro seen name hname
    simp only [shape, List.map_cons, List.map_nil, List.mem_cons, List.not_mem_nil, or_false,
      not_or] at hname
    simp [draft, Ne.symm hname.1, Ne.symm hname.2.1, Ne.symm hname.2.2]

/-- The hits section is read from any of its texts. -/
theorem takesText_read {part : Section} {text : List Char} (h : part.SpelledAs text) :
    Json.TakesText read text part := by
  obtain @⟨foundText, start, hits, hfound, hstart, hhits, h⟩ := h
  have hnone : part.draft [] = {} := by simp [draft]
  rw [read, ← hnone]
  refine Json.takesText_readRecord part.followsNames_draft ?_ ?_ ?_ h
  · cases hstart <;> cases hhits <;> simp
  · refine List.forall_mem_cons.mpr ⟨⟨_, rfl, fun seen => ?_⟩, List.forall_mem_append.mpr
      ⟨hstart.takesField fun text htext => ⟨_, rfl, fun seen => ?_⟩,
        hhits.takesField fun text htext => ⟨_, rfl, fun seen => ?_⟩⟩⟩
    · refine (Json.takesText_readAs_toUInt64? hfound).into
        (fun found => { part.draft seen with found := some found }) ?_
      simp [draft]
    · refine (Json.takesText_readAs_toUInt64? htext).into
        (fun start => { part.draft seen with start := some start }) ?_
      simp [draft]
    · refine (Hit.takesText_readListOf htext).into
        (fun hits => { part.draft seen with hit := some hits }) ?_
      simp [draft]
  · intro seen hseen
    rw [List.map_cons, List.map_append, List.cons_subset, List.append_subset] at hseen
    obtain ⟨hfoundSeen, hstartSeen, hhitsSeen⟩ := hseen
    rw [ofDraft?, draft, if_pos hfoundSeen, Json.getD_ite_of_mem_or (hstart.mem_or hstartSeen),
      Json.getD_ite_of_mem_or (hhits.mem_or hhitsSeen)]
    rfl

end Section

/-- An object with a hits section, and space around it. -/
inductive ResponseSpelledAs (part : Section) : List Char → Prop
  | mk {before behind partText text : List Char} (hbefore : Json.IsSpaces before)
      (hbehind : Json.IsSpaces behind) (hpart : part.SpelledAs partText)
      (h : Json.RecordSpelledAs ["hits"] [("hits", partText)] text) :
    ResponseSpelledAs part (before ++ (text ++ behind))

/-- What has been read of a response behind members of these names. -/
def responseDraft (part : Section) (seen : List String) : Option Section :=
  if "hits" ∈ seen then some part else none

/-- The hits section is given once its name has been met. -/
theorem followsNames_responseDraft (part : Section) :
    Json.FollowsNames responseShape (responseDraft part) where
  notGiven := by simp [responseShape, responseDraft]
  other := by
    intro seen name hname
    have hother : "hits" ≠ name := by simpa [responseShape, eq_comm] using hname
    simp [responseDraft, hother]

/-- A page is read from any text of its hits section. -/
theorem ofResponse_of_spelledAs {part : Section} {body : String}
    (h : ResponseSpelledAs part body.toList) (pageSize : UInt32) :
    ofResponse body pageSize = .ok ⟨part.hits, part.found, part.start, pageSize, false⟩ := by
  have hwhole : Json.readWhole (Json.readRecord responseShape none id) body = .ok part := by
    rw [Json.readWhole_eq_ok_iff]
    generalize body.toList = cs at h ⊢
    obtain @⟨before, behind, partText, text, hbefore, hbehind, hpart, h⟩ := h
    have hread : Json.TakesText (Json.readRecord responseShape none id) text part := by
      have hnone : responseDraft part [] = none := by simp [responseDraft]
      rw [← hnone]
      refine Json.takesText_readRecord (followsNames_responseDraft part) (by simp) ?_ ?_ h
      · exact List.forall_mem_singleton.mpr ⟨_, rfl, fun seen =>
          (Section.takesText_read hpart).into some (by simp [responseDraft])⟩
      · intro seen hseen
        exact if_pos (hseen (by simp))
    exact ⟨behind, hread before behind hbefore hbehind.stops, hbehind.skipSpace_eq_nil⟩
  rw [ofResponse, hwhole]
  rfl

/-- A response with the number of all results and the start of the page. -/
def countsJson (found start : UInt64) : Json :=
  .object [("hits", .object [("found", .uint64 found), ("start", .uint64 start)])]

/-- A response with two counts is read as a page with these, whatever the page size. -/
theorem ofResponse_countsJson (found start : UInt64) (pageSize : UInt32) :
    ofResponse (countsJson found start).compact pageSize =
      .ok ⟨[], found, start, pageSize, false⟩ := by
  have htext (n : UInt64) : Json.IsTextOf 0 (.uint64 n) (Json.uint64 n).text :=
    Json.isTextOf_text_of_isScalar ⟨by simp [Json.uint64], by simp [Json.uint64]⟩ 0
  have hpart : Section.SpelledAs ⟨found, start, []⟩
      (Json.object [("found", .uint64 found), ("start", .uint64 start)]).text :=
    .mk (htext found) (.written (htext start)) (.omitted rfl)
      (Json.recordSpelledAs_text [("found", .uint64 found), ("start", .uint64 start)] []
        (by simp) (.refl _))
  have hresponse := ResponseSpelledAs.mk .nil .nil hpart
    (Json.recordSpelledAs_text [("hits", _)] [] (by simp) (.refl _))
  have hbody : ResponseSpelledAs ⟨found, start, []⟩ (countsJson found start).compact.toList := by
    rw [List.nil_append, List.append_nil] at hresponse
    rwa [Json.compact, String.toList_ofList]
  exact ofResponse_of_spelledAs hbody pageSize

end ResultPage

end HostedSearch
