import HostedSearch.Proofs.Search.Limits

/-!
# Rendering responses

What is shown of a response is what the service put into it: the hits in their order with all their
fields, the number of all results, and the numbers of the page and of all pages that follow from the
counts. How the response is written makes no difference.
-/

namespace HostedSearch

namespace ResultPage

/-- However a response is written, the page that is read from it has the hits in their order, the
two counts and the page size, and is not made up. The JSON object for the page lists the same hits
and the same number of results, with the number of the page and the number of all pages; when the
number of the page overflows there is none. -/
theorem response_is_rendered (hits : List Hit) (found start : UInt64) (size : UInt32)
    (body : String) (h : ResponseSpelledAs ⟨found, start, hits⟩ body.toList) :
    let page : ResultPage := ⟨hits, found, start, size, false⟩
    ofResponse body size = .ok page ∧
      (page.number < 2 ^ 64 → ∃ current, page.current = .ok current ∧
        current.toNat = page.number ∧
        page.toJson = .ok (.object
          [("sandbox", .bool false),
           ("found", .uint64 found),
           ("page", .uint64 current),
           ("total_pages", .uint64 page.pages),
           ("hits", .array (hits.map fun hit =>
              .object [("id", .string hit.id), ("fields", .object hit.fields)]))])) ∧
      (2 ^ 64 ≤ page.number → page.toJson = .error .pageNumber) ∧
      page.pages.toNat = page.count := by
  intro page
  refine ⟨ofResponse_of_spelledAs h size, fun hroom => ?_, fun hover => ?_,
    toNat_pages_eq_count page⟩
  · obtain ⟨current, hcurrent, hnumber⟩ := Json.map_eq_ok.mp (fitsWords_iff.mpr hroom).current
    refine ⟨current, hcurrent, hnumber, ?_⟩
    rw [toJson, hcurrent]
    rfl
  · rw [toJson, current_eq_error_iff.mpr hover]
    rfl

/-- Two hits with the same identifier, of which one has no fields and the other has them in front,
are read from a response without a start, with a number beyond range and with space around it. -/
theorem response_is_rendered_of_reordered :
    let hits : List Hit := [⟨"7", []⟩, ⟨"7", [("price", .null)]⟩]
    let body :=
      " \x7b\"hits\":\x7b\"hit\":[\x7b\"id\":\"7\"\x7d,\x7b\"fields\":\x7b\"price\":null\x7d," ++
      "\"id\":\"7\"\x7d],\"found\":2\x7d,\"time\" : 1E999\x7d\n"
    ResponseSpelledAs ⟨2, 0, hits⟩ body.toList ∧
      ofResponse body 1 = .ok ⟨hits, 2, 0, 1, false⟩ := by
  intro hits body
  let first : Json := .object [("id", .string "7")]
  let second : Json := .object [("fields", .object [("price", .null)]), ("id", .string "7")]
  let part : Json := .object [("hit", .array [first, second]), ("found", .uint64 2)]
  have hid : Json.IsTextOf 0 (.string "7") (Json.string "7").text :=
    Json.isTextOf_text_of_isScalar ⟨by simp, by simp⟩ 0
  have hfound : Json.IsTextOf 0 (.uint64 2) (Json.uint64 2).text :=
    Json.isTextOf_text_of_isScalar ⟨by simp [Json.uint64], by simp [Json.uint64]⟩ 0
  have hprice : Json.Readable 123 (.object [("price", .null)]) :=
    .object (by simp) (List.forall_mem_singleton.mpr (.scalar ⟨by simp, by simp⟩))
  have hfirst : Hit.SpelledAs 122 ⟨"7", []⟩ first.text :=
    .mk hid (.omitted rfl) (Json.recordSpelledAs_text _ [] (by simp) (.refl _))
  have hsecond : Hit.SpelledAs 122 ⟨"7", [("price", .null)]⟩ second.text :=
    .mk hid (.written (Json.isTextOf_text hprice))
      (Json.recordSpelledAs_text _ [] (by simp) (.swap _ _ _))
  have hhits : Hit.ListSpelledAs 122 hits (Json.array [first, second]).text :=
    .mk (.cons hfirst (.cons hsecond .nil)) (Json.enclosed_text_array [first, second])
  have hpart : Section.SpelledAs ⟨2, 0, hits⟩ part.text :=
    .mk hfound (.omitted rfl) (.written hhits)
      (Json.recordSpelledAs_text _ [] (by simp) (.swap _ _ _))
  have hnumeral : Json.Numeral.WellFormed ⟨false, ['1'], none, some (false, ['9', '9', '9'])⟩ :=
    ⟨.inr ⟨by simp, '1', rfl, by decide⟩, by simp, by simp [Json.Numeral.SomeDigits]⟩
  have htime : Json.IsText ['1', 'E', '9', '9', '9'] :=
    .number hnumeral (.mk (.unsigned (.inr rfl)))
  have hspace : Json.IsSpaces [' '] := by simp [Json.IsSpaces, Json.isSpace]
  have hbreak : Json.IsSpaces ['\n'] := by simp [Json.IsSpaces, Json.isSpace]
  have hpartMember : Json.MemberSpelledAs Json.StringSpelledAs ("hits", part.text) _ :=
    .mk (Json.stringSpelledAs_stringText "hits") .nil .nil
  have htimeMember :
      Json.MemberSpelledAs Json.StringSpelledAs ("time", ['1', 'E', '9', '9', '9']) _ :=
    .mk (Json.stringSpelledAs_stringText "time") hspace hspace
  have hothers : ∀ m ∈ [("time", ['1', 'E', '9', '9', '9'])], m.1 ∉ ["hits"] ∧ Json.IsText m.2 :=
    List.forall_mem_singleton.mpr ⟨by simp, htime⟩
  have hrecord : Json.RecordSpelledAs ["hits"] [("hits", part.text)] _ :=
    .mk hothers (.refl _) (.cons hpartMember (.cons htimeMember .nil))
      (.full .nil (.cons _ (.singleton _)))
  have hbody : ResponseSpelledAs ⟨2, 0, hits⟩ body.toList := by
    refine (congrArg (ResponseSpelledAs _) ?_).mp (.mk hspace hbreak hpart hrecord)
    decide +kernel
  exact ⟨hbody, (response_is_rendered hits 2 0 1 body hbody).1⟩

end ResultPage

end HostedSearch
