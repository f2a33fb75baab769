import HostedSearch.Command.Run
import HostedSearch.Proofs.Document.NormalForm
import HostedSearch.Proofs.Json.Readable

/-!
# Adding a document from the command line

The fields of a document are given as the text of a JSON object. They become the fields of a change,
and that becomes the only item of the body that is sent. On the way the object is taken apart and
put together again, but what is sent has the members of the object as they were read, in their
order: only a null that stands directly in it is sent as an empty text.
-/

namespace HostedSearch

namespace Command

/-- A text gives fields exactly when it is the text of an object. -/
theorem exists_parseFields_iff {raw : String} :
    (∃ fields, parseFields raw = .ok fields) ↔
      ∃ members, Json.parse raw = .ok (.object members) := by
  unfold parseFields
  split <;> simp_all

/-- Reading the fields of a document succeeds exactly when the text is that of a JSON object. A live
addition of a document with such fields then posts one body, whatever comes back for it. The body is
an array with one record, whose fields are the members of the object in their order, each with its
value but with an empty text for null. It nests two containers more than the text may. -/
theorem add_posts_members {settings : Settings} {url : String} (hlive : settings.mode = .live)
    (hurl : settings.batchUrl? = some url) {σ : Type} (transport : Transport σ) (state : σ)
    (now : Int64) (id raw : String) :
    ((∃ fields, parseFields raw = .ok fields) ↔
      ∃ members, Json.parse raw = .ok (.object members)) ∧
    ∀ members : Json.Members, Json.parse raw = .ok (.object members) →
      ∃ fields body, parseFields raw = .ok fields ∧
        (Command.add id raw).call = .ok (.addItem id fields) ∧
        (Client.perform settings transport state now (.addItem id fields)).1.sent =
          [.post url body] ∧
        Json.readWhole (Json.readValue (Json.maxDepth + 2)) body =
          .ok (.array [.object
            [("type", .string "add"), ("id", .string id), ("version", .int64 now),
             ("lang", .string "en"), ("fields", .object members.orEmptyTexts)]]) := by
  refine ⟨exists_parseFields_iff, fun members hparse => ?_⟩
  have hreadable := Json.readable_of_parse hparse
  have hfields : parseFields raw = .ok (.ofMembers members) := by
    rw [parseFields, hparse]
  have hsent : (Client.perform settings transport state now
      (.addItem id (.ofMembers members))).1.sent =
        [.post url (Batch.body [.ofFields id now (.ofMembers members)])] := by
    obtain ⟨domain, hdomain, -⟩ := Option.map_eq_some_iff.mp hurl
    obtain ⟨endpoint, -, hendpoint, -⟩ := Settings.exists_addresses hdomain
    exact Client.sent_perform (Settings.isSandbox_eq_false_iff.mpr hlive) hendpoint hurl transport
      state now _
  have hchange : Change.ofFields id now (.ofMembers members) =
      .add id now "en" members.orEmptyTexts := by
    rw [Change.ofFields, Fields.normalize_ofMembers hreadable.nodup_names]
    rfl
  refine ⟨.ofMembers members, _, hfields, ?_, hsent, ?_⟩
  · rw [call, hfields]
    rfl
  · rw [hchange]
    exact Change.readWhole_body (List.forall_mem_singleton.mpr hreadable.orEmptyTexts)

/-- A null in an array or in an object is sent as it is; a repeated name is sent once, where it
first stands. -/
theorem add_posts_members_of_nulls :
    ∃ fields body,
      parseFields "\x7b\"a\": null, \"b\": [null, \x7b\"c\": null\x7d], \"a\": 1, \"d\": null\x7d" =
        .ok fields ∧
      (Client.perform { searchDomain := some "donuts", mode := .live }
          (fun state _ => (.failure "timed out", state)) () 7 (.addItem "1" fields)).1.sent =
        [.post "http://doc-donuts.us-east-1.cloudsearch.amazonaws.com/2013-01-01/documents/batch"
          body] ∧
      Json.readWhole (Json.readValue (Json.maxDepth + 2)) body =
        .ok (.array [.object
          [("type", .string "add"), ("id", .string "1"), ("version", .int64 7),
           ("lang", .string "en"),
           ("fields", .object [("a", .int64 1), ("b", .array [.null, .object [("c", .null)]]),
             ("d", .string "")])]]) := by
  have hparse : Json.parse
      "\x7b\"a\": null, \"b\": [null, \x7b\"c\": null\x7d], \"a\": 1, \"d\": null\x7d" =
        .ok (.object [("a", .int64 1), ("b", .array [.null, .object [("c", .null)]]),
          ("d", .null)]) := by
    with_unfolding_all rfl
  obtain ⟨fields, body, hfields, -, hsent, hbody⟩ := (add_posts_members
    (rfl : Settings.mode { searchDomain := some "donuts", mode := .live } = .live) rfl
    (fun state _ => (.failure "timed out", state)) () 7 "1" _).2 _ hparse
  exact ⟨fields, body, hfields, hsent, hbody⟩

end Command

end HostedSearch
