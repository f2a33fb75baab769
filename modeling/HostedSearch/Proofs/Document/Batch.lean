import HostedSearch.Proofs.Client.Requests
import HostedSearch.Proofs.Json.Record
import HostedSearch.Proofs.Json.ValueText

/-!
# Reading back batches

The body in which changes are sent is an array of objects, one for each change and in their order.
Read as a list of changes it gives just the changes that were sent, whatever their identifiers,
versions and fields, if the fields are no deeper than a reader goes. A deletion is written without
a language and without fields.
-/

namespace HostedSearch

namespace Change

/-- The fields of the change, if it has any, have at most `depth` containers nested and repeat no
name at any depth. -/
def Readable (depth : Nat) : Change → Prop
  | .add _ _ _ fields => Json.Readable depth (.object fields)
  | .delete _ _ => True

/-- Only a word can stand for a kind. -/
theorem isScalar_of_kindOfJson? {v : Json} {kind : Kind} (h : kindOfJson? v = some kind) :
    v.IsScalar := by
  cases v with
  | string s => exact ⟨by simp, by simp⟩
  | _ => cases h

/-- The reader of a change takes the type at once. -/
theorem takesMember_type {depth : Nat} {kind : Kind} {word : String}
    (hword : Kind.ofWord? word = some kind) :
    Json.TakesMember (readMember depth) (none, []) ("type", (Json.string word).text)
      (some kind, []) := by
  intro before behind rest hbefore hbehind hrest
  have hscalar : (Json.string word).IsScalar := ⟨by simp, by simp⟩
  have hkind : kindOfJson? (.string word) = some kind := hword
  have hread := Json.takesText_readAs (fun _ _ => isScalar_of_kindOfJson?) hkind
    (Json.isTextOf_text_of_isScalar hscalar 0) behind rest hbehind hrest
  simp only [readMember, hbefore.takeColon_append, hread, bind, Except.bind]
  rfl

/-- The reader of a change keeps other members as they are. -/
theorem takesMembers_others {depth : Nat} (kind : Kind) {others : Json.Members}
    (hnames : "type" ∉ others.map Prod.fst) (hothers : ∀ m ∈ others, Json.Readable depth m.2) :
    Json.TakesMembers (readMember depth) (some kind, []) (others.map fun m => (m.1, m.2.text))
      (some kind, others) := by
  refine Json.takesMembers_map (fun before => (some kind, before)) fun before m behind heq => ?_
  have hm : m ∈ others := by simp [heq]
  have hname : ¬ m.1 = "type" := fun h => hnames (List.mem_map.mpr ⟨m, hm, h⟩)
  intro space space' rest hspace hspace' hrest
  have hread := Json.takesText_readValue (Json.isTextOf_text (hothers m hm)) _ _ hspace' hrest
  simp only [readMember, if_neg hname, hspace.takeColon_append, hread, bind, Except.bind]
  rfl

/-- A change is read from the text of an object whose members give it, the type first. -/
theorem takesText_read {depth : Nat} {word : String} {kind : Kind}
    (hword : Kind.ofWord? word = some kind) {others : Json.Members}
    (hnames : "type" ∉ others.map Prod.fst) (hothers : ∀ m ∈ others, Json.Readable depth m.2)
    {change : Change} (hcontent : ofContent? kind (.members others) = some change) :
    Json.TakesText (read depth) (Json.object (("type", .string word) :: others)).text change := by
  intro space rest hspace hrest
  have hmembers := Json.TakesMembers.cons (takesMember_type hword)
    (takesMembers_others kind hnames hothers)
  have henclosed := Json.enclosed_text_object (("type", .string word) :: others)
  obtain ⟨cs, hcs, hobject⟩ := Json.readObject_of_enclosed Json.takesNames_readString henclosed
    (Json.spelledAs_memberText _) hmembers rest
  have hskip := (henclosed.startsItem (by decide)).skipSpace_append hspace rest
  simp only [read, readContent, hskip.trans hcs, hobject, bind, Except.bind, pure, Except.pure,
    Option.bind, hcontent]

/-- The members of a change repeat no name, and all are as readable as its fields. -/
theorem exists_toJson_eq_object {depth : Nat} {change : Change} (hchange : change.Readable depth) :
    ∃ members, change.toJson = .object members ∧ (members.map Prod.fst).Nodup ∧
      ∀ m ∈ members, Json.Readable depth m.2 := by
  have hstring (s : String) : Json.Readable depth (.string s) := .scalar ⟨by simp, by simp⟩
  have hint64 (n : Int64) : Json.Readable depth (.int64 n) :=
    .scalar ⟨by simp [Json.int64], by simp [Json.int64]⟩
  cases change with
  | add id version language fields =>
    refine ⟨_, rfl, by simp, ?_⟩
    simp only [List.forall_mem_cons, hstring, hint64, true_and]
    exact ⟨hchange, fun m hm => absurd hm List.not_mem_nil⟩
  | delete id version =>
    refine ⟨_, rfl, by simp, ?_⟩
    simp only [List.forall_mem_cons, hstring, hint64, true_and]
    exact fun m hm => absurd hm List.not_mem_nil

/-- A change is read back from its text. -/
theorem takesText_read_toJson {depth : Nat} {change : Change} (hchange : change.Readable depth) :
    Json.TakesText (read depth) change.toJson.text change := by
  obtain ⟨members, hmembers, hnames, hreadable⟩ := exists_toJson_eq_object hchange
  cases change with
  | add id version language fields =>
    obtain rfl := Json.object.inj hmembers
    obtain ⟨hnames, -⟩ := List.nodup_cons.mp hnames
    obtain ⟨-, hreadable⟩ := List.forall_mem_cons.mp hreadable
    have hword : Kind.ofWord? "add" = some .add := rfl
    refine takesText_read hword hnames hreadable ?_
    change add? (.string id) (.int64 version) (.string language) (.object fields) = _
    simp [add?, Json.toString?, Json.toInt64?_int64, members?]
  | delete id version =>
    obtain rfl := Json.object.inj hmembers
    obtain ⟨hnames, -⟩ := List.nodup_cons.mp hnames
    obtain ⟨-, hreadable⟩ := List.forall_mem_cons.mp hreadable
    have hword : Kind.ofWord? "delete" = some .delete := rfl
    refine takesText_read hword hnames hreadable ?_
    change delete? (.string id) (.int64 version) = _
    simp [delete?, Json.toString?, Json.toInt64?_int64]

/-- A readable change is written as a value one container deeper than its fields. -/
theorem readable_toJson {depth : Nat} {change : Change} (hchange : change.Readable depth) :
    Json.Readable (depth + 1) change.toJson := by
  obtain ⟨members, hmembers, hnames, hreadable⟩ := exists_toJson_eq_object hchange
  rw [hmembers]
  exact .object hnames hreadable

/-- Changes are read back from the body in which they are sent. -/
theorem listOfText_body {changes : List Change}
    (hchanges : ∀ change ∈ changes, change.Readable (Json.maxDepth - 2)) :
    listOfText (Batch.body changes) = .ok changes := by
  have hread : List.Forall₂ (Json.TakesText (read (Json.maxDepth - 2)))
      ((changes.map toJson).map Json.text) changes := by
    rw [List.map_map, List.forall₂_map_left_iff, List.forall₂_same]
    exact fun change hchange => takesText_read_toJson (hchanges change hchange)
  have hstarts : ∀ text ∈ (changes.map toJson).map Json.text, Json.StartsItem text := by
    rw [List.map_map, List.forall_mem_map]
    intro change hchange
    exact (Json.isTextOf_text (readable_toJson (hchanges change hchange))).startsItem
  have harray := Json.takesText_readListOf (Json.enclosed_text_array (changes.map toJson)) hread
    hstarts [] [] .nil Stops.nil
  rw [List.nil_append, List.append_nil] at harray
  rw [listOfText, Json.readWhole_eq_ok_iff, Batch.body, Json.compact, String.toList_ofList]
  exact ⟨[], harray, rfl⟩

/-- The body in which changes are sent is read as an array of their JSON objects, which is two
containers deeper than their fields. -/
theorem readWhole_body {depth : Nat} {changes : List Change}
    (hchanges : ∀ change ∈ changes, change.Readable depth) :
    Json.readWhole (Json.readValue (depth + 2)) (Batch.body changes) =
      .ok (.array (changes.map toJson)) := by
  have hitems : ∀ item ∈ changes.map toJson, Json.Readable (depth + 1) item := by
    intro item hitem
    obtain ⟨change, hchange, rfl⟩ := List.mem_map.mp hitem
    exact readable_toJson (hchanges change hchange)
  exact Json.readWhole_compact (.array hitems)

/-- The body in which changes are sent is an array of their JSON objects. -/
theorem parse_body {changes : List Change}
    (hchanges : ∀ change ∈ changes, change.Readable (Json.maxDepth - 2)) :
    Json.parse (Batch.body changes) = .ok (.array (changes.map toJson)) :=
  readWhole_body hchanges

/-- A live client sends changes in one body, whatever comes back for it. The body is an array with
an object for each change, that of a deletion without a language and without fields. Read as a
list of changes it gives the changes that were sent, in their order and with all that is in
them. -/
theorem submitBatch_sends_changes {settings : Settings} {url : String}
    (hlive : settings.mode = .live) (hurl : settings.batchUrl? = some url) {σ : Type}
    (transport : Transport σ) (state : σ) (now : Int64) (changes : List Change)
    (hchanges : ∀ change ∈ changes, change.Readable (Json.maxDepth - 2)) :
    ∃ (body : String) (items : List Json),
      (Client.perform settings transport state now (.submitBatch changes)).1.sent =
        [.post url body] ∧
      listOfText body = .ok changes ∧
      Json.parse body = .ok (.array items) ∧ items.length = changes.length ∧
      (∀ (i : Nat) (id : String) (version : Int64), changes[i]? = some (Change.delete id version) →
        ∃ members : Json.Members, items[i]? = some (Json.object members) ∧
          "lang" ∉ members.map Prod.fst ∧ "fields" ∉ members.map Prod.fst) ∧
      (changes = [] → body = "[]") := by
  obtain ⟨domain, hdomain, -⟩ := Option.map_eq_some_iff.mp hurl
  obtain ⟨endpoint, -, hendpoint, -⟩ := Settings.exists_addresses hdomain
  refine ⟨Batch.body changes, changes.map toJson, ?_, listOfText_body hchanges,
    parse_body hchanges, List.length_map _, ?_, ?_⟩
  · exact Client.sent_perform (Settings.isSandbox_eq_false_iff.mpr hlive) hendpoint hurl transport
      state now (.submitBatch changes)
  · intro i id version hi
    exact ⟨_, by rw [List.getElem?_map, hi]; rfl, by simp, by simp⟩
  · rintro rfl
    rfl

/-- A quote in an identifier, a field named as the member that holds the type, a nested value and
the least version are read back. -/
theorem submitBatch_sends_changes_of_nested :
    ∃ body,
      (Client.perform { searchDomain := some "donuts", mode := .live }
          (fun state _ => (.failure "timed out", state)) () 0
          (.submitBatch
            [.add "a\"b" (-5) "en" [("type", .array [.null, .object [("id", .string "")]])],
             .delete "7" Int64.minValue])).1.sent =
        [.post "http://doc-donuts.us-east-1.cloudsearch.amazonaws.com/2013-01-01/documents/batch"
          body] ∧
      listOfText body =
        .ok [.add "a\"b" (-5) "en" [("type", .array [.null, .object [("id", .string "")]])],
          .delete "7" Int64.minValue] := by
  have hfields (depth : Nat) : Json.Readable (depth + 3)
      (.object [("type", .array [.null, .object [("id", .string "")]])]) := by
    have hnull : Json.Readable (depth + 1) .null := .scalar ⟨by simp, by simp⟩
    have hstring : Json.Readable depth (.string "") := .scalar ⟨by simp, by simp⟩
    refine .object (by simp) (List.forall_mem_singleton.mpr (.array ?_))
    simp only [List.forall_mem_cons]
    exact ⟨hnull, .object (by simp) (List.forall_mem_singleton.mpr hstring), by simp⟩
  obtain ⟨body, -, hsent, hread, -⟩ := submitBatch_sends_changes
    (rfl : Settings.mode { searchDomain := some "donuts", mode := .live } = .live) rfl
    (fun state _ => (.failure "timed out", state)) () 0
    [.add "a\"b" (-5) "en" [("type", .array [.null, .object [("id", .string "")]])],
      .delete "7" Int64.minValue]
    (by
      simp only [List.forall_mem_cons]
      exact ⟨hfields 122, trivial, by simp⟩)
  exact ⟨body, hsent, hread⟩

end Change

end HostedSearch
