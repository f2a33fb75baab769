import HostedSearch.Proofs.Document.Batch
import HostedSearch.Proofs.Document.Fields

/-!
# The form in which fields are sent

A field that is given in JSON is sent as its value is, but for a null, which is sent as an empty
text. So an object is sent as it is when it repeats no name and no null stands directly in it, and
only then. What has once been put into the form of the service is such an object: dates and moments
have become numbers, and nulls have become texts. Fields that are read from a batch and added again
are therefore sent unchanged.
-/

namespace HostedSearch

/-- A value as a field is sent: an empty text for null, any other value as it is. -/
def Json.orEmptyText : Json → Json
  | .null => .string ""
  | value => value

/-- The members of an object as fields are sent. -/
def Json.Members.orEmptyTexts (members : Json.Members) : Json.Members :=
  members.map fun (name, value) => (name, value.orEmptyText)

/-- Sending a value for a field nests no containers and repeats no name. -/
theorem Json.Readable.orEmptyText {depth : Nat} {v : Json} (h : Json.Readable depth v) :
    Json.Readable depth v.orEmptyText := by
  cases v with
  | null => exact .scalar ⟨by simp [Json.orEmptyText], by simp [Json.orEmptyText]⟩
  | _ => exact h

/-- The fields are sent under the names of the members. -/
theorem Json.Members.map_fst_orEmptyTexts (members : Json.Members) :
    members.orEmptyTexts.map Prod.fst = members.map Prod.fst := by
  rw [orEmptyTexts, List.map_map]
  rfl

/-- What is sent for the members of a readable object is a readable object. -/
theorem Json.Readable.orEmptyTexts {depth : Nat} {members : Json.Members}
    (h : Json.Readable depth (.object members)) :
    Json.Readable depth (.object members.orEmptyTexts) := by
  cases h with
  | scalar hscalar => exact absurd rfl (hscalar.2 members)
  | object hnames hmembers =>
    refine .object (by rwa [Json.Members.map_fst_orEmptyTexts]) fun m hm => ?_
    obtain ⟨member, hmember, rfl⟩ := List.mem_map.mp hm
    exact (hmembers member hmember).orEmptyText

/-- Any value but null is sent as it is. -/
theorem Json.orEmptyText_eq_self {v : Json} (h : v ≠ .null) : v.orEmptyText = v := by
  cases v with
  | null => exact absurd rfl h
  | _ => rfl

/-- Members without a null among them are sent as they are. -/
theorem Json.Members.orEmptyTexts_eq_self {members : Json.Members}
    (h : ∀ m ∈ members, m.2 ≠ .null) : members.orEmptyTexts = members := by
  calc
    members.orEmptyTexts = members.map id := List.map_congr_left fun m hm =>
      congrArg (Prod.mk m.1) (Json.orEmptyText_eq_self (h m hm))
    _ = members := List.map_id members

/-- A field given in JSON is sent as its value is. -/
theorem FieldValue.normalize_json (value : Json) :
    (FieldValue.json value).normalize = value.orEmptyText := by
  cases value <;> rfl

/-- Nothing is sent as null. -/
theorem FieldValue.normalize_ne_null (value : FieldValue) : value.normalize ≠ .null := by
  cases value with
  | json value => cases value <;> simp [normalize]
  | _ => simp [normalize, Json.int64]

namespace Fields

/-- The fields that members without repeated names give are sent in the form of those members. -/
theorem normalize_ofMembers {members : Json.Members} (hnames : (members.map Prod.fst).Nodup) :
    (ofMembers members).normalize = members.orEmptyTexts := by
  have hentries := entries_ofMembers hnames
  have hnodup : (ofMembers members).names.Nodup := by
    rw [names, hentries, List.map_map]
    exact hnames
  rw [normalize_of_nodup hnodup, hentries, List.map_map]
  exact List.map_congr_left fun m _ => congrArg (Prod.mk m.1) (FieldValue.normalize_json m.2)

/-- Fields are sent under distinct names. -/
theorem nodup_normalize (fields : Fields) : (fields.normalize.map Prod.fst).Nodup :=
  Association.nodup_ofList _

/-- No field is sent as null. -/
theorem ne_null_of_mem_normalize (fields : Fields) : ∀ m ∈ fields.normalize, m.2 ≠ .null := by
  apply Association.forall_mem_ofList (p := fun v => v ≠ Json.null)
  rw [List.forall_mem_map]
  exact fun entry _ => entry.2.normalize_ne_null

/-- An object is sent as it is exactly when it repeats no name and holds no null directly. -/
theorem normalize_ofMembers_eq_iff {members : Json.Members} :
    (ofMembers members).normalize = members ↔
      (members.map Prod.fst).Nodup ∧ ∀ m ∈ members, m.2 ≠ .null := by
  constructor
  · intro h
    rw [← h]
    exact ⟨nodup_normalize _, ne_null_of_mem_normalize _⟩
  · rintro ⟨hnames, hnull⟩
    rw [normalize_ofMembers hnames, Json.Members.orEmptyTexts_eq_self hnull]

/-- What fields are sent as is sent as it is. -/
theorem normalize_ofMembers_normalize (fields : Fields) :
    (ofMembers fields.normalize).normalize = fields.normalize :=
  normalize_ofMembers_eq_iff.mpr ⟨fields.nodup_normalize, fields.ne_null_of_mem_normalize⟩

/-- Fields that are begun with what fields of distinct names are sent as have the same names in the
same order, each with the value that is sent. -/
theorem entries_ofMembers_normalize {fields : Fields} (hnames : fields.names.Nodup) :
    (ofMembers fields.normalize).entries =
      fields.entries.map fun entry => (entry.1, .json entry.2.normalize) := by
  rw [entries_ofMembers fields.nodup_normalize, normalize_of_nodup hnames, List.map_map]
  rfl

/-- What fields are sent as is stable, whatever they are begun with and whatever is inserted into
them. Fields that are begun with it have the same names in the same order, each with the value that
was sent, and they are sent as the same object. So when a batch with a record of such fields is read
as the list of its changes, and a document is added with the fields of the record that stands there,
the record that is sent is the one that was read, but for its version. -/
theorem normalize_is_stable (beginning : Beginning) (steps : List (String × FieldValue)) :
    let fields := beginning.fields.insertAll steps
    let again := ofMembers fields.normalize
    again.entries = fields.entries.map (fun entry => (entry.1, .json entry.2.normalize)) ∧
      again.normalize = fields.normalize ∧
      ∀ (settings : Settings) (url : String), settings.mode = .live →
        settings.batchUrl? = some url →
        ∀ {σ : Type} (transport : Transport σ) (state : σ) (now later : Int64)
          (changes : List Change) (i : Nat) (id : String) (version : Int64),
          (∀ change ∈ changes, change.Readable (Json.maxDepth - 2)) →
          changes[i]? = some (.ofFields id version fields) →
          ∃ (body : String) (read : List Change),
            (Client.perform settings transport state now (.submitBatch changes)).1.sent =
              [.post url body] ∧
            Change.listOfText body = .ok read ∧
            read[i]? = some (.add id version "en" fields.normalize) ∧
            (Client.perform settings transport state later (.addItem id again)).1.sent =
              [.post url (Batch.body [.add id later "en" fields.normalize])] := by
  intro fields again
  have hstable : again.normalize = fields.normalize := normalize_ofMembers_normalize fields
  refine ⟨entries_ofMembers_normalize (nodup_names_insertAll beginning steps), hstable, ?_⟩
  intro settings url hlive hurl σ transport state now later changes i id version hchanges hi
  obtain ⟨endpoint, hsent⟩ := Client.exists_sent_perform hlive hurl
  refine ⟨Batch.body changes, changes, hsent transport state now _,
    Change.listOfText_body hchanges, hi, ?_⟩
  have hrecord : Change.ofFields id later again = .add id later "en" fields.normalize := by
    rw [Change.ofFields, hstable, Change.defaultLanguage]
  rw [← hrecord]
  exact hsent transport state later _

/-- A null, a date and a moment are sent as a text and as numbers, while the null inside of an array
stays. Added again, all of them are sent as they were read. -/
theorem normalize_is_stable_of_every_kind :
    let beginning := Beginning.object [("name", .string "fritters"), ("stale", .null)]
    let fields := beginning.fields.insertAll
      [("baked", .date ⟨2013, 1, 1⟩), ("glazed", .moment ⟨⟨2013, 1, 1⟩, ⟨1, 0, 10, 0⟩, 3600⟩),
        ("name", .json (.array [.null]))]
    let members : Json.Members := [("name", .array [.null]), ("stale", .string ""),
      ("baked", .int64 1356998400), ("glazed", .int64 1356998410)]
    let perform := Client.perform { searchDomain := some "donuts", mode := .live }
      (fun state _ => (.failure "timed out", state)) ()
    ∃ body read,
      (perform 3 (.submitBatch [.delete "7" 1, .ofFields "42" 2 fields])).1.sent =
        [.post "http://doc-donuts.us-east-1.cloudsearch.amazonaws.com/2013-01-01/documents/batch"
          body] ∧
      Change.listOfText body = .ok read ∧ read[1]? = some (.add "42" 2 "en" members) ∧
      (perform 4 (.addItem "42" (ofMembers members))).1.sent =
        [.post "http://doc-donuts.us-east-1.cloudsearch.amazonaws.com/2013-01-01/documents/batch"
          (Batch.body [.add "42" 4 "en" members])] := by
  intro beginning fields members perform
  have hmembers : fields.normalize = members := rfl
  have hreadable : Json.Readable 125 (.object fields.normalize) := by
    have hnull : Json.Readable 123 .null := .scalar ⟨by simp, by simp⟩
    rw [hmembers]
    refine .object (by simp [members]) ?_
    simp only [members, List.forall_mem_cons]
    exact ⟨.array (List.forall_mem_singleton.mpr hnull), .scalar ⟨by simp, by simp⟩,
      .scalar ⟨by simp [Json.int64], by simp [Json.int64]⟩,
      .scalar ⟨by simp [Json.int64], by simp [Json.int64]⟩, by simp⟩
  obtain ⟨-, -, hsent⟩ := normalize_is_stable beginning
    [("baked", .date ⟨2013, 1, 1⟩), ("glazed", .moment ⟨⟨2013, 1, 1⟩, ⟨1, 0, 10, 0⟩, 3600⟩),
      ("name", .json (.array [.null]))]
  obtain ⟨body, read, hbody, hread, hrecord, hagain⟩ := hsent
    { searchDomain := some "donuts", mode := .live } _ rfl rfl
    (fun state _ => (.failure "timed out", state)) () 3 4
    [.delete "7" 1, .ofFields "42" 2 fields] 1 "42" 2
    (by
      simp only [List.forall_mem_cons]
      exact ⟨trivial, hreadable, by simp⟩) rfl
  exact ⟨body, read, hbody, hread, hrecord, hagain⟩

end Fields

end HostedSearch
