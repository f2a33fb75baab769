import HostedSearch.Document.Fields
import HostedSearch.Proofs.Association
import Mathlib.Data.Finset.Card
import Mathlib.Data.Finset.Dedup

/-!
# Fields as an ordered map

Whatever fields are begun with, and whatever is inserted into them one after the other, they are
the association of all that was ever inserted. So there is one field for each name that was given,
in the order in which the names first came, with the value that came last for it. The object in
which the service takes the fields has the same names in the same order, and no two of its members
fall together.
-/

namespace HostedSearch

namespace Fields

/-- What fields are begun with. -/
inductive Beginning where
  | nothing
  /-- Names and values, inserted one by one. -/
  | pairs (entries : List (String × FieldValue))
  /-- The members of a JSON object. -/
  | object (members : Json.Members)

namespace Beginning

/-- The fields at the beginning. -/
def fields : Beginning → Fields
  | nothing => empty
  | pairs entries => ofList entries
  | object members => ofMembers members

/-- The names and values that the beginning stands for. -/
def entries : Beginning → List (String × FieldValue)
  | nothing => []
  | pairs entries => entries
  | object members => members.map fun (name, value) => (name, .json value)

end Beginning

/-- The fields after further names and values have been inserted one by one. -/
def insertAll (fields : Fields) (entries : List (String × FieldValue)) : Fields :=
  entries.foldl (fun fields (name, value) => fields.insert name value) fields

/-- Inserting behind the association of a list gives the association of the longer list. -/
theorem entries_insertAll {fields : Fields} {before : List (String × FieldValue)}
    (hfields : fields.entries = Association.ofList before) (entries : List (String × FieldValue)) :
    (fields.insertAll entries).entries = Association.ofList (before ++ entries) := by
  induction entries generalizing fields before with
  | nil => rw [List.append_nil, ← hfields, insertAll, List.foldl_nil]
  | cons entry entries ih =>
    have hstep : (fields.insert entry.1 entry.2).entries =
        Association.ofList (before ++ [entry]) := by
      rw [Association.ofList_append_singleton, ← hfields]
      rfl
    have happend : before ++ entry :: entries = before ++ [entry] ++ entries := by simp
    rw [happend, ← ih hstep]
    rfl

/-- Fields are begun as the association of what they are begun with. -/
theorem entries_beginning (beginning : Beginning) :
    beginning.fields.entries = Association.ofList beginning.entries := by
  have hempty : empty.entries = Association.ofList [] := rfl
  cases beginning with
  | nothing => exact hempty
  | pairs entries => exact entries_insertAll hempty entries
  | object members => exact entries_insertAll hempty _

/-- Fields never get two of one name. -/
theorem nodup_names_insertAll (beginning : Beginning) (steps : List (String × FieldValue)) :
    (beginning.fields.insertAll steps).names.Nodup := by
  rw [names, entries_insertAll (entries_beginning beginning) steps]
  exact Association.nodup_ofList _

/-- The members of an object that repeats no name become the fields one by one. -/
theorem entries_ofMembers {members : Json.Members} (hnames : (members.map Prod.fst).Nodup) :
    (ofMembers members).entries = members.map fun (name, value) => (name, .json value) := by
  apply (entries_beginning (.object members)).trans
  apply Association.ofList_of_nodup
  rw [Beginning.entries, List.map_map]
  exact hnames

/-- Fields with distinct names go out one by one. -/
theorem normalize_of_nodup {fields : Fields} (h : fields.names.Nodup) :
    fields.normalize = fields.entries.map fun (name, value) => (name, value.normalize) := by
  apply Association.ofList_of_nodup
  rw [List.map_map]
  exact h

/-- Fields are an ordered map of everything that was ever inserted into them. Their names are
distinct and stand in the order in which they first came, a name has the value that came last for
it, and there are as many fields as distinct names. A further insertion leaves the fields of other
names as and where they are. The object in which the service takes the fields has exactly these
names in this order, each with the normal form of its value. -/
theorem insertAll_is_ordered_map (beginning : Beginning) (steps : List (String × FieldValue)) :
    let history := beginning.entries ++ steps
    let fields := beginning.fields.insertAll steps
    fields.names.Nodup ∧
      fields.names = (history.map Prod.fst).eraseDups ∧
      (∀ name, fields.value? name =
        (history.filter fun entry => entry.1 = name).getLast?.map Prod.snd) ∧
      (∀ name, fields.value? name = none ↔ name ∉ history.map Prod.fst) ∧
      fields.size = (history.map Prod.fst).toFinset.card ∧
      (∀ (name : String) (value : FieldValue) (i : Nat) (n : String) (v : FieldValue), n ≠ name →
        ((fields.insert name value).entries[i]? = some (n, v) ↔
          fields.entries[i]? = some (n, v))) ∧
      fields.normalize = fields.entries.map fun (name, value) => (name, value.normalize) := by
  intro history fields
  have hentries : fields.entries = Association.ofList history :=
    entries_insertAll (entries_beginning beginning) steps
  have hnames : fields.names = (history.map Prod.fst).eraseDups := by
    rw [names, hentries, Association.map_fst_ofList]
  have hnodup : fields.names.Nodup := by
    rw [names, hentries]
    exact Association.nodup_ofList history
  have hvalue (name : String) : fields.value? name =
      (history.filter fun entry => entry.1 = name).getLast?.map Prod.snd := by
    rw [value?, hentries, Association.lookup_ofList]
  refine ⟨hnodup, hnames, hvalue, fun name => ?_, ?_, ?_, normalize_of_nodup hnodup⟩
  · rw [hvalue, Option.map_eq_none_iff, List.getLast?_eq_none_iff, List.filter_eq_nil_iff]
    constructor
    · intro hother hmem
      obtain ⟨entry, hentry, hname⟩ := List.mem_map.mp hmem
      exact hother entry hentry (decide_eq_true hname)
    · intro hmem entry hentry hname
      exact hmem (List.mem_map.mpr ⟨entry, hentry, of_decide_eq_true hname⟩)
  · have hset : (history.map Prod.fst).toFinset = fields.names.toFinset := by
      ext name
      rw [hnames, List.mem_toFinset, List.mem_toFinset, List.mem_eraseDups]
    rw [hset, List.toFinset_card_of_nodup hnodup, names, List.length_map]
    rfl
  · intro name value i n v hn
    exact Association.getElem?_set_eq_some_iff hn value v fields.entries i

/-- A name that is given again keeps its place and takes the new value, and the field behind it
stays. -/
theorem insertAll_is_ordered_map_of_repetition :
    let beginning := Beginning.object [("name", .string "fritters"), ("price", .null)]
    let fields := beginning.fields.insertAll
      [("baked", .absent), ("name", .json (.string "crullers"))]
    "price" ≠ "name" ∧
      (∀ v, (fields.insert "name" .absent).entries[1]? = some ("price", v) ↔
        fields.entries[1]? = some ("price", v)) ∧
      fields.normalize =
        [("name", .string "crullers"), ("price", .string ""), ("baked", .string "")] := by
  obtain ⟨-, -, -, -, -, hinsert, hnormalize⟩ := insertAll_is_ordered_map
    (.object [("name", .string "fritters"), ("price", .null)])
    [("baked", .absent), ("name", .json (.string "crullers"))]
  refine ⟨by decide, fun v => hinsert "name" .absent 1 "price" v (by decide), ?_⟩
  rw [hnormalize]
  rfl

end Fields

end HostedSearch
