import HostedSearch.Association
import Mathlib.Data.List.Induction
import Mathlib.Data.List.Nodup

/-!
# Laws of ordered associations

Setting a name keeps the names apart and in order, and touches nothing but the value of that name.
So the association that a list of names and values gives has every name once, where the list has
it first, with the value that the list has for it last; a list without repeated names is that
association itself.
-/

namespace HostedSearch

namespace Association

variable {α : Type}

/-- Setting a name changes what is found under that name alone. -/
theorem lookup_set (name : String) (value : α) (members : List (String × α)) (n : String) :
    (set name value members).lookup n = if n = name then some value else members.lookup n := by
  induction members with
  | nil =>
    by_cases h : n = name <;> simp [set, h]
  | cons member members ih =>
    obtain ⟨m, v⟩ := member
    by_cases hm : m = name
    · subst hm
      by_cases h : n = m
      · simp [set, h]
      · simp [set, List.lookup_cons, h, beq_false_of_ne h]
    · by_cases h : n = m
      · subst h
        simp [set, hm]
      · simp [set, List.lookup_cons, hm, beq_false_of_ne h, ih]

/-- What is looked up by a name stands in the association with it. -/
theorem mem_of_lookup_eq_some {entries : List (String × α)} {name : String} {value : α}
    (h : entries.lookup name = some value) : (name, value) ∈ entries := by
  obtain ⟨before, behind, rfl, -⟩ := List.lookup_eq_some_iff.mp h
  exact List.mem_append_right before List.mem_cons_self

/-- A new name goes to the end. -/
theorem set_of_notMem {name : String} {members : List (String × α)}
    (hname : name ∉ members.map Prod.fst) (value : α) :
    set name value members = members ++ [(name, value)] := by
  induction members with
  | nil => rfl
  | cons member members ih =>
    obtain ⟨m, v⟩ := member
    rw [List.map_cons, List.mem_cons, not_or] at hname
    rw [set, if_neg (Ne.symm hname.1), ih hname.2]
    rfl

/-- A name that is present keeps its place. -/
theorem map_fst_set_of_mem {name : String} {members : List (String × α)}
    (hname : name ∈ members.map Prod.fst) (value : α) :
    (set name value members).map Prod.fst = members.map Prod.fst := by
  induction members with
  | nil => cases hname
  | cons member members ih =>
    obtain ⟨m, v⟩ := member
    rw [set]
    split
    · rfl
    · next hm =>
      have hmem : name ∈ members.map Prod.fst := by
        simpa [Ne.symm hm] using hname
      rw [List.map_cons, List.map_cons, ih hmem]

/-- Setting a name repeats none. -/
theorem nodup_set {members : List (String × α)} (h : (members.map Prod.fst).Nodup) (name : String)
    (value : α) : ((set name value members).map Prod.fst).Nodup := by
  by_cases hname : name ∈ members.map Prod.fst
  · rwa [map_fst_set_of_mem hname]
  · rw [set_of_notMem hname, List.map_append, List.map_singleton, ← List.concat_eq_append]
    exact h.concat hname

/-- What holds of the value that is set and of all values before holds of the values behind. -/
theorem forall_mem_set {p : α → Prop} {members : List (String × α)}
    (hmembers : ∀ m ∈ members, p m.2) {name : String} {value : α} (hvalue : p value) :
    ∀ m ∈ set name value members, p m.2 := by
  induction members with
  | nil => exact List.forall_mem_singleton.mpr hvalue
  | cons member members ih =>
    obtain ⟨n, v⟩ := member
    obtain ⟨hv, hmembers⟩ := List.forall_mem_cons.mp hmembers
    rw [set]
    split
    · exact List.forall_mem_cons.mpr ⟨hvalue, hmembers⟩
    · exact List.forall_mem_cons.mpr ⟨hv, ih hmembers⟩

/-- Setting a name leaves the members of other names where they are, and adds none. -/
theorem getElem?_set_eq_some_iff {name n : String} (hn : n ≠ name) (value v : α)
    (members : List (String × α)) (i : Nat) :
    (set name value members)[i]? = some (n, v) ↔ members[i]? = some (n, v) := by
  induction members generalizing i with
  | nil =>
    cases i with
    | zero => simp [set, hn.symm]
    | succ i => simp [set]
  | cons member members ih =>
    obtain ⟨m, w⟩ := member
    rw [set]
    split
    · next hm =>
      -- The first member has the name that is set, so it is not the one in question.
      subst hm
      cases i with
      | zero => simp [hn.symm]
      | succ i => rfl
    · cases i with
      | zero => rfl
      | succ i => exact ih i

/-! ## The association of a list -/

/-- One more name is set last. -/
theorem ofList_append_singleton (entries : List (String × α)) (entry : String × α) :
    ofList (entries ++ [entry]) = set entry.1 entry.2 (ofList entries) := by
  rw [ofList, List.foldl_append]
  rfl

/-- The association has every name once, in the order in which the names first come. -/
theorem map_fst_ofList (entries : List (String × α)) :
    (ofList entries).map Prod.fst = (entries.map Prod.fst).eraseDups := by
  induction entries using List.reverseRecOn with
  | nil => rfl
  | append_singleton entries entry ih =>
    rw [ofList_append_singleton, List.map_append, List.eraseDups_append, ← ih]
    by_cases hname : entry.1 ∈ (ofList entries).map Prod.fst
    · have hmem : entry.1 ∈ entries.map Prod.fst := by
        rwa [ih, List.mem_eraseDups] at hname
      rw [map_fst_set_of_mem hname]
      simp [List.removeAll, hmem]
    · have hmem : entry.1 ∉ entries.map Prod.fst := by
        rwa [ih, List.mem_eraseDups] at hname
      rw [set_of_notMem hname, List.map_append]
      simp [List.removeAll, hmem, List.eraseDups_cons]

/-- The association has every name once. -/
theorem nodup_ofList (entries : List (String × α)) : ((ofList entries).map Prod.fst).Nodup := by
  induction entries using List.reverseRecOn with
  | nil => exact List.nodup_nil
  | append_singleton entries entry ih =>
    rw [ofList_append_singleton]
    exact nodup_set ih entry.1 entry.2

/-- What is found under a name is the value that comes last for it. -/
theorem lookup_ofList (entries : List (String × α)) (name : String) :
    (ofList entries).lookup name =
      (entries.filter fun entry => entry.1 = name).getLast?.map Prod.snd := by
  induction entries using List.reverseRecOn with
  | nil => rfl
  | append_singleton entries entry ih =>
    rw [ofList_append_singleton, lookup_set, List.filter_append, ih]
    by_cases hname : name = entry.1
    · simp [hname]
    · simp [hname, Ne.symm hname]

/-- What holds of all values of a list holds of those of its association. -/
theorem forall_mem_ofList {p : α → Prop} {entries : List (String × α)}
    (h : ∀ m ∈ entries, p m.2) : ∀ m ∈ ofList entries, p m.2 := by
  induction entries using List.reverseRecOn with
  | nil => exact h
  | append_singleton entries entry ih =>
    obtain ⟨hentries, hentry⟩ := List.forall_mem_append.mp h
    rw [ofList_append_singleton]
    exact forall_mem_set (ih hentries) (hentry entry (List.mem_singleton_self entry))

/-- A list without repeated names is its own association. -/
theorem ofList_of_nodup {entries : List (String × α)} (h : (entries.map Prod.fst).Nodup) :
    ofList entries = entries := by
  induction entries using List.reverseRecOn with
  | nil => rfl
  | append_singleton entries entry ih =>
    rw [List.map_append, List.nodup_append] at h
    obtain ⟨hentries, -, hapart⟩ := h
    have hname : entry.1 ∉ entries.map Prod.fst := fun hmem =>
      hapart _ hmem _ (List.mem_singleton_self _) rfl
    rw [ofList_append_singleton, ih hentries, set_of_notMem hname]

end Association

end HostedSearch
