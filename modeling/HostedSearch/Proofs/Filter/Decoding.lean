import HostedSearch.Filter.Json
import HostedSearch.Proofs.Association
import HostedSearch.Proofs.Filter.Contribution
import HostedSearch.Proofs.Json.NumberText
import HostedSearch.Proofs.Number.IntegerText
import Mathlib.Data.List.Permutation
import Mathlib.Data.List.Perm.Subperm

/-!
# Which JSON values are filters

An object is a filter when each of its members is a clause. A member that is named like a group and
holds an object is the group of that object's members, so what decides is the members that are no
groups, at whatever depth they stand: each of them has to hold a constraint. The filter then has
one clause for each member, in the same order and in the same groups. When some members hold no
constraint, the first of them is the one that is reported, as if it stood alone.
-/

namespace HostedSearch

/-- The name of the members that hold groups of a kind. -/
def Junction.word : Junction → String
  | .allOf => "and"
  | .anyOf => "or"
  | .noneOf => "not"

namespace Filter

/-! ## Members -/

/-- The member is no group of clauses. -/
def IsLeaf (member : String × Json) : Prop :=
  ∀ (junction : Junction) (members : Json.Members), member ≠ (junction.word, .object members)

mutual

/-- The members that are no groups, among a member and those in its groups, in order. -/
def memberLeaves (name : String) : Json → Json.Members
  | .object members =>
    if name = "and" ∨ name = "or" ∨ name = "not" then leaves members else [(name, .object members)]
  | value => [(name, value)]

/-- The members that are no groups, among members and those in their groups, in order. -/
def leaves : List (String × Json) → Json.Members
  | [] => []
  | (name, value) :: members => memberLeaves name value ++ leaves members

end

/-- An item that a list constraint may have. -/
inductive IsItem : Json → Prop where
  | string (s : String) : IsItem (.string s)
  | number (n : Json.Number) : IsItem (.number n)
  | bool (b : Bool) : IsItem (.bool b)

/-- A value that constrains a field: null, a truth value, a number, a text that can be read as a
range or has not the form of one, an array of items, or an object of the two bounds of a range. -/
inductive IsConstraint : Json → Prop where
  | null : IsConstraint .null
  | bool (b : Bool) : IsConstraint (.bool b)
  | number (n : Json.Number) : IsConstraint (.number n)
  | string {s : String} {range : Option Range} (h : Range.ofText? s = .ok range) :
    IsConstraint (.string s)
  | array {items : List Json} (h : ∀ item ∈ items, IsItem item) : IsConstraint (.array items)
  | range {members : Json.Members} {low high : Int64}
    (h : members.Perm [("from", .int64 low), ("to", .int64 high)]) :
    IsConstraint (.object members)

/-- The clause that a member stands for: a group with a clause for each member of its object, in
order, or the constraint of the field that the member is named for. -/
inductive StandsFor : String × Json → Clause → Prop where
  | group (junction : Junction) {members : Json.Members} {clauses : List Clause}
    (h : List.Forall₂ StandsFor members clauses) :
    StandsFor (junction.word, .object members) (junction.clause clauses)
  | field {member : String × Json} {value : Constraint} (hleaf : IsLeaf member)
    (h : constraintOfJson member.1 member.2 = .ok value) : StandsFor member (.field member.1 value)

/-- A member is a group, or it is none. -/
theorem exists_group_or_isLeaf (member : String × Json) :
    (∃ (junction : Junction) (members : Json.Members), member = (junction.word, .object members)) ∨
      IsLeaf member := by
  by_cases h : ∃ (junction : Junction) (members : Json.Members),
      member = (junction.word, .object members)
  · exact .inl h
  · exact .inr fun junction members heq => h ⟨junction, members, heq⟩

/-- A leaf that holds an object has none of the names of groups. -/
theorem IsLeaf.name_ne {name : String} {members : Json.Members}
    (h : IsLeaf (name, .object members)) : name ≠ "and" ∧ name ≠ "or" ∧ name ≠ "not" := by
  refine ⟨?_, ?_, ?_⟩
  · rintro rfl
    exact h .allOf members rfl
  · rintro rfl
    exact h .anyOf members rfl
  · rintro rfl
    exact h .noneOf members rfl

/-- The leaves of a group are those of its members. -/
theorem memberLeaves_word (junction : Junction) (members : Json.Members) :
    memberLeaves junction.word (.object members) = leaves members := by
  rw [memberLeaves, if_pos]
  cases junction <;> simp [Junction.word]

/-- A leaf is its own only leaf. -/
theorem IsLeaf.memberLeaves_eq {member : String × Json} (h : IsLeaf member) :
    memberLeaves member.1 member.2 = [member] := by
  obtain ⟨name, value⟩ := member
  cases value with
  | object members =>
    have hname := h.name_ne
    rw [memberLeaves, if_neg (by simp [hname])]
  | _ => rfl

/-- The clause of a group has the clauses of its members. -/
theorem clauseOfMember_word (junction : Junction) (members : Json.Members) :
    clauseOfMember junction.word (.object members) = (ofMembers members).map junction.clause := by
  cases junction <;> rfl

/-- The clause of a leaf constrains the field of its name. -/
theorem IsLeaf.clauseOfMember_eq {member : String × Json} (h : IsLeaf member) :
    clauseOfMember member.1 member.2 =
      (constraintOfJson member.1 member.2).map (.field member.1) := by
  obtain ⟨name, value⟩ := member
  cases value with
  | object members =>
    obtain ⟨hand, hor, hnot⟩ := h.name_ne
    rw [clauseOfMember, if_neg hand, if_neg hor, if_neg hnot]
  | _ => rfl

/-! ## Constraints -/

/-- Only an integer has a signed 64-bit integer in it. -/
theorem eq_int64_of_toInt64? {value : Json} {n : Int64} (h : value.toInt64? = some n) :
    value = .int64 n := by
  cases value with
  | number m =>
    cases m with
    | whole i =>
      obtain ⟨i, hlower, hupper⟩ := i
      change int64OfInt? i = some n at h
      rw [int64OfInt?] at h
      split at h
      · next hfits =>
        obtain rfl := Option.some.inj h
        have hback : (Int64.ofInt i).toInt = i := FitsInt64.toInt_ofInt hfits
        simp [Json.int64, Json.Whole.ofInt64, hback]
      · cases h
    | decimal x => cases h
  | _ => cases h

/-- An object is a range exactly when its members are the two bounds, in either order. -/
theorem rangeOfMembers?_eq_some_iff {members : Json.Members} {low high : Int64} :
    rangeOfMembers? members = some ⟨low, high⟩ ↔
      members.Perm [("from", .int64 low), ("to", .int64 high)] := by
  constructor
  · intro h
    simp only [rangeOfMembers?, Option.bind_eq_bind, Option.bind_eq_some_iff,
      Option.ite_none_right_eq_some, Option.some.injEq, Range.mk.injEq] at h
    obtain ⟨lowValue, hlowValue, _, hlow, highValue, hhighValue, _, hhigh, hlength, rfl, rfl⟩ := h
    obtain rfl := eq_int64_of_toInt64? hlow
    obtain rfl := eq_int64_of_toInt64? hhigh
    -- The two bounds are different members, and there is room for no others.
    have hsubset := List.cons_subset.mpr ⟨Association.mem_of_lookup_eq_some hlowValue,
      List.cons_subset.mpr ⟨Association.mem_of_lookup_eq_some hhighValue, List.nil_subset _⟩⟩
    have hsubperm := List.subperm_of_subset (by simp) hsubset
    exact (hsubperm.perm_of_length_le hlength.le).symm
  · intro h
    obtain rfl | rfl := List.perm_pair.mp h <;>
      simp [rangeOfMembers?, Json.Members.value?, Json.toInt64?_int64, List.lookup_cons]

/-- All items of a list are read exactly when each of them is. -/
theorem exists_mapM_eq_ok_iff {ε α β : Type} {f : α → Except ε β} {items : List α} :
    (∃ values, items.mapM f = .ok values) ↔ ∀ item ∈ items, ∃ value, f item = .ok value := by
  induction items with
  | nil => exact ⟨fun _ => by simp, fun _ => ⟨[], rfl⟩⟩
  | cons item items ih =>
    rw [List.forall_mem_cons, ← ih]
    simp only [List.mapM_cons, Json.bind_eq_ok, Json.pure_eq_ok]
    constructor
    · rintro ⟨_, value, hvalue, values, hvalues, rfl⟩
      exact ⟨⟨value, hvalue⟩, values, hvalues⟩
    · rintro ⟨⟨value, hvalue⟩, values, hvalues⟩
      exact ⟨_, value, hvalue, values, hvalues, rfl⟩

/-- An item is read as a scalar exactly when a list may have it. -/
theorem exists_scalarOfJson_iff {field : String} {item : Json} :
    (∃ value, scalarOfJson field item = .ok value) ↔ IsItem item := by
  constructor
  · rintro ⟨value, h⟩
    cases item with
    | string s => exact .string s
    | number n => exact .number n
    | bool b => exact .bool b
    | _ => cases h
  · rintro (s | n | b)
    · exact ⟨_, rfl⟩
    · exact ⟨_, rfl⟩
    · exact ⟨_, rfl⟩

/-- A value is read as a constraint exactly when it constrains a field, whatever the field. -/
theorem exists_constraintOfJson_iff {field : String} {value : Json} :
    (∃ constraint, constraintOfJson field value = .ok constraint) ↔ IsConstraint value := by
  cases value with
  | null => exact ⟨fun _ => .null, fun _ => ⟨_, rfl⟩⟩
  | bool b => exact ⟨fun _ => .bool b, fun _ => ⟨_, rfl⟩⟩
  | number n => exact ⟨fun _ => .number n, fun _ => ⟨_, rfl⟩⟩
  | string s =>
    rw [constraintOfJson, constraintOfText]
    constructor
    · rintro ⟨constraint, h⟩
      cases hrange : Range.ofText? s with
      | error fault => simp [hrange] at h
      | ok range => exact .string hrange
    · rintro ⟨⟩
      next range h =>
        rw [h]
        cases range <;> exact ⟨_, rfl⟩
  | array items =>
    have hitems : (∀ item ∈ items, IsItem item) ↔
        ∃ values, items.mapM (scalarOfJson field) = .ok values := by
      rw [exists_mapM_eq_ok_iff]
      exact forall₂_congr fun item _ => exists_scalarOfJson_iff.symm
    rw [constraintOfJson]
    constructor
    · rintro ⟨constraint, h⟩
      cases hvalues : items.mapM (scalarOfJson field) with
      | error fault => simp [hvalues, Except.map] at h
      | ok values => exact .array (hitems.mpr ⟨values, hvalues⟩)
    · rintro ⟨⟩
      next h =>
        obtain ⟨values, hvalues⟩ := hitems.mp h
        exact ⟨.list values, by rw [hvalues]; rfl⟩
  | object members =>
    rw [constraintOfJson]
    constructor
    · rintro ⟨constraint, h⟩
      cases hrange : rangeOfMembers? members with
      | none => simp [hrange] at h
      | some range => exact .range (rangeOfMembers?_eq_some_iff.mp hrange)
    · rintro ⟨⟩
      next h => exact ⟨_, by rw [rangeOfMembers?_eq_some_iff.mpr h]⟩

/-- A value that is not read as a constraint is none. -/
theorem not_isConstraint_of_eq_error {field : String} {value : Json} {fault : Fault}
    (h : constraintOfJson field value = .error fault) : ¬ IsConstraint value := by
  intro hvalue
  obtain ⟨constraint, hconstraint⟩ : ∃ constraint, constraintOfJson field value = .ok constraint :=
    exists_constraintOfJson_iff.mpr hvalue
  cases hconstraint.symm.trans h

/-! ## Members as clauses -/

/-- What reading members as clauses comes to. -/
inductive Decoded (members : Json.Members) : Except Fault (List Clause) → Prop where
  /-- All leaves hold constraints, and each member has its clause. -/
  | ok {clauses : List Clause} (hleaves : ∀ leaf ∈ leaves members, IsConstraint leaf.2)
    (hclauses : List.Forall₂ StandsFor members clauses) : Decoded members (.ok clauses)
  /-- A leaf behind others that hold constraints is refused. -/
  | error {before after : Json.Members} {leaf : String × Json} {fault : Fault}
    (hleaves : leaves members = before ++ leaf :: after)
    (hbefore : ∀ leaf ∈ before, IsConstraint leaf.2) (hleaf : IsLeaf leaf)
    (hfault : constraintOfJson leaf.1 leaf.2 = .error fault) : Decoded members (.error fault)

/-- A leaf comes to the constraint that it holds. -/
theorem IsLeaf.decoded {member : String × Json} (h : IsLeaf member) :
    Decoded [member] ((clauseOfMember member.1 member.2).map fun clause => [clause]) := by
  have hleaves : leaves [member] = [member] := by
    rw [leaves, h.memberLeaves_eq]
    rfl
  rw [h.clauseOfMember_eq]
  cases hvalue : constraintOfJson member.1 member.2 with
  | ok value =>
    refine .ok ?_ (.cons (.field h hvalue) .nil)
    rw [hleaves]
    exact List.forall_mem_singleton.mpr (exists_constraintOfJson_iff.mp ⟨value, hvalue⟩)
  | error fault => exact .error (hleaves.trans (List.nil_append [member]).symm) (by simp) h hvalue

/-- A group comes to what its members come to. -/
theorem Decoded.group (junction : Junction) {members : Json.Members}
    {result : Except Fault (List Clause)} (h : Decoded members result) :
    Decoded [(junction.word, .object members)]
      ((result.map junction.clause).map fun clause => [clause]) := by
  have hleaves : leaves [(junction.word, .object members)] = leaves members := by
    rw [leaves, memberLeaves_word, leaves, List.append_nil]
  cases h with
  | ok hconstraints hclauses =>
    exact .ok (hleaves ▸ hconstraints) (.cons (.group junction hclauses) .nil)
  | error hsplit hbefore hleaf hfault => exact .error (hleaves.trans hsplit) hbefore hleaf hfault

/-- Members come to what the first comes to and the others come to behind it. -/
theorem Decoded.cons {member : String × Json} {members : Json.Members}
    {head : Except Fault Clause} {tail : Except Fault (List Clause)}
    (hhead : Decoded [member] (head.map fun clause => [clause])) (htail : Decoded members tail) :
    Decoded (member :: members) (do return (← head) :: (← tail)) := by
  have hleaves : leaves (member :: members) = leaves [member] ++ leaves members := by
    rw [leaves, leaves, leaves, List.append_nil]
  cases head with
  | error fault =>
    obtain ⟨⟩ := hhead
    next before after leaf hsplit hbefore hleaf hfault =>
      rw [hsplit, List.append_assoc, List.cons_append] at hleaves
      exact .error hleaves hbefore hleaf hfault
  | ok clause =>
    obtain ⟨hconstraints, hclauses⟩ := hhead
    cases htail with
    | ok hconstraints' hclauses' =>
      refine .ok ?_ (.cons (List.forall₂_cons.mp hclauses).1 hclauses')
      rw [hleaves]
      exact List.forall_mem_append.mpr ⟨hconstraints, hconstraints'⟩
    | error hsplit hbefore hleaf hfault =>
      rw [hsplit, ← List.append_assoc] at hleaves
      exact .error hleaves (List.forall_mem_append.mpr ⟨hconstraints, hbefore⟩) hleaf hfault

mutual

/-- A member comes to its clause, or to the refusal of its first leaf that holds no constraint. -/
theorem decoded_clauseOfMember (name : String) (value : Json) :
    Decoded [(name, value)] ((clauseOfMember name value).map fun clause => [clause]) := by
  cases value with
  | object members =>
    obtain ⟨junction, members', heq⟩ | hleaf := exists_group_or_isLeaf (name, .object members)
    · cases heq
      rw [clauseOfMember_word]
      exact (decoded_ofMembers members).group junction
    · exact hleaf.decoded
  | _ => exact IsLeaf.decoded fun junction members => by simp

/-- Members come to their clauses, or to the refusal of the first leaf that holds no constraint. -/
theorem decoded_ofMembers (members : Json.Members) : Decoded members (ofMembers members) := by
  cases members with
  | nil => exact .ok (by simp [leaves]) .nil
  | cons member members =>
    obtain ⟨name, value⟩ := member
    exact (decoded_clauseOfMember name value).cons (decoded_ofMembers members)

end

/-! ## The filter of a value -/

/-- Among members there is only one first that holds no constraint. -/
theorem eq_of_first_unconstrained {members before after before' after' : Json.Members}
    {leaf leaf' : String × Json} (h : members = before ++ leaf :: after)
    (hbefore : ∀ leaf ∈ before, IsConstraint leaf.2) (hleaf : ¬ IsConstraint leaf.2)
    (h' : members = before' ++ leaf' :: after')
    (hbefore' : ∀ leaf ∈ before', IsConstraint leaf.2) (hleaf' : ¬ IsConstraint leaf'.2) :
    leaf = leaf' := by
  classical
  have hfind : members.find? (fun leaf => ¬ IsConstraint leaf.2) = some leaf :=
    List.find?_eq_some_iff_append.mpr
      ⟨by simpa using hleaf, before, after, h, by simpa using hbefore⟩
  have hfind' : members.find? (fun leaf => ¬ IsConstraint leaf.2) = some leaf' :=
    List.find?_eq_some_iff_append.mpr
      ⟨by simpa using hleaf', before', after', h', by simpa using hbefore'⟩
  exact Option.some.inj (hfind.symm.trans hfind')

/-- A leaf that is refused is refused in the same way when it stands alone. -/
theorem IsLeaf.ofJson_eq_error_iff {leaf : String × Json} (h : IsLeaf leaf) {fault : Fault} :
    ofJson (.object [leaf]) = .error fault ↔ constraintOfJson leaf.1 leaf.2 = .error fault := by
  change ofMembers [leaf] = .error fault ↔ _
  rw [ofMembers, h.clauseOfMember_eq]
  cases constraintOfJson leaf.1 leaf.2 with
  | ok value => simp [ofMembers, Except.map, bind, Except.bind, pure, Except.pure]
  | error fault' => simp [Except.map, bind, Except.bind]

/-- Members are read exactly when all leaves hold constraints. -/
theorem exists_ofMembers_iff {members : Json.Members} :
    (∃ clauses, ofMembers members = .ok clauses) ↔
      ∀ leaf ∈ leaves members, IsConstraint leaf.2 := by
  have h := decoded_ofMembers members
  constructor
  · rintro ⟨clauses, hclauses⟩
    rw [hclauses] at h
    cases h with
    | ok hconstraints _ => exact hconstraints
  · intro hconstraints
    cases hresult : ofMembers members with
    | ok clauses => exact ⟨clauses, rfl⟩
    | error fault =>
      rw [hresult] at h
      cases h with
      | error hsplit _ _ hfault =>
        exact absurd (hconstraints _ (hsplit ▸ List.mem_append_right _ List.mem_cons_self))
          (not_isConstraint_of_eq_error hfault)

/-- Members that are read have their clauses, in order. -/
theorem forall₂_standsFor_of_ofMembers {members : Json.Members} {clauses : List Clause}
    (h : ofMembers members = .ok clauses) : List.Forall₂ StandsFor members clauses := by
  have hdecoded := decoded_ofMembers members
  rw [h] at hdecoded
  cases hdecoded with
  | ok _ hclauses => exact hclauses

/-- The first leaf that holds no constraint is reported as if it stood alone. -/
theorem ofMembers_eq_error_iff {members : Json.Members} {fault : Fault} :
    ofMembers members = .error fault ↔ ∃ before leaf after,
      leaves members = before ++ leaf :: after ∧ (∀ leaf ∈ before, IsConstraint leaf.2) ∧
        ¬ IsConstraint leaf.2 ∧ ofJson (.object [leaf]) = .error fault := by
  constructor
  · intro h
    have hdecoded := decoded_ofMembers members
    rw [h] at hdecoded
    obtain ⟨⟩ := hdecoded
    next before after leaf hsplit hbefore hleaf hfault =>
      exact ⟨before, leaf, after, hsplit, hbefore, not_isConstraint_of_eq_error hfault,
        hleaf.ofJson_eq_error_iff.mpr hfault⟩
  · rintro ⟨before, leaf, after, hsplit, hbefore, hleaf, hfault⟩
    have hdecoded := decoded_ofMembers members
    generalize hresult : ofMembers members = result at hdecoded
    obtain ⟨hconstraints, -⟩ | ⟨hsplit', hbefore', hleaf', hfault'⟩ := hdecoded
    · exact absurd (hconstraints leaf (hsplit ▸ List.mem_append_right _ List.mem_cons_self)) hleaf
    · -- The leaf that was refused is the one in question, and it is refused in one way only.
      obtain rfl := eq_of_first_unconstrained hsplit hbefore hleaf hsplit' hbefore'
        (not_isConstraint_of_eq_error hfault')
      cases hfault'.symm.trans (hleaf'.ofJson_eq_error_iff.mp hfault)
      rfl

/-- A value that is a filter is an object whose members are read. -/
theorem ofJson_eq_ok_iff {value : Json} {filter : Filter} :
    ofJson value = .ok filter ↔
      ∃ members, value = .object members ∧ ofMembers members = .ok filter := by
  cases value <;> simp [ofJson]

/-- A value that is no filter is no object, or an object whose members are not all read. -/
theorem ofJson_eq_error_iff {value : Json} {fault : Fault} :
    ofJson value = .error fault ↔
      ((∀ members, value ≠ .object members) ∧ fault = .notObject value) ∨
        ∃ members, value = .object members ∧ ofMembers members = .error fault := by
  cases value <;> simp [ofJson, eq_comm]

/-- A JSON value is a filter exactly when it is an object in which every member that is no group, at
any depth, holds a constraint. The filter has a clause for each member, in order and in the same
groups. Otherwise the value is reported if it is no object, and if it is one, the first member of
that kind that holds no constraint is reported as if it stood alone. -/
theorem ofJson_reads_members_in_order (value : Json) :
    ((∃ filter, ofJson value = .ok filter) ↔
      ∃ members, value = .object members ∧ ∀ leaf ∈ leaves members, IsConstraint leaf.2) ∧
    (∀ filter, ofJson value = .ok filter →
      ∃ members, value = .object members ∧ List.Forall₂ StandsFor members filter) ∧
    ∀ fault, ofJson value = .error fault ↔
      ((∀ members, value ≠ .object members) ∧ fault = .notObject value) ∨
      ∃ members before leaf after, value = .object members ∧
        leaves members = before ++ leaf :: after ∧ (∀ leaf ∈ before, IsConstraint leaf.2) ∧
        ¬ IsConstraint leaf.2 ∧ ofJson (.object [leaf]) = .error fault := by
  refine ⟨?_, fun filter h => ?_, fun fault => ?_⟩
  · simp only [ofJson_eq_ok_iff, ← exists_ofMembers_iff]
    exact ⟨fun ⟨filter, members, hvalue, h⟩ => ⟨members, hvalue, filter, h⟩,
      fun ⟨members, hvalue, filter, h⟩ => ⟨filter, members, hvalue, h⟩⟩
  · obtain ⟨members, hvalue, hclauses⟩ := ofJson_eq_ok_iff.mp h
    exact ⟨members, hvalue, forall₂_standsFor_of_ofMembers hclauses⟩
  · rw [ofJson_eq_error_iff]
    simp only [ofMembers_eq_error_iff, exists_and_left]

/-- An object of two bounds is a group under the name of one, and a range under any other. -/
example :
    ofJson (.object [("and", .object [("from", .int64 1), ("to", .int64 2)]),
      ("AND", .object [("from", .int64 1), ("to", .int64 2)])]) =
        .ok [.allOf [.field "from" (.integer 1), .field "to" (.integer 2)],
          .field "AND" (.range 1 2)] := by
  rfl

end Filter

end HostedSearch
