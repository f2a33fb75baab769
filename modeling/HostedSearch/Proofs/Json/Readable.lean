import HostedSearch.Proofs.Json.ValueText

/-!
# What is read is readable

A reader of values that allows containers to nest to some depth gives only values that keep to that
depth and repeat no name: a repeated member is merged with the earlier one while it is read. So what
has been read is written and read again without loss.
-/

namespace HostedSearch

namespace Json

/-- Members that repeat no name and have at most `depth` containers nested in each value. -/
structure ReadableMembers (depth : Nat) (members : Members) : Prop where
  nodup : (members.map Prod.fst).Nodup
  readable : ∀ m ∈ members, Readable depth m.2

/-- A member keeps to the depth that its value is read with. -/
theorem ReadableMembers.of_readMember {depth : Nat}
    (hvalue : ∀ cs v rest, readValue depth cs = .ok (v, rest) → Readable depth v)
    {members last : Members} (hmembers : ReadableMembers depth members) {name : String}
    {cs rest : List Char} (h : readMember (readValue depth) members name cs = .ok (last, rest)) :
    ReadableMembers depth last := by
  obtain ⟨cs', v, -, hread, rfl⟩ := readMember_eq_ok_iff.mp h
  exact ⟨Association.nodup_set hmembers.nodup name v,
    Association.forall_mem_set hmembers.readable (hvalue cs' v rest hread)⟩

/-- What is read as a value is readable to the same depth. -/
theorem readable_of_readValue {depth : Nat} {cs rest : List Char} {v : Json}
    (h : readValue depth cs = .ok (v, rest)) : Readable depth v := by
  induction depth generalizing cs v rest with
  | zero => exact .scalar (isScalar_of_readScalar (readValue_zero_eq_ok_iff.mp h).2)
  | succ depth ih =>
    have hvalue (cs : List Char) (v : Json) (rest : List Char)
        (h : readValue depth cs = .ok (v, rest)) : Readable depth v := ih h
    obtain ⟨cs', items, -, hitems, rfl⟩ | ⟨cs', members, -, hmembers, rfl⟩ | ⟨-, hscalar⟩ :=
      readValue_succ_eq_ok_iff.mp h
    · exact .array (forall_mem_of_readArray hvalue hitems)
    · have hstart : ReadableMembers depth [] := ⟨List.nodup_nil, by simp⟩
      have hreadable : ReadableMembers depth members :=
        of_readObject _ (fun _ _ _ _ _ hstate hnext => hstate.of_readMember hvalue hnext) hstart
          hmembers
      exact .object hreadable.nodup hreadable.readable
    · exact .scalar (isScalar_of_readScalar hscalar)

/-- The members of a readable object repeat no name. -/
theorem Readable.nodup_names {depth : Nat} {members : Members}
    (h : Readable depth (.object members)) : (members.map Prod.fst).Nodup := by
  cases h with
  | scalar hscalar => exact absurd rfl (hscalar.2 members)
  | object hnames _ => exact hnames

/-- The value of a text is readable. -/
theorem readable_of_parse {text : String} {v : Json} (h : parse text = .ok v) :
    Readable maxDepth v := by
  obtain ⟨rest, hread, -⟩ := readWhole_eq_ok_iff.mp h
  exact readable_of_readValue hread

end Json

end HostedSearch
