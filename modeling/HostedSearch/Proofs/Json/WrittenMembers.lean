import HostedSearch.Proofs.Association
import HostedSearch.Proofs.Json.Skipping

/-!
# Members as they are written

An object is written as a list of members, in which a name may be repeated and a value may be
well-formed without being a value: a number beyond range, a nest of containers that is too deep,
half a surrogate pair. The general reader of values merges repeated names, the last value taking
the place of the others, and refuses objects with members that are no values. What is written
says what any reader that looks only for certain members makes of an object.
-/

namespace HostedSearch

namespace Json

/-- The members of an object in the order in which they are written; what is well-formed but no
value is none. -/
abbrev WrittenMembers := List (String × Option Json)

/-- What is written under a name, in order. -/
def WrittenMembers.named (members : WrittenMembers) (name : String) : List (Option Json) :=
  (members.filter fun member => member.1 = name).map Prod.snd

/-- Set a member among those before it, if it is a value. -/
def setWritten (merged : Members) (member : String × Option Json) : Option Members :=
  member.2.map (Association.set member.1 · merged)

/-- The members of an object with no name repeated, the last value of each name in the place of
the first, if all of them are values. -/
def WrittenMembers.merge? (members : WrittenMembers) : Option Members :=
  members.foldlM setWritten []

/-- Pass over a value, and tell which value it is, if it is one. -/
def readLoosely (depth : Nat) : Reader (Option Json) := fun cs => do
  let (_, rest) ← skipValue cs
  return ((readValue depth cs).toOption.map Prod.fst, rest)

/-- A member, put behind those before it. -/
def readWrittenMember (depth : Nat) (members : WrittenMembers) (name : String) :
    Reader WrittenMembers := fun cs => do
  let cs ← takeColon cs
  let (value, cs) ← readLoosely depth cs
  return (members ++ [(name, value)], cs)

/-- The members of an object. -/
def readWrittenMembers (depth : Nat) : Reader WrittenMembers := fun cs =>
  match skipSpace cs with
  | '{' :: cs => readObject readString (readWrittenMember depth) [] cs
  | _ => .error .mismatched

/-- The members of the object that a text is. -/
def writtenMembers (text : String) : Except Fault WrittenMembers :=
  readWhole (readWrittenMembers (maxDepth - 1)) text

/-- A value read loosely is the value that is read. -/
theorem readLoosely_eq_some_iff {depth : Nat} {cs rest : List Char} {v : Json} :
    readLoosely depth cs = .ok (some v, rest) ↔ readValue depth cs = .ok (v, rest) := by
  simp only [readLoosely, bind_eq_ok, pure_eq_ok, Prod.exists, Prod.mk.injEq]
  constructor
  · rintro ⟨_, rest', hskip, hvalue, rfl⟩
    cases hread : readValue depth cs with
    | error fault => simp [hread, Except.toOption] at hvalue
    | ok read =>
      obtain ⟨v', rest''⟩ := read
      have hsame := (skipValue_of_readValue hread).symm.trans hskip
      simp only [hread, Except.toOption, Option.map_some, Option.some.injEq] at hvalue
      obtain ⟨-, rfl⟩ := Prod.mk.inj (Except.ok.inj hsame)
      rw [hvalue]
  · intro hread
    exact ⟨(), rest, skipValue_of_readValue hread, by simp [hread, Except.toOption], rfl⟩

/-- A member is written as a colon and a value. -/
theorem readWrittenMember_eq_ok_iff {depth : Nat} {members last : WrittenMembers} {name : String}
    {cs rest : List Char} :
    readWrittenMember depth members name cs = .ok (last, rest) ↔
      ∃ cs' value, takeColon cs = .ok cs' ∧ readLoosely depth cs' = .ok (value, rest) ∧
        last = members ++ [(name, value)] := by
  simp only [readWrittenMember, bind_eq_ok, pure_eq_ok, Prod.exists, Prod.mk.injEq]
  grind

/-- Members are read behind the brace that opens an object. -/
theorem readWrittenMembers_eq_ok_iff {depth : Nat} {members : WrittenMembers}
    {cs rest : List Char} :
    readWrittenMembers depth cs = .ok (members, rest) ↔
      ∃ cs', skipSpace cs = '{' :: cs' ∧
        readObject readString (readWrittenMember depth) [] cs' = .ok (members, rest) := by
  unfold readWrittenMembers
  split
  · next cs' hbrace => simp [hbrace]
  · next hother => simp only [reduceCtorEq, false_iff]; grind

/-- Members that are read are put behind those before them. -/
theorem eq_append_of_readMembers {depth bound : Nat} {members last : WrittenMembers}
    {cs rest : List Char}
    (h : readMembers readString (readWrittenMember depth) bound members cs = .ok (last, rest)) :
    ∃ more, last = members ++ more := by
  refine of_readMembers (fun last => ∃ more, last = members ++ more) ?_
    ⟨[], (List.append_nil members).symm⟩ h
  rintro _ n cs next rest ⟨more, rfl⟩ hnext
  obtain ⟨cs', value, -, -, rfl⟩ := readWrittenMember_eq_ok_iff.mp hnext
  exact ⟨more ++ [(n, value)], List.append_assoc members more _⟩

/-! ## What a reader makes of the members -/

section Fold

variable {σ : Type} {member : σ → String → Reader σ} {step : σ → String × Option Json → Option σ}
  {depth : Nat}

/-- The reader makes of a member what a step makes of it, as it is written. -/
def Follows (depth : Nat) (member : σ → String → Reader σ)
    (step : σ → String × Option Json → Option σ) : Prop :=
  ∀ state n cs next rest, member state n cs = .ok (next, rest) ↔
    ∃ cs' value, takeColon cs = .ok cs' ∧ readLoosely depth cs' = .ok (value, rest) ∧
      step state (n, value) = some next

/-- A reader that follows a step makes of the members what the steps make of them one after the
other. -/
theorem readMembers_eq_ok_iff_foldlM (hmember : Follows depth member step) {bound : Nat}
    {state last : σ} (before : WrittenMembers) {cs rest : List Char} :
    readMembers readString member bound state cs = .ok (last, rest) ↔
      ∃ members, readMembers readString (readWrittenMember depth) bound before cs =
        .ok (before ++ members, rest) ∧ members.foldlM step state = some last := by
  -- The members before are generalized along with the state: both grow by each member.
  induction bound generalizing state before cs with
  | zero => simp [readMembers]
  | succ bound ih =>
    constructor
    · intro h
      obtain ⟨cs₀, n, cs₁, next, cs₂, rfl, hn, hnext, hend⟩ := readMembers_succ_eq_ok_iff.mp h
      obtain ⟨cs', value, hcolon, hvalue, hstep⟩ := (hmember _ _ _ _ _).mp hnext
      have hwritten : readWrittenMember depth before n cs₁ = .ok (before ++ [(n, value)], cs₂) :=
        readWrittenMember_eq_ok_iff.mpr ⟨cs', value, hcolon, hvalue, rfl⟩
      obtain ⟨cs₃, hcomma, hothers⟩ | ⟨hbrace, rfl⟩ := hend
      · obtain ⟨members, hmembers, hfold⟩ := (ih (before ++ [(n, value)])).mp hothers
        rw [List.append_assoc] at hmembers
        refine ⟨(n, value) :: members, readMembers_succ_eq_ok_iff.mpr
          ⟨cs₀, n, cs₁, _, cs₂, rfl, hn, hwritten, .inl ⟨cs₃, hcomma, hmembers⟩⟩, ?_⟩
        rw [List.foldlM_cons, hstep]
        exact hfold
      · refine ⟨[(n, value)], readMembers_succ_eq_ok_iff.mpr
          ⟨cs₀, n, cs₁, _, cs₂, rfl, hn, hwritten, .inr ⟨hbrace, rfl⟩⟩, ?_⟩
        rw [List.foldlM_cons, hstep]
        rfl
    · rintro ⟨members, h, hfold⟩
      obtain ⟨cs₀, n, cs₁, next, cs₂, rfl, hn, hnext, hend⟩ := readMembers_succ_eq_ok_iff.mp h
      obtain ⟨cs', value, hcolon, hvalue, rfl⟩ := readWrittenMember_eq_ok_iff.mp hnext
      obtain ⟨cs₃, hcomma, hothers⟩ | ⟨hbrace, hlast⟩ := hend
      · obtain ⟨more, hmore⟩ := eq_append_of_readMembers hothers
        obtain rfl : members = (n, value) :: more := by simpa using hmore
        rw [List.foldlM_cons] at hfold
        obtain ⟨next, hstep, hfold⟩ := Option.bind_eq_some_iff.mp hfold
        refine readMembers_succ_eq_ok_iff.mpr ⟨cs₀, n, cs₁, next, cs₂, rfl, hn,
          (hmember _ _ _ _ _).mpr ⟨cs', value, hcolon, hvalue, hstep⟩, .inl ⟨cs₃, hcomma, ?_⟩⟩
        exact (ih (before ++ [(n, value)])).mpr ⟨more, by rwa [hmore] at hothers, hfold⟩
      · obtain rfl : members = [(n, value)] := by simpa using hlast
        rw [List.foldlM_cons] at hfold
        obtain ⟨next, hstep, hfold⟩ := Option.bind_eq_some_iff.mp hfold
        obtain rfl : next = last := Option.some.inj hfold
        exact readMembers_succ_eq_ok_iff.mpr ⟨cs₀, n, cs₁, next, cs₂, rfl, hn,
          (hmember _ _ _ _ _).mpr ⟨cs', value, hcolon, hvalue, hstep⟩, .inr ⟨hbrace, rfl⟩⟩

/-- A reader that follows a step makes of an object what the steps make of its members one after
the other. -/
theorem readObject_eq_ok_iff_foldlM (hmember : Follows depth member step)
    {start last : σ} {cs rest : List Char} :
    readObject readString member start cs = .ok (last, rest) ↔
      ∃ members, readObject readString (readWrittenMember depth) [] cs = .ok (members, rest) ∧
        members.foldlM step start = some last := by
  simp only [readObject_eq_ok_iff, readMembers_eq_ok_iff_foldlM hmember []]
  constructor
  · rintro (⟨hbrace, rfl⟩ | ⟨members, hmembers, hfold⟩)
    · exact ⟨[], .inl ⟨hbrace, rfl⟩, rfl⟩
    · exact ⟨members, .inr hmembers, hfold⟩
  · rintro ⟨members, ⟨hbrace, rfl⟩ | hmembers, hfold⟩
    · obtain rfl : start = last := Option.some.inj hfold
      exact .inl ⟨hbrace, rfl⟩
    · exact .inr ⟨members, hmembers, hfold⟩

end Fold

/-! ## The general reader -/

/-- A member behind others is the last of its name. -/
theorem named_append_singleton (members : WrittenMembers) (member : String × Option Json)
    (name : String) :
    WrittenMembers.named (members ++ [member]) name =
      if member.1 = name then members.named name ++ [member.2] else members.named name := by
  by_cases h : member.1 = name <;> simp [WrittenMembers.named, h]

/-- Members can be merged only if all are values; what is found under a name is the last value
written there. -/
theorem value?_of_merge?_eq_some {written : WrittenMembers} {members : Members}
    (h : written.merge? = some members) :
    (∀ name, none ∉ written.named name) ∧
      ∀ name, members.value? name = (written.named name).getLast?.join := by
  induction written using List.reverseRecOn generalizing members with
  | nil =>
    obtain rfl : [] = members := Option.some.inj h
    exact ⟨fun name => by simp [WrittenMembers.named], fun name => rfl⟩
  | append_singleton written member ih =>
    obtain ⟨n, value⟩ := member
    rw [WrittenMembers.merge?, List.foldlM_append] at h
    obtain ⟨merged, hmerged, h⟩ := Option.bind_eq_some_iff.mp h
    obtain ⟨v, rfl, rfl⟩ : ∃ v, value = some v ∧ Association.set n v merged = members := by
      simpa [setWritten] using h
    obtain ⟨hvalues, hfound⟩ := ih hmerged
    refine ⟨fun name => ?_, fun name => ?_⟩
    · rw [named_append_singleton]
      split
      · simpa using hvalues name
      · exact hvalues name
    · rw [Members.value?, Association.lookup_set, named_append_singleton]
      by_cases hname : name = n
      · simp [hname]
      · rw [if_neg hname, if_neg (Ne.symm hname)]
        exact hfound name

/-- The general reader sets a member among those before it. -/
theorem follows_readMember (depth : Nat) :
    Follows depth (readMember (readValue depth)) setWritten := by
  intro members n cs next rest
  rw [readMember_eq_ok_iff]
  constructor
  · rintro ⟨cs', v, hcolon, hv, rfl⟩
    exact ⟨cs', some v, hcolon, readLoosely_eq_some_iff.mpr hv, rfl⟩
  · rintro ⟨cs', value, hcolon, hvalue, hnext⟩
    obtain ⟨v, rfl, rfl⟩ := Option.map_eq_some_iff.mp hnext
    exact ⟨cs', v, hcolon, readLoosely_eq_some_iff.mp hvalue, rfl⟩

/-- A text is an object exactly when it is written with members that can be merged. -/
theorem parse_eq_object_iff {text : String} {members : Members} :
    parse text = .ok (.object members) ↔
      ∃ written, writtenMembers text = .ok written ∧ written.merge? = some members := by
  simp only [parse, writtenMembers, readWhole_eq_ok_iff, readWrittenMembers_eq_ok_iff]
  constructor
  · rintro ⟨rest, hread, hend⟩
    obtain ⟨cs', hopen, hread⟩ := readValue_eq_object_iff.mp hread
    obtain ⟨written, hwritten, hmerge⟩ :=
      (readObject_eq_ok_iff_foldlM (follows_readMember (maxDepth - 1))).mp hread
    exact ⟨written, ⟨rest, ⟨cs', hopen, hwritten⟩, hend⟩, hmerge⟩
  · rintro ⟨written, ⟨rest, ⟨cs', hopen, hwritten⟩, hend⟩, hmerge⟩
    have hread := (readObject_eq_ok_iff_foldlM (follows_readMember (maxDepth - 1))).mpr
      ⟨written, hwritten, hmerge⟩
    exact ⟨rest, readValue_eq_object_iff.mpr ⟨cs', hopen, hread⟩, hend⟩

end Json

end HostedSearch
