import HostedSearch.Client.Call
import HostedSearch.Proofs.Client.Reply

/-!
# Refused batches

A good answer refuses a batch when its body says so with the status `error`. A body is seen to say
so only if it writes the status once, and writes no errors or writes them once, as an array;
anything else about these two members lets the batch pass for accepted. What other members there
are does not matter, nor whether they are values.
-/

namespace HostedSearch

namespace Batch

/-- How many errors are listed, of values of which there may be at most one, an array. -/
def errorCount? : List (Option Json) → Option Nat
  | [] => some 0
  | [some (.array errors)] => some errors.length
  | _ => none

/-- A body refuses the batch with so many errors: as an object, or as an array of the fields. -/
def Refuses (body : String) (errors : Nat) : Prop :=
  (∃ members, Json.writtenMembers body = .ok members ∧
      members.named "status" = [some (.string "error")] ∧
      errorCount? (members.named "errors") = some errors) ∨
    ∃ others, Json.parse body = .ok (.array (.string "error" :: others)) ∧
      errorCount? (others.map some) = some errors

/-- How many errors are listed, whatever else there may be in their place. -/
def listedErrors : Option Json → Nat
  | some (.array errors) => errors.length
  | _ => 0

/-- A body announces that the batch is refused with so many errors: it is an object in which the
general reader finds the status `error`. -/
def Announces (body : String) (errors : Nat) : Prop :=
  ∃ members : Json.Members, Json.parse body = .ok (.object members) ∧
    members.value? "status" = some (.string "error") ∧
    listedErrors (members.value? "errors") = errors

/-- A body writes its status once, and its errors not at all or once, as an array. -/
def IsPlain (body : String) : Prop :=
  ∃ members, Json.writtenMembers body = .ok members ∧ (members.named "status").length = 1 ∧
    (errorCount? (members.named "errors")).isSome

/-- The status is accepted as `error` exactly when that is all that is written. -/
theorem exists_once?_optionalText?_iff {values : List (Option Json)} :
    (∃ status, once? optionalText? values = some status ∧ status.join = some "error") ↔
      values = [some (.string "error")] := by
  match values with
  | [] => simp [once?]
  | [none] => simp [once?]
  | [some v] => cases v <;> simp [once?, optionalText?]
  | _ :: _ :: _ => simp [once?]

/-- So many errors are accepted exactly when so many are listed. -/
theorem exists_once?_items?_iff {values : List (Option Json)} {n : Nat} :
    (∃ errors, once? items? values = some errors ∧ (errors.getD []).length = n) ↔
      errorCount? values = some n := by
  match values with
  | [] => simp [once?, errorCount?]
  | [none] => simp [once?, errorCount?]
  | [some v] => cases v <;> simp [once?, items?, errorCount?]
  | _ :: _ :: _ => simp [once?, errorCount?]

/-- The members of an object refuse the batch exactly when they are taken into a reply that does. -/
theorem exists_foldlM_take_iff {members : Json.WrittenMembers} {n : Nat} :
    (∃ draft : Draft, members.foldlM Draft.take {} = some draft ∧
        draft.status.join = some "error" ∧ (draft.errors.getD []).length = n) ↔
      members.named "status" = [some (.string "error")] ∧
        errorCount? (members.named "errors") = some n := by
  rw [← exists_once?_optionalText?_iff, ← exists_once?_items?_iff]
  constructor
  · rintro ⟨draft, hfold, herror, hlength⟩
    obtain ⟨hstatus, herrors⟩ := foldlM_take_eq_some_iff.mp hfold
    exact ⟨⟨draft.status, hstatus, herror⟩, draft.errors, herrors, hlength⟩
  · rintro ⟨⟨status, hstatus, herror⟩, errors, herrors, hlength⟩
    exact ⟨⟨status, errors⟩, foldlM_take_eq_some_iff.mpr ⟨hstatus, herrors⟩, herror, hlength⟩

/-- The items of an array refuse the batch exactly when they are a reply that does. -/
theorem exists_ofItems?_iff {items : List Json} {n : Nat} :
    (∃ draft : Draft, Draft.ofItems? items = some draft ∧
        draft.status.join = some "error" ∧ (draft.errors.getD []).length = n) ↔
      ∃ others, items = .string "error" :: others ∧
        errorCount? (others.map some) = some n := by
  match items with
  | [] => simp [Draft.ofItems?]
  | [v] =>
    have hmembers : Draft.ofItems? [v] = List.foldlM Draft.take {} [("status", some v)] := by
      simp [Draft.ofItems?, Draft.take]
    rw [hmembers, exists_foldlM_take_iff]
    simp [Json.WrittenMembers.named]
  | [v, w] =>
    have hmembers : Draft.ofItems? [v, w] =
        List.foldlM Draft.take {} [("status", some v), ("errors", some w)] := by
      simp [Draft.ofItems?, Draft.take]
    rw [hmembers, exists_foldlM_take_iff]
    simp [Json.WrittenMembers.named]
  | _ :: _ :: _ :: _ => simp [Draft.ofItems?, errorCount?]

/-- A blank text begins with no token that is not blank. -/
theorem isAllBlank_eq_false_of_skipSpace_eq_cons {cs rest : List Char} {c : Char}
    (hc : isBlank c = false) (h : Json.skipSpace cs = c :: rest) : isAllBlank cs = false := by
  have hmem : c ∈ cs := by
    have hsuffix : c :: rest <:+ cs := h ▸ List.dropWhile_suffix _
    exact hsuffix.subset List.mem_cons_self
  rw [isAllBlank, List.all_eq_false]
  exact ⟨c, hmem, by simp [hc]⟩

/-- A body that refuses the batch is not blank. -/
theorem Refuses.isAllBlank_eq_false {body : String} {n : Nat} (h : Refuses body n) :
    isAllBlank body.toList = false := by
  obtain ⟨members, hmembers, -⟩ | ⟨others, hitems, -⟩ := h
  · obtain ⟨rest, hread, -⟩ := Json.readWhole_eq_ok_iff.mp hmembers
    obtain ⟨cs, hopen, -⟩ := Json.readWrittenMembers_eq_ok_iff.mp hread
    exact isAllBlank_eq_false_of_skipSpace_eq_cons (by decide) hopen
  · obtain ⟨rest, hread, -⟩ := Json.readWhole_eq_ok_iff.mp hitems
    obtain ⟨cs, hopen, -⟩ := Json.readValue_eq_array_iff.mp hread
    exact isAllBlank_eq_false_of_skipSpace_eq_cons (by decide) hopen

/-- A reply that refuses the batch is what a refusing body stands for. -/
theorem exists_ofText_iff {body : String} {n : Nat} :
    (∃ reply, Reply.ofText body = .ok reply ∧
        reply.status = some "error" ∧ reply.errors.length = n) ↔ Refuses body n := by
  simp only [Reply.ofText_eq_ok_iff, Refuses, ← exists_foldlM_take_iff]
  constructor
  · rintro ⟨_, ⟨draft, hread, rfl⟩, herror, hlength⟩
    obtain ⟨members, hmembers, hfold⟩ | ⟨items, hitems, hdraft⟩ := hread
    · exact .inl ⟨members, hmembers, draft, hfold, herror, hlength⟩
    · obtain ⟨others, rfl, hcount⟩ := exists_ofItems?_iff.mp ⟨draft, hdraft, herror, hlength⟩
      exact .inr ⟨others, hitems, hcount⟩
  · rintro (⟨members, hmembers, draft, hfold, herror, hlength⟩ | ⟨others, hitems, hcount⟩)
    · exact ⟨_, ⟨draft, .inl ⟨members, hmembers, hfold⟩, rfl⟩, herror, hlength⟩
    · obtain ⟨draft, hdraft, herror, hlength⟩ := exists_ofItems?_iff.mpr ⟨others, rfl, hcount⟩
      exact ⟨_, ⟨draft, .inr ⟨_, hitems, hdraft⟩, rfl⟩, herror, hlength⟩

/-- The check of a body finds exactly the bodies that refuse the batch. -/
theorem rejection?_eq_some_iff {body : String} {n : Nat} :
    rejection? body = some n ↔ Refuses body n := by
  rw [← exists_ofText_iff]
  constructor
  · intro h
    unfold rejection? at h
    split at h
    · simp at h
    · split at h
      · next reply hread =>
        split at h
        · next hstatus => exact ⟨reply, hread, hstatus, Option.some.inj h⟩
        · simp at h
      · simp at h
  · intro h
    have hblank := (exists_ofText_iff.mp h).isAllBlank_eq_false
    obtain ⟨reply, hread, hstatus, hlength⟩ := h
    simp [rejection?, hblank, hread, hstatus, hlength]

/-- A good answer is handed on as it came, unless its body refuses the batch. -/
theorem result_okStatus (url reason body : String) :
    result url (.response ⟨okStatus, reason, body⟩) =
      (rejection? body).elim (.ok body) fun errors => .error (.batch errors body) := by
  cases h : rejection? body <;> simp [result, h]

/-! ## What is announced and what is refused -/

/-- The errors that are counted are those of the last value written. -/
theorem listedErrors_of_errorCount? {values : List (Option Json)} {n : Nat}
    (h : errorCount? values = some n) : listedErrors values.getLast?.join = n := by
  match values with
  | [] => simpa [errorCount?, listedErrors] using h
  | [none] => simp [errorCount?] at h
  | [some v] => cases v <;> simp_all [errorCount?, listedErrors]
  | _ :: _ :: _ => simp [errorCount?] at h

/-- An object that refuses the batch announces that. -/
theorem Refuses.announces_iff {body : String} {n : Nat} (h : Refuses body n) :
    Announces body n ↔ ∃ members, Json.parse body = .ok (.object members) := by
  constructor
  · rintro ⟨members, hparse, -⟩
    exact ⟨members, hparse⟩
  · rintro ⟨members, hparse⟩
    obtain ⟨written, hwritten, hstatus, hcount⟩ | ⟨others, hitems, -⟩ := h
    · obtain ⟨written', hwritten', hmerge⟩ := Json.parse_eq_object_iff.mp hparse
      obtain rfl : written = written' := Except.ok.inj (hwritten.symm.trans hwritten')
      obtain ⟨-, hfound⟩ := Json.value?_of_merge?_eq_some hmerge
      refine ⟨members, hparse, ?_, ?_⟩
      · rw [hfound, hstatus]
        rfl
      · rw [hfound, listedErrors_of_errorCount? hcount]
    · simp [hparse] at hitems

/-- A body that announces a refusal refuses the batch exactly when it is plain, and then with as
many errors. -/
theorem Announces.refuses_iff {body : String} {n : Nat} (h : Announces body n) :
    (Refuses body n ↔ IsPlain body) ∧ ∀ k, Refuses body k → k = n := by
  have hcount : ∀ k, Refuses body k → k = n := by
    intro k hrefuses
    obtain ⟨members, hparse, -, hlisted⟩ := h
    obtain ⟨members', hparse', -, hlisted'⟩ := hrefuses.announces_iff.mpr ⟨members, hparse⟩
    obtain rfl : members = members' := by simpa [hparse] using hparse'
    exact hlisted'.symm.trans hlisted
  refine ⟨⟨fun hrefuses => ?_, fun hplain => ?_⟩, hcount⟩
  · obtain ⟨members, hparse, -⟩ := h
    obtain ⟨written, hwritten, hstatus, herrors⟩ | ⟨others, hitems, -⟩ := hrefuses
    · exact ⟨written, hwritten, by rw [hstatus]; rfl, by rw [herrors]; rfl⟩
    · simp [hparse] at hitems
  · obtain ⟨members, hparse, herror, -⟩ := h
    obtain ⟨written, hwritten, hlength, hsome⟩ := hplain
    obtain ⟨written', hwritten', hmerge⟩ := Json.parse_eq_object_iff.mp hparse
    obtain rfl : written = written' := Except.ok.inj (hwritten.symm.trans hwritten')
    obtain ⟨-, hfound⟩ := Json.value?_of_merge?_eq_some hmerge
    obtain ⟨value, hvalue⟩ := List.length_eq_one_iff.mp hlength
    have hstatus : written.named "status" = [some (.string "error")] := by
      rw [hfound, hvalue] at herror
      rw [hvalue]
      simpa using herror
    obtain ⟨k, hk⟩ := Option.isSome_iff_exists.mp hsome
    have hrefuses : Refuses body k := .inl ⟨written, hwritten, hstatus, hk⟩
    rwa [← hcount k hrefuses]

end Batch

namespace Client

variable {σ : Type}

/-- Sending a batch comes to what is made of the answer. -/
theorem perform_submitBatch_result {settings : Settings} {url : String}
    (hlive : settings.mode = .live) (hurl : settings.batchUrl? = some url)
    (transport : Transport σ) (state : σ) (now : Int64) (changes : List Change) :
    (perform settings transport state now (.submitBatch changes)).1.result =
      ((Batch.result url (transport state (.post url (Batch.body changes))).1).mapError
        ClientError.update).map Outcome.body := by
  have hsandbox : settings.isSandbox = false := by simp [Settings.isSandbox, hlive]
  simp only [perform, Plan.ofCall, Plan.submit, hsandbox, hurl, Bool.false_eq_true, if_false,
    Plan.run]
  cases Batch.result url (transport state (.post url (Batch.body changes))).1 <;> rfl

/-- A live client with a search domain reports a batch as refused, with the body as it came and
the number of errors in it, exactly when the body refuses it, and else hands on the body. Of the
bodies that announce a refusal these are the plain ones; those that refuse without announcing it
are no objects for the general reader. -/
theorem submitBatch_refused_iff (settings : Settings) (transport : Transport σ) (state : σ)
    (now : Int64) (changes : List Change) (hlive : settings.mode = .live)
    (hdomain : settings.domain?.isSome) :
    ∃ url, settings.batchUrl? = some url ∧
      ∀ reason body, (transport state (.post url (Batch.body changes))).1 =
          .response ⟨okStatus, reason, body⟩ →
        (∀ n text, (perform settings transport state now (.submitBatch changes)).1.result =
            .error (.update (.batch n text)) ↔ text = body ∧ Batch.Refuses body n) ∧
          (∀ text, (perform settings transport state now (.submitBatch changes)).1.result =
            .ok (.body text) ↔ text = body ∧ ∀ n, ¬ Batch.Refuses body n) ∧
          (∀ n, Batch.Announces body n →
            (Batch.Refuses body n ↔ Batch.IsPlain body) ∧ ∀ k, Batch.Refuses body k → k = n) ∧
          ∀ n, Batch.Refuses body n →
            (Batch.Announces body n ↔ ∃ members, Json.parse body = .ok (.object members)) := by
  obtain ⟨domain, hdomain⟩ := Option.isSome_iff_exists.mp hdomain
  obtain ⟨url, hurl⟩ : ∃ url, settings.batchUrl? = some url := by simp [Settings.batchUrl?, hdomain]
  refine ⟨url, hurl, fun reason body hback => ⟨fun n text => ?_, fun text => ?_,
    fun n hannounces => hannounces.refuses_iff, fun n hrefuses => hrefuses.announces_iff⟩⟩
  · rw [perform_submitBatch_result hlive hurl, hback, Batch.result_okStatus,
      ← Batch.rejection?_eq_some_iff]
    cases Batch.rejection? body with
    | none => simp [Except.mapError, Except.map]
    | some errors => simp [Except.mapError, Except.map, and_comm, eq_comm]
  · rw [perform_submitBatch_result hlive hurl, hback, Batch.result_okStatus]
    simp only [← Batch.rejection?_eq_some_iff]
    cases Batch.rejection? body with
    | none => simp [Except.mapError, Except.map, eq_comm]
    | some errors => simp [Except.mapError, Except.map]

/-- A transport that answers whatever it is sent with a good answer of a certain body. -/
def answering (body : String) : Transport Unit :=
  fun state _ => (.response ⟨okStatus, "OK", body⟩, state)

/-- A body with one error in it refuses the batch. -/
theorem submitBatch_refused_iff_of_error :
    (perform { searchDomain := some "donuts", mode := .live }
      (answering "\x7b\"errors\": [\"bad id\"], \"status\": \"error\"\x7d") () 0
      (.submitBatch [])).1.result =
      .error (.update (.batch 1
        "\x7b\"errors\": [\"bad id\"], \"status\": \"error\"\x7d")) := by
  obtain ⟨url, -, hverdict⟩ := submitBatch_refused_iff
    { searchDomain := some "donuts", mode := .live } (answering _) () 0 [] rfl rfl
  obtain ⟨hrefused, -⟩ := hverdict "OK" _ rfl
  exact (hrefused 1 _).mpr ⟨rfl, .inl ⟨_, rfl, rfl, rfl⟩⟩

/-- A body that announces a refusal, but has null in the place of its errors, is let pass. -/
theorem announced_refusal_passes :
    Batch.Announces "\x7b\"status\": \"error\", \"errors\": null\x7d" 0 ∧
      (perform { searchDomain := some "donuts", mode := .live }
        (answering "\x7b\"status\": \"error\", \"errors\": null\x7d") () 0
        (.submitBatch [])).1.result =
        .ok (.body "\x7b\"status\": \"error\", \"errors\": null\x7d") :=
  ⟨⟨_, rfl, rfl, rfl⟩, rfl⟩

end Client

end HostedSearch
