import HostedSearch.Client.Call

/-!
# Errands

A call that goes out to the service has one errand: it searches, or it hands in changes. The
errand fixes the one request that is sent and, with the answer, what the call comes to. In sandbox
mode, without a search domain, and when only a request is asked for, a call is answered at once and
marks nothing. These are all the plans that there are for calls, so what is shown of them holds of
every call.
-/

namespace HostedSearch

namespace Settings

variable {settings : Settings}

/-- A client that is not in sandbox mode is live. -/
theorem isSandbox_eq_false_iff : settings.isSandbox = false ↔ settings.mode = .live := by
  cases h : settings.mode <;> simp [isSandbox, h]

/-- An empty search domain counts as none. -/
theorem domain?_eq_none_iff :
    settings.domain? = none ↔ ∀ domain, settings.searchDomain = some domain → domain = "" := by
  simp [domain?, Option.filter_eq_none_iff]

/-- A search domain counts when it is not empty. -/
theorem domain?_eq_some_iff {domain : String} :
    settings.domain? = some domain ↔ settings.searchDomain = some domain ∧ domain ≠ "" := by
  simp [domain?, Option.filter_eq_some_iff]

/-- An address for searches is there only with a search domain. -/
theorem exists_domain {endpoint : String} (hendpoint : settings.searchUrl? = some endpoint) :
    ∃ domain, settings.searchDomain = some domain ∧ domain ≠ "" := by
  obtain ⟨domain, hdomain, -⟩ := Option.map_eq_some_iff.mp hendpoint
  exact ⟨domain, domain?_eq_some_iff.mp hdomain⟩

/-- With a search domain there are addresses for searches and for changes. -/
theorem exists_addresses {domain : String} (hdomain : settings.domain? = some domain) :
    ∃ endpoint url, settings.searchUrl? = some endpoint ∧ settings.batchUrl? = some url := by
  simp [searchUrl?, batchUrl?, hdomain]

end Settings

/-- What a call goes out to the service for. -/
inductive Errand where
  | search (term : String) (options : SearchOptions)
  | change (changes : List Change)

namespace Call

/-- The errand of a call that is made at a time, unless it only asks for a request. An addition is
one record with the time as its version, the document's normalized fields, and English as their
language; a deletion is one record without fields. -/
def errand? (now : Int64) : Call → Option Errand
  | .search term options => some (.search term options)
  | .searchFiltered options => some (.search "" options)
  | .searchRequest _ _ => none
  | .addItem id fields => some (.change [.add id now "en" fields.normalize])
  | .updateItem id fields => some (.change [.add id now "en" fields.normalize])
  | .removeItem id => some (.change [.delete id now])
  | .submitBatch changes => some (.change changes)
  | .addObject object => some (.change [.add object.id now "en" object.fields.normalize])
  | .updateObject object =>
    if object.shouldIndex then some (.change [.add object.id now "en" object.fields.normalize])
    else some (.change [.delete object.id now])
  | .removeObject object => some (.change [.delete object.id now])

/-- The object that a call adds to the index, if it is asked to add one. -/
def added? : Call → Option IndexedObject
  | .addObject object => some object
  | .updateObject object => if object.shouldIndex then some object else none
  | _ => none

/-- The mark of the object that a call adds, at the time of the call. -/
def marks (now : Int64) (call : Call) : List Mark :=
  (call.added?.map fun object => ⟨object.key, now⟩).toList

/-- What a call yields when the service takes its changes. -/
def accepted (body : String) : Call → Outcome
  | .submitBatch _ => .body body
  | _ => .done

/-- Every call goes out but the one that asks for a request. -/
theorem errand?_eq_none_iff {now : Int64} {call : Call} :
    call.errand? now = none ↔ ∃ term options, call = .searchRequest term options := by
  cases call with
  | searchRequest term options => simp [errand?]
  | updateObject object => cases h : object.shouldIndex <;> simp [errand?, h]
  | _ => simp [errand?]

/-- The errand of a call that adds an object is the addition of its document. -/
theorem errand?_of_added? {call : Call} {object : IndexedObject} (h : call.added? = some object)
    (now : Int64) :
    call.errand? now = some (.change [.add object.id now "en" object.fields.normalize]) := by
  cases call with
  | addObject added =>
    obtain rfl := Option.some.inj h
    rfl
  | updateObject updated =>
    cases hindex : updated.shouldIndex with
    | true =>
      obtain rfl : updated = object := by simpa [added?, hindex] using h
      simp [errand?, hindex]
    | false => simp [added?, hindex] at h
  | _ => cases h

/-- A call that adds an object yields no body. -/
theorem accepted_of_added? {call : Call} {object : IndexedObject} (h : call.added? = some object)
    (body : String) : call.accepted body = .done := by
  cases call with
  | submitBatch changes => cases h
  | _ => rfl

/-- A call marks no object but the one that it adds. -/
theorem exists_added_of_mem_marks {now : Int64} {call : Call} {mark : Mark}
    (h : mark ∈ call.marks now) : ∃ object, call.added? = some object ∧ mark.key = object.key := by
  cases hadded : call.added? with
  | none => simp [marks, hadded] at h
  | some object =>
    obtain rfl : mark = ⟨object.key, now⟩ := by simpa [marks, hadded] using h
    exact ⟨object, rfl, rfl⟩

/-- A call that searches marks nothing. -/
theorem marks_of_search {now : Int64} {call : Call} {term : String} {options : SearchOptions}
    (h : call.errand? now = some (.search term options)) : call.marks now = [] := by
  rw [marks]
  cases hadded : call.added? with
  | none => rfl
  | some object =>
    rw [errand?_of_added? hadded] at h
    cases h

end Call

namespace Errand

/-- The request of an errand, with the addresses for searches and for changes. -/
def request (endpoint url : String) : Errand → Request
  | .search term options => .get (SearchRequest.build endpoint term options).url
  | .change changes => .post url (Json.array (changes.map Change.toJson)).compact

/-- What an errand comes to when the answer is there; `accepted` is what it yields when the service
takes its changes. -/
def result (endpoint url : String) (accepted : String → Outcome) :
    Errand → Answer → Except ClientError Outcome
  | .search term options, back =>
    (((SearchRequest.build endpoint term options).result back).mapError .search).map .page
  | .change _, back => ((Batch.result url back).mapError .update).map accepted

variable {endpoint url : String} {accepted : String → Outcome}

/-- A search comes to the page that its answer gives, or fails as a search. -/
theorem result_search (term : String) (options : SearchOptions) (back : Answer) :
    (Errand.search term options).result endpoint url accepted back =
      match (SearchRequest.build endpoint term options).result back with
      | .ok page => .ok (.page page)
      | .error error => .error (.search error) := by
  rw [result]
  cases (SearchRequest.build endpoint term options).result back <;> rfl

/-- A change comes to what its answer is accepted as, or fails as an update. -/
theorem result_change (changes : List Change) (back : Answer) :
    (Errand.change changes).result endpoint url accepted back =
      match Batch.result url back with
      | .ok body => .ok (accepted body)
      | .error error => .error (.update error) := by
  rw [result]
  cases Batch.result url back <;> rfl

end Errand

namespace Plan

variable {settings : Settings} {now : Int64} {call : Call}

/-! ## Calls that go out -/

/-- A call that searches is planned as a search. -/
theorem ofCall_of_search {term : String} {options : SearchOptions}
    (h : call.errand? now = some (.search term options)) :
    ofCall settings now call = search settings term options := by
  cases call with
  | search term' options' =>
    obtain ⟨rfl, rfl⟩ := Errand.search.inj (Option.some.inj h)
    rfl
  | searchFiltered options' =>
    obtain ⟨rfl, rfl⟩ := Errand.search.inj (Option.some.inj h)
    rfl
  | updateObject object => cases hindex : object.shouldIndex <;> simp [Call.errand?, hindex] at h
  | _ => cases h

/-- A call that changes documents is planned as their submission; when they are taken, the call
succeeds and marks the object that it adds. -/
theorem ofCall_of_change {changes : List Change}
    (h : call.errand? now = some (.change changes)) :
    ∃ dropped onAccepted, ofCall settings now call = submit settings changes dropped onAccepted ∧
      ∀ body, (onAccepted body).result = .ok (call.accepted body) ∧
        (onAccepted body).marks = call.marks now := by
  cases call with
  | updateObject object =>
    -- An update is planned as the addition or as the removal of its object.
    cases hindex : object.shouldIndex with
    | true =>
      obtain rfl : [Change.add object.id now "en" object.fields.normalize] = changes := by
        simpa [Call.errand?, hindex] using h
      have hplan : ofCall settings now (.updateObject object) = addObject settings now object :=
        if_pos hindex
      rw [hplan]
      exact ⟨_, _, rfl, fun body => ⟨rfl, by simp [Call.marks, Call.added?, hindex]⟩⟩
    | false =>
      obtain rfl : [Change.delete object.id now] = changes := by
        simpa [Call.errand?, hindex] using h
      have hplan : ofCall settings now (.updateObject object) =
          removeItem settings now object.id := if_neg (by simp [hindex])
      rw [hplan]
      exact ⟨_, _, rfl, fun body => ⟨rfl, by simp [Call.marks, Call.added?, hindex]⟩⟩
  | search term options => cases h
  | searchFiltered options => cases h
  | searchRequest term options => cases h
  | _ =>
    obtain rfl := Errand.change.inj (Option.some.inj h)
    exact ⟨_, _, rfl, fun body => ⟨rfl, rfl⟩⟩

/-- A live client with addresses sends the request of the errand, and what the call comes to is
decided by the answer. The object that is added is marked when the call succeeds. -/
theorem ofCall_of_errand {endpoint url : String} {errand : Errand}
    (hlive : settings.isSandbox = false) (hendpoint : settings.searchUrl? = some endpoint)
    (hurl : settings.batchUrl? = some url) (herrand : call.errand? now = some errand) :
    ∃ reply, ofCall settings now call = .exchange (errand.request endpoint url) reply ∧
      ∀ back, (reply back).result = errand.result endpoint url call.accepted back ∧
        (reply back).marks =
          if (errand.result endpoint url call.accepted back).isOk then call.marks now else [] := by
  cases errand with
  | search term options =>
    rw [ofCall_of_search herrand]
    simp only [search, hlive, hendpoint, Bool.false_eq_true, if_false]
    refine ⟨_, rfl, fun back => ⟨?_, by simp [Call.marks_of_search herrand]⟩⟩
    cases h : (SearchRequest.build endpoint term options).result back <;>
      simp [Errand.result_search, h]
  | change changes =>
    obtain ⟨dropped, onAccepted, hplan, haccepted⟩ := ofCall_of_change herrand
    rw [hplan]
    simp only [submit, hlive, hurl, Bool.false_eq_true, if_false]
    refine ⟨_, rfl, fun back => ?_⟩
    cases h : Batch.result url back <;>
      simp [Errand.result_change, h, Except.isOk, Except.toBool, haccepted]

/-! ## Calls that are answered at once -/

/-- In sandbox mode every call is answered at once, and nothing is marked. -/
theorem ofCall_of_isSandbox (hsandbox : settings.isSandbox) :
    ∃ reply, ofCall settings now call = .answer reply ∧ reply.marks = [] := by
  cases herrand : call.errand? now with
  | none =>
    obtain ⟨term, options, rfl⟩ := Call.errand?_eq_none_iff.mp herrand
    refine ⟨_, rfl, ?_⟩
    split <;> rfl
  | some errand =>
    cases errand with
    | search term options =>
      rw [ofCall_of_search herrand, search, if_pos hsandbox]
      exact ⟨_, rfl, rfl⟩
    | change changes =>
      obtain ⟨dropped, onAccepted, hplan, -⟩ := ofCall_of_change herrand
      rw [hplan, submit, if_pos hsandbox]
      exact ⟨_, rfl, rfl⟩

/-- A live client without a search domain answers every call with that error. -/
theorem ofCall_of_domain?_eq_none (hlive : settings.isSandbox = false)
    (hdomain : settings.domain? = none) :
    ofCall settings now call = .answer { result := .error .missingSearchDomain } := by
  have hendpoint : settings.searchUrl? = none := by simp [Settings.searchUrl?, hdomain]
  have hurl : settings.batchUrl? = none := by simp [Settings.batchUrl?, hdomain]
  cases herrand : call.errand? now with
  | none =>
    obtain ⟨term, options, rfl⟩ := Call.errand?_eq_none_iff.mp herrand
    simp [ofCall, searchRequest, hendpoint]
  | some errand =>
    cases errand with
    | search term options =>
      rw [ofCall_of_search herrand]
      simp [search, hlive, hendpoint]
    | change changes =>
      obtain ⟨dropped, onAccepted, hplan, -⟩ := ofCall_of_change herrand
      rw [hplan]
      simp [submit, hlive, hurl]

/-- A client with an address for searches builds the request that is asked for. -/
theorem ofCall_searchRequest {endpoint : String} (hendpoint : settings.searchUrl? = some endpoint)
    (term : String) (options : SearchOptions) :
    ofCall settings now (.searchRequest term options) =
      .answer { result := .ok (.request (.build endpoint term options)),
                events := options.warnings } := by
  simp [ofCall, searchRequest, hendpoint]

end Plan

namespace Client

variable {σ : Type} {settings : Settings} {endpoint url : String}

/-- A call that goes out sends the one request of its errand, and what it comes to is decided by
the answer. -/
theorem perform_of_errand (hlive : settings.isSandbox = false)
    (hendpoint : settings.searchUrl? = some endpoint) (hurl : settings.batchUrl? = some url)
    (transport : Transport σ) (state : σ) {now : Int64} {call : Call} {errand : Errand}
    (herrand : call.errand? now = some errand) :
    ∃ report, perform settings transport state now call =
        (report, (transport state (errand.request endpoint url)).2) ∧
      report.sent = [errand.request endpoint url] ∧
      report.result = errand.result endpoint url call.accepted
        (transport state (errand.request endpoint url)).1 := by
  obtain ⟨reply, hplan, hreply⟩ := Plan.ofCall_of_errand hlive hendpoint hurl herrand
  obtain ⟨hresult, -⟩ := hreply (transport state (errand.request endpoint url)).1
  rw [perform, hplan]
  exact ⟨_, rfl, rfl, hresult⟩

/-- A call for a request is answered with the request, and nothing is sent. -/
theorem perform_searchRequest (hendpoint : settings.searchUrl? = some endpoint)
    (transport : Transport σ) (state : σ) (now : Int64) (term : String) (options : SearchOptions) :
    perform settings transport state now (.searchRequest term options) =
      (⟨.ok (.request (.build endpoint term options)), [], options.warnings, []⟩, state) := by
  rw [perform, Plan.ofCall_searchRequest hendpoint]
  rfl

/-- Without a search domain every call of a live client fails with that error, and nothing is
sent. -/
theorem perform_of_domain?_eq_none (hlive : settings.isSandbox = false)
    (hdomain : settings.domain? = none) (transport : Transport σ) (state : σ) (now : Int64)
    (call : Call) :
    perform settings transport state now call =
      (⟨.error .missingSearchDomain, [], [], []⟩, state) := by
  rw [perform, Plan.ofCall_of_domain?_eq_none hlive hdomain]
  rfl

end Client

end HostedSearch
