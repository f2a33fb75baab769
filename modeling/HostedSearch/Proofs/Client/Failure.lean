import HostedSearch.Proofs.Client.Errand

/-!
# How calls fail

What a call that goes out comes to depends on its errand and on the answer, and on nothing else.
Without an answer it fails with the cause; an answer whose status is not the good one makes it fail
with that status, whatever the body is; after a good answer a search fails when its body is no
result page, and a change fails when its body refuses the batch. The failures of searches and of
changes are kept apart, and the first two name the URL of the request.
-/

namespace HostedSearch

/-- The URL that a request is sent to. -/
def Request.url : Request → String
  | .get url => url
  | .post url _ => url

namespace Errand

/-- The failure of an errand whose request at a URL had no answer. -/
def unanswered (url cause : String) : Errand → ClientError
  | .search _ _ => .search (.transport url cause)
  | .change _ => .update (.transport url cause)

/-- The failure of an errand whose request at a URL had an answer that is not good. -/
def declined (url : String) (status : UInt16) (reason : String) : Errand → ClientError
  | .search _ _ => .search (.status url status reason)
  | .change _ => .update (.status url status reason)

variable {endpoint url : String} {accepted : String → Outcome}

/-- Without an answer an errand fails with the cause. -/
theorem result_failure (errand : Errand) (cause : String) :
    errand.result endpoint url accepted (.failure cause) =
      .error (errand.unanswered (errand.request endpoint url).url cause) := by
  cases errand <;> rfl

/-- An answer that is not good makes an errand fail with its status. -/
theorem result_of_status_ne {response : Response} (hstatus : response.status ≠ okStatus)
    (errand : Errand) :
    errand.result endpoint url accepted (.response response) =
      .error (errand.declined (errand.request endpoint url).url response.status
        response.reason) := by
  cases errand with
  | search term options =>
    rw [result_search, SearchRequest.result, if_neg hstatus]
    rfl
  | change changes =>
    rw [result_change, Batch.result, if_neg hstatus]
    rfl

/-- A good answer makes a search succeed with the page that its body is, or fail at its body. -/
theorem result_search_of_status_eq {response : Response} (hstatus : response.status = okStatus)
    (term : String) (options : SearchOptions) :
    (Errand.search term options).result endpoint url accepted (.response response) =
      match ResultPage.ofResponse response.body options.size with
      | .ok page => .ok (.page page)
      | .error fault => .error (.search (.invalidResponse
          ((Errand.search term options).request endpoint url).url fault)) := by
  have hsize : (SearchRequest.build endpoint term options).pageSize = options.size := rfl
  rw [result_search, SearchRequest.result, if_pos hstatus, hsize]
  cases ResultPage.ofResponse response.body options.size <;> rfl

/-- A good answer makes a change succeed, or fail because its body refuses the batch. -/
theorem result_change_of_status_eq {response : Response} (hstatus : response.status = okStatus)
    (changes : List Change) :
    (Errand.change changes).result endpoint url accepted (.response response) =
      match Batch.rejection? response.body with
      | none => .ok (accepted response.body)
      | some errors => .error (.update (.batch errors response.body)) := by
  rw [result_change, Batch.result, if_pos hstatus]
  cases Batch.rejection? response.body <;> rfl

/-- An errand fails with a status exactly when the answer has it and it is not the good one. -/
theorem status?_result_iff (errand : Errand) (back : Answer) (status : UInt16) :
    (∃ error, errand.result endpoint url accepted back = .error error ∧
        error.status? = some status) ↔
      ∃ response, back = .response response ∧ response.status = status ∧ status ≠ okStatus := by
  cases back with
  | failure cause =>
    rw [result_failure]
    cases errand <;> simp [unanswered, ClientError.status?]
  | response response =>
    by_cases hstatus : response.status = okStatus
    · have hgood : ¬∃ other, Answer.response response = .response other ∧ other.status = status ∧
          status ≠ okStatus := by
        rintro ⟨other, hother, rfl, hne⟩
        obtain rfl := Answer.response.inj hother
        exact hne hstatus
      -- Behind a good answer the failures are about its body and carry no status.
      refine iff_of_false ?_ hgood
      cases errand with
      | search term options =>
        rw [result_search_of_status_eq hstatus]
        cases ResultPage.ofResponse response.body options.size <;> simp [ClientError.status?]
      | change changes =>
        rw [result_change_of_status_eq hstatus]
        cases Batch.rejection? response.body <;> simp [ClientError.status?]
    · rw [result_of_status_ne hstatus]
      have hdeclined : (errand.declined (errand.request endpoint url).url response.status
          response.reason).status? = some response.status := by
        cases errand <;> rfl
      simp only [Except.error.injEq, exists_eq_left', hdeclined, Option.some.injEq,
        Answer.response.injEq]
      exact ⟨fun h => ⟨h, h ▸ hstatus⟩, And.left⟩

/-- What an errand comes to, told apart by the answer to its request at a URL. -/
structure Decides (errand : Errand) (url : String) (accepted : String → Outcome) (back : Answer)
    (result : Except ClientError Outcome) : Prop where
  unanswered : ∀ cause, back = .failure cause → result = .error (errand.unanswered url cause)
  declined : ∀ response, back = .response response → response.status ≠ okStatus →
    result = .error (errand.declined url response.status response.reason)
  searched : ∀ response term options, back = .response response → response.status = okStatus →
    errand = .search term options →
    result = match ResultPage.ofResponse response.body options.size with
      | .ok page => .ok (.page page)
      | .error fault => .error (.search (.invalidResponse url fault))
  changed : ∀ response changes, back = .response response → response.status = okStatus →
    errand = .change changes → result = .ok (accepted response.body) ∨
      ∃ errors, result = .error (.update (.batch errors response.body))
  status : ∀ status, (∃ error, result = .error error ∧ error.status? = some status) ↔
    ∃ response, back = .response response ∧ response.status = status ∧ status ≠ okStatus

/-- The answer decides what an errand comes to. -/
theorem decides_result (errand : Errand) (back : Answer) :
    errand.Decides (errand.request endpoint url).url accepted back
      (errand.result endpoint url accepted back) where
  unanswered := by
    rintro cause rfl
    exact result_failure errand cause
  declined := by
    rintro response rfl hstatus
    exact result_of_status_ne hstatus errand
  searched := by
    rintro response term options rfl hstatus rfl
    exact result_search_of_status_eq hstatus term options
  changed := by
    rintro response changes rfl hstatus rfl
    rw [result_change_of_status_eq hstatus]
    cases Batch.rejection? response.body with
    | none => exact .inl rfl
    | some errors => exact .inr ⟨errors, rfl⟩
  status := status?_result_iff errand back

end Errand

namespace Client

variable {σ : Type}

/-- A call of a live client with a search domain, if it does not only ask for a request, sends one
request, and the answer to it decides what the call comes to. When the answer is not good, its
status and reason decide that alone, whatever body it has, whichever transport gave it and
whatever went before. -/
theorem perform_decided_by_answer (settings : Settings) (domain : String)
    (hlive : settings.mode = .live) (hdomain : settings.searchDomain = some domain)
    (hnonempty : domain ≠ "") (transport : Transport σ) (state : σ) (now : Int64) (call : Call)
    (hcall : ∀ term options, call ≠ .searchRequest term options) :
    ∃ errand request, call.errand? now = some errand ∧
      (perform settings transport state now call).1.sent = [request] ∧
      errand.Decides request.url call.accepted (transport state request).1
        (perform settings transport state now call).1.result ∧
      ∀ (τ : Type) (other : Transport τ) (otherState : τ) (status : UInt16) (reason : String),
        status ≠ okStatus →
        (∃ body, (transport state request).1 = .response ⟨status, reason, body⟩) →
        (∃ body, (other otherState request).1 = .response ⟨status, reason, body⟩) →
        (perform settings other otherState now call).1.result =
          (perform settings transport state now call).1.result := by
  have hsandbox := Settings.isSandbox_eq_false_iff.mpr hlive
  obtain ⟨endpoint, url, hendpoint, hurl⟩ :=
    Settings.exists_addresses (Settings.domain?_eq_some_iff.mpr ⟨hdomain, hnonempty⟩)
  obtain ⟨errand, herrand⟩ : ∃ errand, call.errand? now = some errand := by
    refine Option.ne_none_iff_exists'.mp fun hnone => ?_
    obtain ⟨term, options, rfl⟩ := Call.errand?_eq_none_iff.mp hnone
    exact hcall term options rfl
  have hreport (τ : Type) (transport : Transport τ) (state : τ) :
      (perform settings transport state now call).1.sent = [errand.request endpoint url] ∧
        (perform settings transport state now call).1.result =
          errand.result endpoint url call.accepted
            (transport state (errand.request endpoint url)).1 := by
    obtain ⟨report, hperform, hsent, hresult⟩ :=
      perform_of_errand hsandbox hendpoint hurl transport state herrand
    rw [hperform]
    exact ⟨hsent, hresult⟩
  obtain ⟨hsent, hresult⟩ := hreport σ transport state
  refine ⟨errand, errand.request endpoint url, herrand, hsent, ?_, ?_⟩
  · rw [hresult]
    exact errand.decides_result _
  · rintro τ other otherState status reason hstatus ⟨body, hback⟩ ⟨otherBody, hother⟩
    rw [(hreport τ other otherState).2, hresult, hother, hback,
      Errand.result_of_status_ne hstatus, Errand.result_of_status_ne hstatus]

/-- A search that is forbidden fails as a search, with the URL that was asked for. -/
theorem perform_decided_by_answer_forbidden :
    ∃ request, (perform { searchDomain := some "donuts", mode := .live }
        (fun state _ => (.response ⟨403, "Forbidden", "denied"⟩, state)) () 0
        (.search "glaze" {})).1.sent = [request] ∧
      (perform { searchDomain := some "donuts", mode := .live }
        (fun state _ => (.response ⟨403, "Forbidden", "denied"⟩, state)) () 0
        (.search "glaze" {})).1.result =
        .error (.search (.status request.url 403 "Forbidden")) := by
  obtain ⟨errand, request, herrand, hsent, hdecides, -⟩ := perform_decided_by_answer
    { searchDomain := some "donuts", mode := .live } "donuts" rfl rfl (by decide)
    (fun state _ => (.response ⟨403, "Forbidden", "denied"⟩, state)) () 0 (.search "glaze" {})
    (by simp)
  obtain rfl := Option.some.inj herrand
  exact ⟨request, hsent, hdecides.declined _ rfl (by decide)⟩

end Client

end HostedSearch
