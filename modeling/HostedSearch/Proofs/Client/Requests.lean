import HostedSearch.Proofs.Client.Errand

/-!
# The requests of a run

A live client with a search domain sends one request for every call that has an errand, in the
order of the calls, and none for any other call. Which request it is does not depend on what came
back before, so nothing is sent a second time, left out or moved after a failure. A transport that
keeps a record of what it is asked sees the same requests and nothing else.
-/

namespace HostedSearch

/-- The request that a call is to send at a time, if any, with the addresses for searches and for
changes. -/
def Call.request? (endpoint url : String) (now : Int64) (call : Call) : Option Request :=
  (call.errand? now).map (Errand.request endpoint url)

/-- The transport that also keeps the requests it was given, in order. -/
def Transport.recording {σ : Type} (transport : Transport σ) : Transport (σ × List Request) :=
  fun (state, requests) request =>
    let (back, state) := transport state request
    (back, (state, requests ++ [request]))

/-- The record of a transport grows by the request that a plan sends, and nothing else changes. -/
theorem Plan.run_recording {σ : Type} (transport : Transport σ) (state : σ)
    (requests : List Request) (plan : Plan) :
    plan.run transport.recording (state, requests) =
      ((plan.run transport state).1,
        (plan.run transport state).2, requests ++ (plan.run transport state).1.sent) := by
  cases plan with
  | answer reply => simp [run]
  | exchange request reply => rfl

namespace Client

variable {σ : Type} {settings : Settings} {endpoint url : String}

/-- A run makes its first call and goes on from the state in which that leaves the transport. -/
theorem run_cons (settings : Settings) (transport : Transport σ) (state : σ) (now : Int64)
    (call : Call) (calls : List (Int64 × Call)) :
    run settings transport state ((now, call) :: calls) =
      ((perform settings transport state now call).1 ::
          (run settings transport (perform settings transport state now call).2 calls).1,
        (run settings transport (perform settings transport state now call).2 calls).2) := rfl

/-- The record of a transport grows by the requests of the calls, in the order of the calls. -/
theorem run_recording (settings : Settings) (transport : Transport σ) (state : σ)
    (requests : List Request) (calls : List (Int64 × Call)) :
    run settings transport.recording (state, requests) calls =
      ((run settings transport state calls).1, (run settings transport state calls).2,
        requests ++ (run settings transport state calls).1.flatMap Report.sent) := by
  induction calls generalizing state requests with
  | nil => simp [run]
  | cons entry calls ih =>
    obtain ⟨now, call⟩ := entry
    have hstep : perform settings transport.recording (state, requests) now call = _ :=
      Plan.run_recording transport state requests (Plan.ofCall settings now call)
    rw [run_cons, hstep, ih, run_cons, List.flatMap_cons, List.append_assoc]
    rfl

/-- A live client with addresses sends for a call the request that the call is to send. -/
theorem sent_perform (hlive : settings.isSandbox = false)
    (hendpoint : settings.searchUrl? = some endpoint) (hurl : settings.batchUrl? = some url)
    (transport : Transport σ) (state : σ) (now : Int64) (call : Call) :
    (perform settings transport state now call).1.sent =
      (call.request? endpoint url now).toList := by
  cases herrand : call.errand? now with
  | none =>
    obtain ⟨term, options, rfl⟩ := Call.errand?_eq_none_iff.mp herrand
    rw [perform_searchRequest hendpoint]
    rfl
  | some errand =>
    obtain ⟨report, hperform, hsent, -⟩ :=
      perform_of_errand hlive hendpoint hurl transport state herrand
    rw [hperform, hsent, Call.request?, herrand]
    rfl

/-- A live client with an address for changes sends for a call the request that the call is to send;
it has an address for searches, too. -/
theorem exists_sent_perform (hlive : settings.mode = .live)
    (hurl : settings.batchUrl? = some url) :
    ∃ endpoint, ∀ (transport : Transport σ) (state : σ) (now : Int64) (call : Call),
      (perform settings transport state now call).1.sent =
        (call.request? endpoint url now).toList := by
  obtain ⟨domain, hdomain, -⟩ := Option.map_eq_some_iff.mp hurl
  obtain ⟨endpoint, -, hendpoint, -⟩ := Settings.exists_addresses hdomain
  exact ⟨endpoint, sent_perform (Settings.isSandbox_eq_false_iff.mpr hlive) hendpoint hurl⟩

/-- A live client with addresses sends for each call of a run the request that the call is to
send. -/
theorem map_sent_run (hlive : settings.isSandbox = false)
    (hendpoint : settings.searchUrl? = some endpoint) (hurl : settings.batchUrl? = some url)
    (transport : Transport σ) (state : σ) (calls : List (Int64 × Call)) :
    (run settings transport state calls).1.map Report.sent =
      calls.map fun (now, call) => (call.request? endpoint url now).toList := by
  induction calls generalizing state with
  | nil => rfl
  | cons entry calls ih =>
    obtain ⟨now, call⟩ := entry
    rw [run_cons, List.map_cons, List.map_cons, sent_perform hlive hendpoint hurl, ih]

/-- Without a search domain every call of a run fails with that error, and the transport stays as
it is. -/
theorem run_of_domain?_eq_none (hlive : settings.isSandbox = false)
    (hdomain : settings.domain? = none) (transport : Transport σ) (state : σ)
    (calls : List (Int64 × Call)) :
    run settings transport state calls =
      (calls.map fun _ => ⟨.error .missingSearchDomain, [], [], []⟩, state) := by
  induction calls generalizing state with
  | nil => rfl
  | cons entry calls ih =>
    obtain ⟨now, call⟩ := entry
    rw [run_cons, perform_of_domain?_eq_none hlive hdomain, ih, List.map_cons]

/-- In a run of a live client with a search domain each call sends the one request that it is to
send, whatever came back before; only a call for a request sends none, and is answered with the
request whose URL the same search is sent to. The transport is given these requests in the order
of the calls and no others. Without a search domain every call fails with that error and the
transport is given nothing. -/
theorem run_sends_in_order (settings : Settings) (hlive : settings.mode = .live)
    (transport : Transport σ) (state : σ) (calls : List (Int64 × Call)) :
    (∀ domain, settings.searchDomain = some domain → domain ≠ "" →
      ∃ endpoint url, settings.searchUrl? = some endpoint ∧ settings.batchUrl? = some url ∧
        (run settings transport state calls).1.map Report.sent =
          calls.map (fun (now, call) => (call.request? endpoint url now).toList) ∧
        (run settings transport.recording (state, []) calls).2.2 =
          calls.flatMap (fun (now, call) => (call.request? endpoint url now).toList) ∧
        (∀ (now : Int64) (call : Call), call.request? endpoint url now = none ↔
          ∃ term options, call = .searchRequest term options) ∧
        ∀ now term options,
          (perform settings transport state now (.searchRequest term options)).1.result =
            .ok (.request (.build endpoint term options))) ∧
    ((∀ domain, settings.searchDomain = some domain → domain = "") →
      run settings transport state calls =
        (calls.map fun _ => ⟨.error .missingSearchDomain, [], [], []⟩, state)) := by
  have hsandbox := Settings.isSandbox_eq_false_iff.mpr hlive
  refine ⟨fun domain hdomain hnonempty => ?_, fun hnone => ?_⟩
  · obtain ⟨endpoint, url, hendpoint, hurl⟩ :=
      Settings.exists_addresses (Settings.domain?_eq_some_iff.mpr ⟨hdomain, hnonempty⟩)
    have hsent := map_sent_run hsandbox hendpoint hurl transport state calls
    refine ⟨endpoint, url, hendpoint, hurl, hsent, ?_, fun now call => ?_,
      fun now term options => ?_⟩
    · rw [run_recording, List.nil_append, List.flatMap_def, hsent, ← List.flatMap_def]
    · rw [← Call.errand?_eq_none_iff, Call.request?, Option.map_eq_none_iff]
    · rw [perform_searchRequest hendpoint]
  · exact run_of_domain?_eq_none hsandbox (Settings.domain?_eq_none_iff.mpr hnone) transport state
      calls

/-- When no answer ever comes, a deletion and an addition are still sent once and in their turn. -/
theorem run_sends_in_order_unanswered :
    let calls : List (Int64 × Call) :=
      [(5, .removeItem "1"), (6, .searchRequest "glaze" {}),
        (7, .addItem "2" (.ofList [("name", .json (.string "fritter")), ("stale", .absent)]))]
    (run { searchDomain := some "donuts", mode := .live }
        (fun state _ => (.failure "timed out", state)) () calls).1.map Report.sent =
      [[.post "http://doc-donuts.us-east-1.cloudsearch.amazonaws.com/2013-01-01/documents/batch"
          "[\x7b\"type\":\"delete\",\"id\":\"1\",\"version\":5\x7d]"],
        [],
        [.post "http://doc-donuts.us-east-1.cloudsearch.amazonaws.com/2013-01-01/documents/batch"
          ("[\x7b\"type\":\"add\",\"id\":\"2\",\"version\":7,\"lang\":\"en\"," ++
            "\"fields\":\x7b\"name\":\"fritter\",\"stale\":\"\"\x7d\x7d]")]] := by
  intro calls
  obtain ⟨hsends, -⟩ := run_sends_in_order { searchDomain := some "donuts", mode := .live } rfl
    (fun state _ => (.failure "timed out", state)) () calls
  obtain ⟨endpoint, url, -, hurl, hsent, -⟩ := hsends "donuts" rfl (by decide)
  obtain rfl := Option.some.inj hurl
  rw [hsent]
  rfl

end Client

end HostedSearch
