import Mathlib.Data.List.Forall2
import HostedSearch.Proofs.Client.Requests

/-!
# Sandbox mode

In sandbox mode nothing leaves the process: whatever calls a client makes, its transport is never
asked, no object is marked, every search shows the one empty page and every change succeeds. So the
reports of a run are the same for all transports.
-/

namespace HostedSearch

/-- What a call yields when nothing may leave the process, unless it asks for a request. -/
def Call.sandboxOutcome? : Call → Option Outcome
  | .search _ _ => some (.page ⟨[], 0, 0, 10, true⟩)
  | .searchFiltered _ => some (.page ⟨[], 0, 0, 10, true⟩)
  | .searchRequest _ _ => none
  | .submitBatch _ => some (.body "")
  | _ => some .done

/-- The report of a call that nothing was sent for, and that marked nothing. -/
structure Report.Confined (call : Call) (report : Report) : Prop where
  sent : report.sent = []
  marks : report.marks = []
  result : ∀ outcome, call.sandboxOutcome? = some outcome → report.result = .ok outcome

variable {settings : Settings}

/-- The answer to a call in sandbox mode. -/
theorem Plan.result_of_isSandbox (hsandbox : settings.isSandbox) {now : Int64} {call : Call}
    {reply : Reply} {outcome : Outcome} (hplan : ofCall settings now call = .answer reply)
    (houtcome : call.sandboxOutcome? = some outcome) : reply.result = .ok outcome := by
  cases call with
  | searchRequest term options => cases houtcome
  | updateObject object =>
    obtain rfl := Option.some.inj houtcome
    -- Both the addition and the removal of the object are dropped.
    cases hindex : object.shouldIndex <;>
      simp only [ofCall, hindex, addObject, addItem, removeItem, submit, hsandbox, if_true,
        Bool.false_eq_true, if_false] at hplan <;>
      obtain rfl := Plan.answer.inj hplan <;> rfl
  | _ =>
    obtain rfl := Option.some.inj houtcome
    simp only [ofCall, search, addObject, addItem, removeItem, submit, hsandbox, if_true] at hplan
    obtain rfl := Plan.answer.inj hplan
    rfl

namespace Client

/-- A call in sandbox mode is reported alike with every transport, and leaves the transport as it
is. -/
theorem perform_of_isSandbox (hsandbox : settings.isSandbox) (now : Int64) (call : Call) :
    ∃ report : Report, report.Confined call ∧
      ∀ (σ : Type) (transport : Transport σ) (state : σ),
        perform settings transport state now call = (report, state) := by
  obtain ⟨reply, hplan, hmarks⟩ : ∃ reply, Plan.ofCall settings now call = .answer reply ∧
      reply.marks = [] := Plan.ofCall_of_isSandbox hsandbox
  refine ⟨⟨reply.result, [], reply.events, reply.marks⟩, ⟨rfl, hmarks, fun outcome houtcome => ?_⟩,
    fun σ transport state => ?_⟩
  · exact Plan.result_of_isSandbox hsandbox hplan houtcome
  · rw [perform, hplan]
    rfl

/-- A run in sandbox mode is reported alike with every transport, and leaves the transport as it
is. -/
theorem run_of_isSandbox (hsandbox : settings.isSandbox) (calls : List (Int64 × Call)) :
    ∃ reports,
      List.Forall₂ (fun entry report => Report.Confined entry.2 report) calls reports ∧
      ∀ (σ : Type) (transport : Transport σ) (state : σ),
        run settings transport state calls = (reports, state) := by
  induction calls with
  | nil => exact ⟨[], .nil, fun σ transport state => rfl⟩
  | cons entry calls ih =>
    obtain ⟨now, call⟩ := entry
    obtain ⟨report, hreport, hperform⟩ := perform_of_isSandbox hsandbox now call
    obtain ⟨reports, hreports, hrun⟩ := ih
    refine ⟨report :: reports, .cons hreport hreports, fun σ transport state => ?_⟩
    rw [run_cons, hperform, hrun]

/-- A run in sandbox mode asks its transport for nothing and marks nothing, whatever the domain and
the endpoints are; every search shows the empty page and every change succeeds. The reports are the
same with every transport, and a transport that keeps a record of what it is asked has none. -/
theorem run_confined_to_sandbox (settings : Settings) (hmode : settings.mode = .sandbox)
    (calls : List (Int64 × Call)) :
    ∃ reports,
      List.Forall₂ (fun entry report => Report.Confined entry.2 report) calls reports ∧
      ∀ (σ : Type) (transport : Transport σ) (state : σ),
        run settings transport state calls = (reports, state) ∧
        (run settings transport.recording (state, []) calls).2 = (state, []) := by
  have hsandbox : settings.isSandbox := by simp [Settings.isSandbox, hmode]
  obtain ⟨reports, hreports, hrun⟩ := run_of_isSandbox hsandbox calls
  refine ⟨reports, hreports, fun σ transport state => ⟨hrun σ transport state, ?_⟩⟩
  rw [hrun]

/-- Without a domain, and with a transport that would count what it is asked, a search shows the
empty page, an object is added without being marked, and the count stays at zero. -/
theorem run_confined_to_sandbox_uncounted :
    ∃ search addition, run {} (fun (asked : Nat) _ => (.failure "no route", asked + 1)) 0
        [(5, .search "glaze" { page := some 3 }),
          (6, .addObject { key := 7, id := "42", fields := .empty })] = ([search, addition], 0) ∧
      search.result = .ok (.page ⟨[], 0, 0, 10, true⟩) ∧
      addition.result = .ok .done ∧ addition.marks = [] := by
  obtain ⟨reports, hreports, hrun⟩ := run_confined_to_sandbox {} rfl
    [(5, .search "glaze" { page := some 3 }),
      (6, .addObject { key := 7, id := "42", fields := .empty })]
  cases hreports with
  | cons hsearch hreports =>
    cases hreports with
    | cons haddition hreports =>
      cases hreports
      obtain ⟨hreport, -⟩ := hrun Nat (fun asked _ => (.failure "no route", asked + 1)) 0
      exact ⟨_, _, hreport, hsearch.result _ rfl, haddition.result _ rfl, haddition.marks⟩

end Client

end HostedSearch
