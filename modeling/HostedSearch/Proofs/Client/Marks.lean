import Mathlib.Data.List.Forall2
import HostedSearch.Proofs.Client.Errand

/-!
# When objects are marked

The course of a call is what happens in it, in order: a request is sent, the answer comes back,
objects are marked, and the call returns. A call that adds an object marks it when the addition of
its document was sent, the answer was good and the call succeeded; the mark comes after the answer
and has the time that is the version of the record sent. No other call marks anything, and no
object is marked by a call that adds another one.
-/

namespace HostedSearch

/-- Something that happens in the course of a call. -/
inductive Occurrence where
  | sent (request : Request)
  | received (back : Answer)
  | marked (mark : Mark)
  | returned (result : Except ClientError Outcome)

namespace Occurrence

/-- The request that is sent, if one is. -/
def sent? : Occurrence → Option Request
  | .sent request => some request
  | _ => none

/-- The mark that is set, if one is. -/
def mark? : Occurrence → Option Mark
  | .marked mark => some mark
  | _ => none

end Occurrence

/-- What happens when a call is answered, in order. -/
def Reply.occurrences (reply : Reply) : List Occurrence :=
  reply.marks.map .marked ++ [.returned reply.result]

/-- What happens when a plan is followed, in order. -/
def Plan.occurrences {σ : Type} (transport : Transport σ) (state : σ) : Plan → List Occurrence
  | .answer reply => reply.occurrences
  | .exchange request reply =>
    let back := (transport state request).1
    .sent request :: .received back :: (reply back).occurrences

/-- The request that hands in the addition of the document of an object, in one record with a
version. -/
def IndexedObject.addition (url : String) (version : Int64) (object : IndexedObject) : Request :=
  .post url (Json.array [.object
    [("type", .string "add"), ("id", .string object.id), ("version", .int64 version),
     ("lang", .string "en"), ("fields", .object object.fields.normalize)]]).compact

/-- A call of a run, made at a time, and what happened in it. -/
structure Course where
  time : Int64
  call : Call
  occurrences : List Occurrence

namespace Course

/-- The requests that were sent. -/
def sent (course : Course) : List Request :=
  course.occurrences.filterMap Occurrence.sent?

/-- The marks that were set. -/
def marks (course : Course) : List Mark :=
  course.occurrences.filterMap Occurrence.mark?

/-- The call was to add an object, the addition of its document was sent, a good answer came back,
and the call succeeded. -/
structure Adds (course : Course) (object : IndexedObject) : Prop where
  added : course.call.added? = some object
  sent : ∃ url version, .sent (object.addition url version) ∈ course.occurrences
  answered : ∃ response, response.status = okStatus ∧
    .received (.response response) ∈ course.occurrences
  succeeded : ∃ outcome, .returned (.ok outcome) ∈ course.occurrences

end Course

namespace Client

variable {σ : Type}

/-- The courses of the calls of a run. -/
def courses (settings : Settings) (transport : Transport σ) : σ → List (Int64 × Call) → List Course
  | _, [] => []
  | state, (now, call) :: calls =>
    ⟨now, call, (Plan.ofCall settings now call).occurrences transport state⟩ ::
      courses settings transport (perform settings transport state now call).2 calls

end Client

/-! ## Courses and reports -/

/-- A report tells what happened in the course of a call. -/
structure Course.Agrees (course : Course) (report : Report) : Prop where
  sent : course.sent = report.sent
  marks : course.marks = report.marks
  returned : course.occurrences.getLast? = some (.returned report.result)

namespace Reply

/-- Answering a call sends nothing. -/
theorem filterMap_sent?_occurrences (reply : Reply) :
    reply.occurrences.filterMap Occurrence.sent? = [] := by
  simp [occurrences, Occurrence.sent?]

/-- Answering a call sets the marks of the answer. -/
theorem filterMap_mark?_occurrences (reply : Reply) :
    reply.occurrences.filterMap Occurrence.mark? = reply.marks := by
  rw [occurrences, List.filterMap_append, List.filterMap_map]
  change reply.marks.filterMap some ++ [] = reply.marks
  rw [List.filterMap_some, List.append_nil]

/-- A call that is answered returns in the end. -/
theorem getLast?_occurrences (reply : Reply) :
    reply.occurrences.getLast? = some (.returned reply.result) := by
  rw [occurrences, List.getLast?_concat]

end Reply

/-- The report on a plan tells what happens when it is followed. -/
theorem Plan.agrees_run {σ : Type} (transport : Transport σ) (state : σ) (now : Int64) (call : Call)
    (plan : Plan) :
    Course.Agrees ⟨now, call, plan.occurrences transport state⟩ (plan.run transport state).1 := by
  cases plan with
  | answer reply =>
    exact ⟨reply.filterMap_sent?_occurrences, reply.filterMap_mark?_occurrences,
      reply.getLast?_occurrences⟩
  | exchange request reply =>
    refine ⟨?_, ?_, ?_⟩
    · exact congrArg (List.cons request) (Reply.filterMap_sent?_occurrences _)
    · exact Reply.filterMap_mark?_occurrences _
    · rw [occurrences, List.getLast?_cons_cons, List.getLast?_cons, Reply.getLast?_occurrences]
      rfl

namespace Client

variable {σ : Type}

/-- The reports of a run tell what happened in the courses of its calls. -/
theorem agrees_courses_run (settings : Settings) (transport : Transport σ) (state : σ)
    (calls : List (Int64 × Call)) :
    List.Forall₂ Course.Agrees (courses settings transport state calls)
      (run settings transport state calls).1 := by
  induction calls generalizing state with
  | nil => exact .nil
  | cons entry calls ih =>
    obtain ⟨now, call⟩ := entry
    exact .cons (Plan.agrees_run transport state now call _) (ih _)

/-- The courses are those of the calls, in order. -/
theorem map_courses (settings : Settings) (transport : Transport σ) (state : σ)
    (calls : List (Int64 × Call)) :
    (courses settings transport state calls).map (fun course => (course.time, course.call)) =
      calls := by
  induction calls generalizing state with
  | nil => rfl
  | cons entry calls ih =>
    obtain ⟨now, call⟩ := entry
    rw [courses, List.map_cons, ih]

/-- What holds of the course of every call, in whatever state it finds the transport, holds of all
courses of a run. -/
theorem forall_mem_courses {settings : Settings} {transport : Transport σ} {holds : Course → Prop}
    (hstep : ∀ state now call,
      holds ⟨now, call, (Plan.ofCall settings now call).occurrences transport state⟩)
    (state : σ) (calls : List (Int64 × Call)) :
    ∀ course ∈ courses settings transport state calls, holds course := by
  induction calls generalizing state with
  | nil => simp [courses]
  | cons entry calls ih =>
    obtain ⟨now, call⟩ := entry
    rw [courses, List.forall_mem_cons]
    exact ⟨hstep state now call, ih _⟩

end Client

/-! ## Marks in a course -/

/-- A batch is taken only by a good answer. -/
theorem Batch.status_of_result_eq_ok {url body : String} {back : Answer}
    (h : Batch.result url back = .ok body) :
    ∃ response, back = .response response ∧ response.status = okStatus := by
  cases back with
  | failure cause => cases h
  | response response =>
    refine ⟨response, rfl, ?_⟩
    by_contra hstatus
    simp [Batch.result, hstatus] at h

/-- When a call that adds an object succeeds, the addition was sent and well answered. -/
theorem Errand.of_result_eq_ok_of_added? {endpoint url : String} {now : Int64} {call : Call}
    {errand : Errand} {object : IndexedObject} {back : Answer} {outcome : Outcome}
    (herrand : call.errand? now = some errand) (hadded : call.added? = some object)
    (hok : errand.result endpoint url call.accepted back = .ok outcome) :
    errand.request endpoint url = object.addition url now ∧ outcome = .done ∧
      ∃ response, response.status = okStatus ∧ back = .response response := by
  obtain rfl : errand = .change [.add object.id now "en" object.fields.normalize] :=
    Option.some.inj (herrand.symm.trans (Call.errand?_of_added? hadded now))
  rw [result_change] at hok
  cases hbatch : Batch.result url back with
  | error error => simp [hbatch] at hok
  | ok body =>
    obtain ⟨response, hback, hstatus⟩ := Batch.status_of_result_eq_ok hbatch
    simp only [hbatch, Call.accepted_of_added? hadded] at hok
    exact ⟨rfl, (Except.ok.inj hok).symm, response, hstatus, hback⟩

namespace Course

variable {σ : Type} {settings : Settings} {endpoint url : String}

/-- An object whose addition succeeded is marked once, behind the good answer, with the version in
the record that was sent, which is the time of the call; otherwise nothing is marked. -/
structure MarksRightly (settings : Settings) (course : Course) : Prop where
  once : ∀ object, course.Adds object → ∃ url version response, response.status = okStatus ∧
    course.occurrences = [.sent (object.addition url version), .received (.response response),
      .marked ⟨object.key, version⟩, .returned (.ok .done)] ∧ version = course.time
  otherwise : (∀ object, ¬ course.Adds object) → course.marks = []
  own : ∀ mark ∈ course.marks, ∃ object, course.call.added? = some object ∧ mark.key = object.key
  reached : course.marks ≠ [] → settings.mode = .live ∧
    ∃ domain, settings.searchDomain = some domain ∧ domain ≠ ""

/-- Nothing is marked in a course in which the call only returns. -/
theorem MarksRightly.of_returned {now : Int64} {call : Call} {result : Except ClientError Outcome} :
    MarksRightly settings ⟨now, call, [.returned result]⟩ where
  once object hadds := by
    obtain ⟨url, version, hsent⟩ := hadds.sent
    simp at hsent
  otherwise _ := rfl
  own _ hmark := absurd hmark List.not_mem_nil
  reached h := absurd rfl h

/-- A call that goes out sends its request, has the answer, and is answered; it sets its marks when
it succeeds. -/
theorem occurrences_of_errand (hlive : settings.isSandbox = false)
    (hendpoint : settings.searchUrl? = some endpoint) (hurl : settings.batchUrl? = some url)
    (transport : Transport σ) (state : σ) {now : Int64} {call : Call} {errand : Errand}
    (herrand : call.errand? now = some errand) :
    ∃ (back : Answer) (reply : Reply), (Plan.ofCall settings now call).occurrences transport state =
        .sent (errand.request endpoint url) :: .received back :: reply.occurrences ∧
      reply.result = errand.result endpoint url call.accepted back ∧
      reply.marks = if reply.result.isOk then call.marks now else [] := by
  obtain ⟨reply, hplan, hreply⟩ := Plan.ofCall_of_errand hlive hendpoint hurl herrand
  obtain ⟨hresult, hmarks⟩ := hreply (transport state (errand.request endpoint url)).1
  refine ⟨_, reply (transport state (errand.request endpoint url)).1, ?_, hresult, ?_⟩
  · rw [hplan]
    rfl
  · rw [hmarks, hresult]

/-- A call that goes out marks rightly. -/
theorem MarksRightly.of_errand (hlive : settings.isSandbox = false)
    (hendpoint : settings.searchUrl? = some endpoint) (hurl : settings.batchUrl? = some url)
    (transport : Transport σ) (state : σ) {now : Int64} {call : Call} {errand : Errand}
    (herrand : call.errand? now = some errand) :
    MarksRightly settings
      ⟨now, call, (Plan.ofCall settings now call).occurrences transport state⟩ := by
  obtain ⟨back, reply, hoccurrences, hresult, hmarks⟩ :=
    occurrences_of_errand hlive hendpoint hurl transport state herrand
  rw [hoccurrences]
  have hset : Course.marks ⟨now, call, .sent (errand.request endpoint url) :: .received back ::
      reply.occurrences⟩ = if reply.result.isOk then call.marks now else [] := by
    rw [← hmarks]
    exact reply.filterMap_mark?_occurrences
  constructor
  · intro object hadds
    have hadded : call.added? = some object := hadds.added
    obtain ⟨outcome, hreturned⟩ := hadds.succeeded
    have hok : reply.result = .ok outcome := by
      simpa [Reply.occurrences, eq_comm] using hreturned
    obtain ⟨hrequest, rfl, response, hstatus, rfl⟩ :=
      Errand.of_result_eq_ok_of_added? herrand hadded (hresult.symm.trans hok)
    refine ⟨url, now, response, hstatus, ?_, rfl⟩
    simp [hrequest, Reply.occurrences, hmarks, hok, Except.isOk, Except.toBool, Call.marks, hadded]
  -- A mark is set only when the call succeeds and has an object to add; then it adds it.
  · intro hnone
    rw [hset]
    cases hok : reply.result with
    | error error => rfl
    | ok outcome =>
      cases hadded : call.added? with
      | none => simp [Call.marks, hadded]
      | some object =>
        obtain ⟨hrequest, rfl, response, hstatus, rfl⟩ :=
          Errand.of_result_eq_ok_of_added? herrand hadded (hresult.symm.trans hok)
        refine absurd ⟨hadded, ⟨url, now, ?_⟩, ⟨response, hstatus, ?_⟩, ⟨.done, ?_⟩⟩ (hnone object)
        · simp [hrequest]
        · simp
        · simp [Reply.occurrences, hok]
  · intro mark hmark
    rw [hset] at hmark
    split at hmark
    · exact Call.exists_added_of_mem_marks hmark
    · cases hmark
  · intro _
    exact ⟨Settings.isSandbox_eq_false_iff.mp hlive, Settings.exists_domain hendpoint⟩

/-- A plan that is no exchange and sets no marks only returns. -/
theorem MarksRightly.of_answer {transport : Transport σ} {state : σ} {now : Int64} {call : Call}
    (h : ∃ reply, Plan.ofCall settings now call = .answer reply ∧ reply.marks = []) :
    MarksRightly settings
      ⟨now, call, (Plan.ofCall settings now call).occurrences transport state⟩ := by
  obtain ⟨reply, hplan, hmarks⟩ := h
  rw [hplan, Plan.occurrences, Reply.occurrences, hmarks]
  exact .of_returned

/-- Whatever call a client makes, it marks objects rightly. -/
theorem marksRightly_of_call (settings : Settings) (transport : Transport σ) (state : σ)
    (now : Int64) (call : Call) :
    MarksRightly settings
      ⟨now, call, (Plan.ofCall settings now call).occurrences transport state⟩ := by
  cases hsandbox : settings.isSandbox with
  | true => exact .of_answer (Plan.ofCall_of_isSandbox hsandbox)
  | false =>
    cases hdomain : settings.domain? with
    | none => exact .of_answer ⟨_, Plan.ofCall_of_domain?_eq_none hsandbox hdomain, rfl⟩
    | some domain =>
      obtain ⟨endpoint, url, hendpoint, hurl⟩ := Settings.exists_addresses hdomain
      cases herrand : call.errand? now with
      | none =>
        obtain ⟨term, options, rfl⟩ := Call.errand?_eq_none_iff.mp herrand
        exact .of_answer ⟨_, Plan.ofCall_searchRequest hendpoint term options, rfl⟩
      | some errand => exact .of_errand hsandbox hendpoint hurl transport state herrand

end Course

namespace Client

variable {σ : Type}

/-- In every run of every client an object is marked exactly once by each call that adds it and
succeeds: behind the good answer to the addition of its document, and with the version in the record
that was sent. No other call marks anything, and without a live client that has a search domain
nothing is marked at all. -/
theorem run_marks_rightly (settings : Settings) (transport : Transport σ) (state : σ)
    (calls : List (Int64 × Call)) :
    (courses settings transport state calls).map (fun course => (course.time, course.call)) =
        calls ∧
      List.Forall₂ Course.Agrees (courses settings transport state calls)
        (run settings transport state calls).1 ∧
      ∀ course ∈ courses settings transport state calls, course.MarksRightly settings :=
  ⟨map_courses settings transport state calls, agrees_courses_run settings transport state calls,
    forall_mem_courses (Course.marksRightly_of_call settings transport) state calls⟩

/-- An object whose update is answered well is marked with the version in the record that was sent
for it. -/
theorem run_marks_rightly_of_update :
    let object : IndexedObject := { key := 7, id := "42", fields := .ofList [("name", .absent)] }
    ∃ course ∈ courses { searchDomain := some "donuts", mode := .live }
        (fun state _ => (.response ⟨200, "OK", ""⟩, state)) () [(5, .updateObject object)],
      course.Adds object ∧
      course.sent =
        [.post "http://doc-donuts.us-east-1.cloudsearch.amazonaws.com/2013-01-01/documents/batch"
          ("[\x7b\"type\":\"add\",\"id\":\"42\",\"version\":5,\"lang\":\"en\"," ++
            "\"fields\":\x7b\"name\":\"\"\x7d\x7d]")] ∧
      course.marks = [⟨7, 5⟩] := by
  intro object
  obtain ⟨-, -, hrightly⟩ := run_marks_rightly { searchDomain := some "donuts", mode := .live }
    (fun state _ => (.response ⟨200, "OK", ""⟩, state)) () [(5, .updateObject object)]
  have hadds : ∀ course ∈ courses { searchDomain := some "donuts", mode := .live }
      (fun state _ => (.response ⟨200, "OK", ""⟩, state)) () [(5, .updateObject object)],
      course.Adds object := by
    intro course hcourse
    obtain rfl := List.mem_singleton.mp hcourse
    exact ⟨rfl, ⟨_, 5, List.mem_cons_self⟩, ⟨_, rfl, .tail _ List.mem_cons_self⟩,
      ⟨.done, .tail _ (.tail _ (.tail _ List.mem_cons_self))⟩⟩
  obtain ⟨url, version, response, -, hoccurrences, hversion⟩ :=
    (hrightly _ List.mem_cons_self).once _ (hadds _ List.mem_cons_self)
  have htext : (Json.array [.object
      [("type", .string "add"), ("id", .string object.id), ("version", .int64 5),
       ("lang", .string "en"), ("fields", .object object.fields.normalize)]]).compact =
      "[\x7b\"type\":\"add\",\"id\":\"42\",\"version\":5,\"lang\":\"en\"," ++
        "\"fields\":\x7b\"name\":\"\"\x7d\x7d]" := by decide +kernel +zetaReduce
  refine ⟨_, List.mem_cons_self, hadds _ List.mem_cons_self, ?_, ?_⟩
  · rw [← htext]
    rfl
  rw [Course.marks, hoccurrences, hversion]
  rfl

end Client

end HostedSearch
