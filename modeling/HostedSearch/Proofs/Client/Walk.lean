import HostedSearch.Proofs.Client.Failure
import HostedSearch.Proofs.Search.Paging
import HostedSearch.Proofs.Search.Response

/-!
# Walking through the pages

A caller who wants all results of a search begins with the first page and goes on with the page
that each page names as the next. The service is one that says how many results there are and
where a page starts, just as it was asked. Then the walk comes to an end by itself, and every
result stands on one of its pages, in order and on no other.
-/

namespace HostedSearch

/-- The same search, for a page. -/
def SearchOptions.forPage (options : SearchOptions) (number : UInt32) : SearchOptions :=
  { options with page := some number }

/-- The number that asks for a page, if the page can be asked for. -/
def askable? (number : UInt64) : Option UInt32 :=
  if number.toNat < UInt32.size then some number.toUInt32 else none

/-- The number of the page that the reported page names as the next. -/
def Report.following? (report : Report) : Option UInt32 :=
  match report.result with
  | .ok (.page page) => page.next?.toOption.join.bind askable?
  | _ => none

/-- The service answers every search with the number of all results and with the start that was
asked for. -/
def Transport.Echoes {σ : Type} (endpoint : String) (found : UInt64) (transport : Transport σ) :
    Prop :=
  ∀ state url, ∃ response, (transport state (.get url)).1 = .response response ∧
    response.status = okStatus ∧ ∀ size, ∃ hits, ResultPage.ofResponse response.body size =
      .ok ⟨hits, found, SearchRequest.requestedStart endpoint url, size, false⟩

/-- A service that counts the results without listing them. -/
def Transport.echo (endpoint : String) (found : UInt64) : Transport Unit := fun state request =>
  match request with
  | .get url =>
    (.response ⟨okStatus, "OK", (ResultPage.countsJson found
      (SearchRequest.requestedStart endpoint url)).compact⟩, state)
  | .post _ _ => (.failure "not found", state)

/-- Such a service says where a page starts just as it was asked to. -/
theorem Transport.echoes_echo (endpoint : String) (found : UInt64) :
    (echo endpoint found).Echoes endpoint found := by
  intro state url
  exact ⟨_, rfl, rfl, fun size => ⟨[], ResultPage.ofResponse_countsJson found _ size⟩⟩

/-- The numbers of the results that a search asks for, of so many in all. -/
def Request.window (endpoint : String) (size found : Nat) : Request → List Nat
  | .get url => resultWindow size found (SearchRequest.requestedStart endpoint url).toNat
  | .post _ _ => []

/-- The report is that of a search for the page with so many pages before it: one request is sent,
and what comes back is that page, with its neighbours among `pages` pages. -/
def Report.ShowsPage (endpoint term : String) (options : SearchOptions) (pages before : Nat)
    (report : Report) : Prop :=
  report.sent =
      [.get (SearchRequest.build endpoint term (options.forPage (.ofNat (before + 1)))).url] ∧
    ∃ page, report.result = .ok (.page page) ∧ page.current.map UInt64.toNat = .ok (before + 1) ∧
      page.previous?.map (Option.map UInt64.toNat) =
        .ok (if before = 0 then none else some before) ∧
      page.next?.map (Option.map UInt64.toNat) =
        .ok (if before + 1 < pages then some (before + 2) else none)

namespace Client

variable {σ : Type}

/-- Search from a page on, going on with the page that each page names as the next, up to a limit
of searches. -/
def walk (settings : Settings) (transport : Transport σ) (now : Int64) (term : String)
    (options : SearchOptions) : (limit : Nat) → σ → UInt32 → List Report
  | 0, _, _ => []
  | limit + 1, state, number =>
    let (report, state) :=
      perform settings transport state now (.search term (options.forPage number))
    report ::
      match report.following? with
      | some number => walk settings transport now term options limit state number
      | none => []

section Walk

variable {settings : Settings} {endpoint : String} {transport : Transport σ} {found : UInt64}
  (hlive : settings.mode = .live) (hendpoint : settings.searchUrl? = some endpoint)
  (hecho : transport.Echoes endpoint found)

include hlive hendpoint hecho

/-! ## One search -/

/-- A search for a page is answered with the page that starts where it was asked for. -/
theorem perform_search_forPage (state : σ) (now : Int64) (term : String) (options : SearchOptions)
    (number : UInt32) :
    ∃ page : ResultPage,
      (perform settings transport state now (.search term (options.forPage number))).1.sent =
        [.get (SearchRequest.build endpoint term (options.forPage number)).url] ∧
      (perform settings transport state now (.search term (options.forPage number))).1.result =
        .ok (.page page) ∧
      page.total = found ∧ page.pageSize = options.size ∧
      page.offset.toNat = SearchOptions.startOf number options.size := by
  obtain ⟨domain, hdomain, -⟩ := Option.map_eq_some_iff.mp hendpoint
  obtain ⟨-, url, -, hurl⟩ := Settings.exists_addresses hdomain
  have herrand : (Call.search term (options.forPage number)).errand? now =
      some (.search term (options.forPage number)) := rfl
  obtain ⟨report, hperform, hsent, hresult⟩ := perform_of_errand
    (Settings.isSandbox_eq_false_iff.mpr hlive) hendpoint hurl transport state herrand
  obtain ⟨response, hback, hstatus, hread⟩ :=
    hecho state (SearchRequest.build endpoint term (options.forPage number)).url
  obtain ⟨hits, hpage⟩ := hread (options.forPage number).size
  change (transport state ((Errand.search term _).request endpoint url)).1 = _ at hback
  rw [hback, Errand.result_search_of_status_eq hstatus, hpage] at hresult
  rw [hperform]
  exact ⟨_, hsent, hresult, rfl, rfl, SearchRequest.requestedStart_url endpoint term rfl⟩

variable (now : Int64) (term : String) {options : SearchOptions} (hsize : options.size ≠ 0)

include hsize

/-- A search for a page is answered with the page of that number, page zero being the first. -/
theorem perform_search_forPage_current (state : σ) (number : UInt32) :
    ∃ page,
      (perform settings transport state now (.search term (options.forPage number))).1.result =
        .ok (.page page) ∧ page.current.map UInt64.toNat = .ok (max 1 number.toNat) := by
  obtain ⟨page, -, hresult, -, hpageSize, hoffset⟩ :=
    perform_search_forPage hlive hendpoint hecho state now term options number
  have hbefore : number.toNat - 1 < UInt32.size :=
    Nat.lt_of_le_of_lt (Nat.sub_le _ _) number.toNat_lt_size
  rw [SearchOptions.startOf, ← hpageSize] at hoffset
  rw [← hpageSize] at hsize
  have hnumber : page.number = max 1 number.toNat := by
    rw [ResultPage.number_of_offset hsize hoffset]
    omega
  exact ⟨page, hresult, hnumber ▸ (ResultPage.fitsWords_of_offset hsize hbefore hoffset).current⟩

/-- A search for a page shows the page that was asked for. -/
theorem showsPage_perform (state : σ) {before : Nat} (hbefore : before + 1 < UInt32.size) :
    (perform settings transport state now
      (.search term (options.forPage (.ofNat (before + 1))))).1.ShowsPage endpoint term options
        (found.toNat ⌈/⌉ options.size.toNat) before := by
  obtain ⟨page, hsent, hresult, rfl, hpageSize, hoffset⟩ := perform_search_forPage hlive hendpoint
    hecho state now term options (.ofNat (before + 1))
  have hnumber : (UInt32.ofNat (before + 1)).toNat = before + 1 := UInt32.toNat_ofNat_of_lt' hbefore
  rw [SearchOptions.startOf, hnumber, Nat.add_sub_cancel, ← hpageSize] at hoffset
  rw [← hpageSize] at hsize ⊢
  have hlt := Nat.lt_of_succ_lt hbefore
  have hfits := ResultPage.fitsWords_of_offset hsize hlt hoffset
  have hcurrent := hfits.current
  have hprevious := hfits.previous
  have hnext := hfits.next
  have hcount : page.count = page.total.toNat ⌈/⌉ page.pageSize.toNat := if_neg hsize
  rw [ResultPage.number_of_offset hsize hoffset] at hcurrent hprevious hnext
  rw [hcount] at hnext
  refine ⟨hsent, page, hresult, hcurrent, hprevious.trans ?_, hnext⟩
  cases before <;> rfl

omit hlive hendpoint hecho hsize in
/-- From a page that is not the last, the walk goes on with the page after it. -/
theorem following?_of_showsPage {pages before : Nat} {report : Report}
    (h : report.ShowsPage endpoint term options pages before) (hpages : pages < UInt32.size) :
    report.following? = if before + 1 < pages then some (.ofNat (before + 2)) else none := by
  obtain ⟨-, page, hresult, -, -, hnext⟩ := h
  rw [Report.following?, hresult]
  change page.next?.toOption.join.bind askable? = _
  obtain ⟨named, hnamed, hnext⟩ := Json.map_eq_ok.mp hnext
  change page.next? = .ok named at hnamed
  rw [hnamed]
  change named.bind askable? = _
  by_cases hmore : before + 1 < pages
  · rw [if_pos hmore] at hnext ⊢
    obtain ⟨next, rfl, hvalue⟩ := Option.map_eq_some_iff.mp hnext
    have hlt : before + 2 < UInt32.size := by omega
    have hnumber : next.toUInt32 = .ofNat (before + 2) := by
      rw [← hvalue, ← UInt64.toUInt32_ofNat', UInt64.ofNat_toNat]
    rw [Option.bind_some, askable?, hvalue, if_pos hlt, hnumber]
  · rw [if_neg hmore] at hnext ⊢
    rw [Option.map_eq_none_iff.mp hnext, Option.bind_none]

/-! ## All searches -/

variable (hpages : found.toNat ⌈/⌉ options.size.toNat < UInt32.size)

include hpages

/-- The walk from a page on shows the pages up to the last, one after the other. -/
theorem forall₂_showsPage_walk_from {before after limit : Nat}
    (hcount : before + 1 + after = max 1 (found.toNat ⌈/⌉ options.size.toNat))
    (hlimit : after < limit) (state : σ) :
    List.Forall₂ (Report.ShowsPage endpoint term options (found.toNat ⌈/⌉ options.size.toNat))
      (List.range' before (after + 1))
      (walk settings transport now term options limit state (.ofNat (before + 1))) := by
  have hone : 1 < UInt32.size := by decide
  have hbefore : before + 1 < UInt32.size := by omega
  -- The induction is on the number of pages after this one; each search uses up one of the limit.
  induction after generalizing before limit state with
  | zero =>
    obtain ⟨limit, rfl⟩ := Nat.exists_eq_add_one_of_ne_zero (Nat.ne_zero_of_lt hlimit)
    have hshows := showsPage_perform hlive hendpoint hecho now term hsize state hbefore
    have hlast : ¬ before + 1 < found.toNat ⌈/⌉ options.size.toNat := by omega
    have hfollowing := following?_of_showsPage term hshows hpages
    rw [if_neg hlast] at hfollowing
    simp only [walk, hfollowing]
    exact .cons hshows .nil
  | succ after ih =>
    obtain ⟨limit, rfl⟩ := Nat.exists_eq_add_one_of_ne_zero (Nat.ne_zero_of_lt hlimit)
    have hshows := showsPage_perform hlive hendpoint hecho now term hsize state hbefore
    have hmore : before + 1 < found.toNat ⌈/⌉ options.size.toNat := by omega
    have hfollowing := following?_of_showsPage term hshows hpages
    rw [if_pos hmore] at hfollowing
    simp only [walk, hfollowing]
    exact .cons hshows (ih (by omega) (Nat.lt_of_succ_lt_succ hlimit) _ (by omega))

/-- The walk from the first page on shows all pages, one after the other. -/
theorem forall₂_showsPage_walk {limit : Nat}
    (hlimit : max 1 (found.toNat ⌈/⌉ options.size.toNat) ≤ limit) (state : σ) :
    List.Forall₂ (Report.ShowsPage endpoint term options (found.toNat ⌈/⌉ options.size.toNat))
      (List.range (max 1 (found.toNat ⌈/⌉ options.size.toNat)))
      (walk settings transport now term options limit state 1) := by
  obtain ⟨after, hafter⟩ : ∃ after,
      max 1 (found.toNat ⌈/⌉ options.size.toNat) = 0 + 1 + after :=
    ⟨max 1 (found.toNat ⌈/⌉ options.size.toNat) - 1, by omega⟩
  have hshows := forall₂_showsPage_walk_from hlive hendpoint hecho now term hsize hpages
    hafter.symm (by omega : after < limit) state
  rwa [← List.range_eq_range', Nat.add_comm after 1, ← Nat.zero_add 1, ← hafter] at hshows

omit hlive hendpoint hecho hsize hpages in
/-- The searches of a walk ask for the results of the pages that they show. -/
theorem flatMap_window_of_forall₂ {pages : Nat} {befores : List Nat} {reports : List Report}
    (h : List.Forall₂ (Report.ShowsPage endpoint term options pages) befores reports)
    (hbefores : ∀ before ∈ befores, before + 1 < UInt32.size) (total : Nat) :
    (reports.flatMap Report.sent).flatMap (Request.window endpoint options.size.toNat total) =
      befores.flatMap fun before =>
        resultWindow options.size.toNat total (before * options.size.toNat) := by
  induction h with
  | nil => rfl
  | @cons before report befores reports hshows _ ih =>
    obtain ⟨hsent, -⟩ := hshows
    have hstart : (SearchRequest.requestedStart endpoint (SearchRequest.build endpoint term
        (options.forPage (.ofNat (before + 1)))).url).toNat = before * options.size.toNat := by
      have hnumber : (UInt32.ofNat (before + 1)).toNat = before + 1 :=
        UInt32.toNat_ofNat_of_lt' (hbefores before List.mem_cons_self)
      rw [SearchRequest.requestedStart_url endpoint term rfl, SearchOptions.startOf, hnumber]
      rfl
    rw [List.flatMap_cons, List.flatMap_append, hsent, List.flatMap_singleton, Request.window,
      hstart, ih fun before hbefore => hbefores before (List.mem_cons_of_mem _ hbefore),
      List.flatMap_cons]

omit hlive hendpoint hecho in
/-- Searches that show all pages ask for all results. -/
theorem flatMap_window_eq_range {reports : List Report}
    (h : List.Forall₂
      (Report.ShowsPage endpoint term options (found.toNat ⌈/⌉ options.size.toNat))
      (List.range (max 1 (found.toNat ⌈/⌉ options.size.toNat))) reports) :
    (reports.flatMap Report.sent).flatMap
      (Request.window endpoint options.size.toNat found.toNat) = List.range found.toNat := by
  have hbefores : ∀ before ∈ List.range (max 1 (found.toNat ⌈/⌉ options.size.toNat)),
      before + 1 < UInt32.size := by
    intro before hbefore
    have hone : 1 < UInt32.size := by decide
    have hlt := List.mem_range.mp hbefore
    omega
  have hcovered : found.toNat ≤
      max 1 (found.toNat ⌈/⌉ options.size.toNat) * options.size.toNat := by
    rw [Nat.mul_comm]
    exact (ceilDiv_le_iff_le_mul (toNat_pos_of_ne_zero hsize)).mp (Nat.le_max_right _ _)
  rw [flatMap_window_of_forall₂ term h hbefores, flatMap_resultWindow, Nat.min_eq_right hcovered]

end Walk

/-- Against a service that says how many results there are and where a page starts as it was asked,
a search for any page shows that page, page zero being the first. A walk from the first page on
makes one search for each page, one if there are no results, and then stops, whatever further
searches it may make. Each page has its number and names its neighbours, and the searches ask for
every result once and in order. -/
theorem walk_visits_every_result_once {settings : Settings} {endpoint : String}
    {transport : Transport σ} {found : UInt64} (hlive : settings.mode = .live)
    (hendpoint : settings.searchUrl? = some endpoint) (hecho : transport.Echoes endpoint found)
    (now : Int64) (term : String) (options : SearchOptions) (hsize : options.size ≠ 0)
    (state : σ) :
    (∀ number : UInt32, ∃ page,
      (perform settings transport state now (.search term (options.forPage number))).1.result =
        .ok (.page page) ∧ page.current.map UInt64.toNat = .ok (max 1 number.toNat)) ∧
    (found.toNat ⌈/⌉ options.size.toNat < UInt32.size →
      ∀ limit, max 1 (found.toNat ⌈/⌉ options.size.toNat) ≤ limit →
        List.Forall₂
          (Report.ShowsPage endpoint term options (found.toNat ⌈/⌉ options.size.toNat))
          (List.range (max 1 (found.toNat ⌈/⌉ options.size.toNat)))
          (walk settings transport now term options limit state 1) ∧
        ((walk settings transport now term options limit state 1).flatMap Report.sent).flatMap
          (Request.window endpoint options.size.toNat found.toNat) =
            List.range found.toNat) := by
  constructor
  · intro number
    exact perform_search_forPage_current hlive hendpoint hecho now term hsize state number
  · intro hpages limit hlimit
    have hshows := forall₂_showsPage_walk hlive hendpoint hecho now term hsize hpages hlimit state
    exact ⟨hshows, flatMap_window_eq_range term hsize hpages hshows⟩

/-- Twenty-three results stand on three pages of ten, and a walk that may go on stops there. -/
theorem walk_visits_every_result_once_of_three_pages :
    ∃ endpoint, Settings.searchUrl? { searchDomain := some "donuts", mode := .live } =
        some endpoint ∧
      (walk { searchDomain := some "donuts", mode := .live } (Transport.echo endpoint 23) 0 "glaze"
        {} 8 () 1).length = 3 ∧
      ((walk { searchDomain := some "donuts", mode := .live } (Transport.echo endpoint 23) 0 "glaze"
        {} 8 () 1).flatMap Report.sent).flatMap (Request.window endpoint 10 23) =
          List.range 23 := by
  have hendpoint : Settings.searchUrl? { searchDomain := some "donuts", mode := .live } =
      some "https://search-donuts.us-east-1.cloudsearch.amazonaws.com/2013-01-01/search" := rfl
  have hcount : (23 : UInt64).toNat ⌈/⌉ (SearchOptions.size {}).toNat = 3 := rfl
  obtain ⟨-, hwalk⟩ := walk_visits_every_result_once rfl hendpoint
    (Transport.echoes_echo _ 23) 0 "glaze" {} (by decide) ()
  rw [hcount] at hwalk
  obtain ⟨hshows, hwindows⟩ := hwalk (by decide) 8 (by decide)
  exact ⟨_, hendpoint, hshows.length_eq.symm, hwindows⟩

end Client

end HostedSearch
