import HostedSearch.Command.Run
import HostedSearch.Proofs.Command.SearchLine
import HostedSearch.Proofs.Number.IntegerText
import HostedSearch.Proofs.Ranking.Notation
import HostedSearch.Proofs.Search.QueryString

/-!
# The URL that a search prints

A search may print the URL of its request instead of sending it. The query string of this URL is
read back as parameters that depend on nothing but the texts of the options: a filter is the JSON
text of one, numbers are digits, the fields to return are split at commas and joined again, which
leaves them as they were given, and a ranking is sent in its signed form, however it is written.
Arguments in other places print the same URL.
-/

namespace HostedSearch

/-! ## Fields to return -/

namespace Command

/-- The pieces between the commas of a text, joined again, are the text. -/
theorem intercalate_commaPieces (text : String) : ",".intercalate (commaPieces text) = text := by
  apply String.toList_inj.mp
  rw [String.toList_intercalate, commaPieces, List.map_map]
  simp only [Function.comp_def, String.toList_ofList, List.map_id']
  exact List.intercalate_splitOn ','

/-- There is always a piece. -/
theorem commaPieces_ne_nil (text : String) : commaPieces text ≠ [] := by
  simp [commaPieces, List.splitOn_ne_nil]

/-- Texts that are split at commas and then joined are joined as they were. -/
theorem intercalate_flatMap_commaPieces (texts : List String) :
    ",".intercalate (texts.flatMap commaPieces) = ",".intercalate texts := by
  induction texts with
  | nil => rfl
  | cons text texts ih =>
    cases texts with
    | nil => simp [intercalate_commaPieces]
    | cons next texts =>
      have hrest : (next :: texts).flatMap commaPieces ≠ [] := by
        simp [commaPieces_ne_nil]
      rw [List.flatMap_cons, String.intercalate_append_of_ne_nil (commaPieces_ne_nil text) hrest,
        intercalate_commaPieces, ih,
        String.intercalate_cons_of_ne_nil (List.cons_ne_nil next texts)]

/-! ## Texts of values -/

/-- The text is a number of 32 bits, in digits and perhaps behind a plus sign. -/
def IsNumberText (text : String) (n : Nat) : Prop :=
  IsNatural text.toList n ∧ n < UInt32.size

/-- The text is the JSON text of a filter, and the filter has this query. -/
def IsFilterText (text query : String) : Prop :=
  ∃ value filter, Json.parse text = .ok value ∧ Filter.ofJson value = .ok filter ∧
    Filter.query filter = query

/-- A signed word becomes the page number that has its value, if there is one. -/
theorem ite_toUInt32_eq_some_iff {n : Int64} {word : UInt32} :
    (if 0 ≤ n ∧ n.toInt < UInt32.size then some n.toUInt64.toUInt32 else none) = some word ↔
      (word.toNat : Int) = n.toInt := by
  have hword : word.toNat < UInt32.size := word.toNat_lt_size
  have hpos : 0 ≤ n ↔ 0 ≤ n.toInt := Int64.le_iff_toInt_le
  split
  · next hrange =>
    have hvalue : (n.toUInt64.toUInt32.toNat : Int) = n.toInt := by
      have hnonneg := hpos.mp hrange.1
      have hsmall : n.toInt.toNat < UInt32.size := by omega
      rw [UInt64.toNat_toUInt32, Int64.toNat_toUInt64_of_le hrange.1, ← Int64.toNat_toInt,
        Nat.mod_eq_of_lt hsmall, Int.toNat_of_nonneg hnonneg]
    rw [Option.some.injEq, ← UInt32.toNat_inj, ← hvalue, Int.ofNat_inj, eq_comm]
  · next hrange =>
    rw [hpos] at hrange
    exact iff_of_false (by simp) (by omega)

/-- A page number is read exactly from a text for it; the text does not begin with a dash. -/
theorem pageNumber?_eq_some_iff {text : String} (hdash : text.toList.head? ≠ some '-')
    {word : UInt32} : pageNumber? text = some word ↔ IsNatural text.toList word.toNat := by
  have hminus : ∀ rest, text.toList ≠ '-' :: rest := by
    intro rest h
    rw [h] at hdash
    exact hdash rfl
  unfold pageNumber?
  constructor
  · intro h
    split at h
    · next n hread =>
      obtain ⟨m, htext, hvalue⟩ := (readInt64_eq_ok_iff_isNatural hminus).mp hread
      have hword := (ite_toUInt32_eq_some_iff.mp h).trans hvalue.symm
      exact Int.ofNat_inj.mp hword ▸ htext
    · cases h
  · intro htext
    have hvalue : (Int64.ofNat word.toNat).toInt = word.toNat :=
      Int64.toInt_ofNat_of_lt (Nat.lt_trans word.toNat_lt (by decide))
    rw [(readInt64_eq_ok_iff_isNatural hminus).mpr ⟨_, htext, hvalue.symm⟩]
    exact ite_toUInt32_eq_some_iff.mpr hvalue.symm

/-- The number in a text is read exactly when the text is one; it does not begin with a dash. -/
theorem map_pageNumber?_eq_some_iff {text : String} (hdash : text.toList.head? ≠ some '-')
    {n : Nat} : (pageNumber? text).map UInt32.toNat = some n ↔ IsNumberText text n := by
  rw [Option.map_eq_some_iff]
  constructor
  · rintro ⟨word, hword, rfl⟩
    exact ⟨(pageNumber?_eq_some_iff hdash).mp hword, word.toNat_lt_size⟩
  · rintro ⟨htext, hsize⟩
    have hword : (UInt32.ofNat n).toNat = n := UInt32.toNat_ofNat_of_lt' hsize
    exact ⟨_, (pageNumber?_eq_some_iff hdash).mpr (hword.symm ▸ htext), hword⟩

/-- The query of the filter in a text is read exactly when the text is that of a filter. -/
theorem map_filter?_eq_some_iff {text query : String} :
    (filter? text).map Filter.query = some query ↔ IsFilterText text query := by
  unfold filter? Filter.ofText IsFilterText
  cases hvalue : Json.parse text with
  | error fault => simp [Except.toOption]
  | ok value => cases hfilter : Filter.ofJson value <;> simp [Except.toOption, hfilter]

/-- What a text that is given stands for is what is read from it, if reading it never fails. -/
theorem rel_iff_eq_bind {β : Type} {stands : String → β → Prop} {read : String → Option β}
    {given : Option String} {value : Option β}
    (h : ∀ text, given = some text →
      (∃ value, read text = some value) ∧ ∀ value, read text = some value ↔ stands text value) :
    Option.Rel stands given value ↔ value = given.bind read := by
  cases given with
  | none => cases value <;> simp
  | some text =>
    obtain ⟨⟨result, hresult⟩, hstands⟩ := h text rfl
    rw [Option.bind_some, hresult]
    cases value with
    | none => simp
    | some value => rw [Option.rel_some_some, ← hstands, hresult, eq_comm]

/-! ## Parameters -/

/-- What the values of the options of a search stand for, each if it is given: the query of the
filter, the number of results on a page, and the number of the page. -/
structure Meaning where
  query : Option String
  pageSize : Option Nat
  page : Option Nat

/-- The number of results on a page. -/
def Meaning.size (meaning : Meaning) : Nat :=
  meaning.pageSize.getD 10

/-- How many results stand before the page that is asked for. -/
def Meaning.startParameters (meaning : Meaning) : List (String × String) :=
  (meaning.page.map fun page =>
    ("start", toString ((max page 1 - 1) * meaning.size))).toList

namespace SearchLine

/-- The values in a line stand for this. -/
structure Means (line : SearchLine) (meaning : Meaning) : Prop where
  query : Option.Rel IsFilterText (line.value? "filter") meaning.query
  pageSize : Option.Rel IsNumberText (line.value? "page-size") meaning.pageSize
  page : Option.Rel IsNumberText (line.value? "page") meaning.page

/-- What is searched for: the query of the filter if it is not empty, and else the term. -/
def queryParameters (line : SearchLine) (meaning : Meaning) : List (String × String) :=
  if meaning.query.getD "" = "" then [("q", line.term?.getD "")]
  else [("q", meaning.query.getD ""), ("q.parser", "structured")]

/-- The fields to return, as they are given. -/
def returnParameters (line : SearchLine) : List (String × String) :=
  if line.values "return" = [] then [] else [("return", ",".intercalate (line.values "return"))]

/-- The signed form of the ranking that is asked for. -/
def rankParameters (line : SearchLine) : List (String × String) :=
  ((line.value? "rank").map fun text =>
    ("rank", Ranking.signedForm ((HostedSearch.words text.toList).map String.ofList))).toList

/-- The names and the values of the parameters that a line stands for. -/
def parameters (line : SearchLine) (meaning : Meaning) : List (String × String) :=
  line.queryParameters meaning ++ [("size", toString meaning.size)] ++
    ((line.value? "options").map fun text => ("q.options", text)).toList ++
    line.returnParameters ++ meaning.startParameters ++ line.rankParameters

variable {line : SearchLine}

/-- The value of an option of the search is one that the option takes. -/
theorem fault_of_value? {name text : String} {switch : Switch}
    (hname : outerLevel.switches.find? (·.name == name) = none)
    (hswitch : searchLevel.switches.find? (·.name == name) = some switch)
    (h : line.value? name = some text) :
    switch.fault text = none ∧
      ∀ repeats, switch.effect = .value false repeats → text.toList.head? ≠ some '-' := by
  rw [← line.lookup_behind name hname] at h
  obtain ⟨argument, hmem, hargument⟩ := List.mem_filterMap.mp (Association.mem_of_lookup_eq_some h)
  obtain ⟨found, hfound, hfault, hdash⟩ :=
    (line.behind_admitted argument hmem).exists_switch hargument
  obtain rfl := Option.some.inj (hswitch.symm.trans hfound)
  exact ⟨hfault, hdash⟩

/-- What has to be read as something can be read when nothing is wrong with it. -/
theorem exists_of_faultUnless {α : Type} {read : String → Option α} {text : String}
    (h : faultUnless read text = none) : ∃ value, read text = some value := by
  apply Option.isSome_iff_exists.mp
  by_contra hnone
  rw [faultUnless, if_neg hnone] at h
  cases h

/-- What the values in a line are read as. -/
def meaning (line : SearchLine) : Meaning :=
  ⟨line.options.filter.map Filter.query, line.options.pageSize.map UInt32.toNat,
    line.options.page.map UInt32.toNat⟩

/-- What the values in a line stand for is what they are read as. -/
theorem means_iff {meaning : Meaning} : line.Means meaning ↔ meaning = line.meaning := by
  have hquery : Option.Rel IsFilterText (line.value? "filter") meaning.query ↔
      meaning.query = line.options.filter.map Filter.query := by
    rw [options, Option.map_bind]
    refine rel_iff_eq_bind fun text htext => ⟨?_, fun query => map_filter?_eq_some_iff⟩
    obtain ⟨hfault, -⟩ := fault_of_value? rfl rfl htext
    obtain ⟨filter, hfilter⟩ := exists_of_faultUnless hfault
    exact ⟨_, congrArg (Option.map Filter.query) hfilter⟩
  have hnumber (name : String) (hname : outerLevel.switches.find? (·.name == name) = none)
      (hswitch : searchLevel.switches.find? (·.name == name) =
        some { valued name with fault := faultUnless pageNumber? }) (number : Option Nat) :
      Option.Rel IsNumberText (line.value? name) number ↔
        number = ((line.value? name).bind pageNumber?).map UInt32.toNat := by
    rw [Option.map_bind]
    refine rel_iff_eq_bind fun text htext => ?_
    obtain ⟨hfault, hdash⟩ := fault_of_value? hname hswitch htext
    obtain ⟨word, hword⟩ := exists_of_faultUnless hfault
    exact ⟨⟨_, congrArg (Option.map UInt32.toNat) hword⟩,
      fun n => map_pageNumber?_eq_some_iff (hdash false rfl)⟩
  have hsize := hnumber "page-size" rfl rfl meaning.pageSize
  have hpage := hnumber "page" rfl rfl meaning.page
  obtain ⟨query, pageSize, page⟩ := meaning
  rw [SearchLine.meaning, Meaning.mk.injEq]
  exact ⟨fun h => ⟨hquery.mp h.query, hsize.mp h.pageSize, hpage.mp h.page⟩,
    fun h => ⟨hquery.mpr h.1, hsize.mpr h.2.1, hpage.mpr h.2.2⟩⟩

/-- The options of a search have the size that the line gives. -/
theorem size_options (line : SearchLine) : line.options.size.toNat = line.meaning.size := by
  unfold SearchOptions.size Meaning.size meaning
  cases line.options.pageSize <;> rfl

/-- The options of a search have the query of the filter as theirs unless it is empty. -/
theorem structuredQuery?_options (line : SearchLine) :
    line.options.structuredQuery? =
      if line.meaning.query.getD "" = "" then none else some (line.meaning.query.getD "") := by
  unfold SearchOptions.structuredQuery? meaning
  cases line.options.filter with
  | none => rfl
  | some filter =>
    change (some filter.query).filter (fun query => !query.isEmpty) =
      if filter.query = "" then _ else _
    rw [Option.filter_some]
    by_cases hempty : filter.query = "" <;> simp [hempty]

/-- The options of a search say what to search for as the line does. -/
theorem queryParameters_options (line : SearchLine) :
    (line.options.queryParameters (line.term?.getD "")).map (Prod.map Parameter.name id) =
      line.queryParameters line.meaning := by
  rw [SearchOptions.queryParameters, structuredQuery?_options, queryParameters]
  by_cases hempty : line.meaning.query.getD "" = ""
  · rw [if_pos hempty, if_pos hempty]
    rfl
  · rw [if_neg hempty, if_neg hempty]
    rfl

/-- The options of a search ask for the page as the line does. -/
theorem startParameters_options (line : SearchLine) :
    (line.options.page.map fun page => (Parameter.start,
      toString (SearchOptions.startOf page line.options.size))).toList.map
      (Prod.map Parameter.name id) = line.meaning.startParameters := by
  have hstart (page : UInt32) : SearchOptions.startOf page line.options.size =
      (max page.toNat 1 - 1) * line.meaning.size := by
    have hpage : page.toNat - 1 = max page.toNat 1 - 1 := by omega
    rw [SearchOptions.startOf, size_options, hpage]
  simp only [hstart, Meaning.startParameters]
  generalize line.meaning.size = size
  unfold meaning
  cases line.options.page <;> rfl

/-- The options of a search list the fields to return as the line does. -/
theorem returnParameters_options (line : SearchLine) :
    (line.options.returnList?.map fun names => (Parameter.returnFields, names)).toList.map
      (Prod.map Parameter.name id) = line.returnParameters := by
  unfold returnParameters SearchOptions.returnList? options
  rw [intercalate_flatMap_commaPieces]
  cases line.values "return" with
  | nil => rfl
  | cons text texts => simp [commaPieces_ne_nil, Parameter.name]

/-- What is taken as a ranking is read as one. -/
theorem ofText_of_ranking? {text : String} {ranking : Ranking} (h : ranking? text = some ranking) :
    Ranking.ofText text = .ok ranking := by
  unfold ranking? at h
  cases hread : Ranking.ofText text with
  | error fault => rw [hread] at h; cases h
  | ok read => rw [hread] at h; exact congrArg _ (Option.some.inj h)

/-- The options of a search ask for the ranking as the line does. -/
theorem rankParameters_options (line : SearchLine) :
    (line.options.ranking.map fun ranking => (Parameter.rank, ranking.parameter)).toList.map
      (Prod.map Parameter.name id) = line.rankParameters := by
  unfold rankParameters options
  cases htext : line.value? "rank" with
  | none => rfl
  | some text =>
    obtain ⟨hfault, -⟩ := fault_of_value? rfl rfl htext
    obtain ⟨ranking, hranking⟩ := exists_of_faultUnless hfault
    have hsent : ranking.parameter =
        Ranking.signedForm ((HostedSearch.words text.toList).map String.ofList) :=
      Ranking.parameter_of_ofText (ofText_of_ranking? hranking)
    rw [Option.bind_some, Option.map_some, hranking, ← hsent]
    rfl

/-- The parameters of a search are those that its line stands for. -/
theorem parameters_options (line : SearchLine) :
    (line.options.parameters (line.term?.getD "")).map (Prod.map Parameter.name id) =
      line.parameters line.meaning := by
  have hsize : [(Parameter.size, toString line.options.size.toNat)].map
      (Prod.map Parameter.name id) = [("size", toString line.meaning.size)] := by
    rw [size_options]
    rfl
  have hoptions : (line.options.queryOptions.map fun text =>
      (Parameter.queryOptions, text)).toList.map (Prod.map Parameter.name id) =
      ((line.value? "options").map fun text => ("q.options", text)).toList := by
    unfold options
    cases line.value? "options" <;> rfl
  rw [SearchOptions.parameters, parameters]
  simp only [List.map_append, queryParameters_options, hsize, hoptions, returnParameters_options,
    startParameters_options, rankParameters_options]

end SearchLine

/-! ## Printing -/

/-- The words of a command line make it print the URL of a request. -/
def PrintsUrl {σ : Type} (surroundings : Surroundings) (transport : Transport σ) (state : σ)
    (now : Int64) (words : List String) (url : String) : Prop :=
  ∃ invocation, Invocation.ofWords words = .ok invocation ∧
    (invocation.run surroundings transport state now).output = .ok ("GET " ++ url ++ "\n")

/-- A search that is to print its URL, with settings that have a domain, prints the URL of its
request. -/
theorem SearchLine.printsUrl {σ : Type} {line : SearchLine} (hprint : line.has "print-url")
    {surroundings : Surroundings} {settings : Settings} {endpoint : String}
    (hsettings : Command.settings surroundings line.invocation = .ok settings)
    (hendpoint : settings.searchUrl? = some endpoint) (transport : Transport σ) (state : σ)
    (now : Int64) {other : SearchLine} (hother : other.Rearranges line) :
    PrintsUrl surroundings transport state now other.words
      (SearchRequest.build endpoint (line.term?.getD "") line.options).url := by
  refine ⟨line.invocation, hother.invocation_eq ▸ other.ofWords_words, ?_⟩
  have hcall : line.invocation.command.call =
      .ok (.searchRequest (line.term?.getD "") line.options) := by
    rw [SearchLine.invocation, hprint]
    rfl
  have hresult : (Client.perform settings transport state now
      (.searchRequest (line.term?.getD "") line.options)).1.result =
      .ok (.request (.build endpoint (line.term?.getD "") line.options)) := by
    rw [Client.perform, Plan.ofCall, Plan.searchRequest, hendpoint]
    rfl
  rw [Invocation.run, hsettings]
  change (Command.run settings transport state now line.invocation.command).output = _
  simp only [Command.run, hcall, hresult]
  rfl

end Command

end HostedSearch
