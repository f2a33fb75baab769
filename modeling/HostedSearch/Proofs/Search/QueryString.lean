import HostedSearch.Proofs.Text.Percent
import HostedSearch.SearchRequest

/-!
# Reading the URL of a search

A query string is read by splitting it at ampersands, cutting every piece at its first equals sign
and decoding what stands behind it. From the URL of a search its parameters are read back as they
are, since nothing in a name or an encoded value is an ampersand or an equals sign. The value that
lists the returned fields is read a second way: split at its commas before it is decoded, it gives
the fields one by one, unless the name of a field has a comma in it.
-/

namespace HostedSearch

/-- The text before the first equals sign and the text behind it, if there is one. -/
def cutAtEquals? : List Char → Option (List Char × List Char)
  | [] => none
  | c :: cs =>
    if c = '=' then some ([], cs)
    else (cutAtEquals? cs).map fun (before, behind) => (c :: before, behind)

/-- The names and the encoded values of the parameters in a query string. -/
def rawParameters? (query : List Char) : Option (List (String × List Char)) :=
  (query.splitOn '&').mapM fun piece =>
    (cutAtEquals? piece).map fun (name, value) => (String.ofList name, value)

/-- The parameters that encoded values stand for. -/
def decodeParameters? (raw : List (String × List Char)) : Option (List (String × String)) :=
  raw.mapM fun (name, value) => (percentDecode? value).map fun text => (name, text)

/-- A name without an equals sign is cut off at the one that follows it. -/
theorem cutAtEquals?_append {name : List Char} (hname : '=' ∉ name) (value : List Char) :
    cutAtEquals? (name ++ '=' :: value) = some (name, value) := by
  induction name with
  | nil => rfl
  | cons c name ih =>
    obtain ⟨hc, hname⟩ : '=' ≠ c ∧ '=' ∉ name := by simpa using hname
    rw [List.cons_append, cutAtEquals?, if_neg hc.symm, ih hname]
    rfl

namespace Parameter

/-- The name of a parameter needs no encoding. -/
theorem isUnreserved_of_mem_name (parameter : Parameter) :
    ∀ c ∈ parameter.name.toList, isUnreserved c := by
  have hall : parameter.name.toList.all isUnreserved := by
    cases parameter <;> rfl
  exact List.all_eq_true.mp hall

/-- Parameters with one name are the same. -/
theorem name_injective : Function.Injective name := by
  intro left right h
  cases left <;> cases right <;> simp [name] at h ⊢

end Parameter

namespace SearchRequest

/-- No value keeps its percent signs, ampersands or equals signs. -/
theorem keeps_eq_false {c : Char} (hc : c ≠ ',') (parameter : Parameter) :
    keeps parameter c = false := by
  cases parameter <;> simp [keeps, hc]

/-- A parameter is written without ampersands. -/
theorem ampersand_notMem_parameterText (parameter : Parameter) (value : String) :
    '&' ∉ parameterText parameter value := by
  have hname : '&' ∉ parameter.name.toList := fun h =>
    absurd (parameter.isUnreserved_of_mem_name _ h) (by decide)
  have hvalue : '&' ∉ percentEncode (keeps parameter) value.toList :=
    notMem_percentEncode (by decide) (keeps_eq_false (by decide) parameter) (by decide) _
  simp [parameterText, hname, hvalue]

/-- A written parameter is cut into its name and its encoded value. -/
theorem cutAtEquals?_parameterText (parameter : Parameter) (value : String) :
    cutAtEquals? (parameterText parameter value) =
      some (parameter.name.toList, percentEncode (keeps parameter) value.toList) := by
  have hname : '=' ∉ parameter.name.toList := fun h =>
    absurd (parameter.isUnreserved_of_mem_name _ h) (by decide)
  exact cutAtEquals?_append hname _

/-- The names of the parameters of a request with their encoded values. -/
def rawParameters (request : SearchRequest) : List (String × List Char) :=
  request.parameters.map fun (parameter, value) =>
    (parameter.name, percentEncode (keeps parameter) value.toList)

/-- Splitting and cutting the query string gives its names and encoded values. -/
theorem rawParameters?_queryString {request : SearchRequest} (h : request.parameters ≠ []) :
    rawParameters? request.queryString = some request.rawParameters := by
  have hsplit : request.queryString.splitOn '&' =
      request.parameters.map fun (parameter, value) => parameterText parameter value := by
    refine List.splitOn_intercalate '&' ?_ (by simpa using h)
    intro piece hpiece
    obtain ⟨⟨parameter, value⟩, -, rfl⟩ := List.mem_map.mp hpiece
    exact ampersand_notMem_parameterText parameter value
  rw [rawParameters?, hsplit, List.mapM_map, rawParameters]
  simp only [Function.comp_def, cutAtEquals?_parameterText, Option.map_some, String.ofList_toList]
  exact List.mapM_pure

/-- Decoding the values gives the parameters back. -/
theorem decodeParameters?_rawParameters (request : SearchRequest) :
    decodeParameters? request.rawParameters =
      some (request.parameters.map fun (parameter, value) => (parameter.name, value)) := by
  have hdecode (parameter : Parameter) (value : String) :
      percentDecode? (percentEncode (keeps parameter) value.toList) = some value :=
    percentDecode?_percentEncode (keeps_eq_false (by decide) parameter) value
  rw [decodeParameters?, rawParameters, List.mapM_map]
  simp only [Function.comp_def, hdecode, Option.map_some]
  exact List.mapM_pure

/-! ## Returned fields -/

/-- What is made of the value of a parameter stands under its name. -/
theorem lookup_name_map {β : Type} (f : Parameter → String → β)
    (parameters : List (Parameter × String)) (parameter : Parameter) :
    (parameters.map fun (key, value) => (key.name, f key value)).lookup parameter.name =
      (parameters.lookup parameter).map (f parameter) := by
  induction parameters with
  | nil => rfl
  | cons entry entries ih =>
    obtain ⟨key, value⟩ := entry
    by_cases h : parameter = key
    · subst h
      simp
    · have hname : parameter.name ≠ key.name := fun hname => h (Parameter.name_injective hname)
      rw [List.map_cons, List.lookup_cons, List.lookup_cons]
      simp only [beq_eq_false_iff_ne.mpr h, beq_eq_false_iff_ne.mpr hname]
      exact ih

/-- The encoded value of a parameter stands under its name. -/
theorem lookup_name_rawParameters (request : SearchRequest) (parameter : Parameter) :
    request.rawParameters.lookup parameter.name =
      (request.value? parameter).map fun value => percentEncode (keeps parameter) value.toList :=
  lookup_name_map (fun key value => percentEncode (keeps key) value.toList) _ parameter

/-- A search lists the fields it wants returned, if there are any. -/
theorem value?_returnFields_build (endpoint term : String) (options : SearchOptions) :
    (build endpoint term options).value? .returnFields = options.returnList? := by
  -- No other group of parameters holds one that lists returned fields.
  have hquery : (options.queryParameters term).lookup .returnFields = none := by
    unfold SearchOptions.queryParameters
    split <;> rfl
  have hoptions : (options.queryOptions.map fun text =>
      (Parameter.queryOptions, text)).toList.lookup .returnFields = none := by
    cases options.queryOptions <;> rfl
  have hstart : (options.page.map fun page => (Parameter.start,
      toString (SearchOptions.startOf page options.size))).toList.lookup .returnFields = none := by
    cases options.page <;> rfl
  have hrank : (options.ranking.map fun ranking =>
      (Parameter.rank, ranking.parameter)).toList.lookup .returnFields = none := by
    cases options.ranking <;> rfl
  have hsize : [(Parameter.size, toString options.size.toNat)].lookup .returnFields = none := rfl
  simp only [build, value?, SearchOptions.parameters, List.lookup_append, hquery, hsize, hoptions,
    hstart, hrank, Option.none_or, Option.or_none]
  cases options.returnList? <;> rfl

/-- The value that lists returned fields gives them back one by one when it is split at commas. -/
theorem mapM_percentDecode?_splitOn_returnFields {fields : List String} (hfields : fields ≠ [])
    (hcomma : ∀ field ∈ fields, ',' ∉ field.toList) :
    ((percentEncode (keeps .returnFields) (",".intercalate fields).toList).splitOn ',').mapM
      percentDecode? = some fields := by
  have hlist : (",".intercalate fields).toList.splitOn ',' = fields.map String.toList := by
    rw [String.toList_intercalate]
    refine List.splitOn_intercalate ',' ?_ (by simpa using hfields)
    intro piece hpiece
    obtain ⟨field, hfield, rfl⟩ := List.mem_map.mp hpiece
    exact hcomma field hfield
  have hencoded : (percentEncode (keeps .returnFields) (",".intercalate fields).toList).splitOn
      ',' = fields.map fun field => percentEncode (fun _ => false) field.toList := by
    change (percentEncode (· == ',') _).splitOn ',' = _
    rw [percentEncode_eq_intercalate_splitOn, hlist, List.map_map]
    refine List.splitOn_intercalate ',' ?_ (by simpa using hfields)
    intro piece hpiece
    obtain ⟨field, -, rfl⟩ := List.mem_map.mp hpiece
    exact notMem_percentEncode (by decide) rfl (by decide) _
  have hdecode (field : String) :
      percentDecode? (percentEncode (fun _ => false) field.toList) = some field :=
    percentDecode?_percentEncode rfl field
  rw [hencoded, List.mapM_map]
  simp only [Function.comp_def, hdecode]
  exact List.mapM_pure.trans (by simp)

/-- The URL of a search is its endpoint and a query string from which the parameters of the search
are read back. The query string is made of names and encoded values alone, in which only the
commas between returned fields stand for themselves; so no value can end early or begin another
parameter. Returned fields without commas are read back one by one. -/
theorem url_reads_back (endpoint term : String) (options : SearchOptions) :
    ∃ query raw, (build endpoint term options).url = endpoint ++ "?" ++ String.ofList query ∧
      rawParameters? query = some raw ∧
      decodeParameters? raw = some ((build endpoint term options).parameters.map
        fun (parameter, value) => (parameter.name, value)) ∧
      query = ['&'].intercalate (raw.map fun (name, value) => name.toList ++ '=' :: value) ∧
      (∀ name value, (name, value) ∈ raw → (∀ c ∈ name.toList, isUnreserved c) ∧
        IsPercentEncoded (fun c => name == "return" && c == ',') value) ∧
      (options.returnFields ≠ [] → (∀ field ∈ options.returnFields, ',' ∉ field.toList) →
        ∃ value, raw.lookup "return" = some value ∧
          (value.splitOn ',').mapM percentDecode? = some options.returnFields) := by
  have hparameters : (build endpoint term options).parameters ≠ [] := by
    simp [build, SearchOptions.parameters]
  refine ⟨(build endpoint term options).queryString, (build endpoint term options).rawParameters,
    rfl, rawParameters?_queryString hparameters, decodeParameters?_rawParameters _, ?_, ?_, ?_⟩
  · simp only [queryString, rawParameters, List.map_map]
    rfl
  · intro name value h
    obtain ⟨⟨parameter, text⟩, -, hentry⟩ := List.mem_map.mp h
    obtain ⟨rfl, rfl⟩ := Prod.mk.inj hentry
    have hkeeps : keeps parameter = fun c => parameter.name == "return" && c == ',' := by
      funext c
      cases parameter <;> rfl
    refine ⟨parameter.isUnreserved_of_mem_name, ?_⟩
    rw [← hkeeps]
    exact isPercentEncoded_percentEncode _ _
  · intro hfields hcomma
    refine ⟨_, ?_, mapM_percentDecode?_splitOn_returnFields hfields hcomma⟩
    change (build endpoint term options).rawParameters.lookup Parameter.returnFields.name = _
    rw [lookup_name_rawParameters, value?_returnFields_build, SearchOptions.returnList?,
      if_neg (by simpa using hfields), Option.map_some]

/-- A term that looks like a further parameter stays a term, and fields with reserved characters
are read back. -/
theorem url_reads_back_of_reserved :
    ∃ query raw value, (build "https://donuts/search" "glaze&size=99"
        { returnFields := ["price %", "a&b=c"] }).url =
        "https://donuts/search" ++ "?" ++ String.ofList query ∧
      rawParameters? query = some raw ∧
      decodeParameters? raw =
        some [("q", "glaze&size=99"), ("size", "10"), ("return", "price %,a&b=c")] ∧
      raw.lookup "return" = some value ∧
      (value.splitOn ',').mapM percentDecode? = some ["price %", "a&b=c"] := by
  obtain ⟨query, raw, hurl, hraw, hdecode, -, -, hreturn⟩ :=
    url_reads_back "https://donuts/search" "glaze&size=99" { returnFields := ["price %", "a&b=c"] }
  obtain ⟨value, hvalue, hfields⟩ := hreturn (by decide) (by decide)
  exact ⟨query, raw, value, hurl, hraw, hdecode, hvalue, hfields⟩

end SearchRequest

end HostedSearch
