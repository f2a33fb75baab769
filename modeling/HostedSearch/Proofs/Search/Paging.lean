import HostedSearch.Proofs.Number.Digits
import HostedSearch.Proofs.Search.QueryString
import HostedSearch.ResultPage
import Mathlib.Algebra.Order.Floor.Div

/-!
# From page to page

A search for a page asks for the results from a start on, and a page is told from where it starts.
The number of a page, the number of pages and the neighbours of a page are computed in 64-bit
words. When the page starts where a search asked for it, nothing is rounded and nothing overflows,
so it is the page that was asked for. The pages that there are cover the results, each result once
and in order.
-/

namespace HostedSearch

namespace SearchRequest

/-- The start that a request to an endpoint asks for, as the service reads it from the URL; without
one it is zero. -/
def requestedStart (endpoint url : String) : UInt64 :=
  let parameters :=
    (rawParameters? (url.toList.drop (endpoint.length + 1))).bind decodeParameters?
  let text := parameters.bind fun parameters => parameters.lookup "start"
  match text.map fun text => readUInt64 text.toList with
  | some (.ok start) => start
  | _ => 0

/-- A search for a page says where the page starts. -/
theorem value?_start_build (endpoint term : String) {options : SearchOptions} {number : UInt32}
    (hpage : options.page = some number) :
    (build endpoint term options).value? .start =
      some (toString (SearchOptions.startOf number options.size)) := by
  -- No group of parameters before holds one that says where the page starts.
  have hquery : (options.queryParameters term).lookup .start = none := by
    unfold SearchOptions.queryParameters
    split <;> rfl
  have hoptions : (options.queryOptions.map fun text =>
      (Parameter.queryOptions, text)).toList.lookup .start = none := by
    cases options.queryOptions <;> rfl
  have hreturn : (options.returnList?.map fun names =>
      (Parameter.returnFields, names)).toList.lookup .start = none := by
    cases options.returnList? <;> rfl
  have hsize : [(Parameter.size, toString options.size.toNat)].lookup .start = none := rfl
  simp only [build, value?, SearchOptions.parameters, List.lookup_append, hquery, hsize, hoptions,
    hreturn, hpage, Option.none_or]
  rfl

/-- What stands before a page fits a word. -/
theorem startOf_lt (number size : UInt32) : SearchOptions.startOf number size < UInt64.size := by
  have hnumber : number.toNat - 1 ≤ 2 ^ 32 - 1 := by
    have hlt : number.toNat < 2 ^ 32 := number.toNat_lt
    omega
  have hsize : size.toNat ≤ 2 ^ 32 - 1 := Nat.le_sub_one_of_lt size.toNat_lt
  exact Nat.lt_of_le_of_lt (Nat.mul_le_mul hnumber hsize) (by decide)

/-- The service reads the start of the page that a search is for. -/
theorem requestedStart_url (endpoint term : String) {options : SearchOptions} {number : UInt32}
    (hpage : options.page = some number) :
    (requestedStart endpoint (build endpoint term options).url).toNat =
      SearchOptions.startOf number options.size := by
  have hdrop : (build endpoint term options).url.toList.drop (endpoint.length + 1) =
      (build endpoint term options).queryString := by
    have hlength : (endpoint.toList ++ "?".toList).length = endpoint.length + 1 := by
      rw [List.length_append, String.length_toList]
      rfl
    have hquery := String.toList_ofList (l := (build endpoint term options).queryString)
    rw [url, String.toList_append, String.toList_append, hquery]
    exact List.drop_left' hlength
  have hparameters : (build endpoint term options).parameters ≠ [] := by
    simp [build, SearchOptions.parameters]
  have hstart := value?_start_build endpoint term hpage
  have hlookup := lookup_name_map (fun _ value => value) (build endpoint term options).parameters
    .start
  rw [← value?, hstart, Option.map_some] at hlookup
  change List.lookup "start" _ = _ at hlookup
  have hvalue : (UInt64.ofNat (SearchOptions.startOf number options.size)).toNat =
      SearchOptions.startOf number options.size :=
    UInt64.toNat_ofNat_of_lt' (startOf_lt number options.size)
  have hread : readUInt64 (toString (SearchOptions.startOf number options.size)).toList =
      .ok (UInt64.ofNat (SearchOptions.startOf number options.size)) := by
    have hdigits := readUInt64_digitsOf (UInt64.ofNat (SearchOptions.startOf number options.size))
    rw [hvalue] at hdigits
    rw [Nat.toString_eq_repr, Nat.toList_repr]
    exact hdigits
  rw [requestedStart, hdrop, rawParameters?_queryString hparameters, Option.bind_some,
    decodeParameters?_rawParameters, Option.bind_some, hlookup, Option.map_some, hread]
  exact hvalue

end SearchRequest

/-- A rounded-up quotient is the quotient, and one more if there is a remainder. -/
theorem ceilDiv_eq_ite (n : Nat) {d : Nat} (hd : 0 < d) :
    n ⌈/⌉ d = if n % d = 0 then n / d else n / d + 1 := by
  have hremainder : n % d < d := Nat.mod_lt n hd
  have hsplit : n + d - 1 = d * (n / d) + (n % d + d - 1) := by
    have hn := Nat.div_add_mod n d
    omega
  rw [Nat.ceilDiv_eq_add_pred_div, hsplit, Nat.mul_add_div hd]
  by_cases hzero : n % d = 0
  · have hnone : (n % d + d - 1) / d = 0 := Nat.div_eq_of_lt (by omega)
    rw [if_pos hzero, hnone, Nat.add_zero]
  · have hone : (n % d + d - 1) / d = 1 := Nat.div_eq_of_lt_le (by omega) (by omega)
    rw [if_neg hzero, hone]

/-- A word that is not zero is positive. -/
theorem toNat_pos_of_ne_zero {n : UInt32} (hn : n ≠ 0) : 0 < n.toNat :=
  UInt32.lt_iff_toNat_lt.mp (UInt32.pos_iff_ne_zero.mpr hn)

namespace ResultPage

/-- The number of the page, counted without a bound. -/
def number (page : ResultPage) : Nat :=
  if page.pageSize = 0 then 1 else page.offset.toNat / page.pageSize.toNat + 1

/-- How many pages there are, counted without a bound. -/
def count (page : ResultPage) : Nat :=
  if page.pageSize = 0 then 0 else page.total.toNat ⌈/⌉ page.pageSize.toNat

/-- What is computed for a page in words does not overflow, and is what is counted without a
bound. -/
structure FitsWords (page : ResultPage) : Prop where
  current : page.current.map UInt64.toNat = .ok page.number
  pages : page.pages.toNat = page.count
  previous : page.previous?.map (Option.map UInt64.toNat) =
    .ok (if 1 < page.number then some (page.number - 1) else none)
  next : page.next?.map (Option.map UInt64.toNat) =
    .ok (if page.number < page.count then some (page.number + 1) else none)

variable {page : ResultPage}

/-! ## Words and numbers -/

/-- The number of pages is the number of results divided by the page size, rounded up. -/
theorem toNat_pages (hsize : page.pageSize ≠ 0) :
    page.pages.toNat = page.total.toNat ⌈/⌉ page.pageSize.toNat := by
  have hpos := toNat_pos_of_ne_zero hsize
  have hremainder : page.total % page.pageSize.toUInt64 = 0 ↔
      page.total.toNat % page.pageSize.toNat = 0 := by
    rw [← UInt64.toNat_inj, UInt64.toNat_mod, UInt32.toNat_toUInt64]
    rfl
  simp only [pages, if_neg hsize, hremainder, ceilDiv_eq_ite _ hpos]
  split
  · rw [UInt64.toNat_div, UInt32.toNat_toUInt64]
  · next hrest =>
    -- With a remainder the page size is at least two, so there is room for one more page.
    have hroom : page.total.toNat / page.pageSize.toNat + 1 < 2 ^ 64 := by
      have htotal : page.total.toNat < 2 ^ 64 := page.total.toNat_lt
      have hone : page.pageSize.toNat ≠ 1 := by
        intro hone
        rw [hone, Nat.mod_one] at hrest
        exact hrest rfl
      have hhalf : page.total.toNat / page.pageSize.toNat ≤ page.total.toNat / 2 :=
        Nat.div_le_div_left (by omega) (by decide)
      omega
    rw [UInt64.toNat_add, UInt64.toNat_div, UInt32.toNat_toUInt64]
    exact Nat.mod_eq_of_lt hroom

/-- The word for the number of pages is that number. -/
theorem toNat_pages_eq_count (page : ResultPage) : page.pages.toNat = page.count := by
  by_cases hzero : page.pageSize = 0
  · rw [pages, count, if_pos hzero, if_pos hzero]
    rfl
  · rw [toNat_pages hzero, count, if_neg hzero]

/-- The word after a word is the one whose number is the next. -/
theorem successor_eq_ok_iff {n m : UInt64} : successor n = .ok m ↔ m.toNat = n.toNat + 1 := by
  have hm := m.toNat_lt_size
  rw [successor]
  split
  · next hroom =>
    have hnext : (n + 1).toNat = n.toNat + 1 := by
      rw [UInt64.toNat_add]
      exact Nat.mod_eq_of_lt hroom
    rw [Except.ok.injEq, ← UInt64.toNat_inj, hnext, eq_comm]
  · exact iff_of_false (by simp) (by omega)

/-- A word below another has a word after it. -/
theorem successor_of_lt {n m : UInt64} (h : n < m) :
    ∃ after, successor n = .ok after ∧ after.toNat = n.toNat + 1 := by
  have hroom : n.toNat + 1 < UInt64.size :=
    Nat.lt_of_le_of_lt (Nat.succ_le_of_lt (UInt64.lt_iff_toNat_lt.mp h)) m.toNat_lt_size
  have hafter := UInt64.toNat_ofNat_of_lt' hroom
  exact ⟨_, successor_eq_ok_iff.mpr hafter, hafter⟩

variable {word : UInt64}

/-- The number of a page is the word for it. -/
theorem current_eq_ok_iff : page.current = .ok word ↔ word.toNat = page.number := by
  unfold current number
  split
  · rw [Except.ok.injEq, ← UInt64.toNat_inj, eq_comm]
    rfl
  · rw [successor_eq_ok_iff, UInt64.toNat_div, UInt32.toNat_toUInt64]

/-- A page whose number is more than a word holds has none. -/
theorem current_eq_error_iff : page.current = .error .pageNumber ↔ 2 ^ 64 ≤ page.number := by
  constructor
  · intro h
    by_contra hroom
    have hvalue : (UInt64.ofNat page.number).toNat = page.number :=
      UInt64.toNat_ofNat_of_lt' (Nat.lt_of_not_le hroom)
    cases h.symm.trans (current_eq_ok_iff.mpr hvalue)
  · intro h
    cases hcurrent : page.current with
    | error overflow => rfl
    | ok word =>
      have hword : page.number < 2 ^ 64 := current_eq_ok_iff.mp hcurrent ▸ word.toNat_lt
      omega

/-- A page that has a number has the page before it as its neighbour, unless it is the first. -/
theorem map_toNat_previous? (hword : page.current = .ok word) :
    page.previous?.map (Option.map UInt64.toNat) =
      .ok (if 1 < page.number then some (page.number - 1) else none) := by
  have hvalue := current_eq_ok_iff.mp hword
  have hbehind : 1 < word ↔ 1 < page.number := by
    rw [UInt64.lt_iff_toNat_lt, hvalue]
    rfl
  rw [previous?, hword]
  change Except.ok ((if 1 < word then some (word - 1) else none).map UInt64.toNat) = _
  by_cases h : 1 < page.number
  · have hone := hbehind.mpr h
    rw [if_pos hone, if_pos h, Option.map_some,
      UInt64.toNat_sub_of_le _ _ (UInt64.le_of_lt hone), hvalue]
    rfl
  · rw [if_neg (mt hbehind.mp h), if_neg h, Option.map_none]

/-- A page that has a number has the page after it as its neighbour, unless it is the last: a word
that holds the number of all pages leaves room for it. -/
theorem map_toNat_next? (hword : page.current = .ok word) :
    page.next?.map (Option.map UInt64.toNat) =
      .ok (if page.number < page.count then some (page.number + 1) else none) := by
  have hvalue := current_eq_ok_iff.mp hword
  have hmore : word < page.pages ↔ page.number < page.count := by
    rw [UInt64.lt_iff_toNat_lt, hvalue, toNat_pages_eq_count]
  rw [next?, hword]
  change Except.map _ (if word < page.pages then successor word >>= fun next => pure (some next)
    else pure none) = _
  by_cases h : page.number < page.count
  · obtain ⟨after, hafter, hnumber⟩ := successor_of_lt (hmore.mpr h)
    rw [if_pos (hmore.mpr h), if_pos h, hafter, ← hvalue, ← hnumber]
    rfl
  · rw [if_neg (mt hmore.mp h), if_neg h]
    rfl

/-- Whatever is computed for a page is there and does not overflow exactly when a word holds the
number of the page. -/
theorem fitsWords_iff : page.FitsWords ↔ page.number < 2 ^ 64 := by
  constructor
  · intro h
    have hcurrent := h.current
    cases hword : page.current with
    | error overflow => rw [hword] at hcurrent; cases hcurrent
    | ok word => exact current_eq_ok_iff.mp hword ▸ word.toNat_lt
  · intro hroom
    have hvalue : (UInt64.ofNat page.number).toNat = page.number :=
      UInt64.toNat_ofNat_of_lt' hroom
    have hword := current_eq_ok_iff.mpr hvalue
    have hcurrent : page.current.map UInt64.toNat = .ok page.number := by
      rw [hword]
      exact congrArg Except.ok hvalue
    exact ⟨hcurrent, toNat_pages_eq_count page, map_toNat_previous? hword, map_toNat_next? hword⟩

/-- The page that starts behind `k` pages is the one after them. -/
theorem number_of_offset (hsize : page.pageSize ≠ 0) {k : Nat}
    (hoffset : page.offset.toNat = k * page.pageSize.toNat) : page.number = k + 1 := by
  rw [number, if_neg hsize, hoffset, Nat.mul_div_cancel k (toNat_pos_of_ne_zero hsize)]

/-- Nothing overflows for a page that starts behind fewer pages than can be asked for. -/
theorem fitsWords_of_offset (hsize : page.pageSize ≠ 0) {k : Nat} (hk : k < UInt32.size)
    (hoffset : page.offset.toNat = k * page.pageSize.toNat) : page.FitsWords := by
  rw [fitsWords_iff, number_of_offset hsize hoffset]
  exact Nat.lt_of_le_of_lt hk (by decide)

end ResultPage

/-! ## Coverage -/

/-- The results from `start` on that one page has room for. -/
def resultWindow (size total start : Nat) : List Nat :=
  List.range' start (min (start + size) total - start)

/-- The first pages hold the first results, each once and in order. -/
theorem flatMap_resultWindow (size total n : Nat) :
    ((List.range n).flatMap fun k => resultWindow size total (k * size)) =
      List.range (min (n * size) total) := by
  induction n with
  | zero => simp
  | succ n ih =>
    rw [List.range_succ, List.flatMap_append, ih, List.flatMap_singleton, resultWindow,
      Nat.succ_mul]
    obtain hfull | hover := Nat.le_total (n * size) total
    · have hcount : min (n * size + size) total =
          n * size + (min (n * size + size) total - n * size) := by omega
      have hjoin := List.range'_append_1 (s := 0) (m := n * size)
        (n := min (n * size + size) total - n * size)
      rw [Nat.zero_add, ← hcount, ← List.range_eq_range', ← List.range_eq_range'] at hjoin
      rw [Nat.min_eq_left hfull, hjoin]
    · have hnone : min (n * size + size) total - n * size = 0 := by omega
      have hsame : min (n * size + size) total = total := by omega
      rw [hnone, Nat.min_eq_right hover, hsame, List.range'_zero, List.append_nil]

end HostedSearch
