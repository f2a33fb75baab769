import HostedSearch.Proofs.Search.Paging
import HostedSearch.Proofs.Search.Response
import Mathlib.Order.Bounds.Defs

/-!
# Paging at the limits of its words

The start of a page, the number of a page, the number of pages and the neighbours of a page are
computed in 64-bit words, from counts that the service may choose freely. Here they are compared
with the same numbers counted without a bound. There is one page on which the computation fails:
pages hold one result each, and the page starts at the last offset that a word has. Its number is
one more than a word holds, so neither the page nor its neighbours have a number. On every other
page nothing overflows.
-/

namespace HostedSearch

namespace SearchOptions

/-- The start of a page as a product of words; page zero counts as page one. -/
def startWord (number size : UInt32) : UInt64 :=
  (if number = 0 then 0 else number - 1).toUInt64 * size.toUInt64

/-- The product of words is the number of results before the page. -/
theorem toNat_startWord (number size : UInt32) :
    (startWord number size).toNat = startOf number size := by
  have hbefore : (if number = 0 then 0 else number - 1 : UInt32).toNat = number.toNat - 1 := by
    by_cases hzero : number = 0
    · rw [if_pos hzero, hzero]
      rfl
    · have hone : 1 ≤ number := UInt32.le_iff_toNat_le.mpr (toNat_pos_of_ne_zero hzero)
      rw [if_neg hzero, UInt32.toNat_sub_of_le _ _ hone]
      rfl
  have hroom := SearchRequest.startOf_lt number size
  rw [startOf, ← hbefore] at hroom ⊢
  rw [startWord, UInt64.toNat_mul, UInt32.toNat_toUInt64, UInt32.toNat_toUInt64]
  exact Nat.mod_eq_of_lt hroom

end SearchOptions

namespace ResultPage

/-- The page and its neighbours have these numbers, and together with the number of all pages they
agree with the results before the page and with all results. -/
structure Paged (page : ResultPage) (current : UInt64) (before after : Option UInt64) : Prop where
  current_eq : page.current = .ok current
  previous_eq : page.previous? = .ok before
  next_eq : page.next? = .ok after
  one_le : 1 ≤ current.toNat
  starts : page.pageSize ≠ 0 →
    (current.toNat - 1) * page.pageSize.toNat ≤ page.offset.toNat ∧
      page.offset.toNat < current.toNat * page.pageSize.toNat
  covers : page.pageSize ≠ 0 →
    IsLeast {n | page.total.toNat ≤ n * page.pageSize.toNat} page.pages.toNat
  previous : ∀ number, before = some number →
    1 ≤ number.toNat ∧ number.toNat + 1 = current.toNat
  next : ∀ number, after = some number →
    number.toNat = current.toNat + 1 ∧ number.toNat ≤ page.pages.toNat

/-- The page that starts at the last offset of all, when pages hold one result each. -/
def AtLimit (page : ResultPage) : Prop :=
  page.pageSize = 1 ∧ page.offset = 18446744073709551615

variable {page : ResultPage}

/-! ## Numbers and results -/

/-- The number of a page is at least one. -/
theorem one_le_number (page : ResultPage) : 1 ≤ page.number := by
  unfold number
  split
  · exact Nat.le_refl 1
  · exact Nat.le_add_left 1 _

/-- A word holds the number of every page but the one at the limit. -/
theorem number_lt_iff : page.number < 2 ^ 64 ↔ ¬ page.AtLimit := by
  have hoffset : page.offset.toNat < 2 ^ 64 := page.offset.toNat_lt
  have hlast : page.offset = 18446744073709551615 ↔ page.offset.toNat = 18446744073709551615 :=
    UInt64.toNat_inj.symm
  unfold AtLimit number
  by_cases hzero : page.pageSize = 0
  · simp [hzero]
  by_cases hone : page.pageSize = 1
  · have hnumber : page.offset.toNat / page.pageSize.toNat = page.offset.toNat := by
      rw [hone]
      exact Nat.div_one _
    rw [if_neg hzero, hnumber, hlast]
    simp only [hone, true_and]
    omega
  · -- Pages of at least two results are at most half as many as offsets.
    have hpos := toNat_pos_of_ne_zero hzero
    have hne : page.pageSize.toNat ≠ 1 := fun h => hone (UInt32.toNat_inj.mp h)
    have hhalf : page.offset.toNat / page.pageSize.toNat ≤ page.offset.toNat / 2 :=
      Nat.div_le_div_left (by omega) (by decide)
    simp only [hzero, hone, false_and, if_false, not_false_eq_true, iff_true]
    omega

/-- The results before a page fill the pages before it, but not the page. -/
theorem number_spec (hsize : page.pageSize ≠ 0) :
    (page.number - 1) * page.pageSize.toNat ≤ page.offset.toNat ∧
      page.offset.toNat < page.number * page.pageSize.toNat := by
  have hdiv := Nat.div_add_mod page.offset.toNat page.pageSize.toNat
  have hmod := Nat.mod_lt page.offset.toNat (toNat_pos_of_ne_zero hsize)
  rw [number, if_neg hsize, Nat.add_sub_cancel, Nat.succ_mul, Nat.mul_comm]
  omega

/-- The pages are just as many as all results need. -/
theorem isLeast_count (hsize : page.pageSize ≠ 0) :
    IsLeast {n | page.total.toNat ≤ n * page.pageSize.toNat} page.count := by
  have hpos := toNat_pos_of_ne_zero hsize
  rw [count, if_neg hsize]
  refine ⟨?_, fun n hn => ?_⟩
  · change page.total.toNat ≤ _ * page.pageSize.toNat
    rw [Nat.mul_comm]
    exact (ceilDiv_le_iff_le_mul hpos).mp le_rfl
  · apply (ceilDiv_le_iff_le_mul hpos).mpr
    rwa [Nat.mul_comm]

/-- What is computed without overflow agrees with the results. -/
theorem FitsWords.exists_paged (h : page.FitsWords) :
    ∃ current before after, page.Paged current before after := by
  obtain ⟨current, hcurrent, hnumber⟩ := Json.map_eq_ok.mp h.current
  obtain ⟨before, hbefore, hprevious⟩ := Json.map_eq_ok.mp h.previous
  obtain ⟨after, hafter, hnext⟩ := Json.map_eq_ok.mp h.next
  refine ⟨current, before, after, hcurrent, hbefore, hafter, ?_, ?_, ?_, ?_, ?_⟩
  · exact hnumber ▸ one_le_number page
  · exact fun hsize => hnumber ▸ number_spec hsize
  · exact fun hsize => h.pages ▸ isLeast_count hsize
  · rintro number rfl
    split at hprevious
    · rw [hnumber, Option.some.inj hprevious]
      omega
    · cases hprevious
  · rintro number rfl
    split at hnext
    · rw [hnumber, h.pages, Option.some.inj hnext]
      omega
    · cases hnext

/-- The page at the limit has no number. -/
theorem current_of_atLimit (h : page.AtLimit) : page.current = .error .pageNumber := by
  obtain ⟨hsize, hoffset⟩ := h
  rw [current, hsize, hoffset]
  rfl

/-! ## Pages of responses -/

/-- A page has the size that was asked for. -/
theorem pageSize_of_ofResponse {body : String} {size : UInt32}
    (h : ofResponse body size = .ok page) : page.pageSize = size := by
  obtain ⟨part, -, hpage⟩ := Json.bind_eq_ok.mp h
  obtain rfl := Except.ok.inj hpage
  rfl

/-- The start of a page fits a word, whichever page is asked for. What is computed for a page that
a response stands for is what the counts of the response say, without overflow, if and only if it
is not the page at the limit; at the limit there are no numbers at all. -/
theorem paged_iff_not_atLimit (endpoint term : String) (options : SearchOptions) (body : String)
    (size : UInt32) :
    (∀ number, options.page = some number →
      (SearchRequest.build endpoint term options).value? .start =
        some (toString (SearchOptions.startWord number options.size).toNat) ∧
      (SearchOptions.startWord number options.size).toNat =
        (number.toNat - 1) * options.size.toNat) ∧
    ∀ page, ofResponse body size = .ok page →
      page.pageSize = size ∧ (page.FitsWords ↔ ¬ page.AtLimit) ∧
      ((∃ current before after, page.Paged current before after) ↔ ¬ page.AtLimit) ∧
      (page.AtLimit → page.current = .error .pageNumber ∧ page.previous? = .error .pageNumber ∧
        page.next? = .error .pageNumber) := by
  refine ⟨fun number hpage => ?_, fun page hread => ?_⟩
  · have hstart := SearchOptions.toNat_startWord number options.size
    rw [SearchRequest.value?_start_build endpoint term hpage, hstart]
    exact ⟨rfl, rfl⟩
  · have hfits : page.FitsWords ↔ ¬ page.AtLimit := fitsWords_iff.trans number_lt_iff
    refine ⟨pageSize_of_ofResponse hread, hfits, ⟨?_, fun h => (hfits.mpr h).exists_paged⟩, ?_⟩
    · rintro ⟨current, before, after, hpaged⟩ hat
      cases (current_of_atLimit hat).symm.trans hpaged.current_eq
    · intro hat
      have hcurrent := current_of_atLimit hat
      refine ⟨hcurrent, ?_, ?_⟩
      · rw [previous?, hcurrent]
        rfl
      · rw [next?, hcurrent]
        rfl

/-- The third page of ten results each, of twenty-three in all, is in order and is the last, and a
request for it says where it starts. -/
theorem paged_iff_not_atLimit_of_third_page :
    (SearchRequest.build "https://donuts/search" "glaze" { page := some 3 }).value? .start =
        some "20" ∧
      (⟨[], 23, 20, 10, false⟩ : ResultPage).Paged 3 (some 2) none := by
  obtain ⟨hstart, hpaged⟩ := paged_iff_not_atLimit "https://donuts/search" "glaze"
    { page := some 3 } (countsJson 23 20).compact 10
  obtain ⟨-, -, hiff, -⟩ := hpaged _ (ofResponse_countsJson 23 20 10)
  obtain ⟨current, before, after, hthird⟩ := hiff.mpr (by
    rintro ⟨hsize, -⟩
    exact absurd hsize (by decide))
  obtain rfl : 3 = current := Except.ok.inj hthird.current_eq
  obtain rfl : some 2 = before := Except.ok.inj hthird.previous_eq
  obtain rfl : none = after := Except.ok.inj hthird.next_eq
  exact ⟨(hstart 3 rfl).1, hthird⟩

/-- A page of one result that starts at the last offset of all has no number, although the response
is read. -/
theorem page_at_last_offset_has_no_number :
    ofResponse "\x7b\"hits\":\x7b\"found\":0,\"start\":18446744073709551615\x7d\x7d" 1 =
        .ok ⟨[], 0, 18446744073709551615, 1, false⟩ ∧
      (⟨[], 0, 18446744073709551615, 1, false⟩ : ResultPage).current = .error .pageNumber ∧
      ¬ ∃ current before after,
        (⟨[], 0, 18446744073709551615, 1, false⟩ : ResultPage).Paged current before after := by
  have htext : (countsJson 0 18446744073709551615).compact =
      "\x7b\"hits\":\x7b\"found\":0,\"start\":18446744073709551615\x7d\x7d" := by cbv
  have hlimit : (⟨[], 0, 18446744073709551615, 1, false⟩ : ResultPage).current =
      .error .pageNumber := current_of_atLimit ⟨rfl, rfl⟩
  refine ⟨htext ▸ ofResponse_countsJson 0 18446744073709551615 1, hlimit, ?_⟩
  rintro ⟨current, before, after, hpaged⟩
  cases hlimit.symm.trans hpaged.current_eq

end ResultPage

end HostedSearch
