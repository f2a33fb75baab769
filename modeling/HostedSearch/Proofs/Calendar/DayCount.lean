import HostedSearch.Calendar
import Mathlib.Order.Monotone.Basic
import Mathlib.Order.SuccPred.Basic

/-!
# Counting days

The number of a day is computed from its year, month and day. Here it is compared with counting: the
number goes up by one from each day to the next, over the ends of months, years and centuries, so
it says how many days a date is after another. Dates are ordered as their numbers are.
-/

namespace HostedSearch

namespace Calendar

/-- How many days a year has. -/
def daysInYear (year : Int) : Nat :=
  if isLeapYear year then 366 else 365

/-- Every fourth year has a 29th of February, except those that end a century, unless the century
is a fourth one. -/
theorem isLeapYear_iff (year : Int) :
    isLeapYear year ↔ year % 4 = 0 ∧ (year % 100 ≠ 0 ∨ year % 400 = 0) := by
  simp [isLeapYear]

/-- The first day of a year is as many days after the one of the year before as that year has. -/
theorem daysBeforeYear_add_one (year : Int) :
    daysBeforeYear (year + 1) = daysBeforeYear year + daysInYear year := by
  unfold daysBeforeYear daysInYear
  split
  · next h =>
    have := (isLeapYear_iff year).mp h
    dsimp only
    omega
  · next h =>
    have := mt (isLeapYear_iff year).mpr h
    dsimp only
    omega

/-- Later years have more days before them. -/
theorem daysBeforeYear_le {a b : Int} (h : a ≤ b) : daysBeforeYear a ≤ daysBeforeYear b := by
  have hsucc (year : Int) : daysBeforeYear year ≤ daysBeforeYear (year + 1) := by
    rw [daysBeforeYear_add_one]
    omega
  exact monotone_int_of_le_succ hsucc h

/-- A month has a day at least. -/
theorem daysInMonth_pos (year : Int) (month : Nat) : 0 < daysInMonth year month := by
  unfold daysInMonth
  split
  · split <;> decide
  · split <;> decide

/-- A month begins when the month before it is over. -/
theorem daysBeforeMonth_add_one (year : Int) {month : Nat} (hmonth : 1 ≤ month) :
    daysBeforeMonth year (month + 1) = daysBeforeMonth year month + daysInMonth year month := by
  obtain ⟨month, rfl⟩ := Nat.exists_eq_add_of_le' hmonth
  rfl

/-- Later months have more days of the year before them. -/
theorem daysBeforeMonth_le (year : Int) {a b : Nat} (h : a ≤ b) :
    daysBeforeMonth year a ≤ daysBeforeMonth year b := by
  have hsucc (month : Nat) : daysBeforeMonth year month ≤ daysBeforeMonth year (month + 1) := by
    cases month with
    | zero => exact Nat.le_refl 0
    | succ month =>
      rw [daysBeforeMonth_add_one year (Nat.le_add_left 1 month)]
      exact Nat.le_add_right _ _
  exact monotone_nat_of_le_succ hsucc h

/-- A year is over with its twelfth month. -/
theorem daysBeforeMonth_thirteen (year : Int) : daysBeforeMonth year 13 = daysInYear year := by
  cases hleap : isLeapYear year <;> simp [daysBeforeMonth, daysInMonth, daysInYear, hleap]

end Calendar

namespace Date

open Calendar

/-- The date exists. -/
structure IsProper (date : Date) : Prop where
  one_le_month : 1 ≤ date.month
  month_le : date.month ≤ 12
  one_le_day : 1 ≤ date.day
  day_le : date.day ≤ daysInMonth date.year date.month

/-- The year is one of those that are counted, 2 to the power of 18 on either side. -/
def InRange (date : Date) : Prop :=
  -262144 ≤ date.year ∧ date.year < 262144

/-- The date comes before another one, by year, month and day. -/
def Before (a b : Date) : Prop :=
  a.year < b.year ∨
    a.year = b.year ∧ (a.month < b.month ∨ a.month = b.month ∧ a.day < b.day)

/-- The day after. -/
def next (date : Date) : Date :=
  if date.day < daysInMonth date.year date.month then { date with day := date.day + 1 }
  else if date.month < 12 then ⟨date.year, date.month + 1, 1⟩
  else ⟨date.year + 1, 1, 1⟩

/-- The day before. -/
def previous (date : Date) : Date :=
  if 1 < date.day then { date with day := date.day - 1 }
  else if 1 < date.month then
    ⟨date.year, date.month - 1, daysInMonth date.year (date.month - 1)⟩
  else ⟨date.year - 1, 12, 31⟩

/-- The first day that counts as number zero. -/
def epoch : Date := ⟨1970, 1, 1⟩

/-- The second date is so many days after the first one, or before it if the number is negative:
that many steps from day to day lead from the earlier date to the later one. -/
def IsDaysAfter (days : Int) (a b : Date) : Prop :=
  next^[days.toNat] a = next^[(-days).toNat] b

variable {a b date : Date}

/-! ## The order of dates -/

/-- A date is within its year. -/
theorem IsProper.daysBeforeMonth_add_day_le (h : date.IsProper) :
    daysBeforeMonth date.year date.month + date.day ≤ daysInYear date.year := by
  have hday := h.day_le
  have hover := daysBeforeMonth_add_one date.year h.one_le_month
  have hyear : daysBeforeMonth date.year (date.month + 1) ≤ daysBeforeMonth date.year 13 :=
    daysBeforeMonth_le date.year (Nat.add_le_add_right h.month_le 1)
  rw [daysBeforeMonth_thirteen] at hyear
  omega

/-- Days are numbered in order. -/
theorem dayNumber_lt_of_before (ha : a.IsProper) (hb : b.IsProper) (h : a.Before b) :
    a.dayNumber < b.dayNumber := by
  have hfirst := hb.one_le_day
  obtain ⟨year, month, day⟩ := a
  obtain ⟨year', month', day'⟩ := b
  unfold dayNumber
  obtain hyear | ⟨rfl, hmonth | ⟨rfl, hday⟩⟩ := h
  · have hwithin := ha.daysBeforeMonth_add_day_le
    have hover := daysBeforeYear_le (Int.add_one_le_of_lt hyear)
    rw [daysBeforeYear_add_one] at hover
    dsimp only at *
    omega
  · have hwithin := ha.day_le
    have hover := daysBeforeMonth_le year (Nat.succ_le_of_lt hmonth)
    rw [Nat.succ_eq_add_one, daysBeforeMonth_add_one year ha.one_le_month] at hover
    dsimp only at *
    omega
  · dsimp only at *
    omega

/-- Of two dates one is before the other, unless they are the same. -/
theorem before_or_eq_or_before (a b : Date) : a.Before b ∨ a = b ∨ b.Before a := by
  obtain ⟨year, month, day⟩ := a
  obtain ⟨year', month', day'⟩ := b
  simp only [Before, mk.injEq]
  omega

/-- No two dates have the same number. -/
theorem dayNumber_inj (ha : a.IsProper) (hb : b.IsProper) :
    a.dayNumber = b.dayNumber ↔ a = b := by
  refine ⟨fun heq => ?_, fun heq => heq ▸ rfl⟩
  obtain h | rfl | h := before_or_eq_or_before a b
  · exact absurd heq (Int.ne_of_lt (dayNumber_lt_of_before ha hb h))
  · rfl
  · exact absurd heq.symm (Int.ne_of_lt (dayNumber_lt_of_before hb ha h))

/-- Within range there are less than a hundred million days on either side of 1970. -/
theorem IsProper.natAbs_dayNumber_le (h : date.IsProper) (hrange : date.InRange) :
    date.dayNumber.natAbs ≤ 100000000 := by
  have hwithin := h.daysBeforeMonth_add_day_le
  have hfirst := h.one_le_day
  have hyear : daysInYear date.year ≤ 366 := by
    unfold daysInYear
    split <;> decide
  obtain ⟨hlower, hupper⟩ := hrange
  simp only [dayNumber, daysBeforeYear]
  omega

/-! ## From day to day -/

/-- The day after exists. -/
theorem IsProper.next (h : date.IsProper) : date.next.IsProper := by
  have hmonth := h.month_le
  unfold Date.next
  split
  · next hday => exact ⟨h.one_le_month, hmonth, Nat.le_add_left 1 _, hday⟩
  · split
    · next hyear => exact ⟨Nat.le_add_left 1 _, hyear, Nat.le_refl 1, daysInMonth_pos _ _⟩
    · exact ⟨Nat.le_refl 1, Nat.le_add_left 1 11, Nat.le_refl 1, daysInMonth_pos _ _⟩

/-- The day before exists. -/
theorem IsProper.previous (h : date.IsProper) : date.previous.IsProper := by
  have hmonth := h.month_le
  have hday := h.day_le
  unfold Date.previous
  split
  · next hlater => exact ⟨h.one_le_month, hmonth, by dsimp only; omega, by dsimp only; omega⟩
  · split
    · next hlater =>
      exact ⟨by dsimp only; omega, by dsimp only; omega, daysInMonth_pos _ _, Nat.le_refl _⟩
    · exact ⟨Nat.le_add_left 1 11, Nat.le_refl 12, Nat.le_add_left 1 30, Nat.le_refl 31⟩

/-- Days are numbered one after the other. -/
theorem dayNumber_next (h : date.IsProper) : date.next.dayNumber = date.dayNumber + 1 := by
  have hmonth := h.month_le
  have hday := h.day_le
  have hover := daysBeforeMonth_add_one date.year h.one_le_month
  obtain ⟨year, month, day⟩ := date
  dsimp only at hmonth hday hover
  unfold next
  split
  · simp only [dayNumber]
    omega
  · next hlast =>
    dsimp only at hlast
    split
    · simp only [dayNumber, hover]
      omega
    · next hdecember =>
      -- With the last day of December the year is over.
      dsimp only at hdecember
      obtain rfl : month = 12 := by omega
      have hfirst : daysBeforeMonth (year + 1) 1 = 0 := rfl
      rw [daysBeforeMonth_thirteen] at hover
      simp only [dayNumber, daysBeforeYear_add_one, hfirst]
      omega

/-- The day after the day before is the day itself. -/
theorem next_previous (h : date.IsProper) : date.previous.next = date := by
  have hmonth := h.one_le_month
  have hday := h.one_le_day
  have hwithin := h.day_le
  obtain ⟨year, month, day⟩ := date
  dsimp only at hmonth hday hwithin
  unfold previous
  split
  · next hlater =>
    dsimp only at hlater
    have hroom : day - 1 < daysInMonth year month := by omega
    simp only [next, if_pos hroom, Nat.sub_add_cancel hday]
  · next hfirst =>
    dsimp only at hfirst
    obtain rfl : day = 1 := by omega
    split
    · next hlater =>
      dsimp only at hlater
      by_cases htwelve : month - 1 < 12
      · simp only [next, Nat.lt_irrefl, if_false, htwelve, if_true, Nat.sub_add_cancel hmonth]
      · have hlast := h.month_le
        dsimp only at hlast
        omega
    · next hjanuary =>
      dsimp only at hjanuary
      obtain rfl : month = 1 := by omega
      have hdecember : daysInMonth (year - 1) 12 = 31 := rfl
      simp [next, hdecember]

/-- The number of the day before is one less. -/
theorem dayNumber_previous (h : date.IsProper) :
    date.previous.dayNumber = date.dayNumber - 1 := by
  have hnext := dayNumber_next h.previous
  rw [next_previous h] at hnext
  omega

/-- Steps from day to day lead to dates that exist. -/
theorem IsProper.iterate_next (h : date.IsProper) (days : Nat) :
    (Date.next^[days] date).IsProper := by
  induction days with
  | zero => exact h
  | succ days ih =>
    rw [Function.iterate_succ_apply']
    exact ih.next

/-- Each step from day to day adds one to the number. -/
theorem dayNumber_iterate_next (h : date.IsProper) (days : Nat) :
    (next^[days] date).dayNumber = date.dayNumber + days := by
  induction days with
  | zero => simp
  | succ days ih =>
    rw [Function.iterate_succ_apply', dayNumber_next (h.iterate_next days), ih]
    omega

/-- A date is as many days after another one as its number is greater. -/
theorem isDaysAfter_iff (ha : a.IsProper) (hb : b.IsProper) {days : Int} :
    IsDaysAfter days a b ↔ b.dayNumber = a.dayNumber + days := by
  rw [IsDaysAfter, ← dayNumber_inj (ha.iterate_next _) (hb.iterate_next _),
    dayNumber_iterate_next ha, dayNumber_iterate_next hb]
  omega

/-- The first day of 1970 exists. -/
theorem isProper_epoch : epoch.IsProper :=
  ⟨by decide, by decide, by decide, by decide⟩

/-- A date is as many days after the first day of 1970 as its number says. -/
theorem isDaysAfter_epoch (h : date.IsProper) : IsDaysAfter date.dayNumber epoch date := by
  rw [isDaysAfter_iff isProper_epoch h]
  exact (Int.zero_add _).symm

/-- The year zero and the year 2000 both have a 29th of February. -/
example : dayNumber ⟨2000, 2, 29⟩ = 11016 ∧ dayNumber ⟨0, 2, 29⟩ = -719469 := by decide

end Date

end HostedSearch
