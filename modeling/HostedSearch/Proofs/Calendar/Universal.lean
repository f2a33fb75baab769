import HostedSearch.Proofs.Calendar.DayCount

/-!
# Universal time

A moment is a time of day on a date, at a distance from universal time. The same moment at universal
time may fall on the day before or the day after. The seconds of a moment do not change when it is
taken to universal time, two moments have the same seconds just when they fall into the same second
there, and of two moments the later one never has fewer seconds.
-/

namespace HostedSearch

namespace TimeOfDay

/-- The time exists; a leap second has a further thousand million nanoseconds. -/
structure IsProper (time : TimeOfDay) : Prop where
  hour_lt : time.hour < 24
  minute_lt : time.minute < 60
  second_lt : time.second < 60
  nanosecond_lt : time.nanosecond < 2000000000

/-- The time is within a leap second. -/
def IsLeapSecond (time : TimeOfDay) : Prop :=
  1000000000 ≤ time.nanosecond

/-- The first instant of a day. -/
def midnight : TimeOfDay := ⟨0, 0, 0, 0⟩

/-- The time so many whole seconds after midnight, with nanoseconds. -/
def ofSeconds (seconds nanosecond : Nat) : TimeOfDay :=
  ⟨seconds / 3600, seconds / 60 % 60, seconds % 60, nanosecond⟩

/-- The time without a fraction; a leap second is part of the second before it. -/
def truncate (time : TimeOfDay) : TimeOfDay :=
  { time with nanosecond := 0 }

/-- The time comes before another one, by hour, minute, second and nanosecond. -/
def Before (a b : TimeOfDay) : Prop :=
  a.hour < b.hour ∨ a.hour = b.hour ∧ (a.minute < b.minute ∨ a.minute = b.minute ∧
    (a.second < b.second ∨ a.second = b.second ∧ a.nanosecond < b.nanosecond))

variable {a b time : TimeOfDay}

/-- A day has 86400 seconds. -/
theorem IsProper.seconds_lt (h : time.IsProper) : time.seconds < 86400 := by
  obtain ⟨hhour, hminute, hsecond, -⟩ := h
  unfold seconds
  omega

/-- Seconds are laid out as a time of day. -/
@[simp] theorem seconds_ofSeconds (seconds nanosecond : Nat) :
    (ofSeconds seconds nanosecond).seconds = seconds := by
  simp only [ofSeconds, TimeOfDay.seconds]
  omega

/-- Seconds of a day are laid out as a time that exists. -/
theorem IsProper.ofSeconds {seconds nanosecond : Nat} (hseconds : seconds < 86400)
    (hnanosecond : nanosecond < 2000000000) : (ofSeconds seconds nanosecond).IsProper := by
  refine ⟨?_, ?_, ?_, hnanosecond⟩ <;> simp only [TimeOfDay.ofSeconds] <;> omega

/-- An earlier time has no more seconds of the day behind it. -/
theorem seconds_le_of_before (ha : a.IsProper) (h : a.Before b) : a.seconds ≤ b.seconds := by
  obtain ⟨-, hminute, hsecond, -⟩ := ha
  unfold Before at h
  unfold seconds
  omega

/-- Times have the same seconds just when they are the same without a fraction. -/
theorem seconds_eq_iff (ha : a.IsProper) (hb : b.IsProper) :
    a.seconds = b.seconds ↔ a.truncate = b.truncate := by
  obtain ⟨-, hminute, hsecond, -⟩ := ha
  obtain ⟨-, hminute', hsecond', -⟩ := hb
  simp only [truncate, seconds, mk.injEq, and_true]
  omega

end TimeOfDay

namespace Moment

/-- The moment exists: it is a time of day on a date, less than a day from universal time. -/
structure IsProper (moment : Moment) : Prop where
  date : moment.date.IsProper
  time : moment.time.IsProper
  lt_offset : -86400 < moment.offset
  offset_lt : moment.offset < 86400

/-- The moment at universal time: the offset is taken from the time of day, and where that leaves
the day, the date is the one before or after. -/
def universal (moment : Moment) : Moment :=
  let seconds := moment.time.seconds - moment.offset
  if seconds < 0 then
    ⟨moment.date.previous, .ofSeconds (seconds + 86400).toNat moment.time.nanosecond, 0⟩
  else if seconds < 86400 then
    ⟨moment.date, .ofSeconds seconds.toNat moment.time.nanosecond, 0⟩
  else
    ⟨moment.date.next, .ofSeconds (seconds - 86400).toNat moment.time.nanosecond, 0⟩

/-- The moment comes before another one, by date and time at universal time. -/
def Before (a b : Moment) : Prop :=
  a.universal.date.Before b.universal.date ∨
    a.universal.date = b.universal.date ∧ a.universal.time.Before b.universal.time

/-- The moments fall into the same second. -/
def SameSecond (a b : Moment) : Prop :=
  a.universal.date = b.universal.date ∧ a.universal.time.truncate = b.universal.time.truncate

/-- The nanoseconds from the first instant of 1970 to a moment whose date is so many days after. -/
def nanoseconds (days : Int) (moment : Moment) : Int :=
  1000000000 * (86400 * days + moment.time.seconds - moment.offset) + moment.time.nanosecond

variable {a b moment : Moment}

/-- A time on a date is a moment at universal time. -/
theorem IsProper.atUniversal {date : Date} {time : TimeOfDay} (hdate : date.IsProper)
    (htime : time.IsProper) : IsProper ⟨date, time, 0⟩ :=
  ⟨hdate, htime, (by decide : (-86400 : Int) < 0), (by decide : (0 : Int) < 86400)⟩

/-- A moment exists at universal time, and its seconds are counted from there. -/
theorem IsProper.universal (h : moment.IsProper) :
    moment.universal.IsProper ∧
      moment.epochSeconds =
        86400 * moment.universal.date.dayNumber + moment.universal.time.seconds := by
  have hlt := h.time.seconds_lt
  have hnanosecond := h.time.nanosecond_lt
  have hoffset := h.lt_offset
  have hoffset' := h.offset_lt
  simp only [Moment.universal, epochSeconds, Date.epochSeconds]
  split
  · refine ⟨.atUniversal h.date.previous (.ofSeconds (by omega) hnanosecond), ?_⟩
    rw [Date.dayNumber_previous h.date, TimeOfDay.seconds_ofSeconds]
    omega
  · split
    · refine ⟨.atUniversal h.date (.ofSeconds (by omega) hnanosecond), ?_⟩
      dsimp only
      rw [TimeOfDay.seconds_ofSeconds]
      omega
    · refine ⟨.atUniversal h.date.next (.ofSeconds (by omega) hnanosecond), ?_⟩
      rw [Date.dayNumber_next h.date, TimeOfDay.seconds_ofSeconds]
      omega

/-- An earlier moment has no more seconds behind it. -/
theorem epochSeconds_le_of_before (ha : a.IsProper) (hb : b.IsProper) (h : a.Before b) :
    a.epochSeconds ≤ b.epochSeconds := by
  obtain ⟨hproper, hseconds⟩ := ha.universal
  obtain ⟨hproper', hseconds'⟩ := hb.universal
  rw [hseconds, hseconds']
  obtain hdate | ⟨hdate, htime⟩ := h
  · have hdays := Date.dayNumber_lt_of_before hproper.date hproper'.date hdate
    have hlt := hproper.time.seconds_lt
    omega
  · have hle := TimeOfDay.seconds_le_of_before hproper.time htime
    rw [hdate]
    omega

/-- Moments have the same seconds just when they fall into the same second. -/
theorem epochSeconds_eq_iff (ha : a.IsProper) (hb : b.IsProper) :
    a.epochSeconds = b.epochSeconds ↔ a.SameSecond b := by
  obtain ⟨hproper, hseconds⟩ := ha.universal
  obtain ⟨hproper', hseconds'⟩ := hb.universal
  have hlt := hproper.time.seconds_lt
  have hlt' := hproper'.time.seconds_lt
  rw [hseconds, hseconds', SameSecond, ← Date.dayNumber_inj hproper.date hproper'.date,
    ← TimeOfDay.seconds_eq_iff hproper.time hproper'.time]
  omega

/-- Apart from leap seconds, the nanoseconds of a moment are rounded down to seconds. -/
theorem epochSeconds_eq_nanoseconds_div (h : ¬ moment.time.IsLeapSecond) :
    moment.epochSeconds = moment.nanoseconds moment.date.dayNumber / 1000000000 := by
  unfold TimeOfDay.IsLeapSecond at h
  unfold nanoseconds epochSeconds Date.epochSeconds
  omega

end Moment

end HostedSearch
