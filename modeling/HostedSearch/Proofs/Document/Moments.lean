import HostedSearch.Document.Fields
import HostedSearch.Proofs.Calendar.Universal
import HostedSearch.Proofs.Json.NumberText
import HostedSearch.Proofs.Number.IntegerText

/-!
# Dates and moments in documents

The service takes a date or a moment as whole seconds from the first instant of 1970. The seconds
are those of the days since then, counted one by one, and of the time of day at universal time. So
values of different kinds get the same number just when they fall into the same second, and a later
one never gets a smaller number.
-/

namespace HostedSearch

/-- The moment that a date or a moment is; a date is its first instant at universal time. -/
def FieldValue.moment? : FieldValue → Option Moment
  | .date value => some ⟨value, .midnight, 0⟩
  | .moment value => some value
  | .absent => none
  | .json _ => none

/-- The moment exists, on a date within range. -/
structure Moment.IsSupported (moment : Moment) : Prop where
  proper : moment.IsProper
  inRange : moment.date.InRange

variable {value other : FieldValue} {moment otherMoment : Moment}

/-- The seconds of a supported moment fit a signed 64-bit word. -/
theorem Moment.IsSupported.fitsInt64 (h : moment.IsSupported) : FitsInt64 moment.epochSeconds := by
  have hdays := h.proper.date.natAbs_dayNumber_le h.inRange
  have hlt := h.proper.time.seconds_lt
  have hoffset := h.proper.lt_offset
  have hoffset' := h.proper.offset_lt
  simp only [Moment.epochSeconds, Date.epochSeconds]
  constructor
  · change -(2 ^ 63 : Int) ≤ _
    omega
  · change _ ≤ (2 ^ 63 : Int) - 1
    omega

/-- A value that is a moment is normalized to the seconds of the moment. -/
theorem FieldValue.normalize_of_moment? (h : value.moment? = some moment) :
    value.normalize = .int64 (Int64.ofInt moment.epochSeconds) := by
  cases value with
  | absent => cases h
  | json value => cases h
  | moment value =>
    obtain rfl : value = moment := Option.some.inj h
    rfl
  | date value =>
    obtain rfl : ⟨value, .midnight, 0⟩ = moment := Option.some.inj h
    have hmidnight : (⟨value, .midnight, 0⟩ : Moment).epochSeconds = value.epochSeconds := by
      simp [Moment.epochSeconds, TimeOfDay.seconds, TimeOfDay.midnight]
    rw [hmidnight]
    rfl

end HostedSearch
