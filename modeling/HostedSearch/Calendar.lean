/-!
# Calendar

Dates of the Gregorian calendar, extended to all years before and after its use, and the seconds
from the first instant of 1970 to a date or to a time of day on it. A fraction of a second does
not count, and neither does a leap second, which is a fraction past the last second of a minute.
-/

namespace HostedSearch

namespace Calendar

/-- Whether a year has a 29th of February. -/
def isLeapYear (year : Int) : Bool :=
  year % 4 == 0 && (year % 100 != 0 || year % 400 == 0)

/-- How many days a month has. -/
def daysInMonth (year : Int) (month : Nat) : Nat :=
  if month = 2 then (if isLeapYear year then 29 else 28)
  else if month ∈ [4, 6, 9, 11] then 30
  else 31

/-- How many days of a year stand before a month; months are counted from one. -/
def daysBeforeMonth (year : Int) : Nat → Nat
  | 0 => 0
  | 1 => 0
  | month + 2 => daysBeforeMonth year (month + 1) + daysInMonth year (month + 1)

/-- How many days stand between the first day of year one and the first day of a year. -/
def daysBeforeYear (year : Int) : Int :=
  let past := year - 1
  365 * past + past / 4 - past / 100 + past / 400

end Calendar

/-- A day of the calendar. -/
structure Date where
  year : Int
  month : Nat
  day : Nat
deriving DecidableEq

/-- A time of day, with nanoseconds; a leap second has a thousand million of them or more. -/
structure TimeOfDay where
  hour : Nat
  minute : Nat
  second : Nat
  nanosecond : Nat
deriving DecidableEq

/-- A time of day on a date, at a number of seconds east of universal time. -/
structure Moment where
  date : Date
  time : TimeOfDay
  offset : Int
deriving DecidableEq

/-- The number of a day, counted from the first of January 1970. -/
def Date.dayNumber (date : Date) : Int :=
  Calendar.daysBeforeYear date.year - Calendar.daysBeforeYear 1970 +
    Calendar.daysBeforeMonth date.year date.month + (date.day - 1)

/-- The seconds of the day that have passed. -/
def TimeOfDay.seconds (time : TimeOfDay) : Nat :=
  time.hour * 3600 + time.minute * 60 + time.second

/-- The seconds from the first instant of 1970 to the first instant of a date. -/
def Date.epochSeconds (date : Date) : Int :=
  86400 * date.dayNumber

/-- The seconds from the first instant of 1970 to a moment. -/
def Moment.epochSeconds (moment : Moment) : Int :=
  moment.date.epochSeconds + moment.time.seconds - moment.offset

end HostedSearch
