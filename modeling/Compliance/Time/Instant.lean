/-!
# Dates and instants

Dates of the proleptic Gregorian calendar, in the range of years from `minYear` to `maxYear`, and
moments of coordinated universal time, to the nanosecond. A leap second is held as a surplus of
nanoseconds over the last second of its minute.

* `Date.ofParts?` : the date of a year, a month and a day, if there is one.
* `Date.previous?`, `Date.next?` : the neighbouring dates, if they are in range.
* `Instant.ofLocal?` : the instant of a local date and time of day at an offset from universal time.
* `Instant.latest` : the last instant of the supported range.
-/

namespace Compliance.Time

/-! ### Dates -/

/-- The first year of the supported range. -/
def minYear : Int := -262143

/-- The last year of the supported range. -/
def maxYear : Int := 262142

/-- Whether a year has a 29 February. -/
def isLeapYear (year : Int) : Bool :=
  year % 4 == 0 && (year % 100 != 0 || year % 400 == 0)

/-- The number of days of a month, counted from 1. -/
def daysInMonth (year : Int) (month : Nat) : Nat :=
  if month == 2 then
    if isLeapYear year then 29 else 28
  else if month == 4 || month == 6 || month == 9 || month == 11 then 30
  else 31

theorem daysInMonth_le (year : Int) (month : Nat) : daysInMonth year month ≤ 31 := by
  unfold daysInMonth; split <;> (try split) <;> omega

/-- A date in the supported range of years. -/
structure Date where
  year : Int
  month : Nat
  day : Nat
  year_range : minYear ≤ year ∧ year ≤ maxYear
  month_range : 1 ≤ month ∧ month ≤ 12
  day_range : 1 ≤ day ∧ day ≤ daysInMonth year month
  deriving DecidableEq

namespace Date

/-- The date of a year, a month and a day, if there is one. -/
def ofParts? (year : Int) (month day : Nat) : Option Date :=
  if h : (minYear ≤ year ∧ year ≤ maxYear) ∧ (1 ≤ month ∧ month ≤ 12) ∧
      (1 ≤ day ∧ day ≤ daysInMonth year month) then
    some ⟨year, month, day, h.1, h.2.1, h.2.2⟩
  else
    none

/-- The date before, if it is in range. -/
def previous? (d : Date) : Option Date :=
  if 1 < d.day then ofParts? d.year d.month (d.day - 1)
  else if 1 < d.month then ofParts? d.year (d.month - 1) (daysInMonth d.year (d.month - 1))
  else ofParts? (d.year - 1) 12 31

/-- The date after, if it is in range. -/
def next? (d : Date) : Option Date :=
  if d.day < daysInMonth d.year d.month then ofParts? d.year d.month (d.day + 1)
  else if d.month < 12 then ofParts? d.year (d.month + 1) 1
  else ofParts? (d.year + 1) 1 1

@[simp] theorem ofParts?_parts (d : Date) : ofParts? d.year d.month d.day = some d := by
  unfold ofParts?
  rw [dif_pos ⟨d.year_range, d.month_range, d.day_range⟩]

end Date

/-! ### Instants -/

/-- A moment in universal time: a date, a second of that day and nanoseconds, which reach a full
second only in a leap second. -/
structure Instant where
  date : Date
  second : Nat
  nanosecond : Nat
  second_range : second < 86400
  nanosecond_range : nanosecond < 2000000000
  leap_at_minute_end : nanosecond < 1000000000 ∨ second % 60 = 59
  deriving DecidableEq

namespace Instant

/-- The instant of a local date and time of day, given how many minutes local time is ahead of
universal time; `none` if universal time falls out of the range of dates. -/
def ofLocal? (date : Date) (second nanosecond : Nat) (minutesAhead : Int)
    (hs : second < 86400) (hn : nanosecond < 2000000000)
    (hl : nanosecond < 1000000000 ∨ second % 60 = 59)
    (ho : -1440 < minutesAhead ∧ minutesAhead < 1440) : Option Instant :=
  let universal : Int := second - 60 * minutesAhead
  if h : universal < 0 then
    date.previous?.map fun d =>
      ⟨d, (universal + 86400).toNat, nanosecond, by omega, hn, by omega⟩
  else if h' : 86400 ≤ universal then
    date.next?.map fun d =>
      ⟨d, (universal - 86400).toNat, nanosecond, by omega, hn, by omega⟩
  else
    some ⟨date, universal.toNat, nanosecond, by omega, hn, by omega⟩

/-- The hour of the day. -/
def hour (t : Instant) : Nat := t.second / 3600

/-- The minute of the hour. -/
def minute (t : Instant) : Nat := t.second / 60 % 60

/-- The second of the minute, 60 in a leap second. -/
def secondOfMinute (t : Instant) : Nat :=
  t.second % 60 + t.nanosecond / 1000000000

/-- The nanoseconds since the second's start. -/
def fraction (t : Instant) : Nat :=
  t.nanosecond % 1000000000

/-- The last instant of the supported range. -/
def latest : Instant :=
  ⟨⟨maxYear, 12, 31, by decide, by decide, by decide⟩, 86399, 1999999999,
    by decide, by decide, .inr (by decide)⟩

instance : Inhabited Instant := ⟨latest⟩

end Instant

end Compliance.Time
