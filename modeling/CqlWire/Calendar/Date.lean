/-!
# Dates

A date is a day of the proleptic Gregorian calendar, counted from 1970-01-01. Years are counted
astronomically, so there is a year zero and there are negative years.

* `Civil`: a year, a month and a day; `Civil.ofDays` and `Civil.toDays` convert from and to the
  count of days;
* `Date`: a day in the supported range, from the first day of the year -262143 to the last day of
  the year 262142.

Years are taken to begin in March, so that the leap day is the last day of its year and the months
before it follow one rule.
-/

namespace CqlWire

/-- A day as year, month and day of the month. -/
structure Civil where
  year : Int
  month : Nat
  day : Nat
deriving DecidableEq, Repr

/-- A year with a leap day. -/
def isLeapYear (year : Int) : Bool :=
  year % 4 = 0 && (year % 100 ≠ 0 || year % 400 = 0)

/-- The number of days of a month; zero for a number that is no month. -/
def daysInMonth (year : Int) (month : Nat) : Nat :=
  match month with
  | 1 | 3 | 5 | 7 | 8 | 10 | 12 => 31
  | 4 | 6 | 9 | 11 => 30
  | 2 => if isLeapYear year then 29 else 28
  | _ => 0

namespace Civil

/-- The number of days from 0000-03-01 to 1970-01-01. -/
def epochOffset : Int := 719468

/-- The number of days in 400 years, after which the calendar repeats itself. -/
def daysPerCycle : Int := 146097

/-- A day that the calendar has. -/
def isValid (c : Civil) : Bool :=
  1 ≤ c.day && c.day ≤ daysInMonth c.year c.month

/-- The number of days from 1970-01-01. -/
def toDays (c : Civil) : Int :=
  let year := if c.month ≤ 2 then c.year - 1 else c.year
  let inCycle := year % 400
  let month : Int := (c.month + 9) % 12
  let inYear := (153 * month + 2) / 5 + c.day - 1
  year / 400 * daysPerCycle + inCycle * 365 + inCycle / 4 - inCycle / 100 + inYear - epochOffset

/-- The day at a number of days from 1970-01-01. -/
def ofDays (days : Int) : Civil :=
  let shifted := days + epochOffset
  let inCycle := shifted % daysPerCycle
  let yearInCycle := (inCycle - inCycle / 1460 + inCycle / 36524 - inCycle / 146096) / 365
  let inYear := inCycle - (365 * yearInCycle + yearInCycle / 4 - yearInCycle / 100)
  let month := (5 * inYear + 2) / 153
  let day := inYear - (153 * month + 2) / 5 + 1
  let year := yearInCycle + shifted / daysPerCycle * 400
  if month < 10 then ⟨year, (month + 3).toNat, day.toNat⟩
  else ⟨year + 1, (month - 9).toNat, day.toNat⟩

end Civil

/-- A day in the supported range, by its number of days from 1970-01-01. -/
structure Date where
  days : Int
  first_le : -96465292 ≤ days
  le_last : days ≤ 95026236
deriving DecidableEq, Repr

namespace Date

/-- The date of a number of days from 1970-01-01, within the supported range. -/
def ofDays? (days : Int) : Option Date :=
  if h : -96465292 ≤ days ∧ days ≤ 95026236 then some ⟨days, h.1, h.2⟩ else none

/-- Year, month and day of a date. -/
def civil (d : Date) : Civil :=
  Civil.ofDays d.days

/-- The date of a day that the calendar has, within the supported range. -/
def ofCivil? (c : Civil) : Option Date :=
  if c.isValid then ofDays? c.toDays else none

theorem ofDays?_days (d : Date) : ofDays? d.days = some d := by
  simp [ofDays?, d.first_le, d.le_last]

theorem days_of_ofDays? {n : Int} {d : Date} (h : ofDays? n = some d) : d.days = n := by
  simp only [ofDays?] at h
  split at h <;> simp_all
  exact h ▸ rfl

end Date

end CqlWire
