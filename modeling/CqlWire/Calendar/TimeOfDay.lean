import CqlWire.Calendar.Date

/-!
# Times of day and instants

* `TimeOfDay`: seconds since midnight and nanoseconds. A leap second is a second that runs on for a
  second time: its nanoseconds are counted on from 10⁹, and it may follow any second 59.
* `Instant`: a date and a time of day, both in universal time.
-/

namespace CqlWire

/-- The number of nanoseconds in a second. -/
def nanosPerSecond : Nat := 1000000000

/-- The number of seconds in a day. -/
def secondsPerDay : Nat := 86400

/-- A time of day, to the nanosecond. -/
structure TimeOfDay where
  seconds : Nat
  nanos : Nat
  seconds_lt : seconds < secondsPerDay
  nanos_lt : nanos < 2 * nanosPerSecond
  leap : nanosPerSecond ≤ nanos → seconds % 60 = 59
deriving DecidableEq, Repr

namespace TimeOfDay

/-- The time of so many seconds since midnight and so many nanoseconds. -/
def ofParts? (seconds nanos : Nat) : Option TimeOfDay :=
  if h : seconds < secondsPerDay ∧ nanos < 2 * nanosPerSecond ∧
      (nanosPerSecond ≤ nanos → seconds % 60 = 59) then
    some ⟨seconds, nanos, h.1, h.2.1, h.2.2⟩
  else none

/-- The time on a clock; `nanos` may count on into a leap second. -/
def ofClock? (hour minute second nanos : Nat) : Option TimeOfDay :=
  if hour < 24 ∧ minute < 60 ∧ second < 60 then
    ofParts? (hour * 3600 + minute * 60 + second) nanos
  else none

/-- Whether the time lies in a leap second. -/
def isLeap (t : TimeOfDay) : Bool :=
  nanosPerSecond ≤ t.nanos

/-- The hour on a clock. -/
def hour (t : TimeOfDay) : Nat := t.seconds / 3600

/-- The minute on a clock. -/
def minute (t : TimeOfDay) : Nat := t.seconds / 60 % 60

/-- The second on a clock, which is 60 in a leap second. -/
def second (t : TimeOfDay) : Nat := t.seconds % 60 + if t.isLeap then 1 else 0

/-- The nanoseconds since the second on the clock began. -/
def fraction (t : TimeOfDay) : Nat := t.nanos % nanosPerSecond

end TimeOfDay

/-- A point in universal time, to the nanosecond. -/
structure Instant where
  date : Date
  time : TimeOfDay
deriving DecidableEq, Repr

namespace Instant

/-- Seconds since 1970-01-01T00:00:00Z, rounded down; a leap second counts as the second 59. -/
def seconds (t : Instant) : Int :=
  t.date.days * secondsPerDay + t.time.seconds

/-- The instant of so many seconds since 1970-01-01T00:00:00Z and so many nanoseconds. -/
def ofParts? (seconds : Int) (nanos : Nat) : Option Instant := do
  let date ← Date.ofDays? (seconds / secondsPerDay)
  let time ← TimeOfDay.ofParts? (seconds % secondsPerDay).toNat nanos
  return ⟨date, time⟩

/-- Whole milliseconds since 1970-01-01T00:00:00Z, rounded down. -/
def millis (t : Instant) : Int :=
  t.seconds * 1000 + (t.time.nanos / 1000000 : Nat)

/-- The instant of so many milliseconds since 1970-01-01T00:00:00Z. -/
def ofMillis? (millis : Int) : Option Instant :=
  ofParts? (millis / 1000) ((millis % 1000).toNat * 1000000)

end Instant

end CqlWire
