import CqlWire.Calendar.Reader
import CqlWire.Calendar.Writer
import CqlWire.Coding.Basic

/-!
# Codings of dates and times

* `Coding.timestamp`: an instant, stored as milliseconds. What is finer than a millisecond is
  refused rather than cut off, and so is a leap second;
* `Coding.date`: a day, stored as a number that is 2³¹ on 1970-01-01;
* `Coding.time`: a time of day, stored as nanoseconds since midnight; a leap second is refused.
-/

namespace CqlWire.Coding

open CqlWire.Text (quote)

/-- Why an instant has no whole number of milliseconds, if it has none. -/
def inexactMillis? (t : Instant) : Option String :=
  if t.time.isLeap then some "leap seconds have no timestamp representation"
  else if t.time.nanos % 1000000 ≠ 0 then some "sub-millisecond precision is not representable"
  else none

/-- Reads a timestamp: milliseconds since 1970-01-01T00:00:00Z, or date and time. -/
def parseTimestamp (text : List Char) : Except Error Instant :=
  let raw := bareText text
  let type := ColumnType.scalar .timestamp
  match readSigned 64 raw with
  | .ok millis =>
    match Instant.ofMillis? millis with
    | some t => .ok t
    | none => .error (refuse type text "out of range")
  | .error _ => do
    let t ← orRefuse type text CalendarError.message (Instant.read raw)
    match inexactMillis? t with
    | none => .ok t
    | some reason => .error (refuse type text reason)

/-- An instant, to the millisecond. -/
def timestamp : Coding Instant where
  type := .scalar .timestamp
  encode t :=
    match inexactMillis? t with
    | none => .ok (some (Bytes.ofInt 8 t.millis))
    | some reason => .error (reject (.scalar .timestamp) (t.toText .automatic "+00:00") reason)
  decode bytes := do
    let bs ← Frame.require (.scalar .timestamp) bytes
    let o ← Frame.fixed (.scalar .timestamp) 8 bs
    let millis := Bytes.toInt o.1
    match Instant.ofMillis? millis with
    | some t => .ok t
    | none => .error (.decode "timestamp" s!"{millis} ms is out of range")
  format t :=
    quote (t.toText (if (inexactMillis? t).isNone then .millis else .nanos) "Z")
  parse := parseTimestamp

/-- The number that is stored for 1970-01-01. -/
def dateEpoch : Int := 2147483648

/-- A date. -/
def date : Coding Date where
  type := .scalar .date
  encode d :=
    let stored := d.days + dateEpoch
    if 0 ≤ stored ∧ stored < 2 * dateEpoch then .ok (some (Bytes.ofInt 4 stored))
    else .error (reject (.scalar .date) d.toText "outside the date range")
  decode bytes := do
    let bs ← Frame.require (.scalar .date) bytes
    let o ← Frame.fixed (.scalar .date) 4 bs
    let stored := Bytes.toNat o.1
    match Date.ofDays? (stored - dateEpoch) with
    | some d => .ok d
    | none => .error (.decode "date" s!"day {stored} is out of range")
  format d := quote d.toText
  parse text := orRefuse (.scalar .date) text CalendarError.message (Date.read (bareText text))

/-- A time of day without leap seconds. -/
def time : Coding TimeOfDay where
  type := .scalar .time
  encode t :=
    if t.isLeap then
      .error (reject (.scalar .time) (t.toText .automatic)
        "leap seconds have no time representation")
    else .ok (some (Bytes.ofNat 8 (t.seconds * nanosPerSecond + t.nanos)))
  decode bytes := do
    let bs ← Frame.require (.scalar .time) bytes
    let o ← Frame.fixed (.scalar .time) 8 bs
    let total := Bytes.toInt o.1
    match if total < 0 then none else
        TimeOfDay.ofParts? (total.toNat / nanosPerSecond) (total.toNat % nanosPerSecond) with
    | some t => .ok t
    | none => .error (.decode "time" s!"{total} ns is outside a day")
  format t := quote (t.toText .nanos)
  parse text := do
    let t ← orRefuse (.scalar .time) text CalendarError.message (TimeOfDay.read (bareText text))
    if t.isLeap then .error (refuse (.scalar .time) text "leap second") else .ok t

end CqlWire.Coding
