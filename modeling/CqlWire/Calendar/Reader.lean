import CqlWire.Calendar.TimeOfDay
import CqlWire.Fallible
import CqlWire.Number.Integer
import CqlWire.Text.Blank
import CqlWire.Text.Utf8

/-!
# Reading dates and times

Two forms are read. The plain form of dates and times (`Date.read`, `TimeOfDay.read`) takes numbers
of one digit up to their full width, each with white space in front if need be; a year with a sign
may have any number of digits. The timestamp form (`Instant.read`) has numbers of full width only and
ends with an offset from universal time.

In both, a fraction of a second has any number of digits, of which those after the ninth are
dropped, and the second 60 is a leap second.
-/

namespace CqlWire

open Text (isAsciiDigit trimStart)

/-- Why a text is not a date or time. -/
inductive CalendarError where
  | tooShort
  | invalid
  | outOfRange
  | tooLong
deriving DecidableEq, Repr

/-- The wording of a refusal. -/
def CalendarError.message : CalendarError → String
  | .tooShort => "premature end of input"
  | .invalid => "input contains invalid characters"
  | .outOfRange => "input is out of range"
  | .tooLong => "trailing input"

namespace CalendarError

/-- A value, unless it is missing because it is out of range. -/
def inRange {α : Type} : Option α → Except CalendarError α
  | some a => .ok a
  | none => .error .outOfRange

end CalendarError

namespace Calendar

/-- A reader of the front of a text. -/
abbrev Reader (α : Type) := List Char → Except CalendarError (α × List Char)

/-- At least one digit and no more than `width`, if a width is given; the number has to fit in
eight bytes. -/
def number (width : Option Nat) : Reader Nat := fun s =>
  match s with
  | [] => .error .tooShort
  | c :: _ =>
    if !isAsciiDigit c then .error .invalid
    else
      let all := s.takeWhile isAsciiDigit
      let digits := match width with
        | some w => all.take w
        | none => all
      match readDigits (maxSigned 64).natAbs .tooLarge 0 digits with
      | .ok n => .ok (n, s.drop digits.length)
      | .error _ => .error .outOfRange

/-- One given character. -/
def mark (c : Char) : Reader Unit := fun s =>
  match s with
  | [] => .error .tooShort
  | d :: r => if d = c then .ok ((), r) else .error .invalid

/-- A number of at most two digits from `lo` to `hi`, with white space in front if need be. -/
def field (lo hi : Nat) : Reader Nat := fun s => do
  let (n, r) ← number (some 2) (trimStart s)
  if lo ≤ n ∧ n ≤ hi then .ok (n, r) else .error .outOfRange

/-- A year: up to four digits, or a sign and any number of digits. -/
def year : Reader Int := fun s => do
  let (n, r) ← match trimStart s with
    | '-' :: r => do
      let (n, r) ← number none r
      pure (-(n : Int), r)
    | '+' :: r => do
      let (n, r) ← number none r
      pure ((n : Int), r)
    | r => do
      let (n, r) ← number (some 4) r
      pure ((n : Int), r)
  if fitsSigned 32 n then .ok (n, r) else .error .outOfRange

/-- The digits of a fraction as nanoseconds; digits after the ninth are read and dropped. -/
def nanos : Reader Nat := fun s => do
  let (n, r) ← number (some 9) s
  return (n * Nat.pow 10 (9 - (s.length - r.length)), r.dropWhile isAsciiDigit)

/-- A fraction of a second behind a point, or nothing. -/
def fraction : Reader Nat := fun s =>
  match s with
  | '.' :: r => nanos r
  | r => .ok (0, r)

/-- Nothing may be left. -/
def finish (s : List Char) : Except CalendarError Unit :=
  if s = [] then .ok () else .error .tooLong

/-- A time on a clock, where second 60 is the leap second that follows second 59. -/
def clock (hour minute second nanos : Nat) : Except CalendarError TimeOfDay :=
  CalendarError.inRange <|
    if second = 60 then TimeOfDay.ofClock? hour minute 59 (nanosPerSecond + nanos)
    else TimeOfDay.ofClock? hour minute second nanos

end Calendar

open Calendar

/-- Reads a date such as `2024-02-29`. -/
def Date.read (s : List Char) : Except CalendarError Date := do
  let (y, s) ← year s
  let ((), s) ← mark '-' s
  let (m, s) ← field 1 12 s
  let ((), s) ← mark '-' s
  let (d, s) ← field 1 31 s
  finish s
  CalendarError.inRange (Date.ofCivil? ⟨y, m, d⟩)

/-- Reads a time such as `23:59:59.5`. -/
def TimeOfDay.read (s : List Char) : Except CalendarError TimeOfDay := do
  let (h, s) ← field 0 23 s
  let ((), s) ← mark ':' s
  let (m, s) ← field 0 59 s
  let ((), s) ← mark ':' s
  let (sec, s) ← field 0 60 s
  let (n, s) ← Calendar.fraction s
  finish s
  clock h m sec n

namespace Calendar

/-- A number of exactly so many digits. -/
def digits (width : Nat) : Reader Nat := fun s =>
  let ds := s.take width
  if ds.length = width ∧ ds.all isAsciiDigit then
    .ok (ds.foldl (fun n c => n * 10 + (c.toNat - 48)) 0, s.drop width)
  else .error .invalid

/-- The letter `T` or a space, between date and time. -/
def dateTimeMark : Reader Unit := fun s =>
  match s with
  | c :: r => if c = 'T' ∨ c = 't' ∨ c = ' ' then .ok ((), r) else .error .invalid
  | [] => .error .invalid

/-- The two digits of hours of an offset. -/
def offsetHours : Reader Nat := fun s =>
  if (Utf8.encode s).length < 2 then .error .tooShort else digits 2 s

/-- The two digits of minutes of an offset, which are below 60. -/
def offsetMinutes : Reader Nat := fun s => do
  let (n, r) ← offsetHours s
  if n < 60 then .ok (n, r) else .error .outOfRange

/-- Minutes east of universal time: the letter `Z`, or a sign with hours and minutes. The sign may
be the minus sign of typography. -/
def offset : Reader Int := fun s => do
  let signed (sign : Int) (s : List Char) : Except CalendarError (Int × List Char) := do
    let (h, s) ← offsetHours s
    let ((), s) ← mark ':' s
    let (m, s) ← offsetMinutes s
    return (sign * (h * 60 + m), s)
  match s with
  | 'Z' :: r | 'z' :: r => .ok (0, r)
  | '+' :: r => signed 1 r
  | '-' :: r | '\u2212' :: r => signed (-1) r
  | _ :: _ => .error .invalid
  | [] => .error .tooShort

end Calendar

/-- Reads an instant such as `2024-02-29T23:59:59.5+01:00`. The text has to have room for date and
time, which is 19 bytes, before anything else is looked at. -/
def Instant.read (s : List Char) : Except CalendarError Instant := do
  refuseIf ((Utf8.encode s).length < 19) .tooShort
  let (y, s) ← digits 4 s
  let ((), s) ← mark '-' s
  let (m, s) ← digits 2 s
  let ((), s) ← mark '-' s
  let (d, s) ← digits 2 s
  let date ← CalendarError.inRange (Date.ofCivil? ⟨y, m, d⟩)
  let ((), s) ← dateTimeMark s
  let (h, s) ← digits 2 s
  let ((), s) ← mark ':' s
  let (min, s) ← digits 2 s
  let ((), s) ← mark ':' s
  let (sec, s) ← digits 2 s
  let (n, s) ← Calendar.fraction s
  let time ← clock h min sec n
  let (east, s) ← offset s
  finish s
  refuseIf (24 * 60 ≤ east.natAbs) .outOfRange
  CalendarError.inRange (Instant.ofParts? (Instant.seconds ⟨date, time⟩ - east * 60) time.nanos)

end CqlWire
