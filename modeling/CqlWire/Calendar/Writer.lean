import CqlWire.Calendar.TimeOfDay
import CqlWire.Number.Integer

/-!
# Dates and times as text

* `Date.toText`: `2024-02-29`; years from 0 to 9999 have four digits, all others a sign and at least
  four digits;
* `TimeOfDay.toText`: `23:59:59` with as many groups of three fraction digits as are needed, or
  with a fixed number of fraction digits;
* `Instant.toText`: both of them joined by a `T`, with the offset of universal time.
-/

namespace CqlWire

/-- A number with zeros in front, so that it has at least so many digits. -/
def padded (width n : Nat) : List Char :=
  let digits := decimalDigits n
  List.replicate (width - digits.length) '0' ++ digits

/-- A year: four digits, or a sign and at least four digits. -/
def yearText (year : Int) : List Char :=
  if 0 ≤ year ∧ year ≤ 9999 then padded 4 year.toNat
  else (if year < 0 then '-' else '+') :: padded 4 year.natAbs

/-- A date as year, month and day. -/
def Date.toText (d : Date) : List Char :=
  let c := d.civil
  yearText c.year ++ '-' :: padded 2 c.month ++ '-' :: padded 2 c.day

/-- How many fraction digits of a second are written. -/
inductive FractionDigits where
  /-- None, three, six or nine: as few as show the fraction. -/
  | automatic
  /-- Three. -/
  | millis
  /-- Nine. -/
  | nanos
deriving DecidableEq, Repr

/-- A fraction of a second, given in nanoseconds, with the point in front. -/
def FractionDigits.toText : FractionDigits → Nat → List Char
  | .millis, n => '.' :: padded 3 (n / 1000000)
  | .nanos, n => '.' :: padded 9 n
  | .automatic, n =>
    if n = 0 then []
    else if n % 1000000 = 0 then '.' :: padded 3 (n / 1000000)
    else if n % 1000 = 0 then '.' :: padded 6 (n / 1000)
    else '.' :: padded 9 n

/-- A time as it stands on a clock. -/
def TimeOfDay.toText (digits : FractionDigits) (t : TimeOfDay) : List Char :=
  padded 2 t.hour ++ ':' :: padded 2 t.minute ++ ':' :: padded 2 t.second ++
    digits.toText t.fraction

/-- An instant with the offset of universal time, which is written as `offset`. -/
def Instant.toText (digits : FractionDigits) (offset : String) (t : Instant) : List Char :=
  t.date.toText ++ 'T' :: t.time.toText digits ++ offset.toList

end CqlWire
