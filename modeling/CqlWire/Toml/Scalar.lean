import CqlWire.Bytes
import CqlWire.Calendar.Reader
import CqlWire.Number.Rounding

/-!
# TOML numbers, dates and booleans

The values that are neither texts nor made of other values. No setting takes one of them, but an
array may hold them beside what a setting takes, so they are read for where they end: each function
gives the text behind the value at the front, or nothing if no such value stands there. They read no
further than the value goes, so that junk right behind it is left to whoever reads on.

* `Toml.based?`, `Toml.decimal?`: integers that fit in eight bytes, and floating point numbers; an
  underscore may stand between two digits;
* `Toml.moment?`: dates, times of day and both together, with an offset or without;
* `Toml.scalar?`: any of these, and the booleans.
-/

namespace CqlWire.Toml

open Text (isAsciiDigit)

/-! ## Numbers -/

/-- The digits at the front, each of them behind an underscore or not, and the text behind them. -/
def moreDigits (isDigit : Char → Bool) : List Char → List Char × List Char
  | [] => ([], [])
  | '_' :: c :: r =>
    if isDigit c then
      let (ds, rest) := moreDigits isDigit r
      (c :: ds, rest)
    else ([], '_' :: c :: r)
  | c :: r =>
    if isDigit c then
      let (ds, rest) := moreDigits isDigit r
      (c :: ds, rest)
    else ([], c :: r)

/-- At least one digit, and the text behind all that follow it. -/
def digits? (isDigit : Char → Bool) : List Char → Option (List Char × List Char)
  | [] => none
  | c :: r =>
    if isDigit c then
      let (ds, rest) := moreDigits isDigit r
      some (c :: ds, rest)
    else none

/-- The text behind the digits of an integer in a base up to sixteen. -/
def based? (base : Nat) (s : List Char) : Option (List Char) := do
  let (ds, r) ← digits? (fun c => (hexValue? c).any (· < base)) s
  let n ← ds.foldlM (fun n d => return n * base + (← hexValue? d)) 0
  if fitsSigned 64 n then some r else none

/-- The digits in front of a decimal point: zero alone, or no zero first. -/
def whole? : List Char → Option (List Char × List Char)
  | '0' :: r => some (['0'], r)
  | s => digits? isAsciiDigit s

/-- The digits behind a decimal point, with the point; nothing where no point stands. -/
def fraction? : List Char → Option (List Char × List Char)
  | '.' :: r => (digits? isAsciiDigit r).map fun (ds, r) => ('.' :: ds, r)
  | r => some ([], r)

/-- A sign, or none. -/
def sign : List Char → List Char × List Char
  | '+' :: r => (['+'], r)
  | '-' :: r => (['-'], r)
  | r => ([], r)

/-- The exponent with the letter that announces it; nothing where no such letter stands. -/
def exponent? : List Char → Option (List Char × List Char)
  | 'e' :: r | 'E' :: r =>
    let (mark, r) := sign r
    (digits? isAsciiDigit r).map fun (ds, r) => ('e' :: mark ++ ds, r)
  | r => some ([], r)

/-- The text behind a decimal integer or a floating point number. A number with a fraction or an
exponent may round to negative infinity but not to the positive one. -/
def decimal? (s : List Char) : Option (List Char) :=
  let (mark, s) := sign s
  match s with
  | 'i' :: 'n' :: 'f' :: r | 'n' :: 'a' :: 'n' :: r => some r
  | _ => do
    let (whole, r) ← whole? s
    let (fraction, r) ← fraction? r
    let (exponent, r) ← exponent? r
    if fraction = [] ∧ exponent = [] then
      match readSigned 64 (mark ++ whole) with
      | .ok _ => some r
      | .error _ => none
    else
      match FloatFormat.double.read (mark ++ whole ++ fraction ++ exponent) with
      | .ok bits => if bits = FloatFormat.double.infinityBits then none else some r
      | .error _ => none

/-! ## Dates and times -/

open Calendar in
/-- A date such as `2024-02-29`. -/
def date : Reader Date := fun s => do
  let (y, s) ← digits 4 s
  let ((), s) ← mark '-' s
  let (m, s) ← digits 2 s
  let ((), s) ← mark '-' s
  let (d, s) ← digits 2 s
  return (← CalendarError.inRange (Date.ofCivil? ⟨y, m, d⟩), s)

open Calendar in
/-- A time of day such as `23:59:59.5`; any minute may end with the leap second 60. -/
def time : Reader TimeOfDay := fun s => do
  let (h, s) ← digits 2 s
  let ((), s) ← mark ':' s
  let (m, s) ← digits 2 s
  let ((), s) ← mark ':' s
  let (sec, s) ← digits 2 s
  let (n, s) ← Calendar.fraction s
  return (← clock h m sec n, s)

open Calendar in
/-- A time of day behind the mark that sets it off from its date. -/
def timeOfDate : Reader TimeOfDay := fun s => do
  let ((), s) ← dateTimeMark s
  time s

open Calendar in
/-- The hours and minutes of an offset, which are less than a day. -/
def offsetClock : Reader TimeOfDay := fun s => do
  let (h, s) ← digits 2 s
  let ((), s) ← mark ':' s
  let (m, s) ← digits 2 s
  return (← clock h m 0 0, s)

/-- The text behind an offset from universal time: the letter `Z`, or a sign with hours and minutes;
the whole text where none stands. -/
def skipOffset (s : List Char) : List Char :=
  match s with
  | 'Z' :: r | 'z' :: r => r
  | '+' :: r | '-' :: r =>
    match offsetClock r with
    | .ok (_, r) => r
    | .error _ => s
  | _ => s

/-- The text behind a date, a time of day, or both. -/
def moment? (s : List Char) : Option (List Char) :=
  match date s with
  | .ok (_, r) =>
    match timeOfDate r with
    | .ok (_, r) => some (skipOffset r)
    | .error _ => some r
  | .error _ =>
    match time s with
    | .ok (_, r) => some r
    | .error _ => none

/-! ## Any of them -/

/-- The text behind a boolean, a number, a date or a time. -/
def scalar? : List Char → Option (List Char)
  | 't' :: 'r' :: 'u' :: 'e' :: r | 'f' :: 'a' :: 'l' :: 's' :: 'e' :: r => some r
  | '0' :: 'x' :: r => based? 16 r
  | '0' :: 'o' :: r => based? 8 r
  | '0' :: 'b' :: r => based? 2 r
  | s => (moment? s).or (decimal? s)

end CqlWire.Toml
