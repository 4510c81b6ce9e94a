import CqlWire.Number.FloatFormat
import CqlWire.Number.Integer

/-!
# Reading floating point numbers

A decimal is read as the floating point number nearest to it, a tie going to the even neighbour;
numbers beyond the range become infinite. The words for infinity and NaN are known in any case.

* `DecimalLiteral.read?`: digits, a point and an exponent as `digits · 10 ^ exponent`;
* `FloatFormat.round`: the bits of the number nearest to a decimal;
* `FloatFormat.read`: the bits that a text stands for.
-/

namespace CqlWire

open Nat (pow)
open Text (isAsciiDigit toAsciiLower)

/-- An unsigned decimal `digits · 10 ^ exponent`. -/
structure DecimalLiteral where
  digits : Nat
  exponent : Int
deriving DecidableEq, Repr

/-- The number that decimal digits write. -/
def digitsToNat (s : List Char) : Nat :=
  s.foldl (fun n c => n * 10 + (c.toNat - 48)) 0

/-- The exponent of a decimal, behind the letter that announces it: an optional sign and at least
one digit. -/
def exponent? (s : List Char) : Option Int :=
  let digits? := fun (t : List Char) =>
    if t ≠ [] ∧ t.all isAsciiDigit then some (digitsToNat t : Int) else none
  match s with
  | '-' :: r => (digits? r).map (- ·)
  | '+' :: r => digits? r
  | r => digits? r

/-- Reads digits with an optional point and exponent; there must be a digit before or after the
point. -/
def DecimalLiteral.read? (s : List Char) : Option DecimalLiteral :=
  let whole := s.takeWhile isAsciiDigit
  let (fraction, rest) :=
    match s.dropWhile isAsciiDigit with
    | '.' :: r => (r.takeWhile isAsciiDigit, r.dropWhile isAsciiDigit)
    | r => ([], r)
  let digits := whole ++ fraction
  if digits = [] then none
  else
    let scaled := fun e => some ⟨digitsToNat digits, e - fraction.length⟩
    match rest with
    | [] => scaled 0
    | c :: r => if c = 'e' ∨ c = 'E' then (exponent? r).bind scaled else none

/-- Why a text is not a floating point number. -/
inductive FloatError where
  | empty
  | invalid
deriving DecidableEq, Repr

/-- The wording of a refusal. -/
def FloatError.message : FloatError → String
  | .empty => "cannot parse float from empty string"
  | .invalid => "invalid float literal"

/-- The quotient rounded to the nearest integer, a tie to the even one. -/
def divRoundEven (n d : Nat) : Nat :=
  let q := n / d
  let twice := 2 * (n % d)
  if twice < d ∨ (twice = d ∧ q % 2 = 0) then q else q + 1

/-- The greatest `e` with `2 ^ e ≤ n / d`, for positive numbers. -/
def floorLog2 (n d : Nat) : Int :=
  let e : Int := (n.log2 : Int) - d.log2
  if n * pow 2 (-e).toNat < d * pow 2 e.toNat then e - 1 else e

namespace FloatFormat

/-- The bits of the positive number nearest to `n / d`. The bits of such numbers count them in
order, so rounding up past the last mantissa of an exponent arrives at the next exponent. -/
def roundRatio (f : FloatFormat) (n d : Nat) : Nat :=
  let q := max f.leastExponent (floorLog2 n d - f.fractionBits)
  let m := divRoundEven (n * pow 2 (-q).toNat) (d * pow 2 q.toNat)
  min (m + (q - f.leastExponent).toNat * pow 2 f.fractionBits) f.infinityBits

/-- The bits of the number nearest to a decimal. A decimal whose size is far out of range is zero
or infinite without being computed. -/
def round (f : FloatFormat) (x : DecimalLiteral) : Nat :=
  let size : Int := (decimalDigits x.digits).length + x.exponent
  let reach : Int := pow 2 f.exponentBits
  if x.digits = 0 ∨ size < -reach then 0
  else if reach < size then f.infinityBits
  else f.roundRatio (x.digits * pow 10 x.exponent.toNat) (pow 10 (-x.exponent).toNat)

/-- The bits of an unsigned number or word. -/
def readUnsigned? (f : FloatFormat) (s : List Char) : Option Nat :=
  match DecimalLiteral.read? s with
  | some x => some (f.round x)
  | none =>
    match String.ofList (s.map toAsciiLower) with
    | "inf" | "infinity" => some f.infinityBits
    | "nan" => some f.nanBits
    | _ => none

/-- The bits that a text stands for. -/
def read (f : FloatFormat) : List Char → Except FloatError Nat
  | [] => .error .empty
  | '-' :: r =>
    match f.readUnsigned? r with
    | some bits => .ok (f.signBit + bits)
    | none => .error .invalid
  | '+' :: r =>
    match f.readUnsigned? r with
    | some bits => .ok bits
    | none => .error .invalid
  | s =>
    match f.readUnsigned? s with
    | some bits => .ok bits
    | none => .error .invalid

end FloatFormat

end CqlWire
