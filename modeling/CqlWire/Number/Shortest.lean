import CqlWire.Number.FloatFormat
import CqlWire.Number.Integer

/-!
# The shortest decimal that reads back

Among the decimals that round to a given floating point number, the one with the fewest digits is
written, and of those the nearest. It is written positionally, never with an exponent.

* `FloatFormat.shortest`: the digits and the power of ten of the last one;
* `positional`: digits and a power of ten as text;
* `FloatFormat.toText`: the text of any bit pattern.

A decimal rounds to `m · 2 ^ q` when it lies between the midpoints to the two neighbouring numbers;
the midpoints themselves count when `m` is even. If some decimal with `n` digits lies there, so does
one of the two with `n` digits that are next to the number, so only these are tried.
-/

namespace CqlWire

open Nat (pow)

/-- A number `a · 2 ^ s` that is at most `d · 10 ^ k`. -/
def leDecimal (a : Nat) (s : Int) (d : Nat) (k : Int) : Bool :=
  a * pow 2 s.toNat * pow 10 (-k).toNat ≤ d * pow 10 k.toNat * pow 2 (-s).toNat

/-- A number `a · 2 ^ s` that is below `d · 10 ^ k`. -/
def ltDecimal (a : Nat) (s : Int) (d : Nat) (k : Int) : Bool :=
  a * pow 2 s.toNat * pow 10 (-k).toNat < d * pow 10 k.toNat * pow 2 (-s).toNat

/-- How often a positive fraction `n / d` below one has to be multiplied by ten to reach one. -/
def stepsToOne : (fuel : Nat) → (n d : Nat) → Nat
  | 0, _, _ => 0
  | fuel + 1, n, d => if d ≤ n then 0 else stepsToOne fuel (n * 10) d + 1

/-- The least power of ten above `a · 2 ^ s`, for a positive `a`. -/
def decimalExponent (a : Nat) (s : Int) : Int :=
  let n := a * pow 2 s.toNat
  let d := pow 2 (-s).toNat
  if d ≤ n then (decimalDigits (n / d)).length
  else 1 - (stepsToOne d.log2.succ n d : Nat)

namespace FloatFormat

/-- The decimal with `n` digits that reads back as `m · 2 ^ q`, if there is one: the nearer of the
two beside the number. `narrow` tells that the number below is only half as far away. -/
def shortestOfLength (m : Nat) (q : Int) (narrow : Bool) (n : Nat) : Option (Nat × Int) :=
  let s := q - 2
  let value := 4 * m
  let low := value - if narrow then 1 else 2
  let high := value + 2
  let k := decimalExponent value s - n
  let d := value * pow 2 s.toNat * pow 10 (-k).toNat / (pow 10 k.toNat * pow 2 (-s).toNat)
  let fits := fun c =>
    if m % 2 = 0 then leDecimal low s c k && !ltDecimal high s c k
    else ltDecimal low s c k && !leDecimal high s c k
  let nearerBelow := ltDecimal (2 * value) s (2 * d + 1) k
  match fits d, fits (d + 1) with
  | true, true => if nearerBelow then some (d, k) else some (d + 1, k)
  | true, false => some (d, k)
  | false, true => some (d + 1, k)
  | false, false => none

/-- The shortest decimal that reads back as the positive number `m · 2 ^ q`. -/
def shortest (f : FloatFormat) (m : Nat) (q : Int) : Nat × Int :=
  let narrow := m = pow 2 f.fractionBits && f.leastExponent < q
  ((List.range (f.fractionBits / 3 + 3)).findSome? fun n =>
    shortestOfLength m q narrow (n + 1)).getD (0, 0)

end FloatFormat

/-- The number without trailing zeros, and how many there were. -/
def stripZeros : (fuel : Nat) → Nat → Nat × Nat
  | 0, n => (n, 0)
  | fuel + 1, n =>
    if n ≠ 0 ∧ n % 10 = 0 then
      let r := stripZeros fuel (n / 10)
      (r.1, r.2 + 1)
    else (n, 0)

/-- The number `d · 10 ^ k` in positional notation, with no more digits than it needs. -/
def positional (d : Nat) (k : Int) : List Char :=
  let (d, stripped) := stripZeros (decimalDigits d).length d
  let digits := decimalDigits d
  let k := k + stripped
  if 0 ≤ k then digits ++ List.replicate k.toNat '0'
  else
    let places := (-k).toNat
    if digits.length ≤ places then
      '0' :: '.' :: List.replicate (places - digits.length) '0' ++ digits
    else digits.take (digits.length - places) ++ '.' :: digits.drop (digits.length - places)

/-- The text of a floating point number: the shortest positional decimal that reads back, or the
word for a number that is not finite. -/
def FloatFormat.toText (f : FloatFormat) (bits : Nat) : List Char :=
  let signed := fun (negative : Bool) (s : List Char) => if negative then '-' :: s else s
  match f.classify bits with
  | .nan => "NaN".toList
  | .infinite negative => signed negative "Infinity".toList
  | .finite negative 0 _ => signed negative ['0']
  | .finite negative m q =>
    let (d, k) := f.shortest m q
    signed negative (positional d k)

end CqlWire
