import CqlWire.Fallible
import CqlWire.Number.Integer
import CqlWire.Text.Blank

/-!
# Decimal numbers

* `UnscaledDecimal`: an integer and a scale, which together are `unscaled · 10 ^ -scale`. This is
  what a column holds: 128 bits of integer and 32 bits of scale.
* `Decimal`: a decimal of 96 bits with a scale from 0 to 28, the number that programs compute with.
  `Decimal.ofUnscaled?` converts without rounding or refuses.

A literal with a positive scale has that many fraction digits; with a negative one it ends with an
exponent.
-/

namespace CqlWire

open Nat (pow)
open Text (trim)

/-- The number `unscaled · 10 ^ -scale`, with its scale. -/
structure UnscaledDecimal where
  unscaled : Int
  scale : Int
deriving DecidableEq, Repr

/-- Why a text is not a decimal. -/
inductive DecimalError where
  | exponent
  | signInFraction
  | digits
  | scale
deriving DecidableEq, Repr

/-- The wording of a refusal. -/
def DecimalError.message : DecimalError → String
  | .exponent => "invalid exponent"
  | .signInFraction => "sign inside fraction"
  | .digits => "invalid digits"
  | .scale => "scale out of range"

namespace UnscaledDecimal

/-- The number as a literal. -/
def toText (d : UnscaledDecimal) : List Char :=
  if d.scale = 0 then decimalText d.unscaled
  else if d.scale < 0 then decimalText d.unscaled ++ ['E', '+'] ++ decimalText (-d.scale)
  else
    let scale := d.scale.toNat
    let digits := decimalDigits d.unscaled.natAbs
    let full := List.replicate (scale + 1 - digits.length) '0' ++ digits
    let places := full.length - scale
    (if d.unscaled < 0 then ['-'] else []) ++ full.take places ++ '.' :: full.drop places

/-- The text before the first character of a kind, and the text behind it if there is one. -/
def cutAt (p : Char → Bool) (s : List Char) : List Char × Option (List Char) :=
  (s.takeWhile (!p ·), (s.dropWhile (!p ·)).tail?)

/-- Reads a literal: a sign and digits with an optional point, then an optional exponent. The number
of fraction digits has to fit in 32 bits as the scale does, even where the exponent would bring the
scale back into range. -/
def read (text : List Char) : Except DecimalError UnscaledDecimal := do
  let (mantissa, exponentText?) := cutAt (fun c => c == 'e' || c == 'E') (trim text)
  let exponent ← match exponentText? with
    | none => pure 0
    | some s => (readSigned 32 s).mapError fun _ => DecimalError.exponent
  let (whole, fraction?) := cutAt (· == '.') mantissa
  let fraction := fraction?.getD []
  refuseIf (fraction.any fun c => c == '-' || c == '+') .signInFraction
  let unscaled ← (readSigned 128 (whole ++ fraction)).mapError fun _ => DecimalError.digits
  let scale := fraction.length - exponent
  if fitsSigned 32 fraction.length ∧ fitsSigned 32 scale then .ok ⟨unscaled, scale⟩
  else .error .scale

end UnscaledDecimal

/-- A decimal of 96 bits, `mantissa · 10 ^ -scale`. -/
structure Decimal where
  mantissa : Int
  scale : Nat
  mantissa_lt : mantissa.natAbs < pow 2 96
  scale_le : scale ≤ 28
deriving DecidableEq, Repr

namespace Decimal

/-- The decimal with a mantissa and a scale, if they are in range. -/
def ofParts? (mantissa : Int) (scale : Nat) : Option Decimal :=
  if h : mantissa.natAbs < pow 2 96 ∧ scale ≤ 28 then some ⟨mantissa, scale, h.1, h.2⟩ else none

/-- The same number with its scale, as a column holds it. -/
def toUnscaled (d : Decimal) : UnscaledDecimal :=
  ⟨d.mantissa, d.scale⟩

/-- The decimal that is exactly the given number. A negative scale is multiplied out, for which
both the power of ten and the product have to fit in 128 bits. -/
def ofUnscaled? (d : UnscaledDecimal) : Option Decimal :=
  if d.scale < 0 then
    if 38 < d.scale.natAbs then none
    else
      let product := d.unscaled * pow 10 d.scale.natAbs
      if fitsSigned 128 product then ofParts? product 0 else none
  else ofParts? d.unscaled d.scale.toNat

theorem ofUnscaled?_toUnscaled (d : Decimal) : ofUnscaled? d.toUnscaled = some d := by
  have h : ¬ (d.scale : Int) < 0 := by omega
  simp only [ofUnscaled?, toUnscaled, h, if_false, Int.toNat_natCast, ofParts?]
  exact dif_pos ⟨d.mantissa_lt, d.scale_le⟩

/-- Decimals are ordered as numbers, whatever their scales. -/
def compare (a b : Decimal) : Ordering :=
  Ord.compare (a.mantissa * pow 10 b.scale) (b.mantissa * pow 10 a.scale)

end Decimal

end CqlWire
