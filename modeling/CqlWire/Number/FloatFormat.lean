/-!
# Binary floating point

A floating point number is handled as its bits, so that every pattern is kept as it is, those of
NaN included. `FloatFormat` gives the layout of the bits (`single` and `double`), and
`FloatFormat.classify` what they stand for: a finite number is `mantissa · 2 ^ exponent` with its
sign.
-/

namespace CqlWire

open Nat (pow)

/-- The layout of a binary floating point number: the sign, then the exponent, then the fraction. -/
structure FloatFormat where
  fractionBits : Nat
  exponentBits : Nat
deriving DecidableEq, Repr

/-- What the bits of a floating point number stand for. -/
inductive FloatClass where
  | nan
  | infinite (negative : Bool)
  | finite (negative : Bool) (mantissa : Nat) (exponent : Int)
deriving DecidableEq, Repr

namespace FloatFormat

/-- Four bytes: 8 bits of exponent, 23 of fraction. -/
def single : FloatFormat := ⟨23, 8⟩

/-- Eight bytes: 11 bits of exponent, 52 of fraction. -/
def double : FloatFormat := ⟨52, 11⟩

/-- The number of bytes. -/
def width (f : FloatFormat) : Nat :=
  (f.fractionBits + f.exponentBits + 1) / 8

/-- The exponent field that infinities and NaN share. -/
def topExponent (f : FloatFormat) : Nat :=
  pow 2 f.exponentBits - 1

/-- The bit that marks a negative number. -/
def signBit (f : FloatFormat) : Nat :=
  pow 2 (f.fractionBits + f.exponentBits)

/-- The exponent of the last place of the smallest numbers. -/
def leastExponent (f : FloatFormat) : Int :=
  2 - pow 2 (f.exponentBits - 1) - f.fractionBits

/-- The bits of positive infinity. -/
def infinityBits (f : FloatFormat) : Nat :=
  f.topExponent * pow 2 f.fractionBits

/-- The bits of the NaN that text stands for. -/
def nanBits (f : FloatFormat) : Nat :=
  f.infinityBits + pow 2 (f.fractionBits - 1)

/-- What the bits stand for. -/
def classify (f : FloatFormat) (bits : Nat) : FloatClass :=
  let negative := bits / f.signBit % 2 == 1
  let exponent := bits / pow 2 f.fractionBits % pow 2 f.exponentBits
  let fraction := bits % pow 2 f.fractionBits
  if exponent = f.topExponent then
    if fraction = 0 then .infinite negative else .nan
  else if exponent = 0 then .finite negative fraction f.leastExponent
  else .finite negative (pow 2 f.fractionBits + fraction) (f.leastExponent + (exponent - 1 : Nat))

end FloatFormat

end CqlWire
