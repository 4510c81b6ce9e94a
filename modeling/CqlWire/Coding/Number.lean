import CqlWire.Coding.Basic
import CqlWire.Number.Decimal
import CqlWire.Number.Rounding
import CqlWire.Number.Shortest

/-!
# Codings of numbers and truth values

* `Coding.integer`: big-endian two's complement of a fixed number of bytes;
* `Coding.varint`: two's complement of as few bytes as the number needs, at most sixteen;
* `Coding.floating`: the bits of a floating point number, written as the shortest decimal;
* `Coding.unscaled`, `Coding.decimal`: a scale of four bytes and a `varint`;
* `Coding.boolean`: one byte, of which every one but zero is true.
-/

namespace CqlWire

open Text (trim eqIgnoreCase)

/-! ## Integers -/

/-- The bytes of a number without those in front that only repeat its sign. -/
def Bytes.stripSign : Bytes → Bytes
  | a :: b :: r =>
    if (a = 0x00 ∧ b < 0x80) ∨ (a = 0xFF ∧ 0x80 ≤ b) then stripSign (b :: r) else a :: b :: r
  | bs => bs

namespace Coding

/-- An integer of a fixed number of bytes. -/
def integer (s : ScalarType) (width : Nat) : Coding Int where
  type := .scalar s
  encode n := .ok (some (Bytes.ofInt width n))
  decode bytes := do
    let bs ← Frame.require (.scalar s) bytes
    let o ← Frame.fixed (.scalar s) width bs
    return Bytes.toInt o.1
  format := decimalText
  parse text := orRefuse (.scalar s) text IntegerError.message (readSigned (8 * width) (trim text))

/-- The fewest bytes of two's complement. -/
def encodeVarint (n : Int) : Bytes :=
  (Bytes.ofInt 16 n).stripSign

/-- The number of one to sixteen bytes of two's complement. -/
def decodeVarint (type : ColumnType) (bs : Bytes) : Except Error Int :=
  if bs.isEmpty then .error (.invalidLength type.toText "at least 1" 0)
  else if 16 < bs.length then
    .error (.decode type.toText s!"{bs.length}-byte integer overflows 128 bits")
  else .ok (Bytes.toInt bs)

/-- An integer of up to sixteen bytes. -/
def varint : Coding Int where
  type := .scalar .varint
  encode n := .ok (some (encodeVarint n))
  decode bytes := do decodeVarint (.scalar .varint) (← Frame.require (.scalar .varint) bytes)
  format := decimalText
  parse text := orRefuse (.scalar .varint) text IntegerError.message (readSigned 128 (trim text))

/-! ## Floating point numbers -/

/-- A floating point number, by its bits. -/
def floating (s : ScalarType) (f : FloatFormat) : Coding Nat where
  type := .scalar s
  encode bits := .ok (some (Bytes.ofNat f.width bits))
  decode bytes := do
    let bs ← Frame.require (.scalar s) bytes
    let o ← Frame.fixed (.scalar s) f.width bs
    return Bytes.toNat o.1
  format := f.toText
  parse text := orRefuse (.scalar s) text FloatError.message (f.read (trim text))

/-! ## Decimals -/

/-- A decimal with its scale. -/
def unscaled : Coding UnscaledDecimal where
  type := .scalar .decimal
  encode d := .ok (some (Bytes.ofInt 4 d.scale ++ encodeVarint d.unscaled))
  decode bytes := do
    let bs ← Frame.require (.scalar .decimal) bytes
    refuseIf (bs.length < 5) (.invalidLength "decimal" "at least 5" bs.length)
    let n ← decodeVarint (.scalar .decimal) (bs.drop 4)
    return ⟨n, Bytes.toInt (bs.take 4)⟩
  format := UnscaledDecimal.toText
  parse text := orRefuse (.scalar .decimal) text DecimalError.message (UnscaledDecimal.read text)

/-- A decimal that does not fit in 96 bits. -/
def decimalTooLarge (d : UnscaledDecimal) : Error :=
  .decode "decimal" s!"{d.unscaled}E{-d.scale} does not fit a 96-bit decimal"

/-- A decimal of 96 bits. -/
def decimal : Coding Decimal :=
  unscaled.mapped
    (fun d =>
      match Decimal.ofUnscaled? d with
      | some x => .ok x
      | none => .error (decimalTooLarge d))
    Decimal.toUnscaled

/-! ## Truth values -/

/-- A truth value. -/
def boolean : Coding Bool where
  type := .scalar .boolean
  encode b := .ok (some [if b then 1 else 0])
  decode bytes := do
    let bs ← Frame.require (.scalar .boolean) bytes
    let o ← Frame.fixed (.scalar .boolean) 1 bs
    return o.1 != [0]
  format b := (if b then "true" else "false").toList
  parse text :=
    if eqIgnoreCase (trim text) "true".toList then .ok true
    else if eqIgnoreCase (trim text) "false".toList then .ok false
    else .error (refuse (.scalar .boolean) text "expected true or false")

end Coding

end CqlWire
