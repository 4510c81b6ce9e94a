import CqlWire.Calendar.Writer
import CqlWire.Inspect.Literal
import CqlWire.Number.Shortest
import CqlWire.Value.Basic
import CqlWire.Value.Type

/-!
# Inspected values

`ValueType.inspect` shows a value with its structure, for a reader and not for a column: texts are
quoted, records and variants appear under their names in programs, and a floating point number has
a point or, where it is very large or very small, an exponent.
-/

namespace CqlWire

/-- A finite number, given by its digits and the power of ten of the last one. From `10 ^ 16` on and
below `10 ^ -4` it has an exponent, and otherwise at least one fraction digit. -/
def Inspect.scientific (d : Nat) (k : Int) : List Char :=
  let (d, stripped) := stripZeros (decimalDigits d).length d
  let digits := decimalDigits d
  let point := digits.length + k + stripped
  if d ≠ 0 ∧ (point < -3 ∨ 16 < point) then
    let fraction := digits.tail
    digits.take 1 ++ (if fraction.isEmpty then [] else '.' :: fraction) ++
      'e' :: decimalText (point - 1)
  else
    let s := positional d (k + stripped)
    if s.contains '.' then s else s ++ ['.', '0']

/-- An inspected floating point number. -/
def FloatFormat.inspect (f : FloatFormat) (bits : Nat) : List Char :=
  let signed := fun (negative : Bool) (s : List Char) => if negative then '-' :: s else s
  match f.classify bits with
  | .nan => "NaN".toList
  | .infinite negative => signed negative "inf".toList
  | .finite negative 0 _ => signed negative "0.0".toList
  | .finite negative m q =>
    let (d, k) := f.shortest m q
    signed negative (Inspect.scientific d k)

namespace Value

/-- An inspected value of a type without parts. -/
def inspectBase : Value → List Char
  | .bool b => (if b then "true" else "false").toList
  | .int n => decimalText n
  | .float bits => FloatFormat.single.inspect bits
  | .double bits => FloatFormat.double.inspect bits
  | .text s => Inspect.text s
  | .bytes bs => Inspect.bytes bs
  | .uuid u => u.toText
  | .instant t => t.toText .automatic "Z"
  | .date d => d.toText
  | .time t => t.toText .automatic
  | .unscaled d =>
    Inspect.structured "UnscaledDecimal"
      [("unscaled", decimalText d.unscaled), ("scale", decimalText d.scale)]
  | .decimal d => d.toUnscaled.toText
  | .inet a => a.toText
  | .absent | .present _ | .sequence _ | .mapping _ | .variant _ | .record _ => []

end Value

namespace ValueType

mutual

/-- A value as it is inspected. -/
def inspect : ValueType → Value → List Char
  | .base _, v => v.inspectBase
  | .option t, v =>
    match v with
    | .present v => "Some(".toList ++ t.inspect v ++ [')']
    | _ => "None".toList
  | .sequence into e, v =>
    let shown := (v.sequence?.getD []).map e.inspect
    match into with
    | .vector | .deque => Inspect.bracketed shown
    | .ordered | .hashed => Inspect.braced shown
  | .mapping _ k v, w =>
    Inspect.braced ((w.mapping?.getD []).map fun (a, b) =>
      k.inspect a ++ ": ".toList ++ v.inspect b)
  | .enumeration e, v => (e.members.getD (v.variant?.getD 0) "").toList
  | .record header types, v =>
    Inspect.structured header.label (header.members.zip (inspectAll types (v.record?.getD [])))
termination_by structural t => t

/-- Values of several types as they are inspected. -/
def inspectAll : List ValueType → List Value → List (List Char)
  | t :: ts, v :: vs => t.inspect v :: inspectAll ts vs
  | _, _ => []
termination_by structural ts => ts

end

end ValueType

end CqlWire
