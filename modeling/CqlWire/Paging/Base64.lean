import CqlWire.Bytes
import CqlWire.Fallible
import CqlWire.Text.Utf8

/-!
# Base64 for addresses

Three bytes become four of 64 symbols: letters, digits, `-` and `_`. A last group of one or two bytes
becomes two or three symbols, and nothing is put in place of the missing ones.

* `Base64.encode`, `Base64.decode`: writing and reading;
* `Base64Error`: what is wrong with a text. Only the text that `encode` writes is read: unused bits
  of the last symbol have to be zero.
-/

namespace CqlWire

/-- Why a text is not base64. Places are counted in bytes. -/
inductive Base64Error where
  | symbol (index byte : Nat)
  | lastSymbol (index byte : Nat)
  | length (n : Nat)
  | padding
deriving DecidableEq, Repr

/-- The wording of a refusal. -/
def Base64Error.message : Base64Error → String
  | .symbol index byte => s!"Invalid symbol {byte}, offset {index}."
  | .lastSymbol index byte => s!"Invalid last symbol {byte}, offset {index}."
  | .length n => s!"Invalid input length: {n}"
  | .padding => "Invalid padding"

namespace Base64

/-- The symbol of a number below 64. -/
def symbol (n : Nat) : Char :=
  if n < 26 then Char.ofNat (65 + n)
  else if n < 52 then Char.ofNat (71 + n)
  else if n < 62 then Char.ofNat (n - 4)
  else if n = 62 then '-'
  else '_'

/-- The number of a symbol, which is given as a byte. -/
def value? (b : UInt8) : Option Nat :=
  let n := b.toNat
  if 65 ≤ n ∧ n ≤ 90 then some (n - 65)
  else if 97 ≤ n ∧ n ≤ 122 then some (n - 71)
  else if 48 ≤ n ∧ n ≤ 57 then some (n + 4)
  else if n = 45 then some 62
  else if n = 95 then some 63
  else none

/-- The symbols of a byte string. -/
def encode : Bytes → List Char
  | a :: b :: c :: r =>
    let n := a.toNat * 65536 + b.toNat * 256 + c.toNat
    symbol (n / 262144) :: symbol (n / 4096 % 64) :: symbol (n / 64 % 64) :: symbol (n % 64)
      :: encode r
  | [a, b] =>
    let n := (a.toNat * 256 + b.toNat) * 4
    [symbol (n / 4096), symbol (n / 64 % 64), symbol (n % 64)]
  | [a] =>
    let n := a.toNat * 16
    [symbol (n / 64), symbol (n % 64)]
  | [] => []

/-- The byte that fills up groups in other kinds of base64. -/
def fill : UInt8 := 61

/-- The values of the symbols, where the first symbol stands at a place. -/
def values (index : Nat) : Bytes → Except Base64Error (List Nat)
  | [] => .ok []
  | b :: r =>
    match value? b with
    | none => .error (.symbol index b.toNat)
    | some n => (values (index + 1) r).map (n :: ·)

/-- The bytes of groups of four symbols. -/
def wholeGroups : List Nat → Bytes
  | a :: b :: c :: d :: r =>
    let n := a * 262144 + b * 4096 + c * 64 + d
    UInt8.ofNat (n / 65536) :: UInt8.ofNat (n / 256) :: UInt8.ofNat n :: wholeGroups r
  | _ => []

/-- The symbols of the last group before its fill bytes, and the number of these. The group begins
at a place. A fill byte may not stand before the third place or before a symbol. -/
def cutFill (index : Nat) (group : Bytes) : Except Base64Error (Bytes × Nat) :=
  let symbols := group.takeWhile (· != fill)
  let rest := group.drop symbols.length
  match values index symbols with
  | .error e => .error e
  | .ok _ =>
    if rest = [] then .ok (symbols, 0)
    else if symbols.length < 2 ∨ rest.any (· != fill) then
      .error (.symbol (index + symbols.length) fill.toNat)
    else .ok (symbols, rest.length)

/-- The bytes of the last group, which begins at a place and has one to four symbols. -/
def lastGroup (index : Nat) (group : Bytes) : Except Base64Error Bytes := do
  let (symbols, filled) ← cutFill index group
  let ns ← values index symbols
  refuseIf (ns.length < 2) (.length (index + ns.length))
  refuseIf (filled ≠ 0) .padding
  let last := .lastSymbol (index + ns.length - 1) (symbols.getLastD 0).toNat
  match ns with
  | [a, b] =>
    refuseIf (b % 16 ≠ 0) last
    return [UInt8.ofNat ((a * 64 + b) / 16)]
  | [a, b, c] =>
    refuseIf (c % 4 ≠ 0) last
    let n := (a * 4096 + b * 64 + c) / 4
    return [UInt8.ofNat (n / 256), UInt8.ofNat n]
  | ns => return wholeGroups ns

/-- The bytes that a text of symbols writes, given as bytes itself. A foreign byte that alone begins
the last group is found first, then the first foreign symbol from the left. -/
def decodeBytes (bs : Bytes) : Except Base64Error Bytes := do
  if bs = [] then return []
  let last := bs.getLastD 0
  refuseIf (bs.length % 4 = 1 ∧ last ≠ fill ∧ (value? last).isNone)
    (.symbol (bs.length - 1) last.toNat)
  let whole := (bs.length - 1) / 4 * 4
  let ns ← values 0 (bs.take whole)
  let tail ← lastGroup whole (bs.drop whole)
  return wholeGroups ns ++ tail

/-- The bytes that a text writes. -/
def decode (text : List Char) : Except Base64Error Bytes :=
  decodeBytes (Utf8.encode text)

end Base64

end CqlWire
