import CqlWire.Bytes
import CqlWire.Text.Ascii
import CqlWire.Text.Blank

/-!
# JSON documents

The JSON values that a schema document is made of. Reading follows the grammar of JSON to the
letter; a number keeps its spelling, and a string the text it writes, if it writes one: an escaped
surrogate without its partner is well formed but is no text.

* `JsonValue.read?`: a whole document, white space around it allowed;
* `JsonValue.members?`: the named members of a record, which is an object with those keys or an
  array that lists the members in order.
-/

namespace CqlWire

open Text (skipLayout isAsciiDigit)

/-- A JSON value. The keys of an object stand in the order of the document. -/
inductive JsonValue where
  | null
  | bool (b : Bool)
  | number (spelling : List Char)
  | string (text : Option (List Char))
  | array (items : List JsonValue)
  | object (entries : List (Option (List Char) × JsonValue))
deriving Repr

namespace JsonValue

/-! ## Strings -/

/-- What one step of a string writes: a character, or a UTF-16 unit by its number. -/
inductive StringPiece where
  | char (c : Char)
  | unit (n : Nat)
deriving DecidableEq, Repr

/-- The character of a one-letter escape. -/
def escaped? : Char → Option Char
  | '"' => some '"'
  | '\\' => some '\\'
  | '/' => some '/'
  | 'b' => some '\x08'
  | 'f' => some '\x0C'
  | 'n' => some '\n'
  | 'r' => some '\r'
  | 't' => some '\t'
  | _ => none

/-- The number that four hexadecimal digits write. -/
def unit? (a b c d : Char) : Option Nat :=
  return (← hexValue? a) * 4096 + (← hexValue? b) * 256 + (← hexValue? c) * 16 + (← hexValue? d)

/-- The pieces of a string up to its closing quote, and the text behind it. -/
def pieces? : List Char → Option (List StringPiece × List Char)
  | [] => none
  | '"' :: r => some ([], r)
  | '\\' :: 'u' :: a :: b :: c :: d :: r => do
    let n ← unit? a b c d
    let (ps, r) ← pieces? r
    return (.unit n :: ps, r)
  | '\\' :: e :: r => do
    let c ← escaped? e
    let (ps, r) ← pieces? r
    return (.char c :: ps, r)
  | c :: r =>
    if c < ' ' || c == '\\' then none
    else do
      let (ps, r) ← pieces? r
      return (.char c :: ps, r)

/-- The text that pieces write: a high surrogate needs a low one behind it, and a low surrogate a
high one in front. -/
def text? : List StringPiece → Option (List Char)
  | [] => some []
  | .char c :: ps => (text? ps).map (c :: ·)
  | .unit hi :: .unit lo :: ps =>
    if 0xD800 ≤ hi ∧ hi < 0xDC00 then
      if 0xDC00 ≤ lo ∧ lo < 0xE000 then
        (text? ps).map (Char.ofNat (0x10000 + (hi - 0xD800) * 0x400 + (lo - 0xDC00)) :: ·)
      else none
    else if 0xDC00 ≤ hi ∧ hi < 0xE000 then none
    else (text? (.unit lo :: ps)).map (Char.ofNat hi :: ·)
  | .unit n :: ps =>
    if 0xD800 ≤ n ∧ n < 0xE000 then none else (text? ps).map (Char.ofNat n :: ·)

/-! ## Numbers -/

/-- At least one digit and all that follow it; then the rest. -/
def digits? (s : List Char) : Option (List Char × List Char) :=
  match s.takeWhile isAsciiDigit with
  | [] => none
  | ds => some (ds, s.dropWhile isAsciiDigit)

/-- The digits in front of a decimal point: zero alone, or no zero first. -/
def whole? : List Char → Option (List Char × List Char)
  | '0' :: r =>
    match r with
    | d :: _ => if isAsciiDigit d then none else some (['0'], r)
    | [] => some (['0'], [])
  | s => digits? s

/-- An optional part of a number behind its mark, absent where no mark stands. -/
def part? (isMark : Char → Bool) (body : List Char → Option (List Char × List Char)) :
    List Char → Option (List Char × List Char)
  | c :: r => if isMark c then (body r).map fun (ds, r) => (c :: ds, r) else some ([], c :: r)
  | [] => some ([], [])

/-- The digits of an exponent with their optional sign. -/
def exponent? : List Char → Option (List Char × List Char)
  | '+' :: r => (digits? r).map fun (ds, r) => ('+' :: ds, r)
  | '-' :: r => (digits? r).map fun (ds, r) => ('-' :: ds, r)
  | s => digits? s

/-- An unsigned number and the text behind it. -/
def unsigned? (s : List Char) : Option (List Char × List Char) := do
  let (whole, s) ← whole? s
  let (fraction, s) ← part? (· == '.') digits? s
  let (exponent, s) ← part? (fun c => c == 'e' || c == 'E') exponent? s
  return (whole ++ fraction ++ exponent, s)

/-- A number and the text behind it. -/
def number? : List Char → Option (List Char × List Char)
  | '-' :: r => (unsigned? r).map fun (ds, r) => ('-' :: ds, r)
  | s => unsigned? s

/-! ## Values -/

mutual

/-- A value at the front of a text, white space before it allowed, and the text behind it. -/
def value? : (fuel : Nat) → List Char → Option (JsonValue × List Char)
  | 0, _ => none
  | fuel + 1, s =>
    match skipLayout s with
    | 'n' :: 'u' :: 'l' :: 'l' :: r => some (.null, r)
    | 't' :: 'r' :: 'u' :: 'e' :: r => some (.bool true, r)
    | 'f' :: 'a' :: 'l' :: 's' :: 'e' :: r => some (.bool false, r)
    | '"' :: r => (pieces? r).map fun (ps, r) => (.string (text? ps), r)
    | '[' :: r =>
      match skipLayout r with
      | ']' :: r => some (.array [], r)
      | r => (items? fuel r).map fun (vs, r) => (.array vs, r)
    | '\x7b' :: r =>
      match skipLayout r with
      | '\x7d' :: r => some (.object [], r)
      | r => (entries? fuel r).map fun (es, r) => (.object es, r)
    | s => (number? s).map fun (ds, r) => (.number ds, r)

/-- One or more values with commas between them, up to the closing bracket. -/
def items? : (fuel : Nat) → List Char → Option (List JsonValue × List Char)
  | 0, _ => none
  | fuel + 1, s => do
    let (v, s) ← value? fuel s
    match skipLayout s with
    | ']' :: r => return ([v], r)
    | ',' :: r =>
      let (vs, r) ← items? fuel r
      return (v :: vs, r)
    | _ => none

/-- One or more keys with their values, commas between them, up to the closing brace. -/
def entries? : (fuel : Nat) → List Char →
    Option (List (Option (List Char) × JsonValue) × List Char)
  | 0, _ => none
  | fuel + 1, s =>
    match skipLayout s with
    | '"' :: r => do
      let (ps, r) ← pieces? r
      match skipLayout r with
      | ':' :: r =>
        let (v, r) ← value? fuel r
        match skipLayout r with
        | '\x7d' :: r => return ([(text? ps, v)], r)
        | ',' :: r =>
          let (es, r) ← entries? fuel r
          return ((text? ps, v) :: es, r)
        | _ => none
      | _ => none
    | _ => none

end

/-- Reads a whole document. Every step into a value reads a character, so the length of the text
bounds them. -/
def read? (s : List Char) : Option JsonValue :=
  match value? (2 * s.length + 2) s with
  | some (v, r) => if (skipLayout r).isEmpty then some v else none
  | none => none

/-! ## Records -/

/-- The text of a string value. -/
def string? : JsonValue → Option (List Char)
  | .string text => text
  | _ => none

/-- The items of an array. -/
def array? : JsonValue → Option (List JsonValue)
  | .array items => some items
  | _ => none

/-- The value of a member that an object may name in several ways: `none` where it occurs twice,
`some none` where it does not occur. -/
def member? (names : List (List Char)) (entries : List (Option (List Char) × JsonValue)) :
    Option (Option JsonValue) :=
  match entries.filter fun e => e.1.any names.contains with
  | [] => some none
  | [(_, v)] => some (some v)
  | _ => none

/-- The members of a record in the order of `names`, each with the keys that name it. An object may
hold further keys; an array may stop early but holds nothing more. -/
def members? (names : List (List (List Char))) : JsonValue → Option (List (Option JsonValue))
  | .object entries =>
    if entries.all fun e => e.1.isSome then names.mapM fun ns => member? ns entries else none
  | .array items =>
    if items.length ≤ names.length then
      some (names.zipIdx.map fun (_, i) => items[i]?)
    else none
  | _ => none

end JsonValue

end CqlWire
