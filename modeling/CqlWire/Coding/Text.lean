import CqlWire.Coding.Basic
import CqlWire.Inet
import CqlWire.Number.Integer
import CqlWire.Text.Utf8
import CqlWire.Uuid

/-!
# Codings of texts and byte strings

* `Coding.text`: any text as UTF-8, written in quotes;
* `Coding.ascii`: a text of US-ASCII, written in quotes;
* `Coding.blob`: any bytes, written as `0x` and hexadecimal digits;
* `Coding.uuid`, `Coding.timeuuid`: a UUID; the second stores only those that are made from the
  time;
* `Coding.inet`: the four or sixteen bytes of an internet address.
-/

namespace CqlWire.Coding

open CqlWire.Text (trim quote unquote? isAscii)

/-- The text of a literal that has to be quoted. -/
def quotedText (type : ColumnType) (text : List Char) : Except Error (List Char) :=
  match unquote? text with
  | some s => .ok s
  | none => .error (refuse type text "expected a quoted literal")

/-- A text. -/
def text : Coding (List Char) where
  type := .scalar .text
  encode s := .ok (some (Utf8.encode s))
  decode bytes := do
    let bs ← Frame.require (.scalar .text) bytes
    match Utf8.decode bs with
    | .ok s => .ok s
    | .error e => .error (.decode "text" ("invalid UTF-8: " ++ e.message))
  format := quote
  parse := quotedText (.scalar .text)

/-- Why a text cannot be stored as US-ASCII. -/
def notAscii : String := "contains non-ASCII characters"

/-- A text of US-ASCII. -/
def ascii : Coding (List Char) where
  type := .scalar .ascii
  encode s :=
    if s.all isAscii then .ok (some (Utf8.encode s))
    else .error (reject (.scalar .ascii) (quote s) notAscii)
  decode bytes := do
    let bs ← Frame.require (.scalar .ascii) bytes
    if bs.all (· < 0x80) then .ok (bs.map fun b => Char.ofNat b.toNat)
    else .error (.decode "ascii" "non-ASCII byte")
  format := quote
  parse text := do
    let s ← quotedText (.scalar .ascii) text
    if s.all isAscii then .ok s else .error (refuse (.scalar .ascii) text notAscii)

/-! ## Byte strings -/

/-- The byte of two hexadecimal digits, of which the first may be a plus sign instead. -/
def hexByte? (a b : Char) : Option UInt8 := do
  let lo ← hexValue? b
  if a = '+' then return UInt8.ofNat lo
  let hi ← hexValue? a
  return UInt8.ofNat (hi * 16 + lo)

/-- The bytes of an even number of digits. -/
def hexBytes? : List Char → Option Bytes
  | a :: b :: r => do return (← hexByte? a b) :: (← hexBytes? r)
  | _ => some []

/-- The digits behind the mark of a blob. -/
def blobDigits? : List Char → Option (List Char)
  | '0' :: 'x' :: r | '0' :: 'X' :: r => some r
  | _ => none

/-- A byte string. -/
def blob : Coding Bytes where
  type := .scalar .blob
  encode bs := .ok (some bs)
  decode bytes := Frame.require (.scalar .blob) bytes
  format bs := '0' :: 'x' :: bs.toHex
  parse text :=
    match blobDigits? (trim text) with
    | none => .error (refuse (.scalar .blob) text "missing 0x prefix")
    | some digits =>
      if !digits.all isAscii || digits.length % 2 != 0 then
        .error (refuse (.scalar .blob) text "expected an even number of hex digits")
      else
        match hexBytes? digits with
        | some bs => .ok bs
        | none => .error (refuse (.scalar .blob) text IntegerError.invalidDigit.message)

/-! ## UUIDs and addresses -/

/-- A UUID. -/
def uuid : Coding Uuid where
  type := .scalar .uuid
  encode u := .ok (some u.1)
  decode bytes := do Frame.fixed (.scalar .uuid) 16 (← Frame.require (.scalar .uuid) bytes)
  format := Uuid.toText
  parse text := orRefuse (.scalar .uuid) text UuidError.message (Uuid.read (bareText text))

/-- A UUID that is made from the time. Only storing looks at the version. -/
def timeuuid : Coding Uuid where
  type := .scalar .timeuuid
  encode u :=
    if u.version = 1 then .ok (some u.1)
    else
      .error (reject (.scalar .timeuuid) u.toText
        s!"version {u.version} is not a time-based UUID")
  decode bytes := do
    Frame.fixed (.scalar .timeuuid) 16 (← Frame.require (.scalar .timeuuid) bytes)
  format := Uuid.toText
  parse text := orRefuse (.scalar .timeuuid) text UuidError.message (Uuid.read (bareText text))

/-- An internet address. -/
def inet : Coding Inet where
  type := .scalar .inet
  encode a := .ok (some a.bytes)
  decode bytes := do
    let bs ← Frame.require (.scalar .inet) bytes
    match Inet.ofBytes? bs with
    | some a => .ok a
    | none => .error (.invalidLength "inet" "4 or 16" bs.length)
  format a := quote a.toText
  parse text :=
    match Inet.read? (bareText text) with
    | some a => .ok a
    | none => .error (refuse (.scalar .inet) text Inet.refusal)

end CqlWire.Coding
