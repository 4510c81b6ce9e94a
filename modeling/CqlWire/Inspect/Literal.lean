import CqlWire.Bytes
import CqlWire.Text.Printable

/-!
# Inspected texts and bytes

A text is shown between double quotes. Quotes, backslashes and line ends are escaped, and every
character that cannot be shown as it is stands as its code point; bytes are shown as US-ASCII.
-/

namespace CqlWire.Inspect

open Text (isPrintable)

/-- A number in hexadecimal, without zeros in front. -/
def hexText (n : Nat) : List Char :=
  Nat.toDigits 16 n

/-- A character of an inspected text. -/
def character (c : Char) : List Char :=
  match c with
  | '"' => ['\\', '"']
  | '\\' => ['\\', '\\']
  | '\n' => ['\\', 'n']
  | '\r' => ['\\', 'r']
  | '\t' => ['\\', 't']
  | '\x00' => ['\\', '0']
  | c => if isPrintable c then [c] else ['\\', 'u', '\x7b'] ++ hexText c.toNat ++ ['\x7d']

/-- A text as it is inspected. -/
def text (s : List Char) : List Char :=
  '"' :: s.flatMap character ++ ['"']

/-- A byte of inspected bytes. -/
def byte (b : UInt8) : List Char :=
  let c := Char.ofNat b.toNat
  match c with
  | '"' => ['\\', '"']
  | '\\' => ['\\', '\\']
  | '\n' => ['\\', 'n']
  | '\r' => ['\\', 'r']
  | '\t' => ['\\', 't']
  | '\x00' => ['\\', '0']
  | c =>
    if ' ' ≤ c && c ≤ '~' then [c] else ['\\', 'x'] ++ Bytes.toHex [b]

/-- Bytes as they are inspected. -/
def bytes (bs : Bytes) : List Char :=
  'b' :: '"' :: bs.flatMap byte ++ ['"']

/-- Inspected items with commas between them. -/
def commaSeparated (items : List (List Char)) : List Char :=
  ", ".toList.intercalate items

/-- Inspected items in brackets. -/
def bracketed (items : List (List Char)) : List Char :=
  '[' :: commaSeparated items ++ [']']

/-- Inspected items in braces. -/
def braced (items : List (List Char)) : List Char :=
  '\x7b' :: commaSeparated items ++ ['\x7d']

/-- A name with its inspected fields. -/
def structured (name : String) (fields : List (String × List Char)) : List Char :=
  match fields with
  | [] => name.toList
  | _ =>
    let items := fields.map fun (field, shown) => field.toList ++ ": ".toList ++ shown
    name.toList ++ " \x7b ".toList ++ commaSeparated items ++ " \x7d".toList

end CqlWire.Inspect
