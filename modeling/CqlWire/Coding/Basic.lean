import CqlWire.Fallible
import CqlWire.Frame
import CqlWire.Text.Quoted

/-!
# Codings

A coding of `α` says how values of one type are stored in one column type and how they are written
as literals. It has four directions:

* `encode`, `decode`: to bytes and back, where the bytes may be absent;
* `format`, `parse`: to a literal and back.

`Coding.mapped` carries a coding over to another type of values, and `Coding.option` adds a value
for absence: absent bytes, and the literal NULL.
-/

namespace CqlWire

open Text (trim unquote? isNullLiteral nullWord)

/-- How values of one type are stored and written. -/
structure Coding (α : Type) where
  /-- The column type that is served. -/
  type : ColumnType
  encode : α → Except Error (Option Bytes)
  decode : Option Bytes → Except Error α
  format : α → List Char
  parse : List Char → Except Error α

namespace Coding

variable {α β : Type}

/-- A literal that is refused for a reason. -/
def refuse (type : ColumnType) (text : List Char) (reason : String) : Error :=
  .illegalArgument type.toText (String.ofList text) reason

/-- A value that breaks a rule of its type. -/
def reject (type : ColumnType) (value : List Char) (reason : String) : Error :=
  .illegalValue type.toText (String.ofList value) reason

/-- What a reader found, or the refusal of the literal in the reader's words. -/
def orRefuse {ε : Type} (type : ColumnType) (text : List Char) (message : ε → String) :
    Except ε α → Except Error α
  | .ok a => .ok a
  | .error e => .error (refuse type text (message e))

/-- The text of a literal whose quotes may be left out. -/
def bareText (text : List Char) : List Char :=
  (unquote? text).getD (trim text)

/-- The same bytes and literals for values of another type. Values that are read may have no
counterpart there; values that are written always have one here. -/
def mapped (c : Coding α) (into : α → Except Error β) (out : β → α) : Coding β where
  type := c.type
  encode b := c.encode (out b)
  decode bytes := c.decode bytes >>= into
  format b := c.format (out b)
  parse text := c.parse text >>= into

/-- A coding that also has absence. -/
def option (c : Coding α) : Coding (Option α) where
  type := c.type
  encode
    | some a => c.encode a
    | none => .ok none
  decode
    | some bytes => some <$> c.decode (some bytes)
    | none => .ok none
  format
    | some a => c.format a
    | none => nullWord
  parse text := if isNullLiteral text then .ok none else some <$> c.parse text

end Coding

end CqlWire
