import CqlWire.Coding.Basic
import CqlWire.Literal.Split

/-!
# Codings of collections

A collection is stored as the number of its elements and the frame of each. Its literal is the list
of its elements in braces.

* `Coding.elements`: lists, whose elements may be absent, and sets, whose elements may not;
* `Coding.entries`: maps, whose keys may not be absent while their values may.

What is read is a plain list in the order of the bytes or of the literal; the container that holds
it is the reader's matter (`Codec`). No bytes at all are read as the empty collection.
-/

namespace CqlWire

open Text (isNullLiteral)
open Literal (splitElements splitEntries)

/-- Lists and sets. -/
inductive CollectionKind where
  | list | set
deriving DecidableEq, Repr

/-- The column type of a collection. -/
def CollectionKind.type : CollectionKind → (frozen : Bool) → ColumnType → ColumnType
  | .list => .list
  | .set => .set

/-- Whether elements may be absent. -/
def CollectionKind.allowsNull : CollectionKind → Bool
  | .list => true
  | .set => false

/-- Parts of a collection literal. -/
def braced (parts : List (List Char)) : List Char :=
  '\x7b' :: List.intercalate [','] parts ++ ['\x7d']

namespace Coding

variable {α β : Type}

/-! ## Lists and sets -/

/-- Why a set cannot hold an element. -/
def nullElement : String := "sets cannot contain null elements"

/-- The frame of one element. -/
def encodeElement (type : ColumnType) (allowsNull : Bool) (c : Coding α) (a : α) :
    Except Error Bytes := do
  match ← c.encode a with
  | none =>
    if allowsNull then Frame.write none else .error (reject type (c.format a) nullElement)
  | some bs => Frame.write (some bs)

/-- The number of elements and their frames. -/
def encodeElements (type : ColumnType) (allowsNull : Bool) (c : Coding α) (as : List α) :
    Except Error Bytes := do
  let count ← Frame.writeCount as.length
  let frames ← as.mapM (encodeElement type allowsNull c)
  return count ++ frames.flatten

/-- Reads so many elements, the first of which has the given index; what is left comes with them. -/
def decodeElements (type : ColumnType) (allowsNull : Bool) (c : Coding α) :
    (count index : Nat) → Bytes → Except Error (List α × Bytes)
  | 0, _, bs => .ok ([], bs)
  | count + 1, index, bs => do
    let (raw, bs) ← Frame.read type bs
    refuseIf (raw.isNone && !allowsNull) (.decode type.toText s!"null element at index {index}")
    let a ← c.decode raw
    let (as, bs) ← decodeElements type allowsNull c count (index + 1) bs
    return (a :: as, bs)

/-- Reads one part of a literal. -/
def parseElement (type : ColumnType) (allowsNull : Bool) (c : Coding α) (text part : List Char) :
    Except Error α :=
  if !allowsNull && isNullLiteral part then .error (refuse type text nullElement)
  else c.parse part

/-- A list or a set of what another coding stores. -/
def elements (kind : CollectionKind) (frozen : Bool) (c : Coding α) : Coding (List α) where
  type := kind.type frozen c.type
  encode as := some <$> encodeElements (kind.type frozen c.type) kind.allowsNull c as
  decode bytes := do
    let type := kind.type frozen c.type
    let bs ← Frame.require type bytes
    if bs.isEmpty then return []
    let (count, bs) ← Frame.readCount type bs
    let (as, rest) ← decodeElements type kind.allowsNull c count 0 bs
    Frame.expectEnd type rest
    return as
  format as := braced (as.map c.format)
  parse text := do
    let type := kind.type frozen c.type
    let parts ← orRefuse type text Literal.SplitError.message
      (splitElements '\x7b' '\x7d' text)
    parts.mapM (parseElement type kind.allowsNull c text)

/-! ## Maps -/

/-- Why a map cannot hold a key. -/
def nullKey : String := "map keys cannot be null"

/-- The frames of a key and its value. -/
def encodeEntry (type : ColumnType) (k : Coding α) (v : Coding β) (e : α × β) :
    Except Error Bytes := do
  match ← k.encode e.1 with
  | none => .error (reject type (k.format e.1) nullKey)
  | some key =>
    let key ← Frame.write (some key)
    let value ← v.encode e.2
    return key ++ (← Frame.write value)

/-- Reads so many entries, the first of which has the given index; what is left comes with them.
Both frames of an entry are read before the key is looked at. -/
def decodeEntries (type : ColumnType) (k : Coding α) (v : Coding β) :
    (count index : Nat) → Bytes → Except Error (List (α × β) × Bytes)
  | 0, _, bs => .ok ([], bs)
  | count + 1, index, bs => do
    let (rawKey, bs) ← Frame.read type bs
    refuseIf rawKey.isNone (.decode type.toText s!"null key at entry {index}")
    let (rawValue, bs) ← Frame.read type bs
    let key ← k.decode rawKey
    let value ← v.decode rawValue
    let (es, bs) ← decodeEntries type k v count (index + 1) bs
    return ((key, value) :: es, bs)

/-- Reads one entry of a literal. -/
def parseEntry (type : ColumnType) (k : Coding α) (v : Coding β) (text : List Char)
    (part : List Char × List Char) : Except Error (α × β) := do
  refuseIf (isNullLiteral part.1) (refuse type text nullKey)
  let key ← k.parse part.1
  let value ← v.parse part.2
  return (key, value)

/-- A map between what two codings store. -/
def entries (frozen : Bool) (k : Coding α) (v : Coding β) : Coding (List (α × β)) where
  type := .map frozen k.type v.type
  encode es := do
    let count ← Frame.writeCount es.length
    let frames ← es.mapM (encodeEntry (.map frozen k.type v.type) k v)
    return some (count ++ frames.flatten)
  decode bytes := do
    let type := ColumnType.map frozen k.type v.type
    let bs ← Frame.require type bytes
    if bs.isEmpty then return []
    let (count, bs) ← Frame.readCount type bs
    let (es, rest) ← decodeEntries type k v count 0 bs
    Frame.expectEnd type rest
    return es
  format es := braced (es.map fun e => k.format e.1 ++ ':' :: v.format e.2)
  parse text := do
    let type := ColumnType.map frozen k.type v.type
    let parts ← orRefuse type text Literal.SplitError.message (splitEntries '\x7b' '\x7d' text)
    parts.mapM (parseEntry type k v text)

end Coding

end CqlWire
