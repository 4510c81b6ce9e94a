import CqlWire.Coding.Collection

/-!
# Codings of records

A record is stored as a user-defined type. The record declares its fields in one order and the
type reports its own in another; the type decides how values are stored and written. What links
the two are the *slots*: for each field of the type, the declared field that it holds.

* `Coding.encodeSlots`, `Coding.readSlots`: the frames of the fields, in the order of the type;
* `Coding.record`: the coding of the list of the declared fields.

Bytes may stop after any field of the type. A field that was not read is absent, and so is a
declared field that the type lacks.
-/

namespace CqlWire.Coding

open Text (nullWord)
open Literal (splitEntries)

variable {α : Type}

/-- A field that a record of `count` fields does not declare. -/
def noSuchField (typeName : String) (count index : Nat) : Error :=
  .illegalValue typeName s!"field #{index}" s!"{typeName} declares {count} fields"

/-- Stores one declared field. -/
def encodeField (typeName : String) (fields : List (Coding α)) (as : List α) (index : Nat) :
    Except Error (Option Bytes) :=
  match fields[index]?, as[index]? with
  | some c, some a => c.encode a
  | _, _ => .error (noSuchField typeName fields.length index)

/-- The literal of one declared field. -/
def formatField (fields : List (Coding α)) (as : List α) (index : Nat) : List Char :=
  match fields[index]?, as[index]? with
  | some c, some a => c.format a
  | _, _ => nullWord

/-- The frames of the fields that the slots name. -/
def encodeSlots (typeName : String) (fields : List (Coding α)) (as : List α) (slots : List Nat) :
    Except Error Bytes := do
  let frames ← slots.mapM fun index => do Frame.write (← encodeField typeName fields as index)
  return frames.flatten

/-- Reads a frame for each slot as long as there are bytes, into the values of the declared fields;
what is left comes with them. -/
def readSlots (type : ColumnType) :
    (slots : List Nat) → Bytes → List (Option Bytes) → Except Error (List (Option Bytes) × Bytes)
  | [], bs, values => .ok (values, bs)
  | slot :: slots, bs, values =>
    if bs.isEmpty then .ok (values, bs)
    else do
      let (value, rest) ← Frame.read type bs
      readSlots type slots rest (values.set slot value)

/-- Sorts the entries of a literal into the declared fields. -/
def placeLiterals (schema : UserType) (slots : List Nat) (text : List Char) :
    List (List Char × List Char) → List (Option (List Char)) →
      Except Error (List (Option (List Char)))
  | [], literals => .ok literals
  | (name, literal) :: rest, literals =>
    match schema.field? (String.ofList name) with
    | none =>
      .error (refuse (.user schema) text s!"unknown field '{String.ofList name}'")
    | some (position, _) =>
      match slots[position]? with
      | some slot => placeLiterals schema slots text rest (literals.set slot (some literal))
      | none => placeLiterals schema slots text rest literals

/-- A record whose declared fields are stored by `fields`, in the order that `slots` gives to the
fields of the type. -/
def record (typeName : String) (schema : UserType) (slots : List Nat) (fields : List (Coding α)) :
    Coding (List α) where
  type := .user schema
  encode as := some <$> encodeSlots typeName fields as slots
  decode bytes := do
    let bs ← Frame.require (.user schema) bytes
    let (values, rest) ← readSlots (.user schema) slots bs (fields.map fun _ => none)
    refuseIf (!rest.isEmpty)
      (.decode (ColumnType.user schema).toText
        s!"{rest.length} bytes left after {slots.length} schema fields")
    (fields.zip values).mapM fun (c, value) => c.decode value
  format as :=
    braced ((schema.fields.zip slots).map fun (field, slot) =>
      field.name.toList ++ ':' :: formatField fields as slot)
  parse text := do
    let parts ← orRefuse (.user schema) text Literal.SplitError.message
      (splitEntries '\x7b' '\x7d' text)
    let literals ← placeLiterals schema slots text parts (fields.map fun _ => none)
    (fields.zip literals).mapM fun (c, literal) => c.parse (literal.getD nullWord)

end CqlWire.Coding
