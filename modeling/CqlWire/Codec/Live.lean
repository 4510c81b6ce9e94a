import CqlWire.Codec.Default
import CqlWire.ColumnType.Compatible
import CqlWire.Value.TypeName

/-!
# Codecs for live column types

A value type can be stored in any column type that it can be reconciled with. Scalars need their own
type; collections need the same kind of collection, with parts that can be reconciled; a record needs
a user-defined type of its name whose fields it declares, in any order, where only fields that may be
absent can be missing. The codec follows the column type, at any depth.

* `ValueType.codecFor`: the codec for a column of a type;
* `Record.identical`: the codec for a user-defined type that lists exactly the declared columns;
* `Record.reordered`: the codec for one that lists them in another order or lacks some;
* `Record.reconcile`: the one of the two that fits;
* `Record.schemaPosition?`: where the type has a declared field.
-/

namespace CqlWire

/-- What a record needs to know of the type of a field. -/
structure FieldShape where
  /-- The codec where no column type is known. -/
  codec : Codec
  isNullable : Bool
  /-- The codec for a column type. -/
  codecFor : ColumnType → Except Error Codec

/-- A column type that a value type cannot be stored in. -/
def mismatch (t : ValueType) (expected actual : ColumnType) : Error :=
  .schemaMismatch actual.toText (t.name ++ " maps to " ++ expected.toText)

namespace Record

/-- A user-defined type that a record cannot be stored in. -/
def irreconcilable (schema : UserType) (reason : String) : Error :=
  .schemaMismatch schema.qualifiedName reason

/-- Whether the type lists exactly the declared columns in their order. -/
def isDeclaredOrder (header : RecordHeader) (schema : UserType) : Bool :=
  schema.fields.map Field.name = header.columns

/-- The declared field for each field of the type. -/
def slots (header : RecordHeader) (schema : UserType) : Except Error (List Nat) :=
  schema.fields.mapM fun f =>
    match header.columns.idxOf? f.name with
    | some index => .ok index
    | none =>
      .error (irreconcilable schema
        s!"schema field '{f.name}' has no counterpart in {header.typeName}")

/-- The codec of a declared field for the type that its column has. -/
def fieldCodec (header : RecordHeader) (schema : UserType) (shapes : List FieldShape)
    (f : Field ColumnType) (slot : Nat) : Except Error Codec :=
  let found :=
    match shapes[slot]? with
    | some shape => shape.codecFor f.type
    | none => .error (Coding.noSuchField header.typeName shapes.length slot)
  found.mapError fun e =>
    irreconcilable schema
      (s!"field '{f.name}' is {f.type.toText} in the schema, which {header.typeName} cannot map: "
        ++ e.message)

/-- The codecs of the declared fields: for the types of their columns where the type has them, and
the default codecs elsewhere. -/
def fieldCodecs (header : RecordHeader) (schema : UserType) (shapes : List FieldShape)
    (slots : List Nat) : Except Error (List Codec) :=
  (schema.fields.zip slots).foldlM
    (fun codecs (f, slot) => do return codecs.set slot (← fieldCodec header schema shapes f slot))
    (shapes.map FieldShape.codec)

/-- The first declared field that the type lacks although it cannot be absent. -/
def missing? (header : RecordHeader) (shapes : List FieldShape) (slots : List Nat) :
    Option String :=
  (header.columns.zip shapes).zipIdx.findSome? fun ((column, shape), index) =>
    if shape.isNullable || slots.contains index then none else some column

/-- The codec for a user-defined type that lists exactly the declared columns. -/
def identical (header : RecordHeader) (shapes : List FieldShape) (schema : UserType) :
    Except Error Codec := do
  refuseIf (!isDeclaredOrder header schema)
    (irreconcilable schema
      (s!"field order differs from {header.typeName} declaration ("
        ++ String.intercalate ", " header.columns ++ ")"))
  let slots := List.range schema.fields.length
  return .record header schema slots (← fieldCodecs header schema shapes slots)

/-- The codec for a user-defined type whose fields are declared in another order. -/
def reordered (header : RecordHeader) (shapes : List FieldShape) (schema : UserType) :
    Except Error Codec := do
  let slots ← slots header schema
  let codecs ← fieldCodecs header schema shapes slots
  match missing? header shapes slots with
  | some column =>
    .error (irreconcilable schema
      s!"non-optional field '{column}' of {header.typeName} is missing from the schema")
  | none => return .record header schema slots codecs

/-- The codec for a user-defined type. -/
def reconcile (header : RecordHeader) (shapes : List FieldShape) (schema : UserType) :
    Except Error Codec :=
  if isDeclaredOrder header schema then identical header shapes schema
  else reordered header shapes schema

/-- The position at which the type has a declared field; of several, the last. -/
def schemaPosition? (slots : List Nat) (declared : Nat) : Option Nat :=
  slots.zipIdx.foldl (fun found (slot, position) =>
    if slot = declared then some position else found) none

end Record

namespace ValueType

/-- The default codec, if it serves the column type. -/
def defaultFor (t : ValueType) (c : ColumnType) : Except Error Codec :=
  if t.codec.acceptsType c then .ok t.codec else .error (mismatch t t.columnType c)

mutual

/-- The codec for a column of a type. -/
def codecFor : ValueType → ColumnType → Except Error Codec
  | .base b, c => (ValueType.base b).defaultFor c
  | .enumeration e, c => (ValueType.enumeration e).defaultFor c
  | .option t, c => .option <$> t.codecFor c
  | .sequence into e, c =>
    match into.kind, c with
    | .list, .list frozen ec => .elements .list into frozen <$> e.codecFor ec
    | .set, .set frozen ec => .elements .set into frozen <$> e.codecFor ec
    | kind, c => .error (mismatch (.sequence into e) (kind.type false e.columnType) c)
  | .mapping into k v, c =>
    match c with
    | .map frozen kc vc => do
      let key ← k.codecFor kc
      let value ← v.codecFor vc
      return .entries into frozen key value
    | c => .error (mismatch (.mapping into k v) (.map false k.columnType v.columnType) c)
  | .record header types, c =>
    match c with
    | .user u =>
      if u.name = header.typeName then Record.reconcile header (fieldShapes types) u
      else .error (mismatch (.record header types) (ValueType.record header types).columnType c)
    | c => .error (mismatch (.record header types) (ValueType.record header types).columnType c)
termination_by structural t => t

/-- What a record needs to know of its fields. -/
def fieldShapes : List ValueType → List FieldShape
  | [] => []
  | t :: ts => ⟨t.codec, t.isNullable, t.codecFor⟩ :: fieldShapes ts
termination_by structural ts => ts

end

theorem fieldShapes_eq_map (ts : List ValueType) :
    fieldShapes ts = ts.map fun t => ⟨t.codec, t.isNullable, t.codecFor⟩ := by
  induction ts with
  | nil => rfl
  | cons t ts ih => rw [fieldShapes, ih, List.map_cons]

theorem length_fieldShapes (ts : List ValueType) : (fieldShapes ts).length = ts.length := by
  rw [fieldShapes_eq_map, List.length_map]

end ValueType

/-- A declared record knows as many fields as it has columns. -/
theorem RecordHeader.WellFormed.length_columns {header : RecordHeader} {ts : List ValueType}
    (h : header.WellFormed ts.length) :
    header.columns.length = (ValueType.fieldShapes ts).length := by
  rw [h.columns, ValueType.length_fieldShapes]

end CqlWire
