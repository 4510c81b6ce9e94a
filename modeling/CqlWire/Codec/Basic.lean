import CqlWire.Coding.Enumeration
import CqlWire.Coding.Record
import CqlWire.Coding.Temporal
import CqlWire.ColumnType.Compatible
import CqlWire.Value.Typing

/-!
# Codecs

`Codec` is the language of all codings, as a tree: scalar types, enumerations, and what is built
from other codecs. A codec reads and writes `Value`s.

* `Codec.coding`: what a tree means, by recursion; each constructor has its coding of its parts;
* `Codec.encode`, `Codec.decode`, `Codec.format`, `Codec.parse`: the four directions;
* `Codec.type`, `Codec.valueType`: the column type that is served, and the type of the values.

Containers matter only here: what a coding reads as a list is put into its container by
`Container.ofList` or `MapContainer.ofList`.
-/

namespace CqlWire

/-! ## Containers -/

/-- Puts an element where it belongs among ordered elements, unless an equal one is there. -/
def insertDistinct (a : Value) : List Value → List Value
  | [] => [a]
  | b :: bs =>
    match b.compare a with
    | .lt => b :: insertDistinct a bs
    | .eq => b :: bs
    | .gt => a :: b :: bs

/-- The elements of a container that has got the given ones in turn, in iteration order. -/
def Container.ofList : Container → List Value → List Value
  | .vector, vs | .deque, vs => vs
  | .ordered, vs | .hashed, vs => vs.foldl (fun s v => insertDistinct v s) []

/-- The entries of a container that has got the given ones in turn, in iteration order. -/
def MapContainer.ofList (into : MapContainer) (es : List (Value × Value)) : List (Value × Value) :=
  (SortedMap.ofList (into.order.compare Value.compare) es).entries

/-! ## The language -/

/-- A codec. -/
inductive Codec where
  /-- A scalar type; `decimal` here has any scale. -/
  | scalar (s : ScalarType)
  /-- Decimals of 96 bits. -/
  | decimal
  | enumeration (e : Enumeration) (ordinal : Bool)
  /-- A codec that several owners share. -/
  | shared (inner : Codec)
  | option (inner : Codec)
  | elements (kind : CollectionKind) (into : Container) (frozen : Bool) (element : Codec)
  | entries (into : MapContainer) (frozen : Bool) (key value : Codec)
  /-- A record stored as `schema`; `fields` are the codecs of the declared fields, and `slots` name
  the declared field for each field of the schema. -/
  | record (header : RecordHeader) (schema : UserType) (slots : List Nat) (fields : List Codec)
deriving Repr

namespace Coding

/-- A value of another type than the coding has. -/
def mistyped (type : ColumnType) (expected : String) : Error :=
  .illegalValue type.toText "<erased>" ("expected a " ++ expected)

/-- A coding of some type as a coding of values. Values of another kind are refused. -/
def onValues {α : Type} (c : Coding α) (toValue : α → Value) (ofValue? : Value → Option α) :
    Coding Value where
  type := c.type
  encode v :=
    match ofValue? v with
    | some a => c.encode a
    | none => .error (mistyped c.type "value of this type")
  decode bytes := toValue <$> c.decode bytes
  format v :=
    match ofValue? v with
    | some a => c.format a
    | none => []
  parse text := toValue <$> c.parse text

end Coding

/-- The coding of a scalar type. -/
def ScalarType.coding : ScalarType → Coding Value
  | .ascii => Coding.ascii.onValues .text Value.text?
  | .bigint => (Coding.integer .bigint 8).onValues .int Value.int?
  | .blob => Coding.blob.onValues .bytes Value.bytes?
  | .boolean => Coding.boolean.onValues .bool Value.bool?
  | .counter => (Coding.integer .counter 8).onValues .int Value.int?
  | .date => Coding.date.onValues .date Value.date?
  | .decimal => Coding.unscaled.onValues .unscaled Value.unscaled?
  | .double => (Coding.floating .double .double).onValues .double Value.double?
  | .float => (Coding.floating .float .single).onValues .float Value.float?
  | .inet => Coding.inet.onValues .inet Value.inet?
  | .int => (Coding.integer .int 4).onValues .int Value.int?
  | .smallint => (Coding.integer .smallint 2).onValues .int Value.int?
  | .text => Coding.text.onValues .text Value.text?
  | .time => Coding.time.onValues .time Value.time?
  | .timestamp => Coding.timestamp.onValues .instant Value.instant?
  | .timeuuid => Coding.timeuuid.onValues .uuid Value.uuid?
  | .tinyint => (Coding.integer .tinyint 1).onValues .int Value.int?
  | .uuid => Coding.uuid.onValues .uuid Value.uuid?
  | .varint => Coding.varint.onValues .int Value.int?

/-- The type of the values of a scalar type. -/
def ScalarType.valueType : ScalarType → BaseType
  | .ascii | .text => .string
  | .bigint | .counter => .int64
  | .blob => .bytes
  | .boolean => .bool
  | .date => .date
  | .decimal => .unscaled
  | .double => .float64
  | .float => .float32
  | .inet => .inet
  | .int => .int32
  | .smallint => .int16
  | .time => .time
  | .timestamp => .instant
  | .timeuuid | .uuid => .uuid
  | .tinyint => .int8
  | .varint => .int128

namespace Codec

mutual

/-- What a codec means. -/
def coding : Codec → Coding Value
  | .scalar s => s.coding
  | .decimal => Coding.decimal.onValues .decimal Value.decimal?
  | .enumeration e ordinal =>
    (if ordinal then Coding.ordinal e else Coding.nominal e).onValues .variant Value.variant?
  | .shared inner => inner.coding
  | .option inner => inner.coding.option.onValues Value.ofOption Value.option?
  | .elements kind into frozen element =>
    (Coding.elements kind frozen element.coding).onValues
      (fun vs => .sequence (into.ofList vs)) Value.sequence?
  | .entries into frozen key value =>
    (Coding.entries frozen key.coding value.coding).onValues
      (fun es => .mapping (into.ofList es)) Value.mapping?
  | .record header schema slots fields =>
    (Coding.record header.typeName schema slots (codings fields)).onValues .record Value.record?
termination_by structural c => c

/-- What the codecs of a list mean. -/
def codings : List Codec → List (Coding Value)
  | [] => []
  | c :: cs => c.coding :: codings cs
termination_by structural cs => cs

end

theorem codings_eq_map (cs : List Codec) : codings cs = cs.map coding := by
  induction cs with
  | nil => rfl
  | cons c cs ih => simp [codings, ih]

theorem length_codings (cs : List Codec) : (codings cs).length = cs.length := by
  rw [codings_eq_map, List.length_map]

theorem getElem?_codings_eq_some_iff {cs : List Codec} {i : Nat} {k : Coding Value} :
    (codings cs)[i]? = some k ↔ ∃ c, cs[i]? = some c ∧ c.coding = k := by
  rw [codings_eq_map, List.getElem?_map, Option.map_eq_some_iff]

/-- The column type that a codec serves. -/
def type (c : Codec) : ColumnType := c.coding.type

/-- Stores a value; absent bytes stand for its absence. -/
def encode (c : Codec) (v : Value) : Except Error (Option Bytes) := c.coding.encode v

/-- Reads a value from bytes, which may be absent. -/
def decode (c : Codec) (bytes : Option Bytes) : Except Error Value := c.coding.decode bytes

/-- The literal of a value. -/
def format (c : Codec) (v : Value) : List Char := c.coding.format v

/-- Reads a literal. -/
def parse (c : Codec) (text : List Char) : Except Error Value := c.coding.parse text

mutual

/-- The type of the values of a codec. -/
def valueType : Codec → ValueType
  | .scalar s => .base s.valueType
  | .decimal => .base .decimal
  | .enumeration e _ => .enumeration e
  | .shared inner => inner.valueType
  | .option inner => .option inner.valueType
  | .elements _ into _ element => .sequence into element.valueType
  | .entries into _ key value => .mapping into key.valueType value.valueType
  | .record header _ _ fields => .record header (valueTypes fields)
termination_by structural c => c

/-- The types of the values of several codecs. -/
def valueTypes : List Codec → List ValueType
  | [] => []
  | c :: cs => c.valueType :: valueTypes cs
termination_by structural cs => cs

end

/-- Whether the codec serves a column of a type: annotations do not matter. -/
def acceptsType (c : Codec) (t : ColumnType) : Bool := c.type.isCompatible t

end Codec

end CqlWire
