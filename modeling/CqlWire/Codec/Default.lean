import CqlWire.Codec.Basic

/-!
# Default codecs

Every value type has a codec of its own, and thereby a column type of its own. For a record this is
the user-defined type that the record itself declares; it is what is used where no schema is known.

* `ValueType.codec`: the default codec;
* `RecordHeader.declaredType`: the user-defined type that a record declares.
-/

namespace CqlWire

/-- The default codec of a type without parts. -/
def BaseType.codec : BaseType → Codec
  | .bool => .scalar .boolean
  | .int8 => .scalar .tinyint
  | .int16 => .scalar .smallint
  | .int32 => .scalar .int
  | .int64 => .scalar .bigint
  | .int128 => .scalar .varint
  | .float32 => .scalar .float
  | .float64 => .scalar .double
  | .string => .scalar .text
  | .bytes => .scalar .blob
  | .uuid => .scalar .uuid
  | .instant => .scalar .timestamp
  | .date => .scalar .date
  | .time => .scalar .time
  | .unscaled => .scalar .decimal
  | .decimal => .decimal
  | .inet => .scalar .inet

/-- What a container is stored as. -/
def Container.kind : Container → CollectionKind
  | .vector | .deque => .list
  | .ordered | .hashed => .set

/-- The user-defined type that a record declares, with the given types of its columns. -/
def RecordHeader.declaredType (header : RecordHeader) (types : List ColumnType) : UserType where
  keyspace := none
  name := header.typeName
  fields := header.columns.zipWith Field.mk types
  frozen := false

namespace ValueType

mutual

/-- The codec of a value type for which no column type is known. -/
def codec : ValueType → Codec
  | .base b => b.codec
  | .option t => .option t.codec
  | .sequence into e => .elements into.kind into false e.codec
  | .mapping into k v => .entries into false k.codec v.codec
  | .enumeration e => .enumeration e e.ordinal
  | .record header types =>
    let fields := codecs types
    .record header (header.declaredType (fields.map Codec.type)) (List.range fields.length) fields
termination_by structural t => t

/-- The codecs of several value types. -/
def codecs : List ValueType → List Codec
  | [] => []
  | t :: ts => t.codec :: codecs ts
termination_by structural ts => ts

end

/-- The column type of a value type for which none is known. -/
def columnType (t : ValueType) : ColumnType := t.codec.type

end ValueType

end CqlWire
