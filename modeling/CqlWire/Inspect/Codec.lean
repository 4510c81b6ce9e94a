import CqlWire.Inspect.Literal
import CqlWire.Paging.Token
import CqlWire.Registry

/-!
# Inspected codecs

How codecs, registries and what belongs to paging are shown to a reader. A paging state shows its
length and a kind of token its name: neither the state nor the key is for a reader to see.
-/

namespace CqlWire

/-- The name of the codec of a scalar type. -/
def ScalarType.codecName : ScalarType → String
  | .ascii => "AsciiCodec"
  | .bigint => "BigintCodec"
  | .blob => "BlobCodec"
  | .boolean => "BooleanCodec"
  | .counter => "CounterCodec"
  | .date => "DateCodec"
  | .decimal => "UnscaledDecimalCodec"
  | .double => "DoubleCodec"
  | .float => "FloatCodec"
  | .inet => "InetCodec"
  | .int => "IntCodec"
  | .smallint => "SmallintCodec"
  | .text => "TextCodec"
  | .time => "TimeCodec"
  | .timestamp => "TimestampCodec"
  | .timeuuid => "TimeuuidCodec"
  | .tinyint => "TinyintCodec"
  | .uuid => "UuidCodec"
  | .varint => "VarintCodec"

namespace Codec

/-- A codec that stores its values as those of another codec. -/
def inspectMapped (inner : String) (outer : String) : List Char :=
  Inspect.structured "MappingCodec"
    [("inner", inner.toList), ("outer", Inspect.text outer.toList)]

/-- Whether a collection is frozen. -/
def inspectFlag (b : Bool) : List Char :=
  (if b then "true" else "false").toList

/-- A codec as it is inspected. -/
def inspect : Codec → List Char
  | .scalar s => s.codecName.toList
  | .decimal => inspectMapped (ScalarType.codecName .decimal) (BaseType.name .decimal)
  | .enumeration e ordinal =>
    inspectMapped (ScalarType.codecName (if ordinal then .int else .text)) e.label
  | .shared inner => inner.inspect
  | .option inner => Inspect.structured "OptionCodec" [("inner", inner.inspect)]
  | .elements kind _ frozen element =>
    Inspect.structured (match kind with | .list => "ListCodec" | .set => "SetCodec")
      [("element", element.inspect), ("frozen", inspectFlag frozen)]
  | .entries _ frozen key value =>
    Inspect.structured "MapCodec"
      [("key", key.inspect), ("value", value.inspect), ("frozen", inspectFlag frozen)]
  | .record header _ _ _ => Inspect.structured "UdtCodec" [("type", header.label.toList)]

/-- The column type of what a codec of elements or a codec with absence or of mapped values wraps. -/
def innerType? : Codec → Option ColumnType
  | .elements _ _ _ element => some element.type
  | .option inner => some inner.type
  | .decimal => some (.scalar .decimal)
  | .enumeration _ ordinal => some (.scalar (if ordinal then .int else .text))
  | .scalar _ | .shared _ | .entries .. | .record .. => none

/-- The codecs that a record has built for its fields: none of them where no schema is known. -/
def inspectFieldCodecs (built : List Codec) : List Char :=
  Inspect.structured "FieldCodecs" [("built", (toString built.length).toList)]

end Codec

/-- A registry as it is inspected: a line for each codec. -/
def Registry.inspect (r : Registry) : List Char :=
  Inspect.bracketed (r.codecs.map fun c => Inspect.text (Registry.entryText c).toList)

/-- A paging state as it is inspected. -/
def PagingState.inspect (s : PagingState) : String :=
  s!"PagingState({s.bytes.length} bytes)"

/-- A kind of token as it is inspected. -/
def TokenKind.inspect : TokenKind → String
  | .simple => "SimpleSerializer"
  | .safe _ => "SafeSerializer \x7b .. \x7d"

end CqlWire
