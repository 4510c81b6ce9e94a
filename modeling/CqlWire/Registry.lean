import CqlWire.Codec.Basic
import CqlWire.Codec.Default
import CqlWire.Value.TypeName

/-!
# Registry of codecs

A program registers its codecs at the start and later looks them up, by a value type, by a column
type, by a sample value or by both of the last. Where several codecs fit, the one that was
registered last is taken.

* `Codec.acceptsSample`, `Codec.encodeSample`, `Codec.formatSample`: a codec and a value of any
  type; a codec with absence also takes samples that its inner codec takes;
* `Registry.resolve`, `Registry.resolveFor`, `Registry.resolveSample`: the look-ups;
* `Registry.withDefaults`: every scalar codec, each behind the same codec with absence.
-/

namespace CqlWire

/-- A value with its type. The value of a type that no column stores does not matter. -/
structure Sample where
  type : SampleType
  value : Value
deriving Repr

namespace Codec

/-- Whether the sample is of the type that the codec stores. -/
def holds (c : Codec) (s : Sample) : Bool :=
  s.type = .stored c.valueType

/-- A sample of another type than the codec stores. -/
def unexpectedSample (c : Codec) : Error :=
  Coding.mistyped c.type c.valueType.name

/-- Whether the codec takes a sample. -/
def acceptsSample : Codec → Sample → Bool
  | .shared inner, s => inner.acceptsSample s
  | .option inner, s => (Codec.option inner).holds s || inner.acceptsSample s
  | c, s => c.holds s

/-- Stores a sample, or refuses one of another type. -/
def encodeSample : Codec → Sample → Except Error (Option Bytes)
  | .shared inner, s => inner.encodeSample s
  | .option inner, s =>
    if (Codec.option inner).holds s then (Codec.option inner).encode s.value
    else inner.encodeSample s
  | c, s => if c.holds s then c.encode s.value else .error c.unexpectedSample

/-- The literal of a sample; unlike storing, it takes only samples of the very type. -/
def formatSample (c : Codec) (s : Sample) : Except Error (List Char) :=
  if c.holds s then .ok (c.format s.value) else .error c.unexpectedSample

end Codec

/-- Registered codecs, in the order of registration. -/
structure Registry where
  codecs : List Codec

namespace Registry

/-- The registry without codecs. -/
def empty : Registry := ⟨[]⟩

/-- The number of registered codecs. -/
def size (r : Registry) : Nat := r.codecs.length

/-- Registers a codec. -/
def register (r : Registry) (c : Codec) : Registry := ⟨r.codecs ++ [c]⟩

/-- Registers a codec with absence, then the codec itself. -/
def registerNullable (r : Registry) (c : Codec) : Registry :=
  (r.register (.option c)).register c

/-- The scalar codecs in the order in which they are registered. -/
def scalarCodecs : List Codec :=
  [.scalar .boolean, .scalar .tinyint, .scalar .smallint, .scalar .int, .scalar .bigint,
   .scalar .counter, .scalar .float, .scalar .double, .scalar .ascii, .scalar .text, .scalar .blob,
   .scalar .uuid, .scalar .timeuuid, .scalar .timestamp, .scalar .date, .scalar .time,
   .scalar .varint, .decimal, .scalar .inet]

/-- Every scalar codec, with and without absence. -/
def withDefaults : Registry :=
  scalarCodecs.foldl registerNullable empty

/-- The codec registered last among those that satisfy a condition. -/
def latest? (r : Registry) (p : Codec → Bool) : Option Codec :=
  r.codecs.reverse.find? p

/-- A codec that was looked up, or the refusal that names what was looked for. -/
def orNotFound (type valueType : String) : Option Codec → Except Error Codec
  | some c => .ok c
  | none => .error (.codecNotFound type valueType)

/-- The codec for values of a type in columns of a type. -/
def resolve (r : Registry) (t : SampleType) (c : ColumnType) : Except Error Codec :=
  orNotFound c.toText t.name
    (r.latest? fun codec => t = .stored codec.valueType && codec.acceptsType c)

/-- The codec for columns of a type that also takes a sample, if one is given. -/
def resolveFor (r : Registry) (c : ColumnType) (sample : Option Sample) : Except Error Codec :=
  orNotFound c.toText (if sample.isSome then "given sample" else "any value")
    (r.latest? fun codec => codec.acceptsType c && sample.all codec.acceptsSample)

/-- The codec that takes a sample, whatever the column type. -/
def resolveSample (r : Registry) (sample : Sample) : Except Error Codec :=
  orNotFound "any type" "given sample" (r.latest? fun codec => codec.acceptsSample sample)

/-- The line of a codec in a listing. -/
def entryText (c : Codec) : String :=
  c.type.toText ++ " <-> " ++ c.valueType.name

end Registry

end CqlWire
