import CqlWire.Codec.Live

/-!
# The codecs of a record by schema version

A cache keeps one codec for each version of the user-defined type that a record has been stored in.
A version is looked up by keyspace, name and fields; the `frozen` annotation of the type as a whole
does not count. A schema that cannot be reconciled leaves no trace.

* `CodecCache.codecFor`: the place of the codec for a schema, which is built where it is not there;
* `CodecCache.codec?`: the codec at a place. Places are numbered in the order of their first use.
-/

namespace CqlWire

/-- The codecs of one record that have been built so far. -/
structure CodecCache where
  header : RecordHeader
  types : List ValueType
  entries : List (SchemaVersion × Codec)

namespace CodecCache

/-- The cache without codecs. -/
def empty (header : RecordHeader) (types : List ValueType) : CodecCache :=
  ⟨header, types, []⟩

/-- The number of codecs. -/
def size (cache : CodecCache) : Nat := cache.entries.length

/-- The codec at a place. -/
def codec? (cache : CodecCache) (place : Nat) : Option Codec :=
  cache.entries[place]?.map Prod.snd

/-- The place of the codec for a schema. A codec that is not there yet is built and takes the next
place. -/
def codecFor (schema : UserType) : EStateM Error CodecCache Nat := do
  let cache ← get
  match cache.entries.findIdx? fun e => e.1 = schema.version with
  | some place => return place
  | none =>
    match Record.reconcile cache.header (ValueType.fieldShapes cache.types) schema with
    | .ok codec =>
      set { cache with entries := cache.entries ++ [(schema.version, codec)] }
      return cache.size
    | .error e => throw e

end CodecCache

end CqlWire
