import CqlWire.Value.Type

/-!
# The names of value types

`ValueType.name` is the full name of a value type as messages and registry listings show it: every
name with its path, type parameters in angle brackets, and the natural order of a sorted map, which
is the default, left out.
-/

namespace CqlWire

/-- The full name of a type without parts. -/
def BaseType.name : BaseType → String
  | .bool => "bool"
  | .int8 => "i8"
  | .int16 => "i16"
  | .int32 => "i32"
  | .int64 => "i64"
  | .int128 => "i128"
  | .float32 => "f32"
  | .float64 => "f64"
  | .string => "alloc::string::String"
  | .bytes => "bytes::bytes::Bytes"
  | .uuid => "uuid::Uuid"
  | .instant => "chrono::datetime::DateTime<chrono::offset::utc::Utc>"
  | .date => "chrono::naive::date::NaiveDate"
  | .time => "chrono::naive::time::NaiveTime"
  | .unscaled => "qail_cql::codec::primitive::UnscaledDecimal"
  | .decimal => "rust_decimal::decimal::Decimal"
  | .inet => "core::net::ip_addr::IpAddr"

/-- The full name of a container of elements. -/
def Container.name : Container → String
  | .vector => "alloc::vec::Vec"
  | .deque => "alloc::collections::vec_deque::VecDeque"
  | .ordered => "alloc::collections::btree::set::BTreeSet"
  | .hashed => "std::collections::hash::set::HashSet"

/-- The full name of a container of entries. -/
def MapContainer.name : MapContainer → String
  | .ordered => "alloc::collections::btree::map::BTreeMap"
  | .hashed => "std::collections::hash::map::HashMap"
  | .sorted _ => "qail_cql::codec::collection::SortedMap"

/-- The full name of an order of keys, as the parameters of the type that holds it; the natural
order leaves no trace. -/
def KeyOrder.parameter : KeyOrder → Option String
  | .natural => none
  | .reversed order =>
    let reversed := "qail_cql::codec::collection::Reversed"
    match order.parameter with
    | none => some reversed
    | some inner => some (reversed ++ "<" ++ inner ++ ">")

/-- The order of the keys of a container, where its type shows it. -/
def MapContainer.orderParameter : MapContainer → Option String
  | .sorted order => order.parameter
  | .ordered | .hashed => none

/-- A name with its type parameters. -/
def generic (name : String) (parameters : List String) : String :=
  name ++ "<" ++ String.intercalate ", " parameters ++ ">"

/-- The full name of a value type. -/
def ValueType.name : ValueType → String
  | .base b => b.name
  | .option t => generic "core::option::Option" [t.name]
  | .sequence into e => generic into.name [e.name]
  | .mapping into k v => generic into.name ([k.name, v.name] ++ into.orderParameter.toList)
  | .enumeration e => e.label
  | .record header _ => header.label

/-- The full name of the type of a sample. -/
def SampleType.name : SampleType → String
  | .stored t => t.name
  | .foreign name => name

end CqlWire
