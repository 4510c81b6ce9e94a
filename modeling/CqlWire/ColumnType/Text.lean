import CqlWire.ColumnType.Basic

/-!
# The written form of column types

`ColumnType.toText` writes a type as it stands in a table definition, such as
`frozen<map<text, list<int>>>`. A user-defined type is written as its qualified name alone.
-/

namespace CqlWire

/-- The name of a scalar type. -/
def ScalarType.toText : ScalarType → String
  | .ascii => "ascii"
  | .bigint => "bigint"
  | .blob => "blob"
  | .boolean => "boolean"
  | .counter => "counter"
  | .date => "date"
  | .decimal => "decimal"
  | .double => "double"
  | .float => "float"
  | .inet => "inet"
  | .int => "int"
  | .smallint => "smallint"
  | .text => "text"
  | .time => "time"
  | .timestamp => "timestamp"
  | .timeuuid => "timeuuid"
  | .tinyint => "tinyint"
  | .uuid => "uuid"
  | .varint => "varint"

namespace ColumnType

/-- The written type, marked as frozen where it is. -/
def markFrozen (frozen : Bool) (text : String) : String :=
  if frozen then "frozen<" ++ text ++ ">" else text

/-- The type as it stands in a table definition. -/
def toText : ColumnType → String
  | .scalar s => s.toText
  | .list frozen e => markFrozen frozen ("list<" ++ e.toText ++ ">")
  | .set frozen e => markFrozen frozen ("set<" ++ e.toText ++ ">")
  | .map frozen k v => markFrozen frozen ("map<" ++ k.toText ++ ", " ++ v.toText ++ ">")
  | .user u => markFrozen u.frozen u.qualifiedName

instance : ToString ColumnType := ⟨toText⟩

end ColumnType

end CqlWire
