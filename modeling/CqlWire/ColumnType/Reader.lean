import CqlWire.ColumnType.Text
import CqlWire.Error
import CqlWire.Literal.Split
import CqlWire.Text.Ascii

/-!
# Reading column types

A written type is a name, possibly qualified by a keyspace, with type parameters in angle brackets;
layout characters may stand between any two tokens. Reading goes in two steps:

* `TypeExpr.read`: the text as an expression of names and parameters;
* `TypeExpr.resolve`: the column type that the expression means, where built-in names are known in
  any case and every other name is looked up among the user-defined types.

`ColumnType.read` is both. A parameter list that is not well formed is not part of the expression,
so the text is then refused from its opening bracket on.
-/

namespace CqlWire

open Text (skipLayout isAsciiLetter isAsciiDigit toAsciiLower trim)

/-- A written type: a name with its parameters. -/
inductive TypeExpr where
  | node (name : String) (params : List TypeExpr)
deriving Repr

namespace TypeExpr

/-- An ASCII letter, then letters, digits and underscores; what is read and what is left. -/
def identifier? : List Char → Option (List Char × List Char)
  | [] => none
  | c :: r =>
    if isAsciiLetter c then
      let inner := fun d => isAsciiLetter d || isAsciiDigit d || d == '_'
      some (c :: r.takeWhile inner, r.dropWhile inner)
    else none

/-- An identifier, or two of them joined by a dot. -/
def qualified? (s : List Char) : Option (List Char × List Char) :=
  match identifier? s with
  | none => none
  | some (first, '.' :: r) =>
    match identifier? r with
    | some (second, r') => some (first ++ '.' :: second, r')
    | none => some (first, '.' :: r)
  | found => found

mutual

/-- The expression at the front of a text, and the rest. -/
def expr? : (fuel : Nat) → List Char → Option (TypeExpr × List Char)
  | 0, _ => none
  | fuel + 1, s =>
    match qualified? (skipLayout s) with
    | none => none
    | some (name, r) =>
      match params? fuel r with
      | some (params, r') => some (.node (String.ofList name) params, r')
      | none => some (.node (String.ofList name) [], r)

/-- A parameter list in angle brackets, and the rest. -/
def params? : (fuel : Nat) → List Char → Option (List TypeExpr × List Char)
  | 0, _ => none
  | fuel + 1, s =>
    match skipLayout s with
    | '<' :: r =>
      match expr? fuel r with
      | none => none
      | some (first, r) =>
        let (others, r) := moreParams fuel r
        match skipLayout r with
        | '>' :: r => some (first :: others, r)
        | _ => none
    | _ => none

/-- Further parameters, each behind a comma, and the rest. -/
def moreParams : (fuel : Nat) → List Char → List TypeExpr × List Char
  | 0, s => ([], s)
  | fuel + 1, s =>
    match skipLayout s with
    | ',' :: r =>
      match expr? fuel r with
      | none => ([], s)
      | some (next, r) =>
        let (others, r) := moreParams fuel r
        (next :: others, r)
    | _ => ([], s)

end

/-- Reads a whole text as an expression. Every step into the expression reads a character, so the
length of the text bounds them. -/
def read (text : List Char) : Except Literal.SplitError TypeExpr :=
  let s := trim text
  match expr? (s.length + 1) s with
  | none => .error (.from (skipLayout s))
  | some (e, r) =>
    match skipLayout r with
    | [] => .ok e
    | rest => .error (.from rest)

/-- The scalar type of a built-in name. -/
def scalar? : String → Option ScalarType
  | "ascii" => some .ascii
  | "bigint" => some .bigint
  | "blob" => some .blob
  | "boolean" => some .boolean
  | "counter" => some .counter
  | "date" => some .date
  | "decimal" => some .decimal
  | "double" => some .double
  | "float" => some .float
  | "inet" => some .inet
  | "int" => some .int
  | "smallint" => some .smallint
  | "text" | "varchar" => some .text
  | "time" => some .time
  | "timestamp" => some .timestamp
  | "timeuuid" => some .timeuuid
  | "tinyint" => some .tinyint
  | "uuid" => some .uuid
  | "varint" => some .varint
  | _ => none

/-- The name of a type with ASCII capitals made small. -/
def lowerName (name : String) : String :=
  String.ofList (name.toList.map toAsciiLower)

/-- A type that was given the wrong number of parameters. -/
def wrongArity (input : List Char) (name : String) (n : Nat) : Error :=
  .illegalArgument "type" (String.ofList input) s!"{name} takes {n} type parameter(s)"

/-- The column type that an expression means; `input` is the text it was read from. -/
def resolve (lookup : String → Option UserType) (input : List Char) :
    TypeExpr → Except Error ColumnType
  | .node name params =>
    match lowerName name, params with
    | "list", [e] => return .list false (← resolve lookup input e)
    | "list", _ => .error (wrongArity input name 1)
    | "set", [e] => return .set false (← resolve lookup input e)
    | "set", _ => .error (wrongArity input name 1)
    | "map", [k, v] => return .map false (← resolve lookup input k) (← resolve lookup input v)
    | "map", _ => .error (wrongArity input name 2)
    | "frozen", [e] => return (← resolve lookup input e).withFrozen true
    | "frozen", _ => .error (wrongArity input name 1)
    | _, _ :: _ => .error (wrongArity input name 0)
    | lower, [] =>
      match scalar? lower with
      | some s => .ok (.scalar s)
      | none =>
        match lookup name with
        | some u => .ok (.user u)
        | none => .error (.illegalArgument "type" (String.ofList input) s!"unknown type '{name}'")

end TypeExpr

/-- Reads a column type; `lookup` finds the user-defined types by name. -/
def ColumnType.read (lookup : String → Option UserType) (text : List Char) :
    Except Error ColumnType :=
  match TypeExpr.read text with
  | .ok e => e.resolve lookup text
  | .error refusal => .error (.illegalArgument "type" (String.ofList text) refusal.message)

/-- Reads a column type in which no user-defined type occurs. -/
def ColumnType.readBuiltin (text : List Char) : Except Error ColumnType :=
  ColumnType.read (fun _ => none) text

end CqlWire
