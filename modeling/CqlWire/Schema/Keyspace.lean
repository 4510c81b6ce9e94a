import CqlWire.ColumnType.Reader
import CqlWire.Schema.Json

/-!
# Keyspace schemas

The user-defined types of one keyspace, as the database reports them. A schema is built by adding
types one after another, so that a type can refer only to types that stand before it.

* `KeyspaceSchema.addType`: a type of a known name is replaced in place;
* `KeyspaceSchema.userType?`: a type by its bare or its qualified name;
* `KeyspaceSchema.read`: a schema from its JSON document.
-/

namespace CqlWire

/-- The user-defined types of a keyspace, in the order in which they were first added. -/
structure KeyspaceSchema where
  keyspace : String
  types : List UserType
deriving DecidableEq, Repr

namespace KeyspaceSchema

/-- A keyspace without types. -/
def empty (keyspace : String) : KeyspaceSchema :=
  { keyspace, types := [] }

/-- The list with the first type of the same name replaced, or with the type at its end. -/
def replaceOrAppend (u : UserType) : List UserType → List UserType
  | [] => [u]
  | t :: ts => if t.name = u.name then u :: ts else t :: replaceOrAppend u ts

/-- The schema with a type added or replaced; the type then belongs to the keyspace. -/
def addType (schema : KeyspaceSchema) (u : UserType) : KeyspaceSchema :=
  { schema with types := replaceOrAppend (u.inKeyspace schema.keyspace) schema.types }

/-- A name taken apart at its first dot. -/
def splitName (name : String) : Option (String × String) :=
  let s := name.toList
  match s.dropWhile (· != '.') with
  | _ :: r => some (String.ofList (s.takeWhile (· != '.')), String.ofList r)
  | [] => none

/-- The type of a name; what stands before a dot is the keyspace. -/
def userType? (schema : KeyspaceSchema) (name : String) : Option UserType :=
  match splitName name with
  | none => schema.types.find? (·.name = name)
  | some (keyspace, bare) =>
    if keyspace = schema.keyspace then schema.types.find? (·.name = bare) else none

/-- Reads a column type whose user-defined types are those of the keyspace. -/
def readType (schema : KeyspaceSchema) (text : List Char) : Except Error ColumnType :=
  ColumnType.read schema.userType? text

theorem replaceOrAppend_names (u : UserType) (ts : List UserType) :
    (replaceOrAppend u ts).map (·.name) =
      if u.name ∈ ts.map (·.name) then ts.map (·.name) else ts.map (·.name) ++ [u.name] := by
  induction ts with
  | nil => simp [replaceOrAppend]
  | cons t ts ih =>
    by_cases h : t.name = u.name
    · simp [replaceOrAppend, h]
    · have h' : ¬u.name = t.name := fun e => h e.symm
      rw [replaceOrAppend, if_neg h, List.map_cons, ih]
      simp only [List.map_cons, List.mem_cons, h', false_or]
      split <;> simp

/-! ## Documents -/

/-- A type as a document lists it: the types of its fields are still texts. -/
abbrev TypeEntry := String × List (Field (List Char))

/-- A field of a document: an object with `name` and `type`. -/
def fieldOf? (v : JsonValue) : Option (Field (List Char)) := do
  match ← v.members? [["name".toList], ["type".toList, "typ".toList]] with
  | [name, type] =>
    return { name := String.ofList (← (← name).string?), type := ← (← type).string? }
  | _ => none

/-- A type of a document: an object with `name` and `fields`. -/
def typeOf? (v : JsonValue) : Option TypeEntry := do
  match ← v.members? [["name".toList], ["fields".toList]] with
  | [name, fields] =>
    return (String.ofList (← (← name).string?), ← (← (← fields).array?).mapM fieldOf?)
  | _ => none

/-- A document: an object with `keyspace` and, where there are any, `types`. -/
def documentOf? (v : JsonValue) : Option (String × List TypeEntry) := do
  match ← v.members? [["keyspace".toList], ["types".toList]] with
  | [keyspace, types] =>
    let keyspace := String.ofList (← (← keyspace).string?)
    match types with
    | none => return (keyspace, [])
    | some types => return (keyspace, ← (← types.array?).mapM typeOf?)
  | _ => none

/-- The schema with a type of a document added, its field types read in the schema so far. -/
def addEntry (schema : KeyspaceSchema) (entry : TypeEntry) : Except Error KeyspaceSchema := do
  let fields ← entry.2.mapM fun f => return { name := f.name, type := ← schema.readType f.type }
  return schema.addType { keyspace := none, name := entry.1, fields, frozen := false }

/-- Reads a schema from its document. The document is checked as a whole before its types are read
one after another. -/
def read (document : List Char) : Except Error KeyspaceSchema :=
  match (JsonValue.read? document).bind documentOf? with
  | some (keyspace, entries) => entries.foldlM addEntry (empty keyspace)
  | none => .error (.config "invalid schema JSON")

/-- Reads a schema from the contents of a file, which are absent where there is no such file. -/
def load : (contents : Option (List Char)) → Except Error KeyspaceSchema
  | some document => read document
  | none => .error (.io "schema file not found")

end KeyspaceSchema

end CqlWire
