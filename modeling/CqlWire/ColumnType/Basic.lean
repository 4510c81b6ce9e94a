/-!
# Column types

`ColumnType` is the type of a database column: a scalar, a collection or a user-defined type.
Collections and user-defined types carry a `frozen` annotation, and user-defined types the keyspace
they were found in; neither changes how a value is written (`Compatible` makes this precise).

* `ScalarType`: the nineteen scalar types;
* `UserTypeOver`: a user-defined type whose field types are of any given kind, and `UserType` its
  use for columns: the ordered fields are those that the database reports;
* `ColumnType.decEq`: column types have decidable equality, annotations included;
* `ColumnType.withFrozen`: sets the annotation of the outermost type where it has one.
-/

namespace CqlWire

/-- The scalar types. -/
inductive ScalarType where
  | ascii | bigint | blob | boolean | counter | date | decimal | double | float | inet | int
  | smallint | text | time | timestamp | timeuuid | tinyint | uuid | varint
deriving DecidableEq, Repr

/-- A named member of a user-defined type. -/
structure Field (τ : Type) where
  name : String
  type : τ
deriving DecidableEq, Repr

/-- A user-defined type with its ordered fields. -/
structure UserTypeOver (τ : Type) where
  keyspace : Option String
  name : String
  fields : List (Field τ)
  frozen : Bool
deriving DecidableEq, Repr

/-- The type of a column. -/
inductive ColumnType where
  | scalar (s : ScalarType)
  | list (frozen : Bool) (element : ColumnType)
  | set (frozen : Bool) (element : ColumnType)
  | map (frozen : Bool) (key value : ColumnType)
  | user (u : UserTypeOver ColumnType)
deriving Repr

/-- A user-defined type as the database reports it. -/
abbrev UserType := UserTypeOver ColumnType

/-! ## Equality -/

namespace ColumnType

mutual

/-- Column types are compared with all their annotations. -/
def decEq : (a b : ColumnType) → Decidable (a = b)
  | .scalar a, .scalar b => if h : a = b then .isTrue (h ▸ rfl) else .isFalse (by simpa using h)
  | .list f a, .list g b | .set f a, .set g b =>
    if hf : f = g then
      match decEq a b with
      | .isTrue h => .isTrue (by rw [hf, h])
      | .isFalse h => .isFalse (by simp [h])
    else .isFalse (by simp [hf])
  | .map f k v, .map g l w =>
    if hf : f = g then
      match decEq k l, decEq v w with
      | .isTrue hk, .isTrue hv => .isTrue (by rw [hf, hk, hv])
      | .isFalse hk, _ => .isFalse (by simp [hk])
      | _, .isFalse hv => .isFalse (by simp [hv])
    else .isFalse (by simp [hf])
  | .user ⟨k, n, fs, z⟩, .user ⟨l, m, gs, y⟩ =>
    if h : k = l ∧ n = m ∧ z = y then
      match decEqFields fs gs with
      | .isTrue hf => .isTrue (by rw [h.1, h.2.1, h.2.2, hf])
      | .isFalse hf => .isFalse (by simp [hf])
    else .isFalse (by simp only [user.injEq, UserTypeOver.mk.injEq]; grind)
  | .scalar _, .list .. | .scalar _, .set .. | .scalar _, .map .. | .scalar _, .user _
  | .list .., .scalar _ | .list .., .set .. | .list .., .map .. | .list .., .user _
  | .set .., .scalar _ | .set .., .list .. | .set .., .map .. | .set .., .user _
  | .map .., .scalar _ | .map .., .list .. | .map .., .set .. | .map .., .user _
  | .user _, .scalar _ | .user _, .list .. | .user _, .set .. | .user _, .map .. =>
    .isFalse (by simp)
termination_by structural a => a

/-- Field lists are equal with the same names and types in the same order. -/
def decEqFields : (fs gs : List (Field ColumnType)) → Decidable (fs = gs)
  | [], [] => .isTrue rfl
  | [], _ :: _ | _ :: _, [] => .isFalse (by simp)
  | ⟨n, a⟩ :: fs, ⟨m, b⟩ :: gs =>
    if hn : n = m then
      match decEq a b, decEqFields fs gs with
      | .isTrue h, .isTrue hf => .isTrue (by rw [hn, h, hf])
      | .isFalse h, _ => .isFalse (by simp [h])
      | _, .isFalse hf => .isFalse (by simp [hf])
    else .isFalse (by simp [hn])
termination_by structural fs => fs

end

instance : DecidableEq ColumnType := decEq

/-! ## Annotations -/

/-- The type with its outermost annotation set; a scalar has none. -/
def withFrozen (frozen : Bool) : ColumnType → ColumnType
  | .scalar s => .scalar s
  | .list _ e => .list frozen e
  | .set _ e => .set frozen e
  | .map _ k v => .map frozen k v
  | .user u => .user { u with frozen }

/-- Whether the outermost type is annotated as frozen. -/
def isFrozen : ColumnType → Bool
  | .scalar _ => false
  | .list frozen _ | .set frozen _ | .map frozen _ _ => frozen
  | .user u => u.frozen

/-- Lists, sets and maps. -/
def isCollection : ColumnType → Bool
  | .list .. | .set .. | .map .. => true
  | .scalar _ | .user _ => false

@[simp] theorem withFrozen_withFrozen (t : ColumnType) (a b : Bool) :
    (t.withFrozen a).withFrozen b = t.withFrozen b := by
  cases t <;> rfl

end ColumnType

/-! ## User-defined types -/

namespace UserTypeOver

variable {τ : Type}

/-- The name with the keyspace in front, where one is known. -/
def qualifiedName (u : UserTypeOver τ) : String :=
  match u.keyspace with
  | some keyspace => keyspace ++ "." ++ u.name
  | none => u.name

/-- The first field of a name, with its position. -/
def field? (u : UserTypeOver τ) (name : String) : Option (Nat × Field τ) :=
  u.fields.zipIdx.findSome? fun (f, i) => if f.name = name then some (i, f) else none

/-- The type as found in another keyspace. -/
def inKeyspace (u : UserTypeOver τ) (keyspace : String) : UserTypeOver τ :=
  { u with keyspace := some keyspace }

end UserTypeOver

/-- What identifies one layout of a user-defined type. The annotation `frozen` is no part of it. -/
structure SchemaVersion where
  keyspace : Option String
  name : String
  fields : List (Field ColumnType)
deriving DecidableEq, Repr

/-- The layout that a reported type has. -/
def UserTypeOver.version (u : UserType) : SchemaVersion :=
  { keyspace := u.keyspace, name := u.name, fields := u.fields }

end CqlWire
