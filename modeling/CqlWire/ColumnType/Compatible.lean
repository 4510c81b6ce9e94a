import CqlWire.ColumnType.Basic

/-!
# Compatible column types

Two column types are compatible when they differ at most in annotations: in `frozen` flags and in
the keyspaces of user-defined types, at any depth. Compatible types store the same bytes.

* `ColumnType.isCompatible`: the check, by recursion on both types;
* `ColumnType.bare`: the type without its annotations.
-/

namespace CqlWire

namespace ColumnType

mutual

/-- Equality up to `frozen` flags and keyspaces, at any depth. -/
def isCompatible : ColumnType → ColumnType → Bool
  | .scalar a, .scalar b => a = b
  | .list _ a, .list _ b | .set _ a, .set _ b => a.isCompatible b
  | .map _ k v, .map _ l w => k.isCompatible l && v.isCompatible w
  | .user ⟨_, n, fs, _⟩, .user ⟨_, m, gs, _⟩ => n = m && areCompatible fs gs
  | _, _ => false
termination_by structural a => a

/-- Field lists that agree in names and, up to annotations, in types. -/
def areCompatible : List (Field ColumnType) → List (Field ColumnType) → Bool
  | [], [] => true
  | ⟨n, a⟩ :: fs, ⟨m, b⟩ :: gs => n = m && a.isCompatible b && areCompatible fs gs
  | _, _ => false
termination_by structural fs => fs

end

mutual

/-- The type with every `frozen` flag cleared and every keyspace removed. -/
def bare : ColumnType → ColumnType
  | .scalar s => .scalar s
  | .list _ e => .list false e.bare
  | .set _ e => .set false e.bare
  | .map _ k v => .map false k.bare v.bare
  | .user ⟨_, n, fs, _⟩ => .user ⟨none, n, bareFields fs, false⟩
termination_by structural a => a

/-- The fields with the annotations of their types removed. -/
def bareFields : List (Field ColumnType) → List (Field ColumnType)
  | [] => []
  | ⟨n, a⟩ :: fs => ⟨n, a.bare⟩ :: bareFields fs
termination_by structural fs => fs

end

end ColumnType

/-- Two user-defined types that differ at most in annotations. -/
def UserTypeOver.isCompatible (u v : UserType) : Bool :=
  (ColumnType.user u).isCompatible (.user v)

end CqlWire
