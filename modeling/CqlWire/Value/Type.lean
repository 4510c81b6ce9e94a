import CqlWire.SortedMap

/-!
# Value types

`ValueType` describes the types of values that programs hold. Several value types may be stored in
the same column type: a list can be held in a list, a double-ended queue or a set.

* `BaseType`: the types without parts;
* `Container`, `MapContainer`: what holds the elements of a collection;
* `Enumeration`: a closed list of variants with their stored names;
* `RecordHeader`: the name of a record and of its columns; the types of the columns stand beside it;
* `Enumeration.WellFormed`, `RecordHeader.WellFormed`: what declarations make sure of;
* `ValueType.decEq`: value types have decidable equality.
-/

namespace CqlWire

/-- The types of values without parts. -/
inductive BaseType where
  | bool | int8 | int16 | int32 | int64 | int128 | float32 | float64
  | string | bytes | uuid | instant | date | time | unscaled | decimal | inet
deriving DecidableEq, Repr

/-- What holds the elements of a list or a set. The order of a hashed container shows nowhere; it is
taken to be that of the values. -/
inductive Container where
  | vector | deque | ordered | hashed
deriving DecidableEq, Repr

/-- What holds the entries of a map. -/
inductive MapContainer where
  | ordered | hashed
  | sorted (order : KeyOrder)
deriving DecidableEq, Repr

/-- The order of the keys in a container of entries. -/
def MapContainer.order : MapContainer → KeyOrder
  | .ordered | .hashed => .natural
  | .sorted order => order

/-- A closed list of variants. A variant is stored by its name, or by its position where the
enumeration is ordinal. -/
structure Enumeration where
  /-- The name of the type in programs. -/
  label : String
  /-- The name of the type in messages. -/
  typeName : String
  /-- The variants as programs name them. -/
  members : List String
  /-- The variants as they are stored, in the same order. -/
  names : List String
  ordinal : Bool
deriving DecidableEq, Repr

/-- The names of a record that is stored as a user-defined type. -/
structure RecordHeader where
  /-- The name of the type in programs. -/
  label : String
  /-- The name of the user-defined type. -/
  typeName : String
  /-- The fields as programs name them. -/
  members : List String
  /-- The fields of the user-defined type, in the same order. -/
  columns : List String
deriving DecidableEq, Repr

/-- A list of variants as a declaration makes it. -/
structure Enumeration.WellFormed (e : Enumeration) : Prop where
  nonempty : e.names ≠ []
  nodup : e.names.Nodup
  members : e.members.length = e.names.length

/-- The names of a record of so many fields as a declaration makes them. -/
structure RecordHeader.WellFormed (header : RecordHeader) (count : Nat) : Prop where
  nodup : header.columns.Nodup
  columns : header.columns.length = count
  members : header.members.length = count

/-- The type of a value in a program. -/
inductive ValueType where
  | base (b : BaseType)
  | option (t : ValueType)
  | sequence (into : Container) (element : ValueType)
  | mapping (into : MapContainer) (key value : ValueType)
  | enumeration (e : Enumeration)
  | record (header : RecordHeader) (types : List ValueType)
deriving Repr

namespace ValueType

mutual

/-- Value types are compared by their structure and all their names. -/
def decEq : (a b : ValueType) → Decidable (a = b)
  | .base a, .base b => if h : a = b then .isTrue (h ▸ rfl) else .isFalse (by simpa using h)
  | .option a, .option b =>
    match decEq a b with
    | .isTrue h => .isTrue (by rw [h])
    | .isFalse h => .isFalse (by simp [h])
  | .sequence c a, .sequence d b =>
    if hc : c = d then
      match decEq a b with
      | .isTrue h => .isTrue (by rw [hc, h])
      | .isFalse h => .isFalse (by simp [h])
    else .isFalse (by simp [hc])
  | .mapping c k v, .mapping d l w =>
    if hc : c = d then
      match decEq k l, decEq v w with
      | .isTrue hk, .isTrue hv => .isTrue (by rw [hc, hk, hv])
      | .isFalse hk, _ => .isFalse (by simp [hk])
      | _, .isFalse hv => .isFalse (by simp [hv])
    else .isFalse (by simp [hc])
  | .enumeration a, .enumeration b =>
    if h : a = b then .isTrue (h ▸ rfl) else .isFalse (by simpa using h)
  | .record h ts, .record g us =>
    if hh : h = g then
      match decEqAll ts us with
      | .isTrue ht => .isTrue (by rw [hh, ht])
      | .isFalse ht => .isFalse (by simp [ht])
    else .isFalse (by simp [hh])
  | .base _, .option _ | .base _, .sequence .. | .base _, .mapping .. | .base _, .enumeration _
  | .base _, .record ..
  | .option _, .base _ | .option _, .sequence .. | .option _, .mapping ..
  | .option _, .enumeration _ | .option _, .record ..
  | .sequence .., .base _ | .sequence .., .option _ | .sequence .., .mapping ..
  | .sequence .., .enumeration _ | .sequence .., .record ..
  | .mapping .., .base _ | .mapping .., .option _ | .mapping .., .sequence ..
  | .mapping .., .enumeration _ | .mapping .., .record ..
  | .enumeration _, .base _ | .enumeration _, .option _ | .enumeration _, .sequence ..
  | .enumeration _, .mapping .. | .enumeration _, .record ..
  | .record .., .base _ | .record .., .option _ | .record .., .sequence ..
  | .record .., .mapping .. | .record .., .enumeration _ =>
    .isFalse (by simp)
termination_by structural a => a

/-- Lists of value types are compared in order. -/
def decEqAll : (as bs : List ValueType) → Decidable (as = bs)
  | [], [] => .isTrue rfl
  | [], _ :: _ | _ :: _, [] => .isFalse (by simp)
  | a :: as, b :: bs =>
    match decEq a b, decEqAll as bs with
    | .isTrue h, .isTrue hs => .isTrue (by rw [h, hs])
    | .isFalse h, _ => .isFalse (by simp [h])
    | _, .isFalse hs => .isFalse (by simp [hs])
termination_by structural as => as

end

instance : DecidableEq ValueType := decEq

/-- Whether the type has a value for "no value". -/
def isNullable : ValueType → Bool
  | .option _ => true
  | _ => false

end ValueType

/-- The type of a value that a program hands over without saying where it is to be stored. -/
inductive SampleType where
  | stored (t : ValueType)
  /-- A type that no column stores. -/
  | foreign (name : String)
deriving DecidableEq, Repr

end CqlWire
