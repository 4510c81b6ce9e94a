import CqlWire.Codec.Live
import CqlWire.Value.Typing

/-!
# The codecs that the library makes

Not every tree of type `Codec` is one that a program can get: the codec of a record exists only for
a schema that it was reconciled with. `Codec.Built` holds of the trees that the operations of the
library make, and `Codec.IsOption` and `Codec.NoNestedOption` tell the ones in which every value has
a form of its own: where an option stands directly inside another, an absent inner value and an
absent outer one are stored alike.

`built_of_codecFor` says that live column types lead to no other codecs.
-/

namespace CqlWire.Codec

/-- The codecs that programs get. -/
inductive Built : Codec → Prop where
  | scalar (s : ScalarType) : Built (.scalar s)
  | decimal : Built .decimal
  | enumeration {e : Enumeration} (h : e.WellFormed) (ordinal : Bool) : Built (.enumeration e ordinal)
  | shared {c : Codec} (h : Built c) : Built (.shared c)
  | option {c : Codec} (h : Built c) : Built (.option c)
  | elements {c : Codec} (kind : CollectionKind) (into : Container) (frozen : Bool) (h : Built c) :
    Built (.elements kind into frozen c)
  | entries {k v : Codec} (into : MapContainer) (frozen : Bool) (hk : Built k) (hv : Built v) :
    Built (.entries into frozen k v)
  /-- The codec of a record for a schema that lists the declared columns in their order. -/
  | identical {header : RecordHeader} {ts : List ValueType} {schema : UserType} {c : Codec}
    (declared : (ValueType.record header ts).WellFormed)
    (made : Record.identical header (ValueType.fieldShapes ts) schema = .ok c) : Built c
  /-- The codec of a record for any other schema. -/
  | reordered {header : RecordHeader} {ts : List ValueType} {schema : UserType} {c : Codec}
    (declared : (ValueType.record header ts).WellFormed)
    (made : Record.reordered header (ValueType.fieldShapes ts) schema = .ok c) : Built c
  /-- The default codec of a type. -/
  | default {t : ValueType} (declared : t.WellFormed) : Built t.codec

/-- An option, whoever else shares it. -/
def IsOption : Codec → Prop
  | .option _ => True
  | .shared c => c.IsOption
  | _ => False

mutual

/-- No option stands directly inside an option, at any depth. -/
def NoNestedOption : Codec → Prop
  | .scalar _ | .decimal | .enumeration .. => True
  | .shared c => c.NoNestedOption
  | .option c => ¬c.IsOption ∧ c.NoNestedOption
  | .elements _ _ _ c => c.NoNestedOption
  | .entries _ _ k v => k.NoNestedOption ∧ v.NoNestedOption
  | .record _ _ _ cs => NoneNestsOption cs
termination_by structural c => c

/-- The same of several codecs. -/
def NoneNestsOption : List Codec → Prop
  | [] => True
  | c :: cs => c.NoNestedOption ∧ NoneNestsOption cs
termination_by structural cs => cs

end

/-- What a record is reconciled into is a codec that the library makes. -/
theorem built_of_reconcile {header : RecordHeader} {ts : List ValueType} {schema : UserType}
    {c : Codec} (declared : (ValueType.record header ts).WellFormed)
    (made : Record.reconcile header (ValueType.fieldShapes ts) schema = .ok c) : Built c := by
  unfold Record.reconcile at made
  split at made
  · exact .identical declared made
  · exact .reordered declared made

/-- Whatever column type a declared type is stored in, its codec is one that the library makes. -/
theorem built_of_codecFor {t : ValueType} (declared : t.WellFormed) {type : ColumnType} {c : Codec}
    (made : t.codecFor type = .ok c) : Built c := by
  match t with
  | .base b | .enumeration e =>
    simp only [ValueType.codecFor, ValueType.defaultFor] at made
    split at made
    · cases made
      exact .default declared
    · cases made
  | .option t =>
    have inside : t.WellFormed := declared
    simp only [ValueType.codecFor, map_eq_ok_iff] at made
    obtain ⟨inner, hi, rfl⟩ := made
    exact .option (built_of_codecFor inside hi)
  | .sequence into t =>
    have inside : t.WellFormed := declared
    unfold ValueType.codecFor at made
    split at made
    · obtain ⟨inner, hi, rfl⟩ := map_eq_ok_iff.1 made
      exact .elements _ _ _ (built_of_codecFor inside hi)
    · obtain ⟨inner, hi, rfl⟩ := map_eq_ok_iff.1 made
      exact .elements _ _ _ (built_of_codecFor inside hi)
    · cases made
  | .mapping into k t =>
    unfold ValueType.codecFor at made
    split at made
    · simp only [bind_eq_ok_iff, pure_eq_ok_iff] at made
      obtain ⟨key, hk, value, hv, rfl⟩ := made
      exact .entries _ _ (built_of_codecFor declared.1 hk) (built_of_codecFor declared.2 hv)
    · cases made
  | .record header ts =>
    unfold ValueType.codecFor at made
    split at made
    · split at made
      · exact built_of_reconcile declared made
      · cases made
    · cases made

end CqlWire.Codec
