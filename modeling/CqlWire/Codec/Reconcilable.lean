import CqlWire.Codec.Default
import CqlWire.ColumnType.Compatible

/-!
# Reconcilable column types

`ValueType.Reconcilable t c` says, without building a codec, that values of type `t` can be stored
in columns of type `c`:

* a type without parts and an enumeration in the column type of their default codec;
* an option in what its inner type can be stored in;
* a collection in a collection of its kind whose parts are reconcilable with its own;
* a record in a user-defined type of its name that reconciles with its columns: every field of the
  type is a declared column whose type is reconcilable with that of the field, and only columns that
  may be absent are missing.
-/

namespace CqlWire.ValueType

mutual

/-- Values of the type can be stored in columns of a type. -/
def Reconcilable : ValueType → ColumnType → Prop
  | .base b, c => c = (ValueType.base b).columnType
  | .enumeration e, c => c = (ValueType.enumeration e).columnType
  | .option t, c => t.Reconcilable c
  | .sequence into t, .list _ c => into.kind = .list ∧ t.Reconcilable c
  | .sequence into t, .set _ c => into.kind = .set ∧ t.Reconcilable c
  | .mapping _ k t, .map _ kc c => k.Reconcilable kc ∧ t.Reconcilable c
  | .record header ts, .user u =>
    u.name = header.typeName ∧ (∀ f ∈ u.fields, f.name ∈ header.columns) ∧
      ColumnsReconcilable u.fields header.columns ts
  | _, _ => False
termination_by structural t => t

/-- Columns of the given names and types can be stored in the fields of a user-defined type. -/
def ColumnsReconcilable (fields : List (Field ColumnType)) : List String → List ValueType → Prop
  | column :: columns, t :: ts =>
    (∀ f ∈ fields, f.name = column → t.Reconcilable f.type) ∧
      (column ∉ fields.map Field.name → t.isNullable) ∧ ColumnsReconcilable fields columns ts
  | _, [] => True
  | [], _ :: _ => False
termination_by structural _ ts => ts

end

/-- Every column is missing only if it may be, and else stored in a field of a type for it. -/
theorem columnsReconcilable_iff {fields : List (Field ColumnType)} {columns : List String}
    {ts : List ValueType} (h : columns.length = ts.length) :
    ColumnsReconcilable fields columns ts ↔
      ∀ p ∈ columns.zip ts, (∀ f ∈ fields, f.name = p.1 → p.2.Reconcilable f.type) ∧
        (p.1 ∉ fields.map Field.name → p.2.isNullable) := by
  induction ts generalizing columns with
  | nil => simp [ColumnsReconcilable]
  | cons t ts ih =>
    cases columns with
    | nil => simp at h
    | cons column columns =>
      have h' : columns.length = ts.length := by simpa using h
      simp only [ColumnsReconcilable, ih h', List.zip_cons_cons, List.mem_cons, forall_eq_or_imp]
      exact and_assoc.symm

/-- The fields of a user-defined type are declared columns, which can be stored in them. -/
def FieldsReconcilable (header : RecordHeader) (ts : List ValueType)
    (fields : List (Field ColumnType)) : Prop :=
  (∀ f ∈ fields, f.name ∈ header.columns) ∧ ColumnsReconcilable fields header.columns ts

end CqlWire.ValueType
