import CqlWire.Codec.Default
import CqlWire.Proofs.Codec.Storage

/-!
# What a column type has a place for

Fields of records and of user-defined types belong together by their names. `ValueType.restrict`
says what is left of a value where a user-defined type lacks fields of a record, at any depth, from
the two types alone; where nothing is lacking (`ValueType.HasAllFields`), nothing is left out
(`ValueType.restrict_of_hasAllFields`). `ValueType.Storable` and `ColumnType.HasDistinctFields` are
what is promised of the two types.
-/

namespace CqlWire

/-! ## Column types -/

namespace ColumnType

/-- The first field of a name. -/
def fieldNamed? (fields : List (Field ColumnType)) (name : String) : Option (Field ColumnType) :=
  fields.find? fun f => f.name = name

theorem of_fieldNamed?_eq_some {fields : List (Field ColumnType)} {name : String}
    {f : Field ColumnType} (h : fieldNamed? fields name = some f) : f ∈ fields ∧ f.name = name := by
  have hname : decide (f.name = name) = true :=
    List.find?_some (p := fun f : Field ColumnType => f.name = name) h
  exact ⟨List.mem_of_find?_eq_some h, of_decide_eq_true hname⟩

theorem name_ne_of_fieldNamed?_eq_none {fields : List (Field ColumnType)} {name : String}
    (h : fieldNamed? fields name = none) {f : Field ColumnType} (hf : f ∈ fields) :
    f.name ≠ name := by
  have := List.find?_eq_none.1 h f hf
  rwa [decide_eq_true_iff] at this

mutual

/-- No user-defined type in it has two fields of one name. -/
def HasDistinctFields : ColumnType → Prop
  | .scalar _ => True
  | .list _ c | .set _ c => c.HasDistinctFields
  | .map _ k c => k.HasDistinctFields ∧ c.HasDistinctFields
  | .user ⟨_, _, fields, _⟩ => (fields.map Field.name).Nodup ∧ AllHaveDistinctFields fields
termination_by structural c => c

/-- The same of the types of several fields. -/
def AllHaveDistinctFields : List (Field ColumnType) → Prop
  | [] => True
  | ⟨_, c⟩ :: fields => c.HasDistinctFields ∧ AllHaveDistinctFields fields
termination_by structural fields => fields

end

theorem hasDistinctFields_of_mem {fields : List (Field ColumnType)}
    (h : AllHaveDistinctFields fields) : ∀ f ∈ fields, f.type.HasDistinctFields := by
  induction fields with
  | nil => exact List.forall_mem_nil _
  | cons f fields ih => exact List.forall_mem_cons.2 ⟨h.1, ih h.2⟩

theorem allHaveDistinctFields_of_forall {fields : List (Field ColumnType)}
    (h : ∀ f ∈ fields, f.type.HasDistinctFields) : AllHaveDistinctFields fields := by
  induction fields with
  | nil => trivial
  | cons f fields ih =>
    obtain ⟨hf, hfields⟩ := List.forall_mem_cons.1 h
    exact ⟨hf, ih hfields⟩

end ColumnType

/-! ## Value types -/

open ColumnType (fieldNamed?)

namespace ValueType

/-- No record is part of the type. -/
def IsRecordFree : ValueType → Prop
  | .base _ | .enumeration _ => True
  | .option t | .sequence _ t => t.IsRecordFree
  | .mapping _ k t => k.IsRecordFree ∧ t.IsRecordFree
  | .record .. => False

mutual

/-- Types whose values columns can hold: as declarations make them, without an option directly
inside of another, and without records in sets and in the keys of maps. -/
def Storable : ValueType → Prop
  | .base _ => True
  | .enumeration e => e.WellFormed ∧ (e.ordinal = true → e.FitsOrdinal)
  | .option t => t.isNullable = false ∧ t.Storable
  | .sequence into t => (into.kind = .set → t.IsRecordFree) ∧ t.Storable
  | .mapping _ k t => k.IsRecordFree ∧ k.Storable ∧ t.Storable
  | .record header ts => header.WellFormed ts.length ∧ AllStorable ts
termination_by structural t => t

/-- Several types of this kind. -/
def AllStorable : List ValueType → Prop
  | [] => True
  | t :: ts => t.Storable ∧ AllStorable ts
termination_by structural ts => ts

end

mutual

theorem wellFormed_of_storable {t : ValueType} (h : t.Storable) : t.WellFormed := by
  match t with
  | .base _ => trivial
  | .enumeration _ => exact h.1
  | .option t => exact wellFormed_of_storable (t := t) h.2
  | .sequence _ t => exact wellFormed_of_storable (t := t) h.2
  | .mapping _ k t => exact ⟨wellFormed_of_storable h.2.1, wellFormed_of_storable h.2.2⟩
  | .record _ ts => exact ⟨h.1, allWellFormed_of_allStorable h.2⟩

theorem allWellFormed_of_allStorable {ts : List ValueType} (h : AllStorable ts) :
    AllWellFormed ts := by
  match ts with
  | [] => trivial
  | t :: ts => exact ⟨wellFormed_of_storable h.1, allWellFormed_of_allStorable h.2⟩

end

theorem storable_of_mem {ts : List ValueType} (h : AllStorable ts) : ∀ t ∈ ts, t.Storable := by
  induction ts with
  | nil => exact List.forall_mem_nil _
  | cons t ts ih => exact List.forall_mem_cons.2 ⟨h.1, ih h.2⟩

mutual

/-- The value without the fields that a column type has no place for; those are absent. -/
def restrict : ValueType → ColumnType → Value → Value
  | .option t, c, .present v => .present (t.restrict c v)
  | .sequence _ t, .list _ c, .sequence vs | .sequence _ t, .set _ c, .sequence vs =>
    .sequence (vs.map (t.restrict c))
  | .mapping _ k t, .map _ kc c, .mapping es =>
    .mapping (es.map fun e => (k.restrict kc e.1, t.restrict c e.2))
  | .record header ts, .user u, .record vs =>
    .record (restrictFields u.fields header.columns ts vs)
  | _, _, v => v
termination_by structural t => t

/-- The same of the declared fields of a record, by the fields of their names. -/
def restrictFields (fields : List (Field ColumnType)) :
    List String → List ValueType → List Value → List Value
  | column :: columns, t :: ts, v :: vs =>
    (match fieldNamed? fields column with
      | some f => t.restrict f.type v
      | none => .absent) :: restrictFields fields columns ts vs
  | _, _, vs => vs
termination_by structural _ ts => ts

end

mutual

/-- The column type has a place for every field of the type, at any depth. -/
def HasAllFields : ValueType → ColumnType → Prop
  | .option t, c => t.HasAllFields c
  | .sequence _ t, .list _ c | .sequence _ t, .set _ c => t.HasAllFields c
  | .mapping _ k t, .map _ kc c => k.HasAllFields kc ∧ t.HasAllFields c
  | .record header ts, .user u => HasAllColumns u.fields header.columns ts
  | _, _ => True
termination_by structural t => t

/-- There is a field of the name of each column, which has a place for everything in it. -/
def HasAllColumns (fields : List (Field ColumnType)) : List String → List ValueType → Prop
  | column :: columns, t :: ts =>
    (∃ f, fieldNamed? fields column = some f ∧ t.HasAllFields f.type) ∧
      HasAllColumns fields columns ts
  | _, _ => True
termination_by structural _ ts => ts

end

mutual

/-- Where nothing is lacking, nothing is left out. -/
theorem restrict_of_hasAllFields {t : ValueType} {c : ColumnType} (h : t.HasAllFields c)
    (v : Value) : t.restrict c v = v := by
  match t with
  | .base _ | .enumeration _ => rfl
  | .option t =>
    cases v with
    | present v => exact congrArg Value.present (restrict_of_hasAllFields (t := t) h v)
    | _ => rfl
  | .sequence _ t =>
    cases v with
    | sequence vs =>
      cases c with
      | list _ c | set _ c =>
        refine congrArg Value.sequence ?_
        rw [show t.restrict c = id from funext (restrict_of_hasAllFields (t := t) h), List.map_id]
      | _ => rfl
    | _ => cases c <;> rfl
  | .mapping _ k t =>
    cases v with
    | mapping es =>
      cases c with
      | map _ kc c =>
        refine congrArg Value.mapping ?_
        conv_rhs => rw [← List.map_id es]
        refine List.map_congr_left fun e _ => ?_
        rw [restrict_of_hasAllFields h.1, restrict_of_hasAllFields h.2]
        rfl
      | _ => rfl
    | _ => cases c <;> rfl
  | .record header ts =>
    cases v with
    | record vs =>
      cases c with
      | user u => exact congrArg Value.record (restrictFields_of_hasAllColumns h vs)
      | _ => rfl
    | _ => cases c <;> rfl

/-- The same of the declared fields of a record. -/
theorem restrictFields_of_hasAllColumns {fields : List (Field ColumnType)} {columns : List String}
    {ts : List ValueType} (h : HasAllColumns fields columns ts) (vs : List Value) :
    restrictFields fields columns ts vs = vs := by
  match columns, ts, vs with
  | column :: columns, t :: ts, v :: vs =>
    obtain ⟨⟨f, hf, ht⟩, hts⟩ := h
    simp only [restrictFields, hf]
    rw [restrict_of_hasAllFields ht, restrictFields_of_hasAllColumns hts]
  | [], [], _ | [], _ :: _, _ | _ :: _, [], _ | _ :: _, _ :: _, [] => rfl

end

end ValueType

end CqlWire
