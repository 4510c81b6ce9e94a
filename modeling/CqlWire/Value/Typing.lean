import CqlWire.Value.Order
import CqlWire.Value.Type

/-!
# Which values a type has

A `Value` does not carry its type. `ValueType.Holds t v` says that `v` is a value of type `t`: an
integer in its range, a collection whose elements are of the element type and stand as their
container keeps them, a record with one value for each of its fields.

* `ValueType.Holds`: the values of a type, by recursion on the type;
* `Container.Keeps`, `MapContainer.Keeps`: what a container can hold; ordered containers have their
  elements strictly ascending, so that no two of them are equal;
* `ValueType.WellFormed`: the types whose enumerations and records are as declarations make them.
-/

namespace CqlWire

/-- The values of a type without parts. -/
def BaseType.Holds : BaseType → Value → Prop
  | .bool, .bool _ => True
  | .int8, .int n => fitsSigned 8 n
  | .int16, .int n => fitsSigned 16 n
  | .int32, .int n => fitsSigned 32 n
  | .int64, .int n => fitsSigned 64 n
  | .int128, .int n => fitsSigned 128 n
  | .float32, .float bits => bits < Bytes.capacity 4
  | .float64, .double bits => bits < Bytes.capacity 8
  | .string, .text _ => True
  | .bytes, .bytes _ => True
  | .uuid, .uuid _ => True
  | .instant, .instant _ => True
  | .date, .date _ => True
  | .time, .time _ => True
  | .unscaled, .unscaled d => fitsSigned 128 d.unscaled ∧ fitsSigned 32 d.scale
  | .decimal, .decimal _ => True
  | .inet, .inet _ => True
  | _, _ => False

/-- The number of bits of an integer type. -/
def BaseType.bits? : BaseType → Option Nat
  | .int8 => some 8
  | .int16 => some 16
  | .int32 => some 32
  | .int64 => some 64
  | .int128 => some 128
  | _ => none

namespace BaseType

variable {v : Value}

theorem eq_int_of_holds {b : BaseType} {bits : Nat} (hb : b.bits? = some bits) (h : b.Holds v) :
    ∃ n, v = .int n ∧ fitsSigned bits n = true := by
  cases v with
  | int n =>
    refine ⟨n, rfl, ?_⟩
    cases b <;> cases hb <;> exact h
  | _ => cases b <;> cases hb <;> exact h.elim

theorem eq_bool_of_holds (h : BaseType.bool.Holds v) : ∃ b, v = .bool b := by
  cases v with
  | bool b => exact ⟨b, rfl⟩
  | _ => exact h.elim

theorem eq_float_of_holds (h : BaseType.float32.Holds v) :
    ∃ bits, v = .float bits ∧ bits < Bytes.capacity 4 := by
  cases v with
  | float bits => exact ⟨bits, rfl, h⟩
  | _ => exact h.elim

theorem eq_double_of_holds (h : BaseType.float64.Holds v) :
    ∃ bits, v = .double bits ∧ bits < Bytes.capacity 8 := by
  cases v with
  | double bits => exact ⟨bits, rfl, h⟩
  | _ => exact h.elim

theorem eq_text_of_holds (h : BaseType.string.Holds v) : ∃ s, v = .text s := by
  cases v with
  | text s => exact ⟨s, rfl⟩
  | _ => exact h.elim

theorem eq_bytes_of_holds (h : BaseType.bytes.Holds v) : ∃ bs, v = .bytes bs := by
  cases v with
  | bytes bs => exact ⟨bs, rfl⟩
  | _ => exact h.elim

theorem eq_uuid_of_holds (h : BaseType.uuid.Holds v) : ∃ u, v = .uuid u := by
  cases v with
  | uuid u => exact ⟨u, rfl⟩
  | _ => exact h.elim

theorem eq_instant_of_holds (h : BaseType.instant.Holds v) : ∃ t, v = .instant t := by
  cases v with
  | instant t => exact ⟨t, rfl⟩
  | _ => exact h.elim

theorem eq_date_of_holds (h : BaseType.date.Holds v) : ∃ d, v = .date d := by
  cases v with
  | date d => exact ⟨d, rfl⟩
  | _ => exact h.elim

theorem eq_time_of_holds (h : BaseType.time.Holds v) : ∃ t, v = .time t := by
  cases v with
  | time t => exact ⟨t, rfl⟩
  | _ => exact h.elim

theorem eq_unscaled_of_holds (h : BaseType.unscaled.Holds v) :
    ∃ d, v = .unscaled d ∧ fitsSigned 128 d.unscaled = true ∧ fitsSigned 32 d.scale = true := by
  cases v with
  | unscaled d => exact ⟨d, rfl, h⟩
  | _ => exact h.elim

theorem eq_decimal_of_holds (h : BaseType.decimal.Holds v) : ∃ d, v = .decimal d := by
  cases v with
  | decimal d => exact ⟨d, rfl⟩
  | _ => exact h.elim

theorem eq_inet_of_holds (h : BaseType.inet.Holds v) : ∃ a, v = .inet a := by
  cases v with
  | inet a => exact ⟨a, rfl⟩
  | _ => exact h.elim

end BaseType

/-- The lists of elements that a container can hold. -/
def Container.Keeps : Container → List Value → Prop
  | .vector, _ | .deque, _ => True
  | .ordered, vs | .hashed, vs => vs.Pairwise fun a b => a.compare b = .lt

/-- The lists of entries that a container can hold. -/
def MapContainer.Keeps (into : MapContainer) (es : List (Value × Value)) : Prop :=
  es.Pairwise fun a b => into.order.compare Value.compare a.1 b.1 = .lt

namespace ValueType

mutual

/-- The values of a type. -/
def Holds : ValueType → Value → Prop
  | .base b, v => b.Holds v
  | .option _, .absent => True
  | .option t, .present v => t.Holds v
  | .sequence into t, .sequence vs => into.Keeps vs ∧ ∀ v ∈ vs, t.Holds v
  | .mapping into k t, .mapping es => into.Keeps es ∧ ∀ e ∈ es, k.Holds e.1 ∧ t.Holds e.2
  | .enumeration e, .variant index => index < e.names.length
  | .record _ ts, .record vs => HoldAll ts vs
  | _, _ => False
termination_by structural t => t

/-- One value of each type. -/
def HoldAll : List ValueType → List Value → Prop
  | [], [] => True
  | t :: ts, v :: vs => t.Holds v ∧ HoldAll ts vs
  | _, _ => False
termination_by structural ts => ts

end

theorem holds_option_iff {t : ValueType} {v : Value} :
    (ValueType.option t).Holds v ↔ v = .absent ∨ ∃ u, v = .present u ∧ t.Holds u := by
  cases v <;> simp [Holds]

theorem holds_sequence_iff {into : Container} {t : ValueType} {v : Value} :
    (ValueType.sequence into t).Holds v ↔
      ∃ vs, v = .sequence vs ∧ into.Keeps vs ∧ ∀ u ∈ vs, t.Holds u := by
  cases v <;> simp [Holds]

theorem holds_mapping_iff {into : MapContainer} {k t : ValueType} {v : Value} :
    (ValueType.mapping into k t).Holds v ↔
      ∃ es, v = .mapping es ∧ into.Keeps es ∧ ∀ e ∈ es, k.Holds e.1 ∧ t.Holds e.2 := by
  cases v <;> simp [Holds]

theorem holds_enumeration_iff {e : Enumeration} {v : Value} :
    (ValueType.enumeration e).Holds v ↔ ∃ index, v = .variant index ∧ index < e.names.length := by
  cases v <;> simp [Holds]

theorem holds_record_iff {header : RecordHeader} {ts : List ValueType} {v : Value} :
    (ValueType.record header ts).Holds v ↔ ∃ vs, v = .record vs ∧ HoldAll ts vs := by
  cases v <;> simp [Holds]

/-! ## Types as declared -/

mutual

/-- A type whose enumerations and records are as declarations make them. -/
def WellFormed : ValueType → Prop
  | .base _ => True
  | .option t | .sequence _ t => t.WellFormed
  | .mapping _ k t => k.WellFormed ∧ t.WellFormed
  | .enumeration e => e.WellFormed
  | .record header ts => header.WellFormed ts.length ∧ AllWellFormed ts
termination_by structural t => t

/-- Several types of this kind. -/
def AllWellFormed : List ValueType → Prop
  | [] => True
  | t :: ts => t.WellFormed ∧ AllWellFormed ts
termination_by structural ts => ts

end

end ValueType

end CqlWire
