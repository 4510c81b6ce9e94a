import CqlWire.ColumnType.Compatible
import Mathlib.Data.List.Forall2

/-!
# The parts of compatible types

Compatible types are of one kind, and their parts are compatible again (`parts_of_isCompatible`), so
that what is proved by cases on one of them needs no look at the other. Every type is compatible
with what is left of it without annotations (`isCompatible_bare`).
-/

namespace CqlWire

/-- Two fields of one name and of compatible types. -/
def Field.Compatible (f g : Field ColumnType) : Prop :=
  f.name = g.name ∧ f.type.isCompatible g.type = true

namespace ColumnType

/-- Two types of one kind whose parts are compatible. -/
inductive HaveCompatibleParts : ColumnType → ColumnType → Prop where
  | scalar (s : ScalarType) : HaveCompatibleParts (.scalar s) (.scalar s)
  | list {f g : Bool} {a b : ColumnType} (h : a.isCompatible b = true) :
    HaveCompatibleParts (.list f a) (.list g b)
  | set {f g : Bool} {a b : ColumnType} (h : a.isCompatible b = true) :
    HaveCompatibleParts (.set f a) (.set g b)
  | map {f g : Bool} {k l a b : ColumnType} (hk : k.isCompatible l = true)
    (h : a.isCompatible b = true) : HaveCompatibleParts (.map f k a) (.map g l b)
  | user {u v : UserType} (hname : u.name = v.name)
    (h : List.Forall₂ Field.Compatible u.fields v.fields) : HaveCompatibleParts (.user u) (.user v)

theorem forall₂_of_areCompatible {fs gs : List (Field ColumnType)}
    (h : areCompatible fs gs = true) : List.Forall₂ Field.Compatible fs gs := by
  induction fs generalizing gs with
  | nil =>
    cases gs with
    | nil => exact .nil
    | cons g gs => cases h
  | cons f fs ih =>
    cases gs with
    | nil => cases h
    | cons g gs =>
      simp only [areCompatible, Bool.and_eq_true, decide_eq_true_eq] at h
      exact .cons h.1 (ih h.2)

theorem parts_of_isCompatible {a b : ColumnType} (h : a.isCompatible b = true) :
    HaveCompatibleParts a b := by
  cases a with
  | scalar s =>
    cases b with
    | scalar s' =>
      obtain rfl : s = s' := of_decide_eq_true h
      exact .scalar s
    | _ => cases h
  | list f a =>
    cases b with
    | list g b => exact .list h
    | _ => cases h
  | set f a =>
    cases b with
    | set g b => exact .set h
    | _ => cases h
  | map f k a =>
    cases b with
    | map g l b =>
      simp only [isCompatible, Bool.and_eq_true] at h
      exact .map h.1 h.2
    | _ => cases h
  | user u =>
    cases b with
    | user v =>
      simp only [isCompatible, Bool.and_eq_true, decide_eq_true_eq] at h
      exact .user h.1 (forall₂_of_areCompatible h.2)
    | _ => cases h

mutual

/-- Annotations make no difference to compatibility. -/
theorem isCompatible_bare (a : ColumnType) : a.isCompatible a.bare = true := by
  match a with
  | .scalar s => exact decide_eq_true rfl
  | .list _ a => exact isCompatible_bare a
  | .set _ a => exact isCompatible_bare a
  | .map _ k a => exact Bool.and_eq_true_iff.2 ⟨isCompatible_bare k, isCompatible_bare a⟩
  | .user ⟨_, _, fields, _⟩ =>
    exact Bool.and_eq_true_iff.2 ⟨decide_eq_true rfl, areCompatible_bareFields fields⟩

/-- The same of the types of several fields. -/
theorem areCompatible_bareFields (fields : List (Field ColumnType)) :
    areCompatible fields (bareFields fields) = true := by
  match fields with
  | [] => rfl
  | ⟨name, a⟩ :: fields =>
    simp only [bareFields, areCompatible, isCompatible_bare a, areCompatible_bareFields fields,
      decide_true, Bool.and_self]

end

end ColumnType

end CqlWire
