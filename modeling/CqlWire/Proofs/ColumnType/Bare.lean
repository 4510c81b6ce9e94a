import CqlWire.Codec.Basic
import Mathlib.Logic.Relation

/-!
# Compatibility is equality without annotations

Two column types are compatible exactly if the same is left of both without their annotations
(`isCompatible_iff`), so that compatibility is an equivalence. It is the one that single annotations
generate: `Reannotates` changes one `frozen` flag or one keyspace, of a type or of anything within
it, and compatible types are those that such changes lead from one to the other (`eqvGen_iff`). A
codec sees no more of a column type than what is left of it (`isCompatible_iff_bare_eq`).
-/

namespace CqlWire.ColumnType

open Relation (EqvGen)

/-! ## What is left of a type -/

theorem bareFields_eq_map (fs : List (Field ColumnType)) :
    bareFields fs = fs.map fun f => ⟨f.name, f.type.bare⟩ := by
  induction fs with
  | nil => rfl
  | cons f fs ih => rw [bareFields, ih, List.map_cons]

mutual

/-- Compatible types are those of which the same is left. -/
theorem isCompatible_iff (a b : ColumnType) : a.isCompatible b = true ↔ a.bare = b.bare := by
  cases a with
  | scalar s => cases b <;> simp [isCompatible, bare]
  | list f a =>
    cases b with
    | list g b => simp [isCompatible, bare, isCompatible_iff a b]
    | _ => simp [isCompatible, bare]
  | set f a =>
    cases b with
    | set g b => simp [isCompatible, bare, isCompatible_iff a b]
    | _ => simp [isCompatible, bare]
  | map f k a =>
    cases b with
    | map g l b => simp [isCompatible, bare, isCompatible_iff k l, isCompatible_iff a b]
    | _ => simp [isCompatible, bare]
  | user u =>
    obtain ⟨_, n, fs, _⟩ := u
    cases b with
    | user v => simp [isCompatible, bare, areCompatible_iff fs v.fields]
    | _ => simp [isCompatible, bare]

/-- The same of the fields of user-defined types. -/
theorem areCompatible_iff (fs gs : List (Field ColumnType)) :
    areCompatible fs gs = true ↔ bareFields fs = bareFields gs := by
  cases fs with
  | nil => cases gs <;> simp [areCompatible, bareFields]
  | cons f fs =>
    obtain ⟨n, a⟩ := f
    cases gs with
    | nil => simp [areCompatible, bareFields]
    | cons g gs =>
      simp [areCompatible, bareFields, isCompatible_iff a g.type, areCompatible_iff fs gs]

end

/-! ## Changes of annotations -/

/-- One annotation changed: a `frozen` flag or a keyspace, of the type or of one within it. -/
inductive Reannotates : ColumnType → ColumnType → Prop where
  | frozen (t : ColumnType) (frozen : Bool) : Reannotates t (t.withFrozen frozen)
  | keyspace (u : UserType) (keyspace : String) :
    Reannotates (.user u) (.user (u.inKeyspace keyspace))
  | list {a b : ColumnType} (frozen : Bool) (h : Reannotates a b) :
    Reannotates (.list frozen a) (.list frozen b)
  | set {a b : ColumnType} (frozen : Bool) (h : Reannotates a b) :
    Reannotates (.set frozen a) (.set frozen b)
  | key {k l : ColumnType} (frozen : Bool) (value : ColumnType) (h : Reannotates k l) :
    Reannotates (.map frozen k value) (.map frozen l value)
  | value {a b : ColumnType} (frozen : Bool) (key : ColumnType) (h : Reannotates a b) :
    Reannotates (.map frozen key a) (.map frozen key b)
  | field {a b : ColumnType} (u : UserType) (front : List (Field ColumnType)) (name : String)
    (back : List (Field ColumnType)) (h : Reannotates a b) :
    Reannotates (.user { u with fields := front ++ ⟨name, a⟩ :: back })
      (.user { u with fields := front ++ ⟨name, b⟩ :: back })

variable {a b : ColumnType}

theorem bare_withFrozen (t : ColumnType) (frozen : Bool) : (t.withFrozen frozen).bare = t.bare := by
  cases t <;> rfl

/-- A change of annotations leaves the same of a type. -/
theorem Reannotates.bare_eq (h : Reannotates a b) : a.bare = b.bare := by
  induction h with
  | frozen t frozen => exact (bare_withFrozen t frozen).symm
  | keyspace u keyspace => rfl
  | list frozen _ ih => exact congrArg (ColumnType.list false) ih
  | set frozen _ ih => exact congrArg (ColumnType.set false) ih
  | key frozen value _ ih => exact congrArg (ColumnType.map false · value.bare) ih
  | value frozen key _ ih => exact congrArg (ColumnType.map false key.bare) ih
  | field u front name back _ ih =>
    simp only [bare, bareFields_eq_map, List.map_append, List.map_cons, ih]

/-- What leads from one type to another does so within a larger type. -/
theorem eqvGen_within {f : ColumnType → ColumnType}
    (hf : ∀ a b, Reannotates a b → Reannotates (f a) (f b)) (h : EqvGen Reannotates a b) :
    EqvGen Reannotates (f a) (f b) := by
  induction h with
  | rel a b h => exact .rel _ _ (hf a b h)
  | refl a => exact .refl _
  | symm a b _ ih => exact .symm _ _ ih
  | trans a b c _ _ ihab ihbc => exact .trans _ _ _ ihab ihbc

/-- The annotations of the outermost type can be taken away. -/
theorem eqvGen_clear (k : Option String) (n : String) (fs : List (Field ColumnType)) (z : Bool) :
    EqvGen Reannotates (.user ⟨k, n, fs, z⟩) (.user ⟨none, n, fs, false⟩) := by
  have hfrozen : EqvGen Reannotates (.user ⟨k, n, fs, z⟩) (.user ⟨k, n, fs, false⟩) :=
    .rel _ _ (.frozen (.user ⟨k, n, fs, z⟩) false)
  cases k with
  | none => exact hfrozen
  | some keyspace =>
    -- A keyspace can only be set, so the way leads back from the type that lacks one.
    exact .trans _ _ _ hfrozen (.symm _ _ (.rel _ _ (.keyspace ⟨none, n, fs, false⟩ keyspace)))

mutual

/-- All annotations of a type can be taken away. -/
theorem eqvGen_bare (a : ColumnType) : EqvGen Reannotates a a.bare := by
  match a with
  | .scalar s => exact .refl _
  | .list f a =>
    have helement : EqvGen Reannotates (.list false a) (.list false a.bare) :=
      eqvGen_within (fun _ _ h => .list false h) (eqvGen_bare a)
    exact .trans _ _ _ (.rel _ _ (.frozen _ false)) helement
  | .set f a =>
    have helement : EqvGen Reannotates (.set false a) (.set false a.bare) :=
      eqvGen_within (fun _ _ h => .set false h) (eqvGen_bare a)
    exact .trans _ _ _ (.rel _ _ (.frozen _ false)) helement
  | .map f k a =>
    have hkey : EqvGen Reannotates (.map false k a) (.map false k.bare a) :=
      eqvGen_within (fun _ _ h => .key false a h) (eqvGen_bare k)
    have hvalue : EqvGen Reannotates (.map false k.bare a) (.map false k.bare a.bare) :=
      eqvGen_within (fun _ _ h => .value false k.bare h) (eqvGen_bare a)
    exact .trans _ _ _ (.rel _ _ (.frozen _ false)) (.trans _ _ _ hkey hvalue)
  | .user ⟨k, n, fs, z⟩ =>
    exact .trans _ _ _ (eqvGen_clear k n fs z) (eqvGen_bareFields n [] fs)

/-- The same of the fields behind those of which nothing more can be taken. -/
theorem eqvGen_bareFields (n : String) (front fs : List (Field ColumnType)) :
    EqvGen Reannotates (.user ⟨none, n, front ++ fs, false⟩)
      (.user ⟨none, n, front ++ bareFields fs, false⟩) := by
  match fs with
  | [] => exact .refl _
  | ⟨name, a⟩ :: fs =>
    refine .trans _ _ _ (eqvGen_within (fun _ _ h =>
      .field ⟨none, n, [], false⟩ front name fs h) (eqvGen_bare a)) ?_
    have hrest := eqvGen_bareFields n (front ++ [⟨name, a.bare⟩]) fs
    rwa [List.append_assoc, List.append_assoc] at hrest

end

/-- Changes of annotations lead from one type to another exactly if the same is left of both. -/
theorem eqvGen_iff : EqvGen Reannotates a b ↔ a.bare = b.bare := by
  constructor
  · intro h
    induction h with
    | rel a b h => exact h.bare_eq
    | refl a => rfl
    | symm a b _ ih => exact ih.symm
    | trans a b c _ _ ihab ihbc => exact ihab.trans ihbc
  · intro h
    refine .trans _ _ _ (eqvGen_bare a) ?_
    rw [h]
    exact .symm _ _ (eqvGen_bare b)

/-- Two column types are compatible exactly if they are equal without their annotations, at any
depth, and so are two user-defined types. So compatibility is an equivalence, and it is the one that
changes of single annotations generate. A change on either side makes no difference to it, and a
codec accepts the column types of which the same is left as of its own. -/
theorem isCompatible_iff_bare_eq :
    (∀ a b : ColumnType, a.isCompatible b = true ↔ a.bare = b.bare) ∧
    (∀ u v : UserType, u.isCompatible v = true ↔
      (ColumnType.user u).bare = (ColumnType.user v).bare) ∧
    Equivalence (fun a b : ColumnType => a.isCompatible b = true) ∧
    (∀ a b : ColumnType, a.isCompatible b = true ↔ EqvGen Reannotates a b) ∧
    (∀ a a' : ColumnType, Reannotates a a' → ∀ b : ColumnType,
      a'.isCompatible b = a.isCompatible b ∧ b.isCompatible a' = b.isCompatible a) ∧
    ∀ (c : Codec) (t : ColumnType), c.acceptsType t = true ↔ c.type.bare = t.bare := by
  refine ⟨isCompatible_iff, fun u v => isCompatible_iff _ _, ?_, ?_, ?_, fun c t =>
    isCompatible_iff c.type t⟩
  · constructor
    · intro a
      exact (isCompatible_iff a a).2 rfl
    · intro a b h
      exact (isCompatible_iff b a).2 ((isCompatible_iff a b).1 h).symm
    · intro a b c hab hbc
      have hac := ((isCompatible_iff a b).1 hab).trans ((isCompatible_iff b c).1 hbc)
      exact (isCompatible_iff a c).2 hac
  · intro a b
    exact (isCompatible_iff a b).trans eqvGen_iff.symm
  · intro a a' h b
    constructor
    · rw [Bool.eq_iff_iff, isCompatible_iff, isCompatible_iff, h.bare_eq]
    · rw [Bool.eq_iff_iff, isCompatible_iff, isCompatible_iff, h.bare_eq]

/-- A list of addresses whose lines are frozen, or whose addresses are those of a keyspace, is
compatible with one that has no annotations. -/
theorem isCompatible_addresses :
    let address (lines : ColumnType) : UserType := ⟨none, "address", [⟨"lines", lines⟩], false⟩
    let plain : ColumnType := .list false (.user (address (.list false (.scalar .text))))
    let frozen : ColumnType := .list false (.user (address (.list true (.scalar .text))))
    let owned : ColumnType :=
      .list false (.user ((address (.list false (.scalar .text))).inKeyspace "shop"))
    Reannotates plain frozen ∧ Reannotates plain owned ∧
      frozen.isCompatible plain = true ∧ plain.isCompatible owned = true := by
  intro address plain frozen owned
  have hfrozen : Reannotates plain frozen :=
    .list false (.field (address (.scalar .text)) [] "lines" [] (.frozen _ true))
  have howned : Reannotates plain owned := .list false (.keyspace _ "shop")
  obtain ⟨-, -, hequivalence, -, hchange, -⟩ := isCompatible_iff_bare_eq
  refine ⟨hfrozen, howned, ?_, ?_⟩
  · rw [(hchange plain frozen hfrozen plain).1]
    exact hequivalence.refl plain
  · rw [(hchange plain owned howned plain).2]
    exact hequivalence.refl plain

end CqlWire.ColumnType
