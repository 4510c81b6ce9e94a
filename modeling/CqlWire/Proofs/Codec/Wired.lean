import CqlWire.Codec.Built
import CqlWire.Proofs.Codec.Boundary

/-!
# Slots and fields of records

In the codec of a record every slot names a declared field, and the fields that no slot names are
options, which are read without bytes. `Codec.Wired` says this of all records in a codec. It holds
of every codec that the library makes (`Codec.wired_of_built`), because each codec of a record comes
from the shape of its field (`Record.Reconciled.made`); no names have to be distinct for it.
-/

namespace CqlWire

/-- The codecs for fields of a shape: for the type of a column, or where none is known. -/
def FieldShape.Makes (shape : FieldShape) (c : Codec) : Prop :=
  c = shape.codec ∨ ∃ type, shape.codecFor type = .ok c

namespace Record

variable {header : RecordHeader} {shapes : List FieldShape} {schema : UserType}
  {slots : List Nat} {codecs : List Codec}

/-- Every codec of a reconciled record is one for the shape of its field. -/
theorem Reconciled.made (h : Reconciled header shapes schema slots codecs) :
    List.Forall₂ FieldShape.Makes shapes codecs := by
  have hstart : List.Forall₂ FieldShape.Makes shapes (shapes.map FieldShape.codec) :=
    List.forall₂_map_right_iff.2 (List.forall₂_same.2 fun _ _ => .inl rfl)
  refine of_foldlM_eq_ok (fun codecs p next hcodecs hnext => ?_) hstart h.codecs
  obtain ⟨c, hc, hset⟩ := bind_eq_ok_iff.1 hnext
  cases hset
  obtain ⟨shape, hshape, hfor⟩ := fieldCodec_eq_ok_iff.1 hc
  obtain ⟨hlt, rfl⟩ := List.getElem?_eq_some_iff.1 hshape
  rw [← List.set_getElem_self hlt]
  exact forall₂_set hcodecs p.2 (.inr ⟨p.1.type, hfor⟩)

/-- Every slot of a reconciled record names a declared field. -/
theorem Reconciled.slot_lt (h : Reconciled header shapes schema slots codecs)
    (hlen : header.columns.length = shapes.length) : ∀ slot ∈ slots, slot < codecs.length := by
  intro slot hslot
  obtain ⟨f, hp⟩ := exists_field h.named hslot
  obtain ⟨hlt, -⟩ := List.getElem?_eq_some_iff.1 (getElem?_of_mem_zip h.named hp)
  rwa [← h.made.length_eq, ← hlen]

end Record

namespace Codec

mutual

/-- In all records of the codec, each slot names a declared field, and the fields that none names
are options. -/
def Wired : Codec → Prop
  | .scalar _ | .decimal | .enumeration .. => True
  | .shared c | .option c | .elements _ _ _ c => c.Wired
  | .entries _ _ k c => k.Wired ∧ c.Wired
  | .record _ _ slots cs =>
    (∀ slot ∈ slots, slot < cs.length) ∧ (∀ i c, cs[i]? = some c → i ∉ slots → c.IsOption) ∧
      AllWired cs
termination_by structural c => c

/-- The same of several codecs. -/
def AllWired : List Codec → Prop
  | [] => True
  | c :: cs => c.Wired ∧ AllWired cs
termination_by structural cs => cs

end

theorem allWired_iff {cs : List Codec} : AllWired cs ↔ ∀ c ∈ cs, c.Wired := by
  induction cs with
  | nil => simp [AllWired]
  | cons c cs ih => simp [AllWired, ih]

theorem wired_base (b : BaseType) : b.codec.Wired := by
  cases b <;> trivial

mutual

/-- A record that nothing is known of has a slot for every field. -/
theorem wired_codec (t : ValueType) : t.codec.Wired := by
  match t with
  | .base b => exact wired_base b
  | .enumeration e => trivial
  | .option t | .sequence _ t => exact wired_codec t
  | .mapping _ k t => exact ⟨wired_codec k, wired_codec t⟩
  | .record header ts =>
    refine ⟨fun slot hslot => List.mem_range.1 hslot, fun i c hc hout => ?_, wired_codecs ts⟩
    obtain ⟨hlt, -⟩ := List.getElem?_eq_some_iff.1 hc
    exact absurd (List.mem_range.2 hlt) hout

theorem wired_codecs (ts : List ValueType) : AllWired (ValueType.codecs ts) := by
  match ts with
  | [] => trivial
  | t :: ts => exact ⟨wired_codec t, wired_codecs ts⟩

end

/-- What a record is reconciled into is wired if the codecs for its fields are. -/
theorem wired_of_reconcile {header : RecordHeader} {ts : List ValueType}
    (declared : header.WellFormed ts.length)
    (ih : ∀ t ∈ ts, ∀ type c, t.codecFor type = .ok c → c.Wired) {schema : UserType} {c : Codec}
    (h : Record.reconcile header (ValueType.fieldShapes ts) schema = .ok c) : c.Wired := by
  obtain ⟨slots, codecs, rfl, hmade⟩ :=
    Record.reconciled_of_reconcile declared.length_columns h
  obtain ⟨hlen, hget⟩ := List.forall₂_iff_get.1 hmade.made
  -- The codec at a place is one for the value type that is declared there.
  have htype : ∀ {i : Nat} {c : Codec}, codecs[i]? = some c → ∃ t ∈ ts,
      (ValueType.fieldShapes ts)[i]? = some ⟨t.codec, t.isNullable, t.codecFor⟩ ∧
        (c = t.codec ∨ ∃ type, t.codecFor type = .ok c) := by
    intro i c hc
    obtain ⟨hi, rfl⟩ := List.getElem?_eq_some_iff.1 hc
    have hi' : i < (ValueType.fieldShapes ts).length := hlen ▸ hi
    have hlt : i < ts.length := by rwa [ValueType.length_fieldShapes] at hi'
    have hshape := Record.getElem?_fieldShapes (List.getElem?_eq_getElem hlt)
    have hmakes := hget i hi' hi
    rw [List.get_eq_getElem, (List.getElem?_eq_some_iff.1 hshape).2] at hmakes
    exact ⟨ts[i], List.getElem_mem hlt, hshape, hmakes⟩
  refine ⟨hmade.slot_lt declared.length_columns, fun i c hc hout => ?_, allWired_iff.2 ?_⟩
  · obtain ⟨t, -, hshape, hc⟩ := htype hc
    have hnull : t.isNullable = true := hmade.nullable i _ hshape hout
    rcases hc with rfl | ⟨type, hfor⟩
    · exact isOption_codec hnull
    · exact isOption_of_codecFor hnull hfor
  · intro c hmem
    obtain ⟨i, hi⟩ := List.mem_iff_getElem?.1 hmem
    obtain ⟨t, ht, -, hc⟩ := htype hi
    rcases hc with rfl | ⟨type, hfor⟩
    · exact wired_codec t
    · exact ih t ht type c hfor

mutual

theorem wired_codecFor {t : ValueType} (declared : t.WellFormed) {type : ColumnType} {c : Codec}
    (h : t.codecFor type = .ok c) : c.Wired := by
  match t with
  | .base _ | .enumeration _ =>
    simp only [ValueType.codecFor, ValueType.defaultFor] at h
    split at h
    · cases h
      exact wired_codec _
    · cases h
  | .option t =>
    have inside : t.WellFormed := declared
    obtain ⟨inner, hi, rfl⟩ := map_eq_ok_iff.1 h
    exact wired_codecFor (c := inner) inside hi
  | .sequence _ t =>
    have inside : t.WellFormed := declared
    unfold ValueType.codecFor at h
    split at h
    · obtain ⟨inner, hi, rfl⟩ := map_eq_ok_iff.1 h
      exact wired_codecFor (c := inner) inside hi
    · obtain ⟨inner, hi, rfl⟩ := map_eq_ok_iff.1 h
      exact wired_codecFor (c := inner) inside hi
    · cases h
  | .mapping _ k t =>
    unfold ValueType.codecFor at h
    split at h
    · simp only [bind_eq_ok_iff, pure_eq_ok_iff] at h
      obtain ⟨key, hk, value, hv, rfl⟩ := h
      exact ⟨wired_codecFor declared.1 hk, wired_codecFor declared.2 hv⟩
    · cases h
  | .record header ts =>
    unfold ValueType.codecFor at h
    split at h
    · split at h
      · exact wired_of_reconcile declared.1 (wired_codecFor_fields declared.2) h
      · cases h
    · cases h

theorem wired_codecFor_fields {ts : List ValueType} (declared : ValueType.AllWellFormed ts) :
    ∀ t ∈ ts, ∀ type c, t.codecFor type = .ok c → c.Wired := by
  match ts with
  | [] => exact List.forall_mem_nil _
  | t :: ts =>
    refine List.forall_mem_cons.2 ⟨fun type c h => ?_, wired_codecFor_fields declared.2⟩
    exact wired_codecFor declared.1 h

end

/-- Every codec that the library makes is wired. -/
theorem wired_of_built {c : Codec} (h : Built c) : c.Wired := by
  induction h with
  | scalar | decimal | enumeration => trivial
  | shared _ ih | option _ ih | elements _ _ _ _ ih => exact ih
  | entries _ _ _ _ ihk ih => exact ⟨ihk, ih⟩
  | @identical header ts schema c declared made =>
    have hdeclared := made
    simp only [Record.identical, bind_eq_ok_iff, refuseIf_eq_ok_iff, Bool.not_eq_true',
      Bool.not_eq_false] at hdeclared
    obtain ⟨_, hdeclared, -⟩ := hdeclared
    exact wired_of_reconcile declared.1 (wired_codecFor_fields declared.2)
      ((if_pos hdeclared).trans made)
  | @reordered header ts schema c declared made =>
    rw [← Record.reconcile_eq_reordered declared.1.nodup declared.1.length_columns] at made
    exact wired_of_reconcile declared.1 (wired_codecFor_fields declared.2) made
  | @default t _ => exact wired_codec t

/-! ## Values of the fields -/

/-- A value of each field, and no more. -/
theorem holdAll_valueTypes_iff {cs : List Codec} {vs : List Value} :
    ValueType.HoldAll (valueTypes cs) vs ↔ vs.length = cs.length ∧
      ∀ (i : Nat) (c : Codec) (v : Value), cs[i]? = some c → vs[i]? = some v →
        c.valueType.Holds v := by
  induction cs generalizing vs with
  | nil =>
    rw [List.length_nil, List.length_eq_zero_iff]
    cases vs with
    | nil => exact ⟨fun _ => ⟨rfl, nofun⟩, fun _ => trivial⟩
    | cons v vs => exact ⟨False.elim, fun h => nomatch h.1⟩
  | cons c cs ih =>
    cases vs with
    | nil => exact ⟨False.elim, fun h => nomatch h.1⟩
    | cons v vs =>
      rw [List.length_cons, List.length_cons, Nat.add_right_cancel_iff]
      constructor
      · rintro ⟨hv, hvs⟩
        obtain ⟨hlen, hget⟩ := ih.1 hvs
        refine ⟨hlen, fun i c' v' hc' hv' => ?_⟩
        cases i with
        | zero =>
          cases hc'
          cases hv'
          exact hv
        | succ i => exact hget i c' v' hc' hv'
      · rintro ⟨hlen, hget⟩
        exact ⟨hget 0 c v rfl rfl, ih.2 ⟨hlen, fun i => hget (i + 1)⟩⟩

/-- What is seen of the fields is what is seen of the value of each. -/
theorem listing_of_listingAll {cs : List Codec} {vs ws : List Value}
    (h : ValueType.ListingAll (valueTypes cs) vs ws) : ws.length = cs.length ∧
      ∀ (i : Nat) (c : Codec) (v w : Value), cs[i]? = some c → vs[i]? = some v →
        ws[i]? = some w → c.valueType.Listing v w := by
  match cs, vs, ws with
  | [], [], [] => exact ⟨rfl, nofun⟩
  | c :: cs, v :: vs, w :: ws =>
    have hrest : ValueType.ListingAll (valueTypes cs) vs ws := h.2
    obtain ⟨hlen, hget⟩ := listing_of_listingAll hrest
    refine ⟨congrArg Nat.succ hlen, fun i c' v' w' hc hv hw => ?_⟩
    cases i with
    | zero =>
      cases hc
      cases hv
      cases hw
      exact h.1
    | succ i => exact hget i c' v' w' hc hv hw

end Codec

end CqlWire
