import CqlWire.Codec.Live
import CqlWire.Proofs.Codec.Restrict

/-!
# What a record is reconciled into

A record is stored by a slot for each field of the type (`reconciled_of_reconcile`), which is the
place of the one declared column of that name (`mem_zip_of_name`). The codecs are set at these
places, one after another (`Reconciled.codecs_spec`). Where no two fields of the type have one name,
none is set twice, so that each column has the codec for the type of its own field, and a column
without a field the codec that it has by default (`Reconciled.codec_of_column`).
-/

namespace CqlWire.Record

open ColumnType (fieldNamed? of_fieldNamed?_eq_some name_ne_of_fieldNamed?_eq_none)

variable {header : RecordHeader} {shapes : List FieldShape} {schema : UserType}

/-- A record stored by these slots and codecs. -/
structure Reconciled (header : RecordHeader) (shapes : List FieldShape) (schema : UserType)
    (slots : List Nat) (codecs : List Codec) : Prop where
  named : List.Forall₂ (fun f slot => header.columns[slot]? = some f.name) schema.fields slots
  codecs : fieldCodecs header schema shapes slots = .ok codecs
  nullable : ∀ i shape, shapes[i]? = some shape → i ∉ slots → shape.isNullable = true

/-! ## Slots -/

theorem named_of_slots {slots : List Nat} (h : Record.slots header schema = .ok slots) :
    List.Forall₂ (fun f slot => header.columns[slot]? = some f.name) schema.fields slots := by
  refine (mapM_eq_ok_iff.1 h).imp fun f slot hf => ?_
  split at hf
  · rename_i index hindex
    obtain ⟨hlt, hname, -⟩ := List.idxOf?_eq_some_iff.1 hindex
    cases hf
    rw [List.getElem?_eq_getElem hlt, hname]
  · cases hf

theorem named_of_isDeclaredOrder (h : isDeclaredOrder header schema = true) :
    List.Forall₂ (fun f slot => header.columns[slot]? = some f.name) schema.fields
      (List.range schema.fields.length) := by
  have hnames : schema.fields.map Field.name = header.columns := of_decide_eq_true h
  refine List.forall₂_iff_get.2 ⟨(List.length_range).symm, fun i hi hi' => ?_⟩
  rw [List.get_eq_getElem, List.get_eq_getElem, List.getElem_range, ← hnames, List.getElem?_map,
    List.getElem?_eq_getElem hi]
  rfl

theorem nullable_of_missing? {slots : List Nat} (hlen : header.columns.length = shapes.length)
    (h : missing? header shapes slots = none) (i : Nat) (shape : FieldShape)
    (hi : shapes[i]? = some shape) (hout : i ∉ slots) : shape.isNullable = true := by
  obtain ⟨hlt, rfl⟩ := List.getElem?_eq_some_iff.1 hi
  have hmem : ((header.columns[i], shapes[i]), i) ∈ (header.columns.zip shapes).zipIdx := by
    rw [List.mem_zipIdx_iff_getElem?, List.getElem?_eq_getElem (by simp [hlen, hlt]),
      List.getElem_zip]
  have hnone := List.findSome?_eq_none_iff.1 h _ hmem
  dsimp only at hnone
  split at hnone
  · rename_i hor
    rw [Bool.or_eq_true] at hor
    exact hor.resolve_right fun hin => hout (List.contains_iff_mem.1 hin)
  · cases hnone

theorem missing?_eq_none {slots : List Nat}
    (h : ∀ i shape, shapes[i]? = some shape → i ∉ slots → shape.isNullable = true) :
    missing? header shapes slots = none := by
  refine List.findSome?_eq_none_iff.2 fun p hp => ?_
  obtain ⟨⟨column, shape⟩, i⟩ := p
  have hi := (List.getElem?_zip_eq_some.1 (List.mem_zipIdx_iff_getElem?.1 hp)).2
  refine if_pos (Bool.or_eq_true_iff.2 ?_)
  by_cases hin : i ∈ slots
  · exact .inr (List.contains_iff_mem.2 hin)
  · exact .inl (h i shape hi hin)

/-- A record that is reconciled with a type is stored by slots of the names of its fields. -/
theorem reconciled_of_reconcile (hlen : header.columns.length = shapes.length) {c : Codec}
    (h : reconcile header shapes schema = .ok c) :
    ∃ slots codecs, c = .record header schema slots codecs ∧
      Reconciled header shapes schema slots codecs := by
  unfold reconcile at h
  split at h
  · rename_i hdeclared
    simp only [identical, bind_eq_ok_iff, pure_eq_ok_iff] at h
    obtain ⟨-, -, codecs, hcodecs, rfl⟩ := h
    refine ⟨_, codecs, rfl, named_of_isDeclaredOrder hdeclared, hcodecs, fun i shape hi hout => ?_⟩
    have hnames : schema.fields.map Field.name = header.columns := of_decide_eq_true hdeclared
    obtain ⟨hlt, -⟩ := List.getElem?_eq_some_iff.1 hi
    rw [← hlen, ← hnames, List.length_map] at hlt
    exact absurd (List.mem_range.2 hlt) hout
  · simp only [reordered, bind_eq_ok_iff] at h
    obtain ⟨slots, hslots, codecs, hcodecs, h⟩ := h
    split at h
    · cases h
    · rename_i hmissing
      cases h
      exact ⟨slots, codecs, rfl, named_of_slots hslots, hcodecs, nullable_of_missing? hlen hmissing⟩

/-! ## Codecs of the fields -/

theorem fieldCodec_eq_ok_iff {f : Field ColumnType} {slot : Nat} {c : Codec} :
    fieldCodec header schema shapes f slot = .ok c ↔
      ∃ shape, shapes[slot]? = some shape ∧ shape.codecFor f.type = .ok c := by
  unfold fieldCodec
  cases hshape : shapes[slot]? with
  | none => simp [Except.mapError]
  | some shape =>
    simp only [Option.some.injEq, exists_eq_left']
    cases shape.codecFor f.type <;> simp [Except.mapError]

/-- Codecs that are set at distinct places are found there; the other places stay as they are. -/
theorem foldlM_fieldCodec {pairs : List (Field ColumnType × Nat)} {start codecs : List Codec}
    (hlen : start.length = shapes.length) (hnodup : (pairs.map Prod.snd).Nodup)
    (h : pairs.foldlM (fun codecs (f, slot) => do
      return codecs.set slot (← fieldCodec header schema shapes f slot)) start = .ok codecs) :
    codecs.length = start.length ∧
      (∀ p ∈ pairs, ∃ c, fieldCodec header schema shapes p.1 p.2 = .ok c ∧
        codecs[p.2]? = some c) ∧
      ∀ i, i ∉ pairs.map Prod.snd → codecs[i]? = start[i]? := by
  induction pairs generalizing start with
  | nil =>
    cases h
    exact ⟨rfl, nofun, fun _ _ => rfl⟩
  | cons p pairs ih =>
    rw [List.map_cons, List.nodup_cons] at hnodup
    rw [List.foldlM_cons] at h
    obtain ⟨next, hnext, hrest⟩ := bind_eq_ok_iff.1 h
    obtain ⟨c, hc, hset⟩ := bind_eq_ok_iff.1 hnext
    cases hset
    obtain ⟨hlength, hset, hkeep⟩ := ih (by rwa [List.length_set]) hnodup.2 hrest
    refine ⟨by rw [hlength, List.length_set], ?_, ?_⟩
    · refine List.forall_mem_cons.2 ⟨⟨c, hc, ?_⟩, hset⟩
      obtain ⟨shape, hshape, -⟩ := fieldCodec_eq_ok_iff.1 hc
      obtain ⟨hlt, -⟩ := List.getElem?_eq_some_iff.1 hshape
      rw [hkeep _ hnodup.1, List.getElem?_set_self (by omega)]
    · intro i hi
      rw [List.map_cons, List.mem_cons, not_or] at hi
      rw [hkeep i hi.2, List.getElem?_set_ne (Ne.symm hi.1)]

/-! ## Fields and their slots -/

section

variable {slots : List Nat}
  (named : List.Forall₂ (fun f slot => header.columns[slot]? = some f.name) schema.fields slots)

include named

theorem getElem?_of_mem_zip {p : Field ColumnType × Nat} (hp : p ∈ schema.fields.zip slots) :
    header.columns[p.2]? = some p.1.name :=
  (List.forall₂_iff_zip.1 named).2 hp

theorem map_fst_zip_slots : (schema.fields.zip slots).map Prod.fst = schema.fields :=
  List.map_fst_zip (Nat.le_of_eq named.length_eq)

theorem map_snd_zip_slots : (schema.fields.zip slots).map Prod.snd = slots :=
  List.map_snd_zip (Nat.le_of_eq named.length_eq.symm)

theorem exists_slot {f : Field ColumnType} (hf : f ∈ schema.fields) :
    ∃ slot, (f, slot) ∈ schema.fields.zip slots := by
  rw [← map_fst_zip_slots named] at hf
  obtain ⟨⟨_, slot⟩, hp, rfl⟩ := List.mem_map.1 hf
  exact ⟨slot, hp⟩

theorem exists_field {slot : Nat} (hin : slot ∈ slots) :
    ∃ f, (f, slot) ∈ schema.fields.zip slots := by
  rw [← map_snd_zip_slots named] at hin
  obtain ⟨⟨f, _⟩, hp, rfl⟩ := List.mem_map.1 hin
  exact ⟨f, hp⟩

/-- The slot of a field is the place of the one declared column of its name. -/
theorem mem_zip_of_name (hcolumns : header.columns.Nodup) {f : Field ColumnType}
    (hf : f ∈ schema.fields) {i : Nat} (hi : header.columns[i]? = some f.name) :
    (f, i) ∈ schema.fields.zip slots := by
  obtain ⟨slot, hp⟩ := exists_slot named hf
  obtain ⟨hlt, -⟩ := List.getElem?_eq_some_iff.1 hi
  have hslot := getElem?_of_mem_zip named hp
  obtain rfl : i = slot := (List.getElem?_inj hlt hcolumns).1 (hi.trans hslot.symm)
  exact hp

/-- Fields of different names have different places. -/
theorem slots_nodup (hfields : (schema.fields.map Field.name).Nodup) : slots.Nodup := by
  rw [← map_fst_zip_slots named, List.map_map] at hfields
  rw [← map_snd_zip_slots named]
  refine List.pairwise_map.2 ((List.pairwise_map.1 hfields).imp_of_mem fun hp hq hne heq => hne ?_)
  have hname := getElem?_of_mem_zip named hp
  rw [heq, getElem?_of_mem_zip named hq] at hname
  exact (Option.some.inj hname).symm

end

/-! ## Columns -/

namespace Reconciled

variable {slots : List Nat} {codecs : List Codec}

/-- The codecs of the fields are set one after another, each at its own place. -/
theorem codecs_spec (h : Reconciled header shapes schema slots codecs)
    (hfields : (schema.fields.map Field.name).Nodup) : codecs.length = shapes.length ∧
      (∀ p ∈ schema.fields.zip slots, ∃ c, fieldCodec header schema shapes p.1 p.2 = .ok c ∧
        codecs[p.2]? = some c) ∧
      ∀ i, i ∉ slots → codecs[i]? = (shapes.map FieldShape.codec)[i]? := by
  have hnodup : ((schema.fields.zip slots).map Prod.snd).Nodup := by
    rw [map_snd_zip_slots h.named]
    exact slots_nodup h.named hfields
  have hstart : (shapes.map FieldShape.codec).length = shapes.length := List.length_map _
  have hfold := foldlM_fieldCodec hstart hnodup h.codecs
  rwa [map_snd_zip_slots h.named, hstart] at hfold

/-- Each declared column is stored in the field of its name, and is left out if there is none. -/
theorem codec_of_column (h : Reconciled header shapes schema slots codecs)
    (hcolumns : header.columns.Nodup) (hfields : (schema.fields.map Field.name).Nodup) {i : Nat}
    {column : String} {shape : FieldShape} (hi : header.columns[i]? = some column)
    (hs : shapes[i]? = some shape) :
    (∀ f, fieldNamed? schema.fields column = some f →
      i ∈ slots ∧ ∃ c, codecs[i]? = some c ∧ shape.codecFor f.type = .ok c) ∧
    (fieldNamed? schema.fields column = none →
      i ∉ slots ∧ codecs[i]? = some shape.codec ∧ shape.isNullable = true) := by
  obtain ⟨-, hset, hkeep⟩ := h.codecs_spec hfields
  constructor
  · intro f hf
    obtain ⟨hmem, rfl⟩ := of_fieldNamed?_eq_some hf
    have hp := mem_zip_of_name h.named hcolumns hmem hi
    obtain ⟨c, hc, hget⟩ := hset _ hp
    obtain ⟨shape', hs', hfor⟩ := fieldCodec_eq_ok_iff.1 hc
    obtain rfl : shape = shape' := Option.some.inj (hs.symm.trans hs')
    exact ⟨(List.of_mem_zip hp).2, c, hget, hfor⟩
  · intro hnone
    have hout : i ∉ slots := by
      intro hin
      obtain ⟨f, hp⟩ := exists_field h.named hin
      have hname := getElem?_of_mem_zip h.named hp
      rw [hi, Option.some.injEq] at hname
      exact name_ne_of_fieldNamed?_eq_none hnone (List.of_mem_zip hp).1 hname.symm
    refine ⟨hout, ?_, h.nullable i shape hs hout⟩
    rw [hkeep i hout, List.getElem?_map, hs]
    rfl

end Reconciled

end CqlWire.Record
