import CqlWire.Proofs.Codec.Reconcile

/-!
# Types that list the declared columns in their order

Where a user-defined type lists exactly the declared columns in their order, looking up each field
by its name gives the places in their order (`slots_of_isDeclaredOrder`), and nothing is missing.
So the way that follows positions and the way that follows names make the same codec
(`identical_eq_reordered`), and one of the two would be enough (`reconcile_eq_reordered`).
-/

namespace CqlWire.Record

variable {header : RecordHeader} {shapes : List FieldShape} {schema : UserType}

theorem length_of_isDeclaredOrder (h : isDeclaredOrder header schema = true) :
    schema.fields.length = header.columns.length := by
  have hnames : schema.fields.map Field.name = header.columns := of_decide_eq_true h
  rw [← hnames, List.length_map]

/-- A column of distinct ones is found at its own place. -/
theorem idxOf?_getElem {columns : List String} (h : columns.Nodup) {i : Nat}
    (hi : i < columns.length) : columns.idxOf? columns[i] = some i := by
  refine List.idxOf?_eq_some_iff.2 ⟨hi, rfl, fun j hj heq => ?_⟩
  have hlt : j < columns.length := Nat.lt_trans hj hi
  have hij : j = i := (List.getElem?_inj hlt h).1 (by
    rw [List.getElem?_eq_getElem hlt, List.getElem?_eq_getElem hi, heq])
  omega

/-- The fields of the type are the declared columns, one after another. -/
theorem slots_of_isDeclaredOrder (hcolumns : header.columns.Nodup)
    (h : isDeclaredOrder header schema = true) :
    slots header schema = .ok (List.range schema.fields.length) := by
  have hnames : schema.fields.map Field.name = header.columns := of_decide_eq_true h
  rw [slots, mapM_eq_ok_iff, List.forall₂_iff_get]
  refine ⟨List.length_range.symm, fun i hi hi' => ?_⟩
  have hlt : i < header.columns.length := by rwa [← length_of_isDeclaredOrder h]
  have hname : (schema.fields.get ⟨i, hi⟩).name = header.columns[i] := by
    simp only [← hnames, List.getElem_map, List.get_eq_getElem]
  rw [hname, idxOf?_getElem hcolumns hlt, List.get_eq_getElem, List.getElem_range]

/-- Following positions and following names make the same codec, or fail alike. -/
theorem identical_eq_reordered (hcolumns : header.columns.Nodup)
    (hlen : header.columns.length = shapes.length) (h : isDeclaredOrder header schema = true) :
    identical header shapes schema = reordered header shapes schema := by
  have hmissing : missing? header shapes (List.range schema.fields.length) = none := by
    refine missing?_eq_none fun i shape hi hout => ?_
    obtain ⟨hlt, -⟩ := List.getElem?_eq_some_iff.1 hi
    rw [← hlen, ← length_of_isDeclaredOrder h] at hlt
    exact absurd (List.mem_range.2 hlt) hout
  simp only [identical, reordered, slots_of_isDeclaredOrder hcolumns h, h, refuseIf]
  cases hmade : fieldCodecs header schema shapes (List.range schema.fields.length) with
  | error e => simp [bind, Except.bind, hmade]
  | ok codecs => simp [bind, Except.bind, hmade, hmissing, pure, Except.pure]

/-- For a type that lists exactly the declared columns in their order, following positions and
following names fail with the same error, or make two codecs that agree in all four directions. -/
theorem identical_agrees_with_reordered {ts : List ValueType}
    (declared : header.WellFormed ts.length) (h : schema.fields.map Field.name = header.columns) :
    let shapes := ValueType.fieldShapes ts
    (∃ e, identical header shapes schema = .error e ∧ reordered header shapes schema = .error e) ∨
    ∃ c c', identical header shapes schema = .ok c ∧ reordered header shapes schema = .ok c' ∧
      (∀ v, c.encode v = c'.encode v ∧ c.format v = c'.format v) ∧
      (∀ bytes, c.decode bytes = c'.decode bytes) ∧ ∀ text, c.parse text = c'.parse text := by
  intro shapes
  have hlen : header.columns.length = (ValueType.fieldShapes ts).length := by
    rw [declared.columns, ValueType.length_fieldShapes]
  have heq : identical header shapes schema = reordered header shapes schema :=
    identical_eq_reordered declared.nodup hlen (decide_eq_true h)
  cases hmade : identical header shapes schema with
  | error e => exact .inl ⟨e, rfl, heq.symm.trans hmade⟩
  | ok c =>
    refine .inr ⟨c, c, rfl, heq.symm.trans hmade, fun v => ⟨rfl, rfl⟩, fun bytes => rfl, ?_⟩
    exact fun text => rfl

/-- A record with a list of records; the type of the inner ones has their columns in another
order. -/
theorem identical_agrees_with_reordered_nested :
    let addressType : UserType :=
      ⟨none, "address", [⟨"zip", .scalar .int⟩, ⟨"street", .scalar .text⟩], true⟩
    let schema : UserType := ⟨none, "customer",
      [⟨"name", .scalar .text⟩, ⟨"homes", .list false (.user addressType)⟩], false⟩
    let address : RecordHeader := ⟨"Address", "address", ["street", "zip"], ["street", "zip"]⟩
    let header : RecordHeader := ⟨"Customer", "customer", ["name", "homes"], ["name", "homes"]⟩
    let ts : List ValueType :=
      [.base .string, .sequence .vector (.record address [.base .string, .base .int32])]
    let shapes := ValueType.fieldShapes ts
    header.WellFormed ts.length ∧ schema.fields.map Field.name = header.columns ∧
      ∃ c c', identical header shapes schema = .ok c ∧ reordered header shapes schema = .ok c' ∧
        (∀ v, c.encode v = c'.encode v ∧ c.format v = c'.format v) ∧
        (∀ bytes, c.decode bytes = c'.decode bytes) ∧ ∀ text, c.parse text = c'.parse text := by
  intro addressType schema address header ts shapes
  have declared : header.WellFormed ts.length := ⟨by decide, rfl, rfl⟩
  have h : schema.fields.map Field.name = header.columns := rfl
  refine ⟨declared, h, ?_⟩
  rcases identical_agrees_with_reordered declared h with ⟨e, he, -⟩ | hagree
  · cases he
  · exact hagree

/-- A record is reconciled by the names of its columns. -/
theorem reconcile_eq_reordered (hcolumns : header.columns.Nodup)
    (hlen : header.columns.length = shapes.length) :
    reconcile header shapes schema = reordered header shapes schema := by
  unfold reconcile
  split
  · rename_i h
    exact identical_eq_reordered hcolumns hlen h
  · rfl

end CqlWire.Record
