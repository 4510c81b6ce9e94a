import CqlWire.Proofs.Codec.Acceptance
import CqlWire.Proofs.Coding.Agree
import CqlWire.Proofs.ColumnType.Compatible

/-!
# Compatible column types are interchangeable

A value type has codecs for both of two compatible column types or for neither, and the two codecs
agree: `failTogether_codecFor`, by induction on the value type. On the way down a record meets
user-defined types with the same names of fields, whose slots are therefore the same, and fields of
compatible types (`Record.failTogether_reconcile_of_compatible`).

The default codec is the one for its own column type (`codecFor_columnType`). So a record that is
reconciled with a type that has its declared columns, whatever the annotations, is stored as it is
by default. `Codec.agree_bare` says of any codec that annotations make no difference.
-/

namespace CqlWire

namespace Codec

/-- Codecs that write the same literals, and store and read alike as far as they succeed. -/
def Agree (c d : Codec) : Prop := c.coding.Agree d.coding

theorem agree_refl (c : Codec) : c.Agree c := Coding.agree_refl c.coding

theorem agree_option {c d : Codec} (h : c.Agree d) : (Codec.option c).Agree (.option d) :=
  Coding.agree_onValues (Coding.agree_option h) _ _

theorem agree_elements {c d : Codec} (h : c.Agree d) (kind : CollectionKind) (into : Container)
    (frozen frozen' : Bool) :
    (Codec.elements kind into frozen c).Agree (.elements kind into frozen' d) :=
  Coding.agree_onValues (Coding.agree_elements h kind frozen frozen') _ _

theorem agree_entries {k l c d : Codec} (hk : k.Agree l) (h : c.Agree d) (into : MapContainer)
    (frozen frozen' : Bool) : (Codec.entries into frozen k c).Agree (.entries into frozen' l d) :=
  Coding.agree_onValues (Coding.agree_entries hk h frozen frozen') _ _

/-- A record does not depend on the types that its user-defined type has for the fields. -/
theorem agree_record {u v : UserType} (h : u.fields.map Field.name = v.fields.map Field.name)
    {cs ds : List Codec} (hcd : List.Forall₂ Agree cs ds) (header : RecordHeader)
    (slots : List Nat) : (Codec.record header u slots cs).Agree (.record header v slots ds) := by
  refine Coding.agree_onValues (Coding.agree_record h ?_ header.typeName slots) _ _
  rw [codings_eq_map, codings_eq_map]
  exact List.forall₂_map_left_iff.2 (List.forall₂_map_right_iff.2 hcd)

mutual

/-- The codec without the annotations of the types that it serves. -/
def bare : Codec → Codec
  | .scalar s => .scalar s
  | .decimal => .decimal
  | .enumeration e ordinal => .enumeration e ordinal
  | .shared c => .shared c.bare
  | .option c => .option c.bare
  | .elements kind into _ c => .elements kind into false c.bare
  | .entries into _ k c => .entries into false k.bare c.bare
  | .record header schema slots cs =>
    .record header ⟨none, schema.name, ColumnType.bareFields schema.fields, false⟩ slots
      (bareAll cs)
termination_by structural c => c

/-- The same of several codecs. -/
def bareAll : List Codec → List Codec
  | [] => []
  | c :: cs => c.bare :: bareAll cs
termination_by structural cs => cs

end

/-- What is left of the type is what the codec serves then. -/
theorem type_bare (c : Codec) : c.bare.type = c.type.bare := by
  match c with
  | .shared c => exact type_bare c
  | .option c => exact type_bare c
  | .elements kind _ _ c =>
    cases kind
    · exact congrArg (ColumnType.list false) (type_bare c)
    · exact congrArg (ColumnType.set false) (type_bare c)
  | .entries _ _ k c => exact congrArg₂ (ColumnType.map false) (type_bare k) (type_bare c)
  | .scalar s => cases s <;> rfl
  | .decimal => rfl
  | .enumeration _ ordinal => cases ordinal <;> rfl
  | .record _ _ _ _ => rfl

theorem map_name_bareFields (fields : List (Field ColumnType)) :
    (ColumnType.bareFields fields).map Field.name = fields.map Field.name := by
  induction fields with
  | nil => rfl
  | cons f fields ih => exact congrArg (f.name :: ·) ih

mutual

/-- Annotations make no difference. -/
theorem agree_bare (c : Codec) : c.Agree c.bare := by
  match c with
  | .scalar _ | .decimal | .enumeration _ _ => exact agree_refl _
  | .shared c => exact agree_bare c
  | .option c => exact agree_option (agree_bare c)
  | .elements kind into _ c => exact agree_elements (agree_bare c) kind into _ _
  | .entries into _ k c => exact agree_entries (agree_bare k) (agree_bare c) into _ _
  | .record header schema slots cs =>
    exact agree_record (map_name_bareFields schema.fields).symm (forall₂_agree_bareAll cs) header
      slots

/-- The same of several codecs. -/
theorem forall₂_agree_bareAll (cs : List Codec) : List.Forall₂ Agree cs (bareAll cs) := by
  match cs with
  | [] => exact .nil
  | c :: cs => exact .cons (agree_bare c) (forall₂_agree_bareAll cs)

end

end Codec

/-! ## Records -/

namespace Record

variable {header : RecordHeader} {shapes : List FieldShape} {u v : UserType}

theorem map_name_of_compatible {fs gs : List (Field ColumnType)}
    (h : List.Forall₂ Field.Compatible fs gs) : fs.map Field.name = gs.map Field.name := by
  induction h with
  | nil => rfl
  | cons hfg _ ih => rw [List.map_cons, List.map_cons, hfg.1, ih]

/-- The fields of two compatible types are looked for by the same names. -/
theorem failTogether_slots_of_compatible (h : List.Forall₂ Field.Compatible u.fields v.fields) :
    FailTogether Eq (slots header u) (slots header v) := by
  rw [← List.forall₂_eq_eq_eq]
  refine failTogether_mapM (fun f g hfg => ?_) h
  rw [hfg.1]
  cases header.columns.idxOf? g.name with
  | some index => exact .done rfl
  | none => exact .failed _ _

theorem failTogether_fieldCodec_of_compatible
    (ih : ∀ shape ∈ shapes, ∀ w w', w.isCompatible w' = true →
      FailTogether Codec.Agree (shape.codecFor w) (shape.codecFor w'))
    {f g : Field ColumnType} (hfg : f.Compatible g) (slot : Nat) :
    FailTogether Codec.Agree (fieldCodec header u shapes f slot)
      (fieldCodec header v shapes g slot) := by
  unfold fieldCodec
  cases hshape : shapes[slot]? with
  | none => exact .failed _ _
  | some shape =>
    exact failTogether_mapError (ih shape (List.mem_of_getElem? hshape) f.type g.type hfg.2)

/-- Codecs that agree are set at the same places. -/
theorem failTogether_fieldCodecs_of_compatible
    (ih : ∀ shape ∈ shapes, ∀ w w', w.isCompatible w' = true →
      FailTogether Codec.Agree (shape.codecFor w) (shape.codecFor w'))
    (h : List.Forall₂ Field.Compatible u.fields v.fields) (slots : List Nat) :
    FailTogether (List.Forall₂ Codec.Agree) (fieldCodecs header u shapes slots)
      (fieldCodecs header v shapes slots) := by
  have hslots : List.Forall₂ Eq slots slots := List.forall₂_refl slots
  have hdefault : List.Forall₂ Codec.Agree (shapes.map FieldShape.codec)
      (shapes.map FieldShape.codec) :=
    List.forall₂_same.2 fun c _ => Codec.agree_refl c
  refine failTogether_foldlM ?_ (forall₂_zip h hslots) hdefault
  rintro ⟨f, slot⟩ ⟨g, _⟩ ⟨hfg, rfl⟩ codecs codecs' hcodecs
  refine failTogether_bind (failTogether_fieldCodec_of_compatible ih hfg slot) fun c d hcd => ?_
  exact .done (forall₂_set hcodecs slot hcd)

/-- A record is reconciled with both of two compatible types or with neither. -/
theorem failTogether_reconcile_of_compatible
    (ih : ∀ shape ∈ shapes, ∀ w w', w.isCompatible w' = true →
      FailTogether Codec.Agree (shape.codecFor w) (shape.codecFor w'))
    (h : List.Forall₂ Field.Compatible u.fields v.fields) :
    FailTogether Codec.Agree (reconcile header shapes u) (reconcile header shapes v) := by
  have hdeclared : isDeclaredOrder header u = isDeclaredOrder header v := by
    rw [isDeclaredOrder, isDeclaredOrder, map_name_of_compatible h]
  unfold reconcile
  rw [hdeclared]
  split
  · unfold identical
    rw [hdeclared, h.length_eq]
    refine failTogether_bind (failTogether_refuseIf _ _) fun _ _ _ => ?_
    refine failTogether_bind (failTogether_fieldCodecs_of_compatible ih h _) fun cs ds hcd => ?_
    exact .done (Codec.agree_record (map_name_of_compatible h) hcd header _)
  · refine failTogether_bind (failTogether_slots_of_compatible h) ?_
    rintro slots _ rfl
    refine failTogether_bind (failTogether_fieldCodecs_of_compatible ih h slots) fun cs ds hcd => ?_
    cases missing? header shapes slots with
    | some column => exact .failed _ _
    | none => exact .done (Codec.agree_record (map_name_of_compatible h) hcd header slots)

end Record

namespace ValueType

/-- A type that is stored as a scalar meets no other compatible types. -/
theorem failTogether_defaultFor {t : ValueType} {s : ScalarType} (ht : t.codec.type = .scalar s)
    {w w' : ColumnType} (h : w.isCompatible w' = true) :
    FailTogether Codec.Agree (t.defaultFor w) (t.defaultFor w') := by
  cases ColumnType.parts_of_isCompatible h with
  | scalar s' =>
    unfold defaultFor
    split
    · exact .done (Codec.agree_refl t.codec)
    · exact .failed _ _
  | _ =>
    simp only [defaultFor, Codec.acceptsType, ht]
    exact .failed _ _

mutual

theorem failTogether_codecFor (t : ValueType) {w w' : ColumnType} (h : w.isCompatible w' = true) :
    FailTogether Codec.Agree (t.codecFor w) (t.codecFor w') := by
  match t with
  | .base b =>
    obtain ⟨s, hs⟩ := exists_type_codec_base b
    exact failTogether_defaultFor hs h
  | .enumeration e =>
    obtain ⟨s, hs⟩ := exists_type_codec_enumeration e
    exact failTogether_defaultFor hs h
  | .option t =>
    exact failTogether_map (failTogether_codecFor t h) fun _ _ hcd => Codec.agree_option hcd
  | .sequence into t =>
    cases ColumnType.parts_of_isCompatible h with
    | list he =>
      unfold codecFor
      cases into.kind with
      | list =>
        exact failTogether_map (failTogether_codecFor t he) fun _ _ hcd =>
          Codec.agree_elements hcd _ _ _ _
      | set => exact .failed _ _
    | set he =>
      unfold codecFor
      cases into.kind with
      | list => exact .failed _ _
      | set =>
        exact failTogether_map (failTogether_codecFor t he) fun _ _ hcd =>
          Codec.agree_elements hcd _ _ _ _
    | _ =>
      unfold codecFor
      cases into.kind <;> exact .failed _ _
  | .mapping into k t =>
    cases ColumnType.parts_of_isCompatible h with
    | map hk he =>
      refine failTogether_bind (failTogether_codecFor k hk) fun key key' hkey => ?_
      refine failTogether_bind (failTogether_codecFor t he) fun value value' hvalue => ?_
      exact .done (Codec.agree_entries hkey hvalue _ _ _)
    | _ => exact .failed _ _
  | .record header ts =>
    cases ColumnType.parts_of_isCompatible h with
    | user hname hfields =>
      simp only [codecFor, hname]
      split
      · exact Record.failTogether_reconcile_of_compatible (failTogether_fields ts) hfields
      · exact .failed _ _
    | _ => exact .failed _ _

/-- The same of several types. -/
theorem failTogether_fields (ts : List ValueType) : ∀ shape ∈ fieldShapes ts, ∀ w w',
    w.isCompatible w' = true →
    FailTogether Codec.Agree (shape.codecFor w) (shape.codecFor w') := by
  match ts with
  | [] => exact List.forall_mem_nil _
  | t :: ts =>
    exact List.forall_mem_cons.2 ⟨fun w w' h => failTogether_codecFor t h, failTogether_fields ts⟩

end

/-! ## The default column type -/

theorem codecs_eq_map (ts : List ValueType) : codecs ts = ts.map codec := by
  induction ts with
  | nil => rfl
  | cons t ts ih => rw [codecs, ih, List.map_cons]

/-- A type that is stored as a scalar has its default codec for that scalar. -/
theorem defaultFor_columnType {t : ValueType} {s : ScalarType} (ht : t.codec.type = .scalar s) :
    t.defaultFor t.columnType = .ok t.codec := by
  have haccepts : t.codec.acceptsType t.columnType = true := by
    rw [Codec.acceptsType, columnType, ht]
    exact decide_eq_true rfl
  rw [defaultFor, if_pos haccepts]

theorem codec_record (header : RecordHeader) (ts : List ValueType) :
    (record header ts).codec = .record header (header.declaredType (ts.map columnType))
      (List.range ts.length) (ts.map codec) := by
  simp only [codec, codecs_eq_map, List.map_map, List.length_map]
  rfl

theorem columnType_record (header : RecordHeader) (ts : List ValueType) :
    (record header ts).columnType = .user (header.declaredType (ts.map columnType)) := by
  rw [columnType, codec_record]
  rfl

theorem map_name_declaredType {header : RecordHeader} {types : List ColumnType}
    (hlen : header.columns.length = types.length) :
    (header.declaredType types).fields.map Field.name = header.columns := by
  rw [RecordHeader.declaredType, ← List.map_uncurry_zip_eq_zipWith, List.map_map]
  exact List.map_fst_zip (Nat.le_of_eq hlen)

/-- A field of the type that a record declares is the column of a declared field, for which there
is its default codec. -/
theorem fieldCodec_declaredType {header : RecordHeader} {ts : List ValueType}
    (ih : ∀ t ∈ ts, t.codecFor t.columnType = .ok t.codec) {f : Field ColumnType} {slot : Nat}
    (hp : (f, slot) ∈
      (header.declaredType (ts.map columnType)).fields.zip (List.range ts.length)) :
    ∃ t, ts[slot]? = some t ∧
      Record.fieldCodec header (header.declaredType (ts.map columnType)) (fieldShapes ts) f slot =
        .ok t.codec := by
  obtain ⟨i, hi⟩ := List.mem_iff_getElem?.1 hp
  obtain ⟨hfield, hslot⟩ := List.getElem?_zip_eq_some.1 hi
  obtain ⟨hlt, hslot⟩ := List.getElem?_eq_some_iff.1 hslot
  obtain rfl : i = slot := by rwa [List.getElem_range] at hslot
  obtain ⟨column, type, -, htype, rfl⟩ := List.getElem?_zipWith_eq_some.1 hfield
  rw [List.getElem?_map, Option.map_eq_some_iff] at htype
  obtain ⟨t, ht, rfl⟩ := htype
  refine ⟨t, ht, Record.fieldCodec_eq_ok_iff.2 ⟨_, Record.getElem?_fieldShapes ht, ?_⟩⟩
  exact ih t (List.mem_of_getElem? ht)

/-- A record is reconciled with the type that it declares, and each of its fields keeps its default
codec. -/
theorem reconcile_declaredType {header : RecordHeader} {ts : List ValueType}
    (declared : header.WellFormed ts.length)
    (ih : ∀ t ∈ ts, t.codecFor t.columnType = .ok t.codec) :
    Record.reconcile header (fieldShapes ts) (header.declaredType (ts.map columnType)) =
      .ok (record header ts).codec := by
  have hnames : (header.declaredType (ts.map columnType)).fields.map Field.name = header.columns :=
    map_name_declaredType (by rw [declared.columns, List.length_map])
  have hcount : (header.declaredType (ts.map columnType)).fields.length = ts.length := by
    rw [← List.length_map Field.name, hnames, declared.columns]
  have hdeclared : Record.isDeclaredOrder header (header.declaredType (ts.map columnType)) = true :=
    decide_eq_true hnames
  have hcodecs : Record.fieldCodecs header (header.declaredType (ts.map columnType))
      (fieldShapes ts) (List.range ts.length) = .ok (ts.map codec) := by
    have hstart : (fieldShapes ts).map FieldShape.codec = ts.map codec := by
      rw [fieldShapes_eq_map, List.map_map]
      rfl
    rw [Record.fieldCodecs, hstart]
    refine foldlM_eq_self fun p hp => ?_
    obtain ⟨t, ht, hcodec⟩ := fieldCodec_declaredType ih hp
    obtain ⟨hlt, rfl⟩ := List.getElem?_eq_some_iff.1 ht
    refine bind_eq_ok_iff.2 ⟨_, hcodec, congrArg Except.ok ?_⟩
    rw [← List.map_set, List.set_getElem_self]
  rw [Record.reconcile, if_pos hdeclared, Record.identical, hdeclared, hcount]
  refine bind_eq_ok_iff.2 ⟨(), rfl, bind_eq_ok_iff.2 ⟨_, hcodecs, ?_⟩⟩
  rw [codec_record]
  rfl

mutual

/-- The codec for the default column type is the default codec. -/
theorem codecFor_columnType {t : ValueType} (declared : t.WellFormed) :
    t.codecFor t.columnType = .ok t.codec := by
  match t with
  | .base b =>
    obtain ⟨s, hs⟩ := exists_type_codec_base b
    exact defaultFor_columnType hs
  | .enumeration e =>
    obtain ⟨s, hs⟩ := exists_type_codec_enumeration e
    exact defaultFor_columnType hs
  | .option t =>
    exact map_eq_ok_iff.2 ⟨t.codec, codecFor_columnType (t := t) declared, rfl⟩
  | .sequence into t =>
    have ih : t.codecFor t.columnType = .ok t.codec := codecFor_columnType (t := t) declared
    cases into
    all_goals exact map_eq_ok_iff.2 ⟨t.codec, ih, rfl⟩
  | .mapping into k t =>
    refine bind_eq_ok_iff.2 ⟨k.codec, codecFor_columnType declared.1, ?_⟩
    exact bind_eq_ok_iff.2 ⟨t.codec, codecFor_columnType declared.2, rfl⟩
  | .record header ts =>
    rw [columnType_record]
    exact (if_pos rfl).trans (reconcile_declaredType declared.1 (codecFor_fields declared.2))

/-- The same of several types. -/
theorem codecFor_fields {ts : List ValueType} (declared : AllWellFormed ts) : ∀ t ∈ ts,
    t.codecFor t.columnType = .ok t.codec := by
  match ts with
  | [] => exact List.forall_mem_nil _
  | t :: ts =>
    exact List.forall_mem_cons.2 ⟨codecFor_columnType declared.1, codecFor_fields declared.2⟩

end

theorem reconcile_of_compatible {header : RecordHeader} {ts : List ValueType}
    (declared : (record header ts).WellFormed) {schema : UserType}
    (h : (record header ts).columnType.isCompatible (.user schema) = true) :
    ∃ c, Record.reconcile header (fieldShapes ts) schema = .ok c ∧
      (record header ts).codec.Agree c := by
  have hmade := reconcile_declaredType declared.1 (codecFor_fields declared.2)
  rw [columnType_record] at h
  cases ColumnType.parts_of_isCompatible h with
  | user hname hfields =>
    have hboth : FailTogether Codec.Agree
        (Record.reconcile header (fieldShapes ts) (header.declaredType (ts.map columnType)))
        (Record.reconcile header (fieldShapes ts) schema) :=
      Record.failTogether_reconcile_of_compatible (failTogether_fields ts) hfields
    obtain ⟨c, hc⟩ := hboth.exists_ok_iff.1 ⟨_, hmade⟩
    exact ⟨c, hc, hboth.of_ok hmade hc⟩

/-- For two compatible column types a type has codecs for both or for neither, and the two agree in
all four directions. There is always a codec for the column type of the default codec, and it agrees
with the default codec; so does a record that is reconciled with a type that has its declared
columns. No codec depends on the annotations of the types that it serves. -/
theorem codecFor_interchangeable :
    (∀ (t : ValueType) (w w' : ColumnType), w.isCompatible w' = true →
      ((∃ c, t.codecFor w = .ok c) ↔ ∃ c', t.codecFor w' = .ok c') ∧
      ∀ c c', t.codecFor w = .ok c → t.codecFor w' = .ok c' → c.Agree c') ∧
    (∀ t : ValueType, t.WellFormed → ∃ c, t.codecFor t.columnType = .ok c ∧ t.codec.Agree c) ∧
    (∀ (header : RecordHeader) (ts : List ValueType), (record header ts).WellFormed →
      ∀ schema : UserType, (record header ts).columnType.isCompatible (.user schema) = true →
      ∃ c, Record.reconcile header (fieldShapes ts) schema = .ok c ∧
        (record header ts).codec.Agree c) ∧
    (∀ (t : ValueType) (w : ColumnType) (c : Codec), t.codecFor w = .ok c →
      ∃ c', t.codecFor w.bare = .ok c' ∧ c.Agree c') ∧
    ∀ c : Codec, c.bare.type = c.type.bare ∧ c.Agree c.bare := by
  refine ⟨fun t w w' h => ?_, fun t declared => ?_, fun header ts declared schema h => ?_,
    fun t w c hc => ?_, fun c => ⟨c.type_bare, c.agree_bare⟩⟩
  · have hboth := failTogether_codecFor t h
    exact ⟨hboth.exists_ok_iff, fun c c' hc hc' => hboth.of_ok hc hc'⟩
  · exact ⟨t.codec, codecFor_columnType declared, t.codec.agree_refl⟩
  · exact reconcile_of_compatible declared h
  · have hboth := failTogether_codecFor t w.isCompatible_bare
    obtain ⟨c', hc'⟩ := hboth.exists_ok_iff.1 ⟨c, hc⟩
    exact ⟨c', hc', hboth.of_ok hc hc'⟩

/-- A list of records, stored as it is by default and in a frozen column of another keyspace. -/
theorem codecFor_interchangeable_frozen :
    let address : RecordHeader := ⟨"Address", "address", ["street", "zip"], ["street", "zip"]⟩
    let ts : List ValueType := [.base .string, .option (.base .int32)]
    let schema : UserType :=
      ⟨some "shop", "address", [⟨"street", .scalar .text⟩, ⟨"zip", .scalar .int⟩], true⟩
    let t : ValueType := .sequence .vector (.record address ts)
    let w : ColumnType := .list true (.user schema)
    t.WellFormed ∧ t.columnType.isCompatible w = true ∧ t.columnType ≠ w ∧
      (∃ c c', t.codecFor w = .ok c ∧ t.codecFor t.columnType = .ok c' ∧ c.Agree c') ∧
      (∃ c, t.codecFor t.columnType = .ok c ∧ t.codec.Agree c) ∧
      (∃ c, Record.reconcile address (fieldShapes ts) schema = .ok c ∧
        (record address ts).codec.Agree c) ∧
      ∃ c c', t.codecFor w = .ok c ∧ t.codecFor w.bare = .ok c' ∧ c.Agree c' := by
  intro address ts schema t w
  obtain ⟨hboth, hdefault, hreconcile, hbare, -⟩ := codecFor_interchangeable
  have declared : (record address ts).WellFormed :=
    ⟨⟨by decide, rfl, rfl⟩, trivial, trivial, trivial⟩
  have hw : t.columnType.isCompatible w = true := rfl
  have hw' : w.isCompatible t.columnType = true := rfl
  obtain ⟨c', hc', hagree'⟩ := hdefault t declared
  obtain ⟨hiff, hagree⟩ := hboth t w t.columnType hw'
  obtain ⟨c, hc⟩ := hiff.2 ⟨c', hc'⟩
  obtain ⟨d, hd, hbared⟩ := hbare t w c hc
  exact ⟨declared, hw, by decide, ⟨c, c', hc, hc', hagree c c' hc hc'⟩, ⟨c', hc', hagree'⟩,
    hreconcile address ts declared schema rfl, c, d, hc, hd, hbared⟩

end ValueType

end CqlWire
