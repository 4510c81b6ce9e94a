import CqlWire.Proofs.Codec.Compatible
import CqlWire.Proofs.Codec.LiveStorage
import CqlWire.Proofs.Coding.Boundary

/-!
# Bytes from before a field was added

A codec of a record has a slot for each field of its type, and no two fields of different names
share one (`Codec.slots_of_built`). So a record can be read from bytes that stop at the end of any
frame, and a type that has got further fields behind those of another one reads what is stored for
that one (`Record.decode_of_extended`).
-/

namespace CqlWire

open ColumnType (fieldNamed?)
open CqlWire.Frame (AreFrames nulls)

namespace Codec

/-- A codec of a record is one that the record was reconciled into. -/
theorem exists_reconcile_of_built {c : Codec} (h : Built c) {header : RecordHeader}
    {schema : UserType} {slots : List Nat} {fields : List Codec}
    (hc : c = .record header schema slots fields) : ∃ ts, (ValueType.record header ts).WellFormed ∧
      Record.reconcile header (ValueType.fieldShapes ts) schema = .ok c := by
  -- Whichever way it was made, the header and the type are those that it was made for.
  have hsame : ∀ {header' : RecordHeader} {ts : List ValueType} {schema' : UserType},
      (ValueType.record header' ts).WellFormed →
      Record.reconcile header' (ValueType.fieldShapes ts) schema' = .ok c →
      ∃ ts, (ValueType.record header ts).WellFormed ∧
        Record.reconcile header (ValueType.fieldShapes ts) schema = .ok c := by
    intro header' ts schema' declared made
    obtain ⟨_, _, hc', -⟩ := Record.reconciled_of_reconcile declared.1.length_columns made
    obtain ⟨rfl, rfl, -, -⟩ := Codec.record.inj (hc.symm.trans hc')
    exact ⟨ts, declared, made⟩
  cases h with
  | identical declared made =>
    have hdeclared := made
    simp only [Record.identical, bind_eq_ok_iff, refuseIf_eq_ok_iff, Bool.not_eq_true',
      Bool.not_eq_false] at hdeclared
    obtain ⟨_, hdeclared, -⟩ := hdeclared
    exact hsame declared ((if_pos hdeclared).trans made)
  | reordered declared made =>
    rw [← Record.reconcile_eq_reordered declared.1.nodup declared.1.length_columns] at made
    exact hsame declared made
  | @default t declared =>
    cases t with
    | record header' ts =>
      refine hsame declared (ValueType.reconcile_declaredType declared.1 ?_)
      exact ValueType.codecFor_fields declared.2
    | base b => cases b <;> cases hc
    | _ => cases hc
  | _ => cases hc

/-- A slot for each field of the type, and different ones for fields of different names. -/
theorem slots_of_built {header : RecordHeader} {schema : UserType} {slots : List Nat}
    {fields : List Codec} (h : Built (.record header schema slots fields))
    (hnames : (schema.fields.map Field.name).Nodup) :
    slots.length = schema.fields.length ∧ slots.Nodup := by
  obtain ⟨ts, declared, made⟩ := exists_reconcile_of_built h rfl
  obtain ⟨slots', codecs, hc, hreconciled⟩ :=
    Record.reconciled_of_reconcile declared.1.length_columns made
  obtain ⟨-, -, rfl, -⟩ := Codec.record.inj hc
  exact ⟨hreconciled.named.length_eq.symm, Record.slots_nodup hreconciled.named hnames⟩

theorem isOption_of_codecFor {t : ValueType} (ht : t.isNullable = true) {type : ColumnType}
    {c : Codec} (h : t.codecFor type = .ok c) : c.IsOption := by
  cases t with
  | option t =>
    obtain ⟨inner, -, rfl⟩ := map_eq_ok_iff.1 h
    trivial
  | _ => cases ht

theorem isOption_codec {t : ValueType} (ht : t.isNullable = true) : t.codec.IsOption := by
  cases t with
  | option t => trivial
  | _ => cases ht

end Codec

namespace Record

variable {header : RecordHeader} {ts : List ValueType} {s₁ s₂ : UserType}
  {slots₁ slots₂ : List Nat} {codecs₁ codecs₂ : List Codec}

/-- Further fields of a type leave the slots of the others as they are. -/
theorem slots_of_extended {shapes : List FieldShape} (hcolumns : header.columns.Nodup)
    (h₁ : Reconciled header shapes s₁ slots₁ codecs₁)
    (h₂ : Reconciled header shapes s₂ slots₂ codecs₂) (hext : s₁.fields <+: s₂.fields) :
    slots₁ <+: slots₂ := by
  refine List.prefix_iff_getElem?.2 fun i hi => ?_
  obtain ⟨hlen₁, hget₁⟩ := List.forall₂_iff_get.1 h₁.named
  obtain ⟨hlen₂, hget₂⟩ := List.forall₂_iff_get.1 h₂.named
  have hi₁ : i < s₁.fields.length := hlen₁ ▸ hi
  have hi₂ : i < s₂.fields.length := Nat.lt_of_lt_of_le hi₁ hext.length_le
  have hi₂' : i < slots₂.length := hlen₂ ▸ hi₂
  have hfield : s₁.fields[i] = s₂.fields[i] := hext.getElem hi₁
  have hname₁ := hget₁ i hi₁ hi
  have hname₂ := hget₂ i hi₂ hi₂'
  simp only [List.get_eq_getElem] at hname₁ hname₂
  rw [← hfield, ← hname₁] at hname₂
  obtain ⟨hlt, -⟩ := List.getElem?_eq_some_iff.1 hname₁
  rw [List.getElem?_eq_getElem hi₂', (List.getElem?_inj hlt hcolumns).1 hname₂.symm]

/-- Further fields of a type leave the codecs of the others as they are. A declared field that has
no slot yet may be absent, whether or not it gets one. -/
theorem codec_of_extended (declared : (ValueType.record header ts).WellFormed)
    (hnames : (s₂.fields.map Field.name).Nodup) (hext : s₁.fields <+: s₂.fields)
    (h₁ : Reconciled header (ValueType.fieldShapes ts) s₁ slots₁ codecs₁)
    (h₂ : Reconciled header (ValueType.fieldShapes ts) s₂ slots₂ codecs₂) {i : Nat} {d d' : Codec}
    (hd : codecs₁[i]? = some d) (hd' : codecs₂[i]? = some d') :
    (i ∈ slots₁ → d = d') ∧ (i ∉ slots₁ → d.IsOption ∧ d'.IsOption) := by
  have hnames₁ : (s₁.fields.map Field.name).Nodup := (hext.map Field.name).sublist.nodup hnames
  obtain ⟨hlt, -⟩ := List.getElem?_eq_some_iff.1 hd
  have hlt' : i < ts.length := by
    rwa [(h₁.codecs_spec hnames₁).1, ValueType.length_fieldShapes] at hlt
  have hcolumn : i < header.columns.length := declared.1.columns ▸ hlt'
  have hi : header.columns[i]? = some header.columns[i] := List.getElem?_eq_getElem hcolumn
  have hs := getElem?_fieldShapes (List.getElem?_eq_getElem hlt')
  obtain ⟨hsome₁, hnone₁⟩ := h₁.codec_of_column declared.1.nodup hnames₁ hi hs
  obtain ⟨hsome₂, hnone₂⟩ := h₂.codec_of_column declared.1.nodup hnames hi hs
  cases hf : fieldNamed? s₁.fields header.columns[i] with
  | some f =>
    obtain ⟨hin, c, hc, hmade⟩ := hsome₁ f hf
    obtain ⟨-, c', hc', hmade'⟩ := hsome₂ f (hext.find?_eq_some hf)
    obtain rfl : d = c := Option.some.inj (hd.symm.trans hc)
    obtain rfl : d' = c' := Option.some.inj (hd'.symm.trans hc')
    exact ⟨fun _ => Except.ok.inj (hmade.symm.trans hmade'), fun hout => absurd hin hout⟩
  | none =>
    obtain ⟨hout, hc, hnull⟩ := hnone₁ hf
    obtain rfl : d = _ := Option.some.inj (hd.symm.trans hc)
    refine ⟨fun hin => absurd hin hout, fun _ => ⟨Codec.isOption_codec hnull, ?_⟩⟩
    cases hf' : fieldNamed? s₂.fields header.columns[i] with
    | some f =>
      obtain ⟨-, c', hc', hmade'⟩ := hsome₂ f hf'
      obtain rfl : d' = c' := Option.some.inj (hd'.symm.trans hc')
      exact Codec.isOption_of_codecFor hnull hmade'
    | none =>
      obtain ⟨-, hc', -⟩ := hnone₂ hf'
      obtain rfl : d' = _ := Option.some.inj (hd'.symm.trans hc')
      exact Codec.isOption_codec hnull

/-- What is stored for a type is read alike for a type that has further fields behind its own. -/
theorem decode_of_extended (declared : (ValueType.record header ts).WellFormed)
    (hext : s₁.fields <+: s₂.fields) (hnames : (s₂.fields.map Field.name).Nodup)
    {c₁ c₂ : Codec} (h₁ : reconcile header (ValueType.fieldShapes ts) s₁ = .ok c₁)
    (h₂ : reconcile header (ValueType.fieldShapes ts) s₂ = .ok c₂) {bytes : Option Bytes}
    {v : Value} (hread : c₁.decode bytes = .ok v) : c₂.decode bytes = .ok v := by
  have hnames₁ : (s₁.fields.map Field.name).Nodup := (hext.map Field.name).sublist.nodup hnames
  have hlen := declared.1.length_columns
  obtain ⟨slots₁, codecs₁, rfl, hmade₁⟩ := reconciled_of_reconcile hlen h₁
  obtain ⟨slots₂, codecs₂, rfl, hmade₂⟩ := reconciled_of_reconcile hlen h₂
  obtain ⟨more, rfl⟩ := slots_of_extended declared.1.nodup hmade₁ hmade₂ hext
  obtain ⟨vs, hvs, rfl⟩ := map_eq_ok_iff.1 hread
  have hcodecs : codecs₁.length = codecs₂.length := by
    rw [(hmade₁.codecs_spec hnames₁).1, (hmade₂.codecs_spec hnames).1]
  refine map_eq_ok_iff.2 ⟨vs, Coding.decode_record_of_extended more ?_ ?_ hvs, rfl⟩
  · rw [Codec.length_codings, Codec.length_codings, hcodecs]
  · intro i c c' hc hc'
    obtain ⟨d, hd, rfl⟩ := Codec.getElem?_codings_eq_some_iff.1 hc
    obtain ⟨d', hd', rfl⟩ := Codec.getElem?_codings_eq_some_iff.1 hc'
    obtain ⟨hin, hout⟩ := codec_of_extended declared hnames hext hmade₁ hmade₂ hd hd'
    refine ⟨fun h => congrArg Codec.coding (hin h), fun h => ?_⟩
    rw [Codec.decode_none_of_isOption (hout h).1, Codec.decode_none_of_isOption (hout h).2]

end Record

/-! ## Fields without records -/

namespace ValueType

/-- What holds no records has a place for all of it in any column type. -/
theorem hasAllFields_of_isRecordFree {t : ValueType} (h : t.IsRecordFree) (c : ColumnType) :
    t.HasAllFields c := by
  match t with
  | .base _ | .enumeration _ => cases c <;> trivial
  | .option t => exact hasAllFields_of_isRecordFree (t := t) h c
  | .sequence _ t =>
    cases c with
    | list _ c | set _ c => exact hasAllFields_of_isRecordFree (t := t) h c
    | _ => trivial
  | .mapping _ k t =>
    cases c with
    | map _ kc c => exact ⟨hasAllFields_of_isRecordFree h.1 kc, hasAllFields_of_isRecordFree h.2 c⟩
    | _ => trivial

/-- What holds no records is stored without user-defined types. -/
theorem hasDistinctFields_of_reconcilable {t : ValueType} (h : t.IsRecordFree) {c : ColumnType}
    (hc : t.Reconcilable c) : c.HasDistinctFields := by
  match t with
  | .base b =>
    obtain ⟨s, hs⟩ := exists_type_codec_base b
    obtain rfl : c = .scalar s := hc.trans hs
    trivial
  | .enumeration e =>
    obtain ⟨s, hs⟩ := exists_type_codec_enumeration e
    obtain rfl : c = .scalar s := hc.trans hs
    trivial
  | .option t => exact hasDistinctFields_of_reconcilable (t := t) h hc
  | .sequence _ t =>
    cases c with
    | list _ c | set _ c =>
      have inside : t.Reconcilable c := hc.2
      exact hasDistinctFields_of_reconcilable (t := t) (c := c) h inside
    | _ => exact hc.elim
  | .mapping _ k t =>
    cases c with
    | map _ kc c =>
      exact ⟨hasDistinctFields_of_reconcilable h.1 hc.1, hasDistinctFields_of_reconcilable h.2 hc.2⟩
    | _ => exact hc.elim

end ValueType

namespace Record

/-- The values of the declared columns, absent where a type has no field of the name. -/
def limited (schema : UserType) (columns : List String) (vs : List Value) : List Value :=
  columns.zipWith (fun column v =>
    if column ∈ schema.fields.map Field.name then v else .absent) vs

theorem restrictFields_eq_limited {schema : UserType} {columns : List String}
    {ts : List ValueType} (hlen : columns.length = ts.length) (hfree : ∀ t ∈ ts, t.IsRecordFree)
    {vs : List Value} (hv : ValueType.HoldAll ts vs) :
    ValueType.restrictFields schema.fields columns ts vs = limited schema columns vs := by
  induction ts generalizing columns vs with
  | nil =>
    obtain rfl := List.length_eq_zero_iff.1 hlen
    cases vs with
    | nil => rfl
    | cons v vs => exact hv.elim
  | cons t ts ih =>
    obtain ⟨column, columns, rfl⟩ := List.exists_cons_of_length_eq_add_one hlen
    cases vs with
    | nil => exact hv.elim
    | cons v vs =>
      obtain ⟨ht, hts⟩ := List.forall_mem_cons.1 hfree
      rw [ValueType.restrictFields, limited, List.zipWith_cons_cons,
        ih (Nat.succ.inj hlen) hts hv.2, limited]
      congr 1
      cases hf : fieldNamed? schema.fields column with
      | some f =>
        obtain ⟨hmem, rfl⟩ := ColumnType.of_fieldNamed?_eq_some hf
        rw [if_pos (List.mem_map_of_mem hmem)]
        have hall := ValueType.hasAllFields_of_isRecordFree ht f.type
        exact ValueType.restrict_of_hasAllFields hall v
      | none =>
        rw [if_neg]
        intro hin
        obtain ⟨f, hmem, hname⟩ := List.mem_map.1 hin
        exact ColumnType.name_ne_of_fieldNamed?_eq_none hf hmem hname

theorem hasDistinctFields_of_reconcile {header : RecordHeader} {ts : List ValueType}
    (declared : (ValueType.record header ts).WellFormed) (hfree : ∀ t ∈ ts, t.IsRecordFree)
    {schema : UserType} (hnames : (schema.fields.map Field.name).Nodup) {c : Codec}
    (h : reconcile header (ValueType.fieldShapes ts) schema = .ok c) :
    (ColumnType.user schema).HasDistinctFields := by
  have hsettled : Settled (ValueType.FieldsReconcilable header ts schema.fields) (.user schema)
      (reconcile header (ValueType.fieldShapes ts) schema) :=
    settled_reconcile declared.1 (ValueType.settled_fields declared.2)
  obtain ⟨hcolumns, hfields⟩ := hsettled.exists_ok_iff.1 ⟨c, h⟩
  rw [ValueType.columnsReconcilable_iff declared.1.columns] at hfields
  refine ⟨hnames, ColumnType.allHaveDistinctFields_of_forall fun f hf => ?_⟩
  obtain ⟨i, hi⟩ := List.mem_iff_getElem?.1 (hcolumns f hf)
  obtain ⟨hlt, -⟩ := List.getElem?_eq_some_iff.1 hi
  have hlt' : i < ts.length := declared.1.columns ▸ hlt
  have ht : ts[i]? = some ts[i] := List.getElem?_eq_getElem hlt'
  have hmem : (f.name, ts[i]) ∈ header.columns.zip ts :=
    List.mem_of_getElem? (List.getElem?_zip_eq_some.2 ⟨hi, ht⟩)
  exact ValueType.hasDistinctFields_of_reconcilable (hfree _ (List.mem_of_getElem? ht))
    ((hfields _ hmem).1 f hf rfl)

/-- The bytes of a record may stop at the end of any field: a codec of a record, whichever way it
was made, reads frames that stop early as if the frames of absent values followed, with the same
error if there is one, and refuses as malformed all bytes that are not frames or are more of them
than the type has fields. So what is stored for a type can be read for a type that has got further
fields behind those: as the same values, absent where the first type has no field. -/
theorem decode_at_boundary :
    (∀ (header : RecordHeader) (schema : UserType) (slots : List Nat) (fields : List Codec),
      (Codec.record header schema slots fields).Built → (schema.fields.map Field.name).Nodup →
      ∀ bs : Bytes,
        let c := Codec.record header schema slots fields
        let count := schema.fields.length
        (∀ frames, AreFrames count frames → frames.flatten = bs →
          c.decode (some bs) = c.decode (some (bs ++ nulls (count - frames.length)))) ∧
        ((¬∃ frames, AreFrames count frames ∧ frames.flatten = bs) →
          ∃ type reason, c.decode (some bs) = .error (.decode type reason))) ∧
    ∀ (header : RecordHeader) (ts : List ValueType), (ValueType.record header ts).Storable →
      (∀ t ∈ ts, t.IsRecordFree) →
      ∀ s₁ s₂ : UserType, s₁.fields <+: s₂.fields → (s₂.fields.map Field.name).Nodup →
      ∀ c₁ c₂, reconcile header (ValueType.fieldShapes ts) s₁ = .ok c₁ →
        reconcile header (ValueType.fieldShapes ts) s₂ = .ok c₂ →
      ∀ vs w b, (ValueType.record header ts).Holds (.record vs) →
        (ValueType.record header ts).Listing (.record vs) w → c₁.encode w = .ok b →
        c₂.decode b = .ok (.record (limited s₁ header.columns vs)) := by
  constructor
  · intro header schema slots fields hbuilt hnames bs c count
    obtain ⟨hlen, hnodup⟩ := Codec.slots_of_built hbuilt hnames
    have hcount : count = slots.length := hlen.symm
    rw [hcount]
    refine ⟨fun frames hframes heq => ?_, fun h => ?_⟩
    · subst heq
      exact congrArg (Value.record <$> ·) (Coding.decode_record_append_nulls hnodup hframes)
    · obtain ⟨reason, hrefused⟩ :=
        Coding.decode_record_eq_error header.typeName schema (Codec.codings fields) h
      exact ⟨_, reason, congrArg (Value.record <$> ·) hrefused⟩
  · intro header ts hstorable hfree s₁ s₂ hext hnames c₁ c₂ h₁ h₂ vs w b hv hw hb
    have declared := ValueType.wellFormed_of_storable hstorable
    have hnames₁ := (hext.map Field.name).sublist.nodup hnames
    have hdistinct := hasDistinctFields_of_reconcile declared hfree hnames₁ h₁
    have hfollows :=
      Codec.follows_reconcile hstorable hdistinct (Codec.follows_fields hstorable.2) h₁
    have hread : c₁.decode b = .ok (.record (limited s₁ header.columns vs)) := by
      rw [Codec.decode_of_follows hfollows hv hw hb,
        ← restrictFields_eq_limited hstorable.1.columns hfree hv]
      rfl
    exact decode_of_extended declared hext hnames h₁ h₂ hread

/-- An address that is stored before its type gets a field for the number of the door. -/
theorem decode_at_boundary_added :
    let header : RecordHeader :=
      ⟨"Address", "address", ["street", "door"], ["street", "door"]⟩
    let ts : List ValueType := [.base .string, .option (.base .int32)]
    let s₁ : UserType := ⟨none, "address", [⟨"street", .scalar .text⟩], false⟩
    let s₂ : UserType :=
      ⟨none, "address", [⟨"street", .scalar .text⟩, ⟨"door", .scalar .int⟩], false⟩
    let c₁ : Codec := .record header s₁ [0] [.scalar .text, .option (.scalar .int)]
    let c₂ : Codec := .record header s₂ [0, 1] [.scalar .text, .option (.scalar .int)]
    let vs : List Value := [.text ['a'], .present (.int 7)]
    let stored : Bytes := [0, 0, 0, 1, 97]
    (ValueType.record header ts).Storable ∧ s₁.fields <+: s₂.fields ∧
      reconcile header (ValueType.fieldShapes ts) s₁ = .ok c₁ ∧
      reconcile header (ValueType.fieldShapes ts) s₂ = .ok c₂ ∧ c₂.Built ∧
      c₁.encode (.record vs) = .ok (some stored) ∧
      c₂.decode (some stored) = .ok (.record [.text ['a'], .absent]) ∧
      c₂.decode (some stored) = c₂.decode (some (stored ++ nulls 1)) ∧
      ∃ type reason, c₂.decode (some [0, 0]) = .error (.decode type reason) := by
  intro header ts s₁ s₂ c₁ c₂ vs stored
  have hstorable : (ValueType.record header ts).Storable :=
    ⟨⟨by decide, rfl, rfl⟩, trivial, ⟨rfl, trivial⟩, trivial⟩
  have hfree : ∀ t ∈ ts, t.IsRecordFree :=
    List.forall_mem_cons.2 ⟨trivial, List.forall_mem_singleton.2 trivial⟩
  have hext : s₁.fields <+: s₂.fields := ⟨[⟨"door", .scalar .int⟩], rfl⟩
  have hnames : (s₂.fields.map Field.name).Nodup := by decide
  have h₁ : reconcile header (ValueType.fieldShapes ts) s₁ = .ok c₁ := rfl
  have h₂ : reconcile header (ValueType.fieldShapes ts) s₂ = .ok c₂ := rfl
  have hbuilt : c₂.Built :=
    Codec.built_of_reconcile (ValueType.wellFormed_of_storable hstorable) h₂
  have hseven : fitsSigned 32 7 = true := by decide
  have hv : (ValueType.record header ts).Holds (.record vs) := ⟨trivial, hseven, trivial⟩
  have hstored : c₁.encode (.record vs) = .ok (some stored) := rfl
  have hframe : Frame.IsFrame stored := ⟨[0, 0, 0, 1], [97], rfl, rfl, .inl (by decide)⟩
  have hframes : AreFrames 2 [stored] := ⟨List.forall_mem_singleton.2 hframe, by decide⟩
  obtain ⟨hgeneral, hadded⟩ := decode_at_boundary
  obtain ⟨hstop, -⟩ := hgeneral header s₂ [0, 1] _ hbuilt hnames stored
  obtain ⟨-, hmalformed⟩ := hgeneral header s₂ [0, 1] _ hbuilt hnames [0, 0]
  refine ⟨hstorable, hext, h₁, h₂, hbuilt, hstored, ?_, hstop [stored] hframes rfl, ?_⟩
  · exact hadded header ts hstorable hfree s₁ s₂ hext hnames c₁ c₂ h₁ h₂ vs _ _ hv
      (ValueType.listing_refl hv) hstored
  · refine hmalformed ?_
    rintro ⟨frames, ⟨hall, -⟩, heq⟩
    cases frames with
    | nil => cases heq
    | cons frame frames =>
      have hlen := Frame.four_le_length_of_isFrame (hall frame List.mem_cons_self)
      have htotal : (frame :: frames).flatten.length = 2 := congrArg List.length heq
      rw [List.flatten_cons, List.length_append] at htotal
      omega

end Record

end CqlWire
