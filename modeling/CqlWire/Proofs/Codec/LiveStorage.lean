import CqlWire.Proofs.Codec.Kept
import CqlWire.Proofs.Codec.Reconcile

/-!
# Records in live user-defined types

A record that is stored in a user-defined type loses the columns that the type lacks, and so do the
records inside of it. The codec for a column type is regular and leaves what the column type has a
place for (`Codec.Follows`, `Codec.follows_codecFor`), by induction on the value type. So a record
is read back as what is left of it, and what is left of it is read back whole
(`Record.decode_of_encode_reconciled`).
-/

namespace CqlWire

open ColumnType (fieldNamed?)
open Record (Reconciled)

/-! ## Codecs of a type -/

namespace Codec

/-- A regular codec of the values of a type. -/
structure Serves (c : Codec) (t : ValueType) : Prop where
  valueType_eq : c.valueType = t
  regular : c.Regular
  isOption_iff : c.IsOption ↔ t.isNullable = true
  recordFree : t.IsRecordFree → c.IsRecordFree

/-- A regular codec that leaves of a value what the column type has a place for. -/
def Follows (c : Codec) (t : ValueType) (type : ColumnType) : Prop :=
  c.Serves t ∧ ∀ v, c.kept v = t.restrict type v

/-- A declared column and the codec that it has in a record. -/
inductive Placed (fields : List (Field ColumnType)) (slots : List Nat) (index : Nat)
    (column : String) (t : ValueType) (c : Codec) : Prop where
  /-- The field of its name holds the column. -/
  | stored {f : Field ColumnType} (hf : fieldNamed? fields column = some f) (hin : index ∈ slots)
    (h : c.Follows t f.type)
  /-- There is no such field, and the column may be absent. -/
  | lacking (hf : fieldNamed? fields column = none) (hout : index ∉ slots)
    (hnull : t.isNullable = true) (h : c.Serves t)

theorem Placed.serves {fields : List (Field ColumnType)} {slots : List Nat} {index : Nat}
    {column : String} {t : ValueType} {c : Codec} (h : Placed fields slots index column t c) :
    c.Serves t := by
  cases h with
  | stored _ _ h => exact h.1
  | lacking _ _ _ h => exact h

theorem serves_option {c : Codec} {t : ValueType} (h : c.Serves t) (ht : t.isNullable = false) :
    (Codec.option c).Serves (.option t) := by
  have hc : ¬c.IsOption := by
    rw [h.isOption_iff, ht]
    decide
  exact ⟨congrArg ValueType.option h.valueType_eq, ⟨hc, h.regular⟩,
    ⟨fun _ => rfl, fun _ => trivial⟩, h.recordFree⟩

theorem serves_elements {c : Codec} {t : ValueType} (h : c.Serves t) {kind : CollectionKind}
    {into : Container} {frozen : Bool} (ht : into.kind = .set → t.IsRecordFree) :
    (Codec.elements kind into frozen c).Serves (.sequence into t) := by
  refine ⟨congrArg _ h.valueType_eq, ⟨h.regular, ?_⟩, ⟨nofun, nofun⟩, h.recordFree⟩
  cases into with
  | vector => exact .inl rfl
  | deque => exact .inr (.inl rfl)
  | ordered | hashed => exact .inr (.inr (h.recordFree (ht rfl)))

theorem serves_entries {k c : Codec} {kt t : ValueType} (hk : k.Serves kt) (h : c.Serves t)
    {into : MapContainer} {frozen : Bool} (hfree : kt.IsRecordFree) :
    (Codec.entries into frozen k c).Serves (.mapping into kt t) := by
  refine ⟨?_, ⟨hk.regular, hk.recordFree hfree, h.regular⟩, ⟨nofun, nofun⟩, fun hf => ?_⟩
  · rw [valueType, hk.valueType_eq, h.valueType_eq]
  · exact ⟨hk.recordFree hf.1, h.recordFree hf.2⟩

/-- The codecs of a record, column by column. -/
theorem fields_of_placed {fields : List (Field ColumnType)} {slots : List Nat} (index : Nat)
    {columns : List String} {ts : List ValueType} {cs : List Codec}
    (hcolumns : columns.length = ts.length) (hcs : cs.length = ts.length)
    (h : ∀ i column t c, columns[i]? = some column → ts[i]? = some t → cs[i]? = some c →
      Placed fields slots (index + i) column t c) :
    valueTypes cs = ts ∧ RegularFields slots index cs ∧
      ∀ vs, keptFields slots index cs vs = ValueType.restrictFields fields columns ts vs := by
  -- The slots name places in the whole record; `index` counts the columns in front of these.
  induction ts generalizing index columns cs with
  | nil =>
    obtain rfl := List.length_eq_zero_iff.1 hcs
    obtain rfl := List.length_eq_zero_iff.1 hcolumns
    exact ⟨rfl, trivial, fun _ => rfl⟩
  | cons t ts ih =>
    obtain ⟨column, columns, rfl⟩ := List.exists_cons_of_length_eq_add_one hcolumns
    obtain ⟨c, cs, rfl⟩ := List.exists_cons_of_length_eq_add_one hcs
    have hfirst : Placed fields slots index column t c := h 0 column t c rfl rfl rfl
    obtain ⟨htypes, hregular, hkept⟩ := ih (index + 1) (Nat.succ.inj hcolumns)
      (Nat.succ.inj hcs) fun i column t c hi ht hc => by
        rw [Nat.add_right_comm, Nat.add_assoc]
        exact h (i + 1) column t c hi ht hc
    refine ⟨?_, ⟨hfirst.serves.regular, fun hout => ?_, hregular⟩, fun vs => ?_⟩
    · rw [valueTypes, hfirst.serves.valueType_eq, htypes]
    · cases hfirst with
      | stored _ hin _ => exact absurd hin hout
      | lacking _ _ hnull h => exact h.isOption_iff.2 hnull
    · cases vs with
      | nil => rfl
      | cons v vs =>
        rw [keptFields, ValueType.restrictFields, hkept vs]
        cases hfirst with
        | stored hf hin h => rw [hf, if_pos hin, h.2 v]
        | lacking hf hout _ _ => rw [hf, if_neg hout]

/-! ## Default codecs -/

theorem serves_base (b : BaseType) : b.codec.Serves (.base b) := by
  refine ⟨?_, ?_, ?_, fun _ => ?_⟩
  · cases b <;> rfl
  · cases b <;> trivial
  · cases b <;> exact ⟨nofun, nofun⟩
  · cases b <;> trivial

theorem serves_enumeration {e : Enumeration} (h : (ValueType.enumeration e).Storable) :
    (Codec.enumeration e e.ordinal).Serves (.enumeration e) :=
  ⟨rfl, h, ⟨nofun, nofun⟩, fun _ => trivial⟩

mutual

/-- The default codec of a type serves it. -/
theorem serves_codec {t : ValueType} (h : t.Storable) : t.codec.Serves t := by
  match t with
  | .base b => exact serves_base b
  | .enumeration e => exact serves_enumeration h
  | .option t => exact serves_option (serves_codec h.2) h.1
  | .sequence into t => exact serves_elements (serves_codec h.2) h.1
  | .mapping into k t => exact serves_entries (serves_codec h.2.1) (serves_codec h.2.2) h.1
  | .record header ts =>
    obtain ⟨htypes, hregular⟩ := serves_codecs (List.range (ValueType.codecs ts).length) 0
      h.2 fun i hi => List.mem_range.2 (by omega)
    exact ⟨congrArg _ htypes, hregular, ⟨nofun, nofun⟩, fun hf => hf.elim⟩

/-- The same of several types, as the fields of a record all of which have slots. -/
theorem serves_codecs (slots : List Nat) (index : Nat) {ts : List ValueType}
    (h : ValueType.AllStorable ts)
    (hslots : ∀ i < (ValueType.codecs ts).length, index + i ∈ slots) :
    valueTypes (ValueType.codecs ts) = ts ∧ RegularFields slots index (ValueType.codecs ts) := by
  match ts with
  | [] => exact ⟨rfl, trivial⟩
  | t :: ts =>
    have hfirst := serves_codec h.1
    obtain ⟨htypes, hregular⟩ := serves_codecs slots (index + 1) h.2
      fun i hi => by
        rw [Nat.add_right_comm, Nat.add_assoc]
        exact hslots (i + 1) (Nat.succ_lt_succ hi)
    refine ⟨?_, hfirst.regular, fun hout => ?_, hregular⟩
    · rw [ValueType.codecs, valueTypes, hfirst.valueType_eq, htypes]
    · exact absurd (hslots 0 (Nat.succ_pos _)) hout

end

/-! ## Codecs for live column types -/

theorem kept_base (b : BaseType) (v : Value) : b.codec.kept v = v := by
  cases b <;> rfl

theorem follows_option {c : Codec} {t : ValueType} {type : ColumnType} (h : c.Follows t type)
    (ht : t.isNullable = false) : (Codec.option c).Follows (.option t) type := by
  refine ⟨serves_option h.1 ht, fun v => ?_⟩
  cases v with
  | present v => exact congrArg Value.present (h.2 v)
  | _ => rfl

theorem follows_elements {c : Codec} {t : ValueType} {type : ColumnType} (h : c.Follows t type)
    {kind : CollectionKind} {into : Container} {frozen : Bool}
    (ht : into.kind = .set → t.IsRecordFree) :
    (Codec.elements kind into frozen c).Follows (.sequence into t) (kind.type frozen type) := by
  refine ⟨serves_elements h.1 ht, fun v => ?_⟩
  cases v with
  | sequence vs =>
    have hmap : vs.map c.kept = vs.map (t.restrict type) := List.map_congr_left fun v _ => h.2 v
    cases kind
    · exact congrArg Value.sequence hmap
    · exact congrArg Value.sequence hmap
  | _ => cases kind <;> rfl

theorem follows_entries {k c : Codec} {kt t : ValueType} {keyType type : ColumnType}
    (hk : k.Follows kt keyType) (h : c.Follows t type) {into : MapContainer} {frozen : Bool}
    (hfree : kt.IsRecordFree) :
    (Codec.entries into frozen k c).Follows (.mapping into kt t) (.map frozen keyType type) := by
  refine ⟨serves_entries hk.1 h.1 hfree, fun v => ?_⟩
  cases v with
  | mapping es =>
    refine congrArg Value.mapping (List.map_congr_left fun e _ => ?_)
    rw [hk.2, h.2]
  | _ => rfl

/-- A column of a record that is reconciled with a type is placed by the codec for the type of its
field, or by its default codec. -/
theorem placed_of_reconciled {header : RecordHeader} {ts : List ValueType} {u : UserType}
    {slots : List Nat} {codecs : List Codec} (ht : (ValueType.record header ts).Storable)
    (hu : (ColumnType.user u).HasDistinctFields)
    (ih : ∀ t ∈ ts, ∀ type : ColumnType, type.HasDistinctFields → ∀ c, t.codecFor type = .ok c →
      c.Follows t type)
    (h : Reconciled header (ValueType.fieldShapes ts) u slots codecs) {i : Nat} {column : String}
    {t : ValueType} {c : Codec} (hi : header.columns[i]? = some column) (hti : ts[i]? = some t)
    (hc : codecs[i]? = some c) : Placed u.fields slots i column t c := by
  have hs : (ValueType.fieldShapes ts)[i]? = some ⟨t.codec, t.isNullable, t.codecFor⟩ := by
    rw [ValueType.fieldShapes_eq_map, List.getElem?_map, hti]
    rfl
  have hmem := List.mem_of_getElem? hti
  obtain ⟨hsome, hnone⟩ := h.codec_of_column ht.1.nodup hu.1 hi hs
  cases hf : fieldNamed? u.fields column with
  | some f =>
    obtain ⟨hin, c', hc', hfor⟩ := hsome f hf
    obtain rfl : c = c' := Option.some.inj (hc.symm.trans hc')
    have hfmem := (ColumnType.of_fieldNamed?_eq_some hf).1
    have hfield := ColumnType.hasDistinctFields_of_mem hu.2 f hfmem
    exact .stored hf hin (ih t hmem f.type hfield c hfor)
  | none =>
    obtain ⟨hout, hc', hnull⟩ := hnone hf
    obtain rfl : c = t.codec := Option.some.inj (hc.symm.trans hc')
    exact .lacking hf hout hnull (serves_codec (ValueType.storable_of_mem ht.2 t hmem))

/-- The codec that a record is reconciled into, where those of the fields follow their types. -/
theorem follows_reconcile {header : RecordHeader} {ts : List ValueType} {u : UserType} {c : Codec}
    (ht : (ValueType.record header ts).Storable) (hu : (ColumnType.user u).HasDistinctFields)
    (ih : ∀ t ∈ ts, ∀ type : ColumnType, type.HasDistinctFields → ∀ c, t.codecFor type = .ok c →
      c.Follows t type)
    (h : Record.reconcile header (ValueType.fieldShapes ts) u = .ok c) :
    c.Follows (.record header ts) (.user u) := by
  have hcolumns : header.columns.length = ts.length := ht.1.columns
  have hshapes := ValueType.length_fieldShapes ts
  obtain ⟨slots, codecs, rfl, hmade⟩ :=
    Record.reconciled_of_reconcile (hcolumns.trans hshapes.symm) h
  have hlen := (hmade.codecs_spec hu.1).1.trans hshapes
  obtain ⟨htypes, hregular, hkept⟩ := fields_of_placed 0 hcolumns hlen
    fun i column t c hi hti hc => by
      rw [Nat.zero_add]
      exact placed_of_reconciled ht hu ih hmade hi hti hc
  refine ⟨⟨congrArg _ htypes, hregular, ⟨nofun, nofun⟩, fun hf => hf.elim⟩, fun v => ?_⟩
  cases v with
  | record vs => exact congrArg Value.record (hkept vs)
  | _ => rfl

mutual

/-- The codec for a column type serves the type, and leaves out what the column type has no place
for. -/
theorem follows_codecFor {t : ValueType} (ht : t.Storable) {type : ColumnType}
    (hd : type.HasDistinctFields) {c : Codec} (h : t.codecFor type = .ok c) :
    c.Follows t type := by
  match t with
  | .base b =>
    simp only [ValueType.codecFor, ValueType.defaultFor] at h
    split at h
    · cases h
      exact ⟨serves_base b, kept_base b⟩
    · cases h
  | .enumeration e =>
    simp only [ValueType.codecFor, ValueType.defaultFor] at h
    split at h
    · cases h
      exact ⟨serves_enumeration ht, fun _ => rfl⟩
    · cases h
  | .option t =>
    obtain ⟨inner, hi, rfl⟩ := map_eq_ok_iff.1 h
    exact follows_option (follows_codecFor ht.2 hd hi) ht.1
  | .sequence into t =>
    unfold ValueType.codecFor at h
    split at h
    · rename_i frozen element _
      have helement : element.HasDistinctFields := hd
      obtain ⟨inner, hi, rfl⟩ := map_eq_ok_iff.1 h
      exact follows_elements (follows_codecFor ht.2 helement hi) ht.1
    · rename_i frozen element _
      have helement : element.HasDistinctFields := hd
      obtain ⟨inner, hi, rfl⟩ := map_eq_ok_iff.1 h
      exact follows_elements (follows_codecFor ht.2 helement hi) ht.1
    · cases h
  | .mapping into k t =>
    unfold ValueType.codecFor at h
    split at h
    · simp only [bind_eq_ok_iff, pure_eq_ok_iff] at h
      obtain ⟨key, hk, value, hv, rfl⟩ := h
      exact follows_entries (follows_codecFor ht.2.1 hd.1 hk) (follows_codecFor ht.2.2 hd.2 hv) ht.1
    · cases h
  | .record header ts =>
    unfold ValueType.codecFor at h
    split at h
    · split at h
      · exact follows_reconcile ht hd (follows_fields ht.2) h
      · cases h
    · cases h

/-- The same of several types. -/
theorem follows_fields {ts : List ValueType} (hts : ValueType.AllStorable ts) : ∀ t ∈ ts,
    ∀ type : ColumnType, type.HasDistinctFields → ∀ c, t.codecFor type = .ok c →
      c.Follows t type := by
  match ts with
  | [] => exact List.forall_mem_nil _
  | t :: ts =>
    exact List.forall_mem_cons.2
      ⟨fun _ hd _ h => follows_codecFor hts.1 hd h, follows_fields hts.2⟩

end

section

variable {c : Codec} {t : ValueType} {type : ColumnType} {v w : Value} {b : Option Bytes}

/-- What is stored is read as what the column type has a place for. -/
theorem decode_of_follows (h : c.Follows t type) (hv : t.Holds v) (hw : t.Listing v w)
    (hb : c.encode w = .ok b) : c.decode b = .ok (t.restrict type v) := by
  obtain ⟨hserves, hkept⟩ := h
  obtain rfl := hserves.valueType_eq
  rw [← hkept v]
  exact restores_kept hserves.regular hv hw b hb

theorem encode_restrict_of_follows (h : c.Follows t type) (hb : c.encode w = .ok b) :
    c.encode (t.restrict type w) = .ok b := by
  rw [← h.2 w]
  exact encode_kept hb

theorem restrict_restrict_of_follows (h : c.Follows t type) (v : Value) :
    t.restrict type (t.restrict type v) = t.restrict type v := by
  rw [← h.2 v, ← h.2 (c.kept v), kept_kept]

theorem holds_restrict_of_follows (h : c.Follows t type) (hv : t.Holds v) :
    t.Holds (t.restrict type v) := by
  obtain ⟨hserves, hkept⟩ := h
  obtain rfl := hserves.valueType_eq
  rw [← hkept v]
  exact holds_kept hserves.regular hv

theorem listing_restrict_of_follows (h : c.Follows t type) (hw : t.Listing v w) :
    t.Listing (t.restrict type v) (t.restrict type w) := by
  obtain ⟨hserves, hkept⟩ := h
  obtain rfl := hserves.valueType_eq
  rw [← hkept v, ← hkept w]
  exact listing_kept hserves.regular hw

end

end Codec

/-! ## Records -/

/-- A record is read back without the columns that the types lack, at any depth. What is left of it
is a value that is stored as the same bytes and is itself read back whole. -/
theorem Record.decode_of_encode_reconciled {header : RecordHeader} {ts : List ValueType}
    {u : UserType} {c : Codec} (ht : (ValueType.record header ts).Storable)
    (hu : (ColumnType.user u).HasDistinctFields)
    (hc : Record.reconcile header (ValueType.fieldShapes ts) u = .ok c) {v w : Value}
    (hv : (ValueType.record header ts).Holds v) (hw : (ValueType.record header ts).Listing v w)
    {b : Option Bytes} (hb : c.encode w = .ok b) :
    let t := ValueType.record header ts
    let left := t.restrict (.user u)
    c.decode b = .ok (left v) ∧ (t.Listing (left v) (left w) ∧ c.encode (left w) = .ok b) ∧
      (∀ w' b', t.Listing (left v) w' → c.encode w' = .ok b' → c.decode b' = .ok (left v)) ∧
      (t.HasAllFields (.user u) → left v = v) := by
  have hfollows := Codec.follows_reconcile ht hu (Codec.follows_fields ht.2) hc
  refine ⟨Codec.decode_of_follows hfollows hv hw hb,
    ⟨Codec.listing_restrict_of_follows hfollows hw, Codec.encode_restrict_of_follows hfollows hb⟩,
    fun w' b' hw' hb' => ?_, fun hall => ValueType.restrict_of_hasAllFields hall v⟩
  have hagain := Codec.decode_of_follows hfollows (Codec.holds_restrict_of_follows hfollows hv)
    hw' hb'
  rwa [Codec.restrict_restrict_of_follows hfollows] at hagain

/-- A record with a list of records, whose columns come in another order and of which each type
lacks one. -/
theorem Record.decode_of_encode_reconciled_nested :
    let addressType : UserType := ⟨none, "address", [⟨"street", .scalar .text⟩], true⟩
    let u : UserType := ⟨none, "customer",
      [⟨"homes", .list false (.user addressType)⟩, ⟨"name", .scalar .text⟩], false⟩
    let address : RecordHeader := ⟨"Address", "address", ["street", "zip"], ["street", "zip"]⟩
    let header : RecordHeader :=
      ⟨"Customer", "customer", ["name", "note", "homes"], ["name", "note", "homes"]⟩
    let ts : List ValueType := [.base .string, .option (.base .string),
      .sequence .vector (.record address [.base .string, .option (.base .int32)])]
    let t := ValueType.record header ts
    let c : Codec := .record header u [2, 0] [.scalar .text, .option (.scalar .text),
      .elements .list .vector false
        (.record address addressType [0] [.scalar .text, .option (.scalar .int)])]
    let v : Value := .record [.text ['A', 'l'], .present (.text ['x']),
      .sequence [.record [.text ['a'], .present (.int 7)]]]
    let left : Value := .record [.text ['A', 'l'], .absent,
      .sequence [.record [.text ['a'], .absent]]]
    let b : Option Bytes := some [0, 0, 0, 13, 0, 0, 0, 1, 0, 0, 0, 5, 0, 0, 0, 1, 97,
      0, 0, 0, 2, 65, 108]
    t.Storable ∧ (ColumnType.user u).HasDistinctFields ∧
      Record.reconcile header (ValueType.fieldShapes ts) u = .ok c ∧ t.Holds v ∧ t.Listing v v ∧
      c.encode v = .ok b ∧ c.decode b = .ok left ∧ (t.Listing left left ∧ c.encode left = .ok b) ∧
      (∀ w' b', t.Listing left w' → c.encode w' = .ok b' → c.decode b' = .ok left) := by
  intro addressType u address header ts t c v left b
  have hc : Record.reconcile header (ValueType.fieldShapes ts) u = .ok c := by rfl
  have hb : c.encode v = .ok b := by rfl
  have haddress : address.WellFormed 2 := ⟨by decide, rfl, rfl⟩
  have ht : t.Storable := by
    refine ⟨⟨by decide, rfl, rfl⟩, trivial, ⟨rfl, trivial⟩, ⟨nofun, haddress, ?_⟩, trivial⟩
    exact ⟨trivial, ⟨rfl, trivial⟩, trivial⟩
  have hu : (ColumnType.user u).HasDistinctFields := by
    refine ⟨?_, ⟨?_, trivial, trivial⟩, trivial, trivial⟩
    · decide
    · decide
  have hseven : fitsSigned 32 7 = true := by decide
  have hv : t.Holds v :=
    ⟨trivial, trivial, ⟨trivial, List.forall_mem_singleton.2 ⟨trivial, hseven, trivial⟩⟩, trivial⟩
  have hw := ValueType.listing_refl hv
  obtain ⟨hleft, hagain, hother, -⟩ := Record.decode_of_encode_reconciled ht hu hc hv hw hb
  exact ⟨ht, hu, hc, hv, hw, hb, hleft, hagain, hother⟩

end CqlWire
