import CqlWire.Codec.Reconcilable
import CqlWire.Proofs.Codec.DeclaredOrder
import CqlWire.Proofs.Fallible

/-!
# Which column types are accepted

The codec for a column type is built by functions that call each other, with checks here and there;
`ValueType.Reconcilable` says in one place which column types there is a codec for. `Settled` is
what each of these functions keeps up: it makes a codec of the very column type where the two types
are reconcilable, and refuses with a mismatch where they are not. `settled_reconcile` says so for
records, and `settled_codecFor` for all value types, by induction on them.
-/

namespace CqlWire

/-! ## Outcomes -/

/-- What comes of looking for a codec of a column type: a codec of that type if there is to be one,
and a mismatch if not. -/
inductive Settled (p : Prop) (type : ColumnType) : Except Error Codec → Prop where
  | served {c : Codec} (h : p) (hc : c.type = type) : Settled p type (.ok c)
  | refused (h : ¬p) (subject reason : String) :
    Settled p type (.error (.schemaMismatch subject reason))

namespace Settled

variable {p q : Prop} {type : ColumnType} {x : Except Error Codec}

theorem exists_ok_iff (h : Settled p type x) : (∃ c, x = .ok c) ↔ p := by
  cases h with
  | @served c hp _ => exact ⟨fun _ => hp, fun _ => ⟨c, rfl⟩⟩
  | refused hp => exact ⟨nofun, fun h => absurd h hp⟩

theorem type_eq (h : Settled p type x) {c : Codec} (hx : x = .ok c) : c.type = type := by
  subst hx
  cases h with
  | served _ hc => exact hc

theorem eq_schemaMismatch (h : Settled p type x) {e : Error} (hx : x = .error e) :
    ∃ subject reason, e = .schemaMismatch subject reason := by
  subst hx
  cases h with
  | refused _ subject reason => exact ⟨subject, reason, rfl⟩

theorem of_iff (h : Settled p type x) (hpq : p ↔ q) : Settled q type x := by
  rwa [← hpq]

/-- What is made of a codec is settled with it. -/
theorem map (h : Settled p type x) {f : Codec → Codec} {type' : ColumnType}
    (hf : ∀ c, c.type = type → (f c).type = type') : Settled p type' (f <$> x) := by
  cases h with
  | served hp hc => exact .served hp (hf _ hc)
  | refused hp subject reason => exact .refused hp subject reason

theorem map₂ (h : Settled p type x) {type' : ColumnType} {y : Except Error Codec}
    (h' : Settled q type' y) {f : Codec → Codec → Codec} {both : ColumnType}
    (hf : ∀ c d, c.type = type → d.type = type' → (f c d).type = both) :
    Settled (p ∧ q) both (do return f (← x) (← y)) := by
  cases h with
  | served hp hc =>
    cases h' with
    | served hq hd => exact .served ⟨hp, hq⟩ (hf _ _ hc hd)
    | refused hq subject reason => exact .refused (fun h => hq h.2) subject reason
  | refused hp subject reason => exact .refused (fun h => hp h.1) subject reason

/-- A refusal may be reworded. -/
theorem mapError (h : Settled p type x) {f : Error → Error}
    (hf : ∀ e, ∃ subject reason, f e = .schemaMismatch subject reason) :
    Settled p type (x.mapError f) := by
  cases h with
  | served hp hc => exact .served hp hc
  | refused hp subject reason =>
    obtain ⟨subject', reason', he⟩ := hf (.schemaMismatch subject reason)
    rw [Except.mapError, he]
    exact .refused hp subject' reason'

end Settled

/-! ## Records -/

namespace Record

variable {header : RecordHeader} {ts : List ValueType} {schema : UserType}

/-- A field without a declared column is refused. -/
theorem exists_of_slots_eq_error {e : Error} (h : slots header schema = .error e) :
    (∃ f ∈ schema.fields, f.name ∉ header.columns) ∧
      ∃ subject reason, e = .schemaMismatch subject reason := by
  obtain ⟨f, hf, he⟩ := exists_of_mapM_eq_error h
  split at he
  · cases he
  · rename_i hnone
    cases he
    exact ⟨⟨f, hf, List.idxOf?_eq_none_iff.1 hnone⟩, _, _, rfl⟩

/-- A column that is missing though it may not be. -/
theorem exists_of_missing?_eq_some {shapes : List FieldShape} {slots : List Nat} {column : String}
    (h : missing? header shapes slots = some column) :
    ∃ i shape, shapes[i]? = some shape ∧ i ∉ slots ∧ shape.isNullable = false := by
  obtain ⟨⟨⟨column', shape⟩, i⟩, hp, hi⟩ := List.exists_of_findSome?_eq_some h
  have hzip := List.getElem?_zip_eq_some.1 (List.mem_zipIdx_iff_getElem?.1 hp)
  dsimp only at hi
  split at hi
  · cases hi
  · rename_i hnot
    rw [Bool.or_eq_true, not_or] at hnot
    exact ⟨i, shape, hzip.2, fun hin => hnot.2 (List.contains_iff_mem.2 hin),
      Bool.eq_false_iff.2 hnot.1⟩

theorem getElem?_fieldShapes {i : Nat} {t : ValueType} (ht : ts[i]? = some t) :
    (ValueType.fieldShapes ts)[i]? = some ⟨t.codec, t.isNullable, t.codecFor⟩ := by
  rw [ValueType.fieldShapes_eq_map, List.getElem?_map, ht]
  rfl

/-- The codec of a field is settled by the types of its column and of the field. -/
theorem settled_fieldCodec (header : RecordHeader) (schema : UserType) (f : Field ColumnType)
    (ih : ∀ t ∈ ts, ∀ type, Settled (t.Reconcilable type) type (t.codecFor type))
    {slot : Nat} {t : ValueType} (ht : ts[slot]? = some t) :
    Settled (t.Reconcilable f.type) f.type
      (fieldCodec header schema (ValueType.fieldShapes ts) f slot) := by
  simp only [fieldCodec, getElem?_fieldShapes ht]
  exact (ih t (List.mem_of_getElem? ht) f.type).mapError fun _ => ⟨_, _, rfl⟩

/-- Whether fields and columns are reconcilable, slot by slot. -/
theorem fieldsReconcilable_iff (declared : header.WellFormed ts.length) {slots : List Nat}
    (named : List.Forall₂ (fun f slot => header.columns[slot]? = some f.name) schema.fields slots) :
    ValueType.FieldsReconcilable header ts schema.fields ↔
      (∀ p ∈ schema.fields.zip slots, ∀ t, ts[p.2]? = some t → t.Reconcilable p.1.type) ∧
        ∀ i t, ts[i]? = some t → i ∉ slots → t.isNullable = true := by
  rw [ValueType.FieldsReconcilable, ValueType.columnsReconcilable_iff declared.columns]
  constructor
  · rintro ⟨-, hcolumns⟩
    refine ⟨fun p hp t ht => ?_, fun i t ht hout => ?_⟩
    · have hmem : (p.1.name, t) ∈ header.columns.zip ts :=
        List.mem_of_getElem? (List.getElem?_zip_eq_some.2 ⟨getElem?_of_mem_zip named hp, ht⟩)
      exact (hcolumns _ hmem).1 p.1 (List.of_mem_zip hp).1 rfl
    · obtain ⟨hlt, -⟩ := List.getElem?_eq_some_iff.1 ht
      have hlt' : i < header.columns.length := declared.columns ▸ hlt
      have hi : header.columns[i]? = some header.columns[i] := List.getElem?_eq_getElem hlt'
      have hmem : (header.columns[i], t) ∈ header.columns.zip ts :=
        List.mem_of_getElem? (List.getElem?_zip_eq_some.2 ⟨hi, ht⟩)
      refine (hcolumns _ hmem).2 fun hname => hout ?_
      obtain ⟨f, hf, hname⟩ : ∃ f ∈ schema.fields, f.name = header.columns[i] :=
        List.mem_map.1 hname
      rw [← hname] at hi
      exact (List.of_mem_zip (mem_zip_of_name named declared.nodup hf hi)).2
  · rintro ⟨hfields, hnullable⟩
    refine ⟨fun f hf => ?_, fun p hp => ?_⟩
    · obtain ⟨slot, hp⟩ := exists_slot named hf
      exact List.mem_of_getElem? (getElem?_of_mem_zip named hp)
    · obtain ⟨i, hi⟩ := List.mem_iff_getElem?.1 hp
      obtain ⟨hi, ht⟩ := List.getElem?_zip_eq_some.1 hi
      refine ⟨fun f hf hname => ?_, fun hout => hnullable i p.2 ht fun hin => hout ?_⟩
      · exact hfields _ (mem_zip_of_name named declared.nodup hf (hname ▸ hi)) p.2 ht
      · obtain ⟨f, hq⟩ := exists_field named hin
        rw [getElem?_of_mem_zip named hq, Option.some.injEq] at hi
        exact hi ▸ List.mem_map_of_mem (List.of_mem_zip hq).1

/-- The fields have codecs if each of them is reconcilable with its column. -/
theorem exists_fieldCodecs_iff (header : RecordHeader) {slots : List Nat}
    (ih : ∀ t ∈ ts, ∀ type, Settled (t.Reconcilable type) type (t.codecFor type))
    (hcolumn : ∀ p ∈ schema.fields.zip slots, ∃ t, ts[p.2]? = some t) :
    ((∃ codecs, fieldCodecs header schema (ValueType.fieldShapes ts) slots = .ok codecs) ↔
      ∀ p ∈ schema.fields.zip slots, ∀ t, ts[p.2]? = some t → t.Reconcilable p.1.type) ∧
    ∀ e, fieldCodecs header schema (ValueType.fieldShapes ts) slots = .error e →
      ∃ subject reason, e = .schemaMismatch subject reason := by
  -- The fields are settled one after another, and the first one that is refused ends it.
  have hrefused : ∀ e, fieldCodecs header schema (ValueType.fieldShapes ts) slots = .error e →
      ∃ p ∈ schema.fields.zip slots, ∃ t, ts[p.2]? = some t ∧ ¬t.Reconcilable p.1.type ∧
        ∃ subject reason, e = .schemaMismatch subject reason := by
    intro e he
    obtain ⟨p, hp, codecs, hstep⟩ := exists_of_foldlM_eq_error he
    obtain ⟨t, ht⟩ := hcolumn p hp
    have hsettled := settled_fieldCodec header schema p.1 ih ht
    rcases bind_eq_error_iff.1 hstep with hx | ⟨_, -, hx⟩
    · refine ⟨p, hp, t, ht, fun hr => ?_, hsettled.eq_schemaMismatch hx⟩
      obtain ⟨c, hc⟩ := hsettled.exists_ok_iff.2 hr
      rw [hc] at hx
      cases hx
    · cases hx
  refine ⟨⟨fun h p hp t ht => ?_, fun h => ?_⟩, fun e he => ?_⟩
  · obtain ⟨codecs, hcodecs⟩ := h
    obtain ⟨_, _, hstep⟩ := exists_of_foldlM_eq_ok hcodecs p hp
    obtain ⟨c, hc, -⟩ := bind_eq_ok_iff.1 hstep
    exact (settled_fieldCodec header schema p.1 ih ht).exists_ok_iff.1 ⟨c, hc⟩
  · cases hcodecs : fieldCodecs header schema (ValueType.fieldShapes ts) slots with
    | ok codecs => exact ⟨codecs, rfl⟩
    | error e =>
      obtain ⟨p, hp, t, ht, hnot, -⟩ := hrefused e hcodecs
      exact absurd (h p hp t ht) hnot
  · obtain ⟨_, _, _, _, _, hmismatch⟩ := hrefused e he
    exact hmismatch

/-- A record is settled by its columns and the fields of the type. -/
theorem settled_reconcile (declared : header.WellFormed ts.length)
    (ih : ∀ t ∈ ts, ∀ type, Settled (t.Reconcilable type) type (t.codecFor type)) :
    Settled (ValueType.FieldsReconcilable header ts schema.fields) (.user schema)
      (reconcile header (ValueType.fieldShapes ts) schema) := by
  rw [reconcile_eq_reordered declared.nodup declared.length_columns, reordered]
  cases hslots : slots header schema with
  | error e =>
    obtain ⟨⟨f, hf, hout⟩, subject, reason, rfl⟩ := exists_of_slots_eq_error hslots
    exact .refused (fun h => hout (h.1 f hf)) subject reason
  | ok slots =>
    have named := named_of_slots hslots
    have hiff := fieldsReconcilable_iff declared named
    have hcolumn : ∀ p ∈ schema.fields.zip slots, ∃ t, ts[p.2]? = some t := by
      intro p hp
      obtain ⟨hlt, -⟩ := List.getElem?_eq_some_iff.1 (getElem?_of_mem_zip named hp)
      exact ⟨_, List.getElem?_eq_getElem (declared.columns ▸ hlt)⟩
    obtain ⟨hfields, herror⟩ := exists_fieldCodecs_iff header ih hcolumn
    show Settled _ _ (fieldCodecs header schema (ValueType.fieldShapes ts) slots >>= _)
    cases hcodecs : fieldCodecs header schema (ValueType.fieldShapes ts) slots with
    | error e =>
      obtain ⟨subject, reason, rfl⟩ := herror e hcodecs
      refine .refused (fun h => ?_) subject reason
      obtain ⟨codecs, hok⟩ := hfields.2 (hiff.1 h).1
      rw [hok] at hcodecs
      cases hcodecs
    | ok codecs =>
      dsimp only [bind, Except.bind]
      cases hmissing : missing? header (ValueType.fieldShapes ts) slots with
      | some column =>
        obtain ⟨i, shape, hshape, hout, hnull⟩ := exists_of_missing?_eq_some hmissing
        refine .refused (fun h => ?_) _ _
        rw [ValueType.fieldShapes_eq_map, List.getElem?_map, Option.map_eq_some_iff] at hshape
        obtain ⟨t, ht, rfl⟩ := hshape
        rw [(hiff.1 h).2 i t ht hout] at hnull
        cases hnull
      | none =>
        refine .served (hiff.2 ⟨hfields.1 ⟨codecs, hcodecs⟩, fun i t ht hout => ?_⟩) rfl
        have hshape := getElem?_fieldShapes ht
        exact nullable_of_missing? declared.length_columns hmissing i _ hshape hout

end Record

/-! ## Value types -/

namespace ValueType

/-- A type that is stored as a scalar is stored in columns of that type only. -/
theorem settled_defaultFor {t : ValueType} {s : ScalarType} (ht : t.codec.type = .scalar s)
    (type : ColumnType) : Settled (type = t.columnType) type (t.defaultFor type) := by
  have hiff : t.codec.acceptsType type = true ↔ type = t.columnType := by
    rw [Codec.acceptsType, columnType, ht]
    cases type <;> simp [ColumnType.isCompatible, eq_comm]
  rw [defaultFor]
  split
  · rename_i haccepts
    exact .served (hiff.1 haccepts) (hiff.1 haccepts).symm
  · rename_i hrefuses
    exact .refused (mt hiff.2 hrefuses) _ _

theorem exists_type_codec_base (b : BaseType) : ∃ s, (ValueType.base b).codec.type = .scalar s := by
  cases b <;> exact ⟨_, rfl⟩

theorem exists_type_codec_enumeration (e : Enumeration) :
    ∃ s, (ValueType.enumeration e).codec.type = .scalar s := by
  cases h : e.ordinal
  · exact ⟨.text, by simp only [codec, h]; rfl⟩
  · exact ⟨.int, by simp only [codec, h]; rfl⟩

mutual

/-- The codec for a column type is settled by the two types. -/
theorem settled_codecFor {t : ValueType} (declared : t.WellFormed) (type : ColumnType) :
    Settled (t.Reconcilable type) type (t.codecFor type) := by
  match t with
  | .base b =>
    obtain ⟨s, hs⟩ := exists_type_codec_base b
    exact settled_defaultFor hs type
  | .enumeration e =>
    obtain ⟨s, hs⟩ := exists_type_codec_enumeration e
    exact settled_defaultFor hs type
  | .option t => exact (settled_codecFor (t := t) declared type).map fun _ hc => hc
  | .sequence into t =>
    have inside : t.WellFormed := declared
    unfold codecFor
    split
    · rename_i frozen element hkind
      refine ((settled_codecFor inside element).map ?_).of_iff ?_
      · exact fun c hc => congrArg (ColumnType.list frozen) hc
      · exact (and_iff_right hkind).symm
    · rename_i frozen element hkind
      refine ((settled_codecFor inside element).map ?_).of_iff ?_
      · exact fun c hc => congrArg (ColumnType.set frozen) hc
      · exact (and_iff_right hkind).symm
    · rename_i type _ _ hlist hset
      refine .refused (fun h => ?_) _ _
      cases type with
      | list frozen element => exact hlist frozen element h.1 rfl
      | set frozen element => exact hset frozen element h.1 rfl
      | _ => exact h
  | .mapping into k t =>
    unfold codecFor
    split
    · rename_i frozen keyType elementType
      refine (settled_codecFor declared.1 keyType).map₂ (settled_codecFor declared.2 elementType) ?_
      exact fun key value hkey hvalue => congrArg₂ (ColumnType.map frozen) hkey hvalue
    · rename_i hmap
      refine .refused (fun h => ?_) _ _
      cases type with
      | map frozen keyType elementType => exact hmap frozen keyType elementType rfl
      | _ => exact h
  | .record header ts =>
    unfold codecFor
    split
    · rename_i u
      split
      · rename_i hname
        exact (Record.settled_reconcile declared.1 (settled_fields declared.2)).of_iff
          (and_iff_right hname).symm
      · rename_i hname
        exact .refused (fun h => hname h.1) _ _
    · rename_i huser
      refine .refused (fun h => ?_) _ _
      cases type with
      | user u => exact huser u rfl
      | _ => exact h

/-- The same of several types. -/
theorem settled_fields {ts : List ValueType} (declared : AllWellFormed ts) : ∀ t ∈ ts, ∀ type,
    Settled (t.Reconcilable type) type (t.codecFor type) := by
  match ts with
  | [] => exact List.forall_mem_nil _
  | t :: ts =>
    exact List.forall_mem_cons.2 ⟨settled_codecFor declared.1, settled_fields declared.2⟩

end

/-- There is a codec of a type for exactly the column types that are reconcilable with it, and it
serves the very column type, annotations included. A record can be stored in exactly the
user-defined types whose fields are reconcilable with its columns. Whatever is refused is refused as
a mismatch. -/
theorem accepted_iff_reconcilable :
    (∀ t : ValueType, t.WellFormed → ∀ type : ColumnType,
      ((∃ c, t.codecFor type = .ok c) ↔ t.Reconcilable type) ∧
      (∀ c, t.codecFor type = .ok c → c.type = type) ∧
      ∀ e, t.codecFor type = .error e → ∃ subject reason, e = .schemaMismatch subject reason) ∧
    ∀ (header : RecordHeader) (ts : List ValueType), (record header ts).WellFormed →
      ∀ schema : UserType,
        ((∃ c, Record.reconcile header (fieldShapes ts) schema = .ok c) ↔
          FieldsReconcilable header ts schema.fields) ∧
        ∀ e, Record.reconcile header (fieldShapes ts) schema = .error e →
          ∃ subject reason, e = .schemaMismatch subject reason := by
  constructor
  · intro t declared type
    have h := settled_codecFor declared type
    exact ⟨h.exists_ok_iff, fun _ => h.type_eq, fun _ => h.eq_schemaMismatch⟩
  · intro header ts declared schema
    have h : Settled (FieldsReconcilable header ts schema.fields) (.user schema)
        (Record.reconcile header (fieldShapes ts) schema) :=
      Record.settled_reconcile declared.1 (settled_fields declared.2)
    exact ⟨h.exists_ok_iff, fun _ => h.eq_schemaMismatch⟩

/-- A list of records that hold records themselves: a type with its fields in another order, of
which one is missing, and a type with a field that is none of theirs, deep inside. -/
theorem accepted_iff_reconcilable_nested :
    let address : RecordHeader := ⟨"Address", "address", ["street", "zip"], ["street", "zip"]⟩
    let customer : RecordHeader := ⟨"Customer", "customer", ["name", "homes"], ["name", "homes"]⟩
    let homes : List ValueType := [.base .string, .option (.base .int32)]
    let t : ValueType := .sequence .deque (.record customer
      [.base .string, .mapping .hashed (.base .uuid) (.record address homes)])
    let customers (fields : List (Field ColumnType)) : ColumnType := .list true (.user ⟨some "shop",
      "customer", [⟨"homes", .map false (.scalar .uuid) (.user ⟨none, "address", fields, true⟩)⟩,
        ⟨"name", .scalar .text⟩], false⟩)
    let stored : ColumnType := customers [⟨"street", .scalar .text⟩]
    let refused : ColumnType := customers [⟨"street", .scalar .text⟩, ⟨"door", .scalar .int⟩]
    let renamed : UserType := ⟨none, "place", [⟨"street", .scalar .text⟩], false⟩
    t.WellFormed ∧ t.Reconcilable stored ∧ (∃ c, t.codecFor stored = .ok c ∧ c.type = stored) ∧
      ¬t.Reconcilable refused ∧
      (∃ subject reason, t.codecFor refused = .error (.schemaMismatch subject reason)) ∧
      (record address homes).WellFormed ∧
      ∃ c, Record.reconcile address (fieldShapes homes) renamed = .ok c := by
  intro address customer homes t customers stored refused renamed
  have haddress : (record address homes).WellFormed :=
    ⟨⟨by decide, rfl, rfl⟩, trivial, trivial, trivial⟩
  have ht : t.WellFormed := ⟨⟨by decide, rfl, rfl⟩, trivial, ⟨trivial, haddress⟩, trivial⟩
  obtain ⟨hstored, htype, -⟩ := accepted_iff_reconcilable.1 t ht stored
  obtain ⟨hrefused, -, herror⟩ := accepted_iff_reconcilable.1 t ht refused
  have hhomes : FieldsReconcilable address homes [⟨"street", .scalar .text⟩] := by
    refine ⟨by decide, ?_, by decide, ?_, fun _ => rfl, trivial⟩
    · exact List.forall_mem_singleton.2 fun _ => rfl
    · exact List.forall_mem_singleton.2 fun h => absurd h (by decide)
  have hreconcilable : t.Reconcilable stored := by
    refine ⟨rfl, rfl, by decide, ?_, by decide, ?_, by decide, trivial⟩
    · exact List.forall_mem_cons.2
        ⟨fun h => absurd h (by decide), List.forall_mem_singleton.2 fun _ => rfl⟩
    · exact List.forall_mem_cons.2
        ⟨fun _ => ⟨rfl, rfl, hhomes⟩, List.forall_mem_singleton.2 fun h => absurd h (by decide)⟩
  have hnot : ¬t.Reconcilable refused := by
    rintro ⟨-, -, -, -, -, hcolumn, -⟩
    have hdoor := (hcolumn _ List.mem_cons_self rfl).2.2.1
    exact absurd (hdoor ⟨"door", .scalar .int⟩ (by simp)) (by decide)
  refine ⟨ht, hreconcilable, ?_, hnot, ?_, haddress, ?_⟩
  · obtain ⟨c, hc⟩ := hstored.2 hreconcilable
    exact ⟨c, hc, htype c hc⟩
  · cases hx : t.codecFor refused with
    | ok c => exact absurd (hrefused.1 ⟨c, hx⟩) hnot
    | error e =>
      obtain ⟨subject, reason, rfl⟩ := herror e hx
      exact ⟨subject, reason, rfl⟩
  · exact (accepted_iff_reconcilable.2 address homes haddress renamed).1.2 hhomes

end ValueType

end CqlWire
