import CqlWire.Proofs.Codec.DeclaredOrder
import CqlWire.Proofs.Codec.Reconcile
import CqlWire.Proofs.Fallible

/-!
# The order of declaration does not show

Two records with the same columns of the same types, declared in different orders, are stored in
one user-defined type. Whatever has an item for each column stands in two orders then, and
`AgreeByColumn` says that the items are the same column by column. The two places of a column
(`SameColumn`) take the two sides through all steps: the slots (`failTogether_slots`), the codecs
(`failTogether_fieldCodecs`), and the four directions of the coding. So the two records are
reconciled together and are stored, read and written alike (`reconcile_of_same_columns`).
-/

namespace CqlWire.Record

variable {α β : Type} {columns columns' : List String} {slots slots' : List Nat}

/-! ## Items of columns -/

/-- The places of one column in two orders. -/
def SameColumn (columns columns' : List String) (i j : Nat) : Prop :=
  ∃ column, columns[i]? = some column ∧ columns'[j]? = some column

/-- Lists with an item for each column, in two orders of the columns: the item of each column is
the same in both. -/
structure AgreeByColumn (columns columns' : List String) (as bs : List α) : Prop where
  length_left : as.length = columns.length
  length_right : bs.length = columns'.length
  getElem?_eq : ∀ i j, SameColumn columns columns' i j → as[i]? = bs[j]?

theorem SameColumn.symm {i j : Nat} (h : SameColumn columns columns' i j) :
    SameColumn columns' columns j i := by
  obtain ⟨column, hi, hj⟩ := h
  exact ⟨column, hj, hi⟩

/-- A column has one place in each order. -/
theorem SameColumn.right_unique (hn : columns'.Nodup) {i j j' : Nat}
    (h : SameColumn columns columns' i j) (h' : SameColumn columns columns' i j') : j = j' := by
  obtain ⟨column, hi, hj⟩ := h
  obtain ⟨column', hi', hj'⟩ := h'
  obtain rfl : column = column' := Option.some.inj (hi.symm.trans hi')
  obtain ⟨hlt, -⟩ := List.getElem?_eq_some_iff.1 hj
  exact (List.getElem?_inj hlt hn).1 (hj.trans hj'.symm)

theorem exists_sameColumn (hsub : columns' ⊆ columns) {j : Nat} (hj : j < columns'.length) :
    ∃ i, SameColumn columns columns' i j := by
  obtain ⟨i, hi⟩ := List.mem_iff_getElem?.1 (hsub (List.getElem_mem hj))
  exact ⟨i, columns'[j], hi, List.getElem?_eq_getElem hj⟩

/-- Places that belong together are both named by slots or neither. -/
theorem SameColumn.mem_slots (hn : columns'.Nodup) {i j : Nat}
    (h : SameColumn columns columns' i j)
    (hs : List.Forall₂ (SameColumn columns columns') slots slots') (hi : i ∈ slots) :
    j ∈ slots' := by
  obtain ⟨k, hk⟩ := List.mem_iff_getElem?.1 hi
  obtain ⟨hlt, rfl⟩ := List.getElem?_eq_some_iff.1 hk
  obtain ⟨hlen, hget⟩ := List.forall₂_iff_get.1 hs
  have hlt' : k < slots'.length := by rwa [← hlen]
  obtain rfl : j = slots'[k] := h.right_unique hn (hget k hlt hlt')
  exact List.getElem_mem hlt'

namespace AgreeByColumn

variable {as bs : List α}

theorem symm (h : AgreeByColumn columns columns' as bs) : AgreeByColumn columns' columns bs as :=
  ⟨h.length_right, h.length_left, fun i j hij => (h.getElem?_eq j i hij.symm).symm⟩

theorem map (f : α → β) (h : AgreeByColumn columns columns' as bs) :
    AgreeByColumn columns columns' (as.map f) (bs.map f) := by
  refine ⟨?_, ?_, fun i j hij => ?_⟩
  · rw [List.length_map, h.length_left]
  · rw [List.length_map, h.length_right]
  · rw [List.getElem?_map, List.getElem?_map, h.getElem?_eq i j hij]

/-- The item of a column is there on both sides. -/
theorem exists_getElem? (h : AgreeByColumn columns columns' as bs) {i j : Nat}
    (hij : SameColumn columns columns' i j) : ∃ a, as[i]? = some a ∧ bs[j]? = some a := by
  obtain ⟨column, hi, -⟩ := id hij
  obtain ⟨hlt, -⟩ := List.getElem?_eq_some_iff.1 hi
  have hlt' : i < as.length := h.length_left ▸ hlt
  have ha : as[i]? = some as[i] := List.getElem?_eq_getElem hlt'
  exact ⟨_, ha, (h.getElem?_eq i j hij).symm.trans ha⟩

theorem zip {us ws : List β} (h : AgreeByColumn columns columns' as bs)
    (hu : AgreeByColumn columns columns' us ws) :
    AgreeByColumn columns columns' (as.zip us) (bs.zip ws) := by
  refine ⟨?_, ?_, fun i j hij => ?_⟩
  · rw [List.length_zip, h.length_left, hu.length_left, Nat.min_self]
  · rw [List.length_zip, h.length_right, hu.length_right, Nat.min_self]
  · obtain ⟨a, ha, hb⟩ := h.exists_getElem? hij
    obtain ⟨u, hu, hw⟩ := hu.exists_getElem? hij
    have hleft : (as.zip us)[i]? = some (a, u) := List.getElem?_zip_eq_some.2 ⟨ha, hu⟩
    have hright : (bs.zip ws)[j]? = some (a, u) := List.getElem?_zip_eq_some.2 ⟨hb, hw⟩
    rw [hleft, hright]

/-- A column may get a new item on both sides. -/
theorem set (hn : columns.Nodup) (hn' : columns'.Nodup) {s s' : Nat}
    (hs : SameColumn columns columns' s s') (h : AgreeByColumn columns columns' as bs) (a : α) :
    AgreeByColumn columns columns' (as.set s a) (bs.set s' a) := by
  refine ⟨?_, ?_, fun i j hij => ?_⟩
  · rw [List.length_set, h.length_left]
  · rw [List.length_set, h.length_right]
  · obtain ⟨b, hi, hj⟩ := h.exists_getElem? hij
    obtain ⟨hlt, -⟩ := List.getElem?_eq_some_iff.1 hi
    obtain ⟨hlt', -⟩ := List.getElem?_eq_some_iff.1 hj
    by_cases heq : s = i
    · subst heq
      obtain rfl : s' = j := hs.right_unique hn' hij
      rw [List.getElem?_set_self hlt, List.getElem?_set_self hlt']
    · have hne : s' ≠ j := by
        rintro rfl
        exact heq (hs.symm.right_unique hn hij.symm)
      rw [List.getElem?_set_ne heq, List.getElem?_set_ne hne, hi, hj]

end AgreeByColumn

/-- One step for each column gives results that agree by column. -/
theorem mapM_of_agreeByColumn (hsub : columns' ⊆ columns) {as bs : List α} {us : List β}
    (h : AgreeByColumn columns columns' as bs) {f : α → Except Error β} (hf : as.mapM f = .ok us) :
    ∃ ws, bs.mapM f = .ok ws ∧ AgreeByColumn columns columns' us ws := by
  have hall : ∀ b ∈ bs, ∃ w, f b = .ok w := by
    intro b hb
    obtain ⟨j, hj⟩ := List.mem_iff_getElem?.1 hb
    obtain ⟨hlt, -⟩ := List.getElem?_eq_some_iff.1 hj
    obtain ⟨i, hij⟩ := exists_sameColumn hsub (h.length_right ▸ hlt)
    obtain ⟨w, -, hw⟩ := getElem?_of_mapM_eq_ok hf ((h.getElem?_eq i j hij).trans hj)
    exact ⟨w, hw⟩
  obtain ⟨ws, hws⟩ := exists_mapM_eq_ok hall
  refine ⟨ws, hws, ?_, ?_, fun i j hij => ?_⟩
  · rw [length_of_mapM_eq_ok hf, h.length_left]
  · rw [length_of_mapM_eq_ok hws, h.length_right]
  · obtain ⟨a, hi, hj⟩ := h.exists_getElem? hij
    obtain ⟨u, hu, hfu⟩ := getElem?_of_mapM_eq_ok hf hi
    obtain ⟨w, hw, hfw⟩ := getElem?_of_mapM_eq_ok hws hj
    obtain rfl : u = w := Except.ok.inj (hfu.symm.trans hfw)
    rw [hu, hw]

/-- One step for each column fails on both sides or gives results that agree by column. -/
theorem failTogether_mapM_columns (hsame : ∀ column, column ∈ columns ↔ column ∈ columns')
    {as bs : List α} (h : AgreeByColumn columns columns' as bs) (f : α → Except Error β) :
    FailTogether (AgreeByColumn columns columns') (as.mapM f) (bs.mapM f) := by
  cases has : as.mapM f with
  | ok us =>
    obtain ⟨ws, hws, hagree⟩ := mapM_of_agreeByColumn (fun c hc => (hsame c).2 hc) h has
    rw [hws]
    exact .done hagree
  | error e =>
    cases hbs : bs.mapM f with
    | error e' => exact .failed e e'
    | ok ws =>
      obtain ⟨us, hus, -⟩ := mapM_of_agreeByColumn (fun c hc => (hsame c).1 hc) h.symm hbs
      rw [has] at hus
      cases hus

/-! ## Codings -/

section

variable {schema : UserType} {typeName typeName' : String} {fields fields' : List (Coding α)}

theorem encode_record_of_agree (schema : UserType)
    (hs : List.Forall₂ (SameColumn columns columns') slots slots')
    (hf : AgreeByColumn columns columns' fields fields') {as bs : List α}
    (h : AgreeByColumn columns columns' as bs) :
    (Coding.record typeName schema slots fields).encode as =
      (Coding.record typeName' schema slots' fields').encode bs := by
  have hslots : Coding.encodeSlots typeName fields as slots =
      Coding.encodeSlots typeName' fields' bs slots' := by
    rw [Coding.encodeSlots, Coding.encodeSlots, mapM_eq_of_forall₂ (fun i j hij => ?_) hs]
    obtain ⟨c, hci, hcj⟩ := hf.exists_getElem? hij
    obtain ⟨a, hai, haj⟩ := h.exists_getElem? hij
    simp only [Coding.encodeField, hci, hcj, hai, haj]
  exact congrArg (some <$> ·) hslots

theorem format_record_of_agree (typeName typeName' : String)
    (hs : List.Forall₂ (SameColumn columns columns') slots slots')
    (hf : AgreeByColumn columns columns' fields fields') {as bs : List α}
    (h : AgreeByColumn columns columns' as bs) :
    (Coding.record typeName schema slots fields).format as =
      (Coding.record typeName' schema slots' fields').format bs := by
  have hfield : ∀ i j, SameColumn columns columns' i j →
      Coding.formatField fields as i = Coding.formatField fields' bs j := fun i j hij => by
    rw [Coding.formatField, Coding.formatField, hf.getElem?_eq i j hij, h.getElem?_eq i j hij]
  have hparts : (schema.fields.zip slots).map (fun p =>
        p.1.name.toList ++ ':' :: Coding.formatField fields as p.2) =
      (schema.fields.zip slots').map fun p =>
        p.1.name.toList ++ ':' :: Coding.formatField fields' bs p.2 := by
    refine List.forall₂_eq_eq_eq ▸ List.forall₂_map_left_iff.2 (List.forall₂_map_right_iff.2 ?_)
    have hfields : List.Forall₂ Eq schema.fields schema.fields := List.forall₂_refl _
    refine (forall₂_zip hfields hs).imp fun p q hpq => ?_
    rw [hpq.1, hfield p.2 q.2 hpq.2]
  exact congrArg braced hparts

/-- The frames of the fields are read into the places of their columns. -/
theorem failTogether_readSlots (hn : columns.Nodup) (hn' : columns'.Nodup) (type : ColumnType)
    (hs : List.Forall₂ (SameColumn columns columns') slots slots') (bs : Bytes)
    {values values' : List (Option Bytes)} (h : AgreeByColumn columns columns' values values') :
    FailTogether (fun found found' =>
        AgreeByColumn columns columns' found.1 found'.1 ∧ found.2 = found'.2)
      (Coding.readSlots type slots bs values) (Coding.readSlots type slots' bs values') := by
  induction hs generalizing bs values values' with
  | nil => exact .done ⟨h, rfl⟩
  | cons hij _ ih =>
    rw [Coding.readSlots, Coding.readSlots]
    split
    · exact .done ⟨h, rfl⟩
    · refine failTogether_bind (failTogether_self _) ?_
      rintro ⟨value, rest⟩ _ rfl
      exact ih rest (h.set hn hn' hij value)

/-- The parts of a literal are placed with the columns that they name. -/
theorem failTogether_placeLiterals (hn : columns.Nodup) (hn' : columns'.Nodup)
    (hs : List.Forall₂ (SameColumn columns columns') slots slots') (text : List Char)
    (parts : List (List Char × List Char)) {literals literals' : List (Option (List Char))}
    (h : AgreeByColumn columns columns' literals literals') :
    FailTogether (AgreeByColumn columns columns')
      (Coding.placeLiterals schema slots text parts literals)
      (Coding.placeLiterals schema slots' text parts literals') := by
  induction parts generalizing literals literals' with
  | nil => exact .done h
  | cons part parts ih =>
    obtain ⟨name, literal⟩ := part
    rw [Coding.placeLiterals, Coding.placeLiterals]
    cases schema.field? (String.ofList name) with
    | none => exact .failed _ _
    | some found =>
      obtain ⟨position, f⟩ := found
      obtain ⟨hlen, hget⟩ := List.forall₂_iff_get.1 hs
      by_cases hlt : position < slots.length
      · have hlt' : position < slots'.length := by rwa [← hlen]
        simp only [List.getElem?_eq_getElem hlt, List.getElem?_eq_getElem hlt']
        exact ih (h.set hn hn' (hget position hlt hlt') (some literal))
      · have hge' : slots'.length ≤ position := by omega
        simp only [List.getElem?_eq_none (Nat.not_lt.1 hlt), List.getElem?_eq_none hge']
        exact ih h

theorem decode_record_of_agree (hn : columns.Nodup) (hn' : columns'.Nodup)
    (hsame : ∀ column, column ∈ columns ↔ column ∈ columns')
    (hs : List.Forall₂ (SameColumn columns columns') slots slots')
    (hf : AgreeByColumn columns columns' fields fields') (bytes : Option Bytes) :
    FailTogether (AgreeByColumn columns columns')
      ((Coding.record typeName schema slots fields).decode bytes)
      ((Coding.record typeName' schema slots' fields').decode bytes) := by
  refine failTogether_bind (failTogether_self (Frame.require (.user schema) bytes)) ?_
  rintro bs _ rfl
  refine failTogether_bind (failTogether_readSlots hn hn' _ hs bs (hf.map fun _ => none)) ?_
  rintro ⟨found, rest⟩ ⟨found', _⟩ ⟨hfound, rfl⟩
  refine failTogether_bind (failTogether_refuseIf _ _) fun _ _ _ => ?_
  exact failTogether_mapM_columns hsame (hf.zip hfound) _

theorem parse_record_of_agree (hn : columns.Nodup) (hn' : columns'.Nodup)
    (hsame : ∀ column, column ∈ columns ↔ column ∈ columns')
    (hs : List.Forall₂ (SameColumn columns columns') slots slots')
    (hf : AgreeByColumn columns columns' fields fields') (text : List Char) :
    FailTogether (AgreeByColumn columns columns')
      ((Coding.record typeName schema slots fields).parse text)
      ((Coding.record typeName' schema slots' fields').parse text) := by
  refine failTogether_bind (failTogether_self (Coding.orRefuse (.user schema) text
    Literal.SplitError.message (Literal.splitEntries '\x7b' '\x7d' text))) ?_
  rintro parts _ rfl
  refine failTogether_bind
    (failTogether_placeLiterals hn hn' hs text parts (hf.map fun _ => none)) ?_
  intro literals literals' hliterals
  exact failTogether_mapM_columns hsame (hf.zip hliterals) _

end

/-! ## Reconciled records -/

section

variable {header header' : RecordHeader} {shapes shapes' : List FieldShape} {schema : UserType}

/-- Each field of the type holds the same column on both sides. -/
theorem failTogether_slots (hsame : ∀ column, column ∈ header.columns ↔ column ∈ header'.columns)
    (schema : UserType) :
    FailTogether (List.Forall₂ (SameColumn header.columns header'.columns))
      (Record.slots header schema) (Record.slots header' schema) := by
  refine failTogether_mapM (fun f g (hfg : f = g) => ?_) (List.forall₂_same.2 fun f _ => rfl)
  subst hfg
  cases hi : header.columns.idxOf? f.name with
  | none =>
    have hout := mt (hsame f.name).2 (List.idxOf?_eq_none_iff.1 hi)
    rw [List.idxOf?_eq_none_iff.2 hout]
    exact .failed _ _
  | some i =>
    obtain ⟨hlt, hname, -⟩ := List.idxOf?_eq_some_iff.1 hi
    cases hj : header'.columns.idxOf? f.name with
    | none =>
      have hin := (hsame f.name).1 (hname ▸ List.getElem_mem hlt)
      exact absurd hin (List.idxOf?_eq_none_iff.1 hj)
    | some j =>
      obtain ⟨hlt', hname', -⟩ := List.idxOf?_eq_some_iff.1 hj
      refine .done ⟨f.name, ?_, ?_⟩
      · rw [List.getElem?_eq_getElem hlt, hname]
      · rw [List.getElem?_eq_getElem hlt', hname']

theorem failTogether_fieldCodec (h : AgreeByColumn header.columns header'.columns shapes shapes')
    (schema : UserType) (f : Field ColumnType) {i j : Nat}
    (hij : SameColumn header.columns header'.columns i j) :
    FailTogether Eq (fieldCodec header schema shapes f i)
      (fieldCodec header' schema shapes' f j) := by
  obtain ⟨shape, hi, hj⟩ := h.exists_getElem? hij
  simp only [fieldCodec, hi, hj]
  cases shape.codecFor f.type with
  | ok c => exact .done rfl
  | error e => exact .failed _ _

/-- Each column has the same codec on both sides. -/
theorem failTogether_fieldCodecs (hn : header.columns.Nodup) (hn' : header'.columns.Nodup)
    (h : AgreeByColumn header.columns header'.columns shapes shapes') (schema : UserType)
    (hs : List.Forall₂ (SameColumn header.columns header'.columns) slots slots') :
    FailTogether (AgreeByColumn header.columns header'.columns)
      (fieldCodecs header schema shapes slots) (fieldCodecs header' schema shapes' slots') := by
  have hfields : List.Forall₂ Eq schema.fields schema.fields := List.forall₂_refl _
  refine failTogether_foldlM ?_ (forall₂_zip hfields hs) (h.map FieldShape.codec)
  rintro ⟨f, i⟩ ⟨_, j⟩ ⟨rfl, hij⟩ codecs codecs' hcodecs
  refine failTogether_bind (failTogether_fieldCodec h schema f hij) ?_
  rintro c _ rfl
  exact .done (hcodecs.set hn hn' hij c)

/-- Where nothing is missing in one order, nothing is missing in the other. -/
theorem missing?_eq_none_of_agree (hn' : header'.columns.Nodup)
    (hsub : header'.columns ⊆ header.columns)
    (h : AgreeByColumn header.columns header'.columns shapes shapes')
    (hs : List.Forall₂ (SameColumn header.columns header'.columns) slots slots')
    (hmissing : missing? header shapes slots = none) : missing? header' shapes' slots' = none := by
  refine missing?_eq_none fun j shape hj hout => ?_
  obtain ⟨hlt, -⟩ := List.getElem?_eq_some_iff.1 hj
  obtain ⟨i, hij⟩ := exists_sameColumn hsub (h.length_right ▸ hlt)
  have hi : shapes[i]? = some shape := (h.getElem?_eq i j hij).trans hj
  exact nullable_of_missing? h.length_left.symm hmissing i shape hi
    fun hin => hout (hij.mem_slots hn' hs hin)

/-- Codecs of two records for one type, whose slots and codecs belong to the same columns. -/
inductive Counterparts (header header' : RecordHeader) (schema : UserType) : Codec → Codec → Prop
  | intro {slots slots' : List Nat} {codecs codecs' : List Codec}
    (hs : List.Forall₂ (SameColumn header.columns header'.columns) slots slots')
    (hc : AgreeByColumn header.columns header'.columns codecs codecs') :
    Counterparts header header' schema (.record header schema slots codecs)
      (.record header' schema slots' codecs')

theorem failTogether_reordered (hn : header.columns.Nodup) (hn' : header'.columns.Nodup)
    (hsame : ∀ column, column ∈ header.columns ↔ column ∈ header'.columns)
    (h : AgreeByColumn header.columns header'.columns shapes shapes') (schema : UserType) :
    FailTogether (Counterparts header header' schema) (reordered header shapes schema)
      (reordered header' shapes' schema) := by
  refine failTogether_bind (failTogether_slots hsame schema) fun slots slots' hs => ?_
  refine failTogether_bind (failTogether_fieldCodecs hn hn' h schema hs) fun cs cs' hcs => ?_
  have hs' : List.Forall₂ (SameColumn header'.columns header.columns) slots' slots :=
    hs.flip.imp fun _ _ hij => SameColumn.symm hij
  cases hm : missing? header shapes slots with
  | none =>
    rw [missing?_eq_none_of_agree hn' (fun c hc => (hsame c).2 hc) h hs hm]
    exact .done (.intro hs hcs)
  | some column =>
    cases hm' : missing? header' shapes' slots' with
    | none =>
      rw [missing?_eq_none_of_agree hn (fun c hc => (hsame c).1 hc) h.symm hs' hm'] at hm
      cases hm
    | some column' => exact .failed _ _

end

/-- Two sets of columns with their types are the same, in whatever order they are declared. -/
theorem agreeByColumn_of_zip {ts ts' : List α} (hn' : columns'.Nodup)
    (hlen : columns.length = ts.length) (hlen' : columns'.length = ts'.length)
    (same : ∀ p, p ∈ columns.zip ts → p ∈ columns'.zip ts') :
    AgreeByColumn columns columns' ts ts' := by
  refine ⟨hlen.symm, hlen'.symm, fun i j hij => ?_⟩
  obtain ⟨column, hi, hj⟩ := id hij
  obtain ⟨hlt, -⟩ := List.getElem?_eq_some_iff.1 hi
  have hlt' : i < ts.length := hlen ▸ hlt
  have ht : ts[i]? = some ts[i] := List.getElem?_eq_getElem hlt'
  have hzip : (columns.zip ts)[i]? = some (column, ts[i]) :=
    List.getElem?_zip_eq_some.2 ⟨hi, ht⟩
  obtain ⟨k, hk⟩ := List.mem_iff_getElem?.1 (same _ (List.mem_of_getElem? hzip))
  obtain ⟨hk, hk'⟩ := List.getElem?_zip_eq_some.1 hk
  obtain rfl : j = k := hij.right_unique hn' ⟨column, hi, hk⟩
  rw [ht, hk']

theorem mem_columns_iff_of_zip {ts ts' : List α} (hlen : columns.length = ts.length)
    (hlen' : columns'.length = ts'.length)
    (same : ∀ p, p ∈ columns.zip ts ↔ p ∈ columns'.zip ts') (column : String) :
    column ∈ columns ↔ column ∈ columns' := by
  rw [← List.map_fst_zip (Nat.le_of_eq hlen), ← List.map_fst_zip (Nat.le_of_eq hlen')]
  simp only [List.mem_map, same]

/-- Records with the same columns of the same types are reconciled together, as counterparts. -/
theorem failTogether_reconcile {header header' : RecordHeader} {ts ts' : List ValueType}
    (declared : header.WellFormed ts.length) (declared' : header'.WellFormed ts'.length)
    (same : ∀ p, p ∈ header.columns.zip ts ↔ p ∈ header'.columns.zip ts') (schema : UserType) :
    FailTogether (Counterparts header header' schema)
      (reconcile header (ValueType.fieldShapes ts) schema)
      (reconcile header' (ValueType.fieldShapes ts') schema) := by
  have hsame := mem_columns_iff_of_zip declared.columns declared'.columns same
  have hshapes : AgreeByColumn header.columns header'.columns (ValueType.fieldShapes ts)
      (ValueType.fieldShapes ts') := by
    rw [ValueType.fieldShapes_eq_map, ValueType.fieldShapes_eq_map]
    exact (agreeByColumn_of_zip declared'.nodup declared.columns declared'.columns
      fun p => (same p).1).map _
  rw [reconcile_eq_reordered declared.nodup declared.length_columns,
    reconcile_eq_reordered declared'.nodup declared'.length_columns]
  exact failTogether_reordered declared.nodup declared'.nodup hsame hshapes schema

/-- Both give a record, and the two agree by column. -/
def RecordsAgree (header header' : RecordHeader) (v v' : Value) : Prop :=
  ∃ vs vs', v = .record vs ∧ v' = .record vs' ∧
    AgreeByColumn header.columns header'.columns vs vs'

/-- Two records with the same columns of the same types, declared in any two orders, are reconciled
with the same user-defined types. Values that agree by column are stored as the same bytes, or
refused with the same error, and are written alike; and whatever bytes or text are read, both fail
or give values that agree by column. -/
theorem reconcile_of_same_columns {header header' : RecordHeader} {ts ts' : List ValueType}
    (declared : header.WellFormed ts.length) (declared' : header'.WellFormed ts'.length)
    (same : ∀ p, p ∈ header.columns.zip ts ↔ p ∈ header'.columns.zip ts') (schema : UserType) :
    let made := reconcile header (ValueType.fieldShapes ts) schema
    let made' := reconcile header' (ValueType.fieldShapes ts') schema
    ((∃ c, made = .ok c) ↔ ∃ c', made' = .ok c') ∧
    ∀ c c', made = .ok c → made' = .ok c' →
      (∀ vs vs', AgreeByColumn header.columns header'.columns vs vs' →
        c.encode (.record vs) = c'.encode (.record vs') ∧
          c.format (.record vs) = c'.format (.record vs')) ∧
      (∀ bytes, FailTogether (RecordsAgree header header') (c.decode bytes) (c'.decode bytes)) ∧
      ∀ text, FailTogether (RecordsAgree header header') (c.parse text) (c'.parse text) := by
  intro made made'
  have hmade : FailTogether (Counterparts header header' schema) made made' :=
    failTogether_reconcile declared declared' same schema
  refine ⟨hmade.exists_ok_iff, fun c c' hc hc' => ?_⟩
  obtain ⟨hs, hcs⟩ := hmade.of_ok hc hc'
  have hsame := mem_columns_iff_of_zip declared.columns declared'.columns same
  have hcodings := hcs.map Codec.coding
  rw [← Codec.codings_eq_map, ← Codec.codings_eq_map] at hcodings
  have hrecord : ∀ vs vs', AgreeByColumn header.columns header'.columns vs vs' →
      RecordsAgree header header' (.record vs) (.record vs') :=
    fun vs vs' h => ⟨vs, vs', rfl, rfl, h⟩
  refine ⟨fun vs vs' h => ⟨?_, ?_⟩, fun bytes => ?_, fun text => ?_⟩
  · exact encode_record_of_agree schema hs hcodings h
  · exact format_record_of_agree header.typeName header'.typeName hs hcodings h
  · exact failTogether_map (decode_record_of_agree declared.nodup declared'.nodup hsame hs hcodings
      bytes) hrecord
  · exact failTogether_map (parse_record_of_agree declared.nodup declared'.nodup hsame hs hcodings
      text) hrecord

/-- Three columns in two orders, stored in a type that lacks one of them and has the order of
neither. -/
theorem reconcile_of_same_columns_lacking :
    let header : RecordHeader :=
      ⟨"Address", "address", ["street", "zip", "note"], ["street", "zip", "note"]⟩
    let ts : List ValueType := [.base .string, .base .int32, .option (.base .string)]
    let header' : RecordHeader :=
      ⟨"Place", "address", ["note", "street", "zip"], ["note", "street", "zip"]⟩
    let ts' : List ValueType := [.option (.base .string), .base .string, .base .int32]
    let schema : UserType :=
      ⟨none, "address", [⟨"zip", .scalar .int⟩, ⟨"street", .scalar .text⟩], false⟩
    let vs : List Value := [.text ['a'], .int 7, .present (.text ['x'])]
    let vs' : List Value := [.present (.text ['x']), .text ['a'], .int 7]
    header.WellFormed ts.length ∧ header'.WellFormed ts'.length ∧
      (∀ p, p ∈ header.columns.zip ts ↔ p ∈ header'.columns.zip ts') ∧
      ∃ c c', reconcile header (ValueType.fieldShapes ts) schema = .ok c ∧
        reconcile header' (ValueType.fieldShapes ts') schema = .ok c' ∧
        c.encode (.record vs) = .ok (some [0, 0, 0, 4, 0, 0, 0, 7, 0, 0, 0, 1, 97]) ∧
        c.encode (.record vs) = c'.encode (.record vs') ∧
        c.format (.record vs) = c'.format (.record vs') ∧
        (∀ bytes, FailTogether (RecordsAgree header header') (c.decode bytes) (c'.decode bytes)) ∧
        ∀ text, FailTogether (RecordsAgree header header') (c.parse text) (c'.parse text) := by
  intro header ts header' ts' schema vs vs'
  have declared : header.WellFormed ts.length := ⟨by decide, rfl, rfl⟩
  have declared' : header'.WellFormed ts'.length := ⟨by decide, rfl, rfl⟩
  have same : ∀ p, p ∈ header.columns.zip ts ↔ p ∈ header'.columns.zip ts' := by
    intro p
    show p ∈ [("street", _), ("zip", _), ("note", _)] ↔ p ∈ [("note", _), ("street", _), ("zip", _)]
    simp only [List.mem_cons, List.not_mem_nil, or_false]
    exact or_rotate.symm
  obtain ⟨-, hagree⟩ := reconcile_of_same_columns declared declared' same schema
  obtain ⟨hvalues, hdecode, hparse⟩ := hagree
    (.record header schema [1, 0] [.scalar .text, .scalar .int, .option (.scalar .text)])
    (.record header' schema [2, 1] [.option (.scalar .text), .scalar .text, .scalar .int]) rfl rfl
  have hvs : AgreeByColumn header.columns header'.columns vs vs' :=
    agreeByColumn_of_zip declared'.nodup rfl rfl (by
      intro p hp
      show p ∈ [("note", _), ("street", _), ("zip", _)]
      have hp' : p ∈ [("street", _), ("zip", _), ("note", _)] := hp
      simp only [List.mem_cons, List.not_mem_nil, or_false] at hp' ⊢
      exact or_rotate.2 hp')
  obtain ⟨hencode, hformat⟩ := hvalues vs vs' hvs
  exact ⟨declared, declared', same, _, _, rfl, rfl, rfl, hencode, hformat, hdecode, hparse⟩

end CqlWire.Record
