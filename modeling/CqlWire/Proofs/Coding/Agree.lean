import CqlWire.Proofs.Coding.Storage

/-!
# Codings that agree

Two codings of one type of values agree (`Coding.Agree`) if they write the same literals, and if in
the other three directions they fail together or give the same bytes or the same value. The texts of
errors may differ, and so may the column types that the codings serve. Each way to make a coding of
other codings keeps this up: `agree_onValues`, `agree_option`, `agree_elements`, `agree_entries`,
and `agree_record` for user-defined types with fields of the same names.
-/

namespace CqlWire

open Text (nullWord isNullLiteral)

/-! ## The column type in errors -/

namespace Frame

theorem failTogether_require (type type' : ColumnType) (bytes : Option Bytes) :
    FailTogether Eq (require type bytes) (require type' bytes) :=
  failTogether_of_ok_iff fun _ => require_eq_ok_iff.trans require_eq_ok_iff.symm

theorem failTogether_read (type type' : ColumnType) (bs : Bytes) :
    FailTogether Eq (read type bs) (read type' bs) :=
  failTogether_of_ok_iff fun _ => read_eq_ok_iff.trans read_eq_ok_iff.symm

theorem failTogether_readCount (type type' : ColumnType) (bs : Bytes) :
    FailTogether Eq (readCount type bs) (readCount type' bs) :=
  failTogether_of_ok_iff fun _ => readCount_eq_ok_iff.trans readCount_eq_ok_iff.symm

theorem failTogether_expectEnd (type type' : ColumnType) (bs : Bytes) :
    FailTogether Eq (expectEnd type bs) (expectEnd type' bs) :=
  failTogether_of_ok_iff fun _ => expectEnd_eq_ok_iff.trans expectEnd_eq_ok_iff.symm

end Frame

/-- The position of a field depends on the names of the fields only. -/
theorem UserTypeOver.map_fst_field? (u : UserType) (name : String) :
    (u.field? name).map Prod.fst = (u.fields.map Field.name).idxOf? name := by
  -- The positions count on from that of the first field.
  have hfrom : ∀ (fields : List (Field ColumnType)) (start : Nat),
      ((fields.zipIdx start).findSome? fun p =>
        if p.1.name = name then some (p.2, p.1) else none).map Prod.fst =
        ((fields.map Field.name).idxOf? name).map (· + start) := by
    intro fields
    induction fields with
    | nil => exact fun _ => rfl
    | cons f fields ih =>
      intro start
      rw [List.zipIdx_cons, List.findSome?_cons, List.map_cons, List.idxOf?_cons]
      by_cases hname : f.name = name
      · simp [hname]
      · have hne : (f.name == name) = false := beq_false_of_ne hname
        simp only [if_neg hname, hne, ih, Bool.false_eq_true, if_false, Option.map_map]
        exact congrFun (congrArg Option.map (funext fun i => Nat.add_right_comm i start 1)) _
  exact (hfrom u.fields 0).trans (Option.map_id_apply ..)

theorem UserTypeOver.isSome_field?_iff {u : UserType} {name : String} :
    (u.field? name).isSome ↔ ∃ f ∈ u.fields, f.name = name := by
  rw [← Option.isSome_map (f := Prod.fst), u.map_fst_field?, List.isSome_idxOf?, List.mem_map]

/-- A look-up by name finds the first field of the name. -/
theorem UserTypeOver.field?_eq_some_iff {u : UserType} {name : String} {p : Nat}
    {f : Field ColumnType} : u.field? name = some (p, f) ↔
      u.fields[p]? = some f ∧ f.name = name ∧
        ∀ q < p, ∀ g, u.fields[q]? = some g → g.name ≠ name := by
  have hfield : ∀ {q : Nat} {g : Field ColumnType}, u.field? name = some (q, g) →
      u.fields[q]? = some g := by
    intro q g h
    obtain ⟨⟨g', q'⟩, hmem, hg⟩ := List.exists_of_findSome?_eq_some h
    dsimp only at hg
    split at hg
    · cases hg
      exact List.mem_zipIdx_iff_getElem?.1 hmem
    · cases hg
  have hplace := u.map_fst_field? name
  constructor
  · intro h
    have hp := hfield h
    rw [h, Option.map_some, eq_comm, List.idxOf?_eq_some_iff] at hplace
    obtain ⟨hlt, hname, hbefore⟩ := hplace
    obtain ⟨hlt', hf⟩ := List.getElem?_eq_some_iff.1 hp
    refine ⟨hp, ?_, fun q hq g hg hgname => ?_⟩
    · rw [List.getElem_map, hf] at hname
      exact hname
    · obtain ⟨hqlt, rfl⟩ := List.getElem?_eq_some_iff.1 hg
      refine hbefore q hq ?_
      rw [List.getElem_map]
      exact hgname
  · rintro ⟨hp, hname, hbefore⟩
    obtain ⟨hlt, hf⟩ := List.getElem?_eq_some_iff.1 hp
    have hidx : (u.fields.map Field.name).idxOf? name = some p := by
      rw [List.idxOf?_eq_some_iff]
      refine ⟨by rwa [List.length_map], by rw [List.getElem_map, hf, hname], fun q hq heq => ?_⟩
      rw [List.getElem_map] at heq
      exact hbefore q hq _ (List.getElem?_eq_getElem (Nat.lt_trans hq hlt)) heq
    rw [hidx] at hplace
    obtain ⟨⟨q, g⟩, hg, rfl⟩ := Option.map_eq_some_iff.1 hplace
    have hq := hfield hg
    rw [hp, Option.some.injEq] at hq
    rw [hg, hq]

/-- A name that no other field has leads to its field. -/
theorem UserTypeOver.field?_name {u : UserType} (hnames : (u.fields.map Field.name).Nodup) {p : Nat}
    {f : Field ColumnType} (hf : u.fields[p]? = some f) : u.field? f.name = some (p, f) := by
  refine field?_eq_some_iff.2 ⟨hf, rfl, fun q hq g hg hname => ?_⟩
  have hsame : (u.fields.map Field.name)[q]? = (u.fields.map Field.name)[p]? := by
    rw [List.getElem?_map, List.getElem?_map, hg, hf, Option.map_some, Option.map_some, hname]
  obtain ⟨hlt, -⟩ := List.getElem?_eq_some_iff.1 hg
  have hqp : q = p := (List.getElem?_inj (by rwa [List.length_map]) hnames).1 hsame
  omega

namespace Coding

variable {α β : Type}

theorem failTogether_orRefuse {ε : Type} (type type' : ColumnType) (text : List Char)
    (message : ε → String) (x : Except ε α) :
    FailTogether Eq (orRefuse type text message x) (orRefuse type' text message x) := by
  cases x with
  | ok a => exact .done rfl
  | error e => exact .failed _ _

/-! ## Agreement -/

/-- Both write the same literals, and store and read alike as far as they succeed. -/
structure Agree (c d : Coding α) : Prop where
  encode : ∀ a, FailTogether Eq (c.encode a) (d.encode a)
  decode : ∀ bytes, FailTogether Eq (c.decode bytes) (d.decode bytes)
  format : ∀ a, c.format a = d.format a
  parse : ∀ text, FailTogether Eq (c.parse text) (d.parse text)

theorem agree_refl (c : Coding α) : c.Agree c :=
  ⟨fun _ => failTogether_self _, fun _ => failTogether_self _, fun _ => rfl,
    fun _ => failTogether_self _⟩

section

variable {c d : Coding α}

theorem agree_onValues (h : c.Agree d) (toValue : α → Value) (ofValue? : Value → Option α) :
    (c.onValues toValue ofValue?).Agree (d.onValues toValue ofValue?) := by
  refine ⟨fun v => ?_, fun bytes => ?_, fun v => ?_, fun text => ?_⟩
  · simp only [onValues]
    cases ofValue? v with
    | some a => exact h.encode a
    | none => exact .failed _ _
  · exact failTogether_map (h.decode bytes) fun _ _ hab => congrArg toValue hab
  · simp only [onValues]
    cases ofValue? v with
    | some a => exact h.format a
    | none => rfl
  · exact failTogether_map (h.parse text) fun _ _ hab => congrArg toValue hab

theorem agree_option (h : c.Agree d) : c.option.Agree d.option := by
  refine ⟨fun a => ?_, fun bytes => ?_, fun a => ?_, fun text => ?_⟩
  · cases a with
    | some a => exact h.encode a
    | none => exact .done rfl
  · cases bytes with
    | some bs => exact failTogether_map (h.decode (some bs)) fun _ _ hab => congrArg some hab
    | none => exact .done rfl
  · cases a with
    | some a => exact h.format a
    | none => rfl
  · simp only [option]
    split
    · exact .done rfl
    · exact failTogether_map (h.parse text) fun _ _ hab => congrArg some hab

/-! ## Lists and sets -/

theorem failTogether_encodeElement (h : c.Agree d) (type type' : ColumnType) (allowsNull : Bool)
    (a : α) : FailTogether Eq (encodeElement type allowsNull c a)
      (encodeElement type' allowsNull d a) := by
  refine failTogether_bind (h.encode a) ?_
  rintro raw _ rfl
  cases raw with
  | some bs => exact failTogether_self _
  | none =>
    cases allowsNull
    · exact .failed _ _
    · exact failTogether_self _

theorem failTogether_encodeElements (h : c.Agree d) (type type' : ColumnType) (allowsNull : Bool)
    (as : List α) : FailTogether Eq (encodeElements type allowsNull c as)
      (encodeElements type' allowsNull d as) := by
  refine failTogether_bind (failTogether_self (Frame.writeCount as.length)) ?_
  rintro count _ rfl
  refine failTogether_bind
    (failTogether_mapM_eq (failTogether_encodeElement h type type' allowsNull) as) ?_
  rintro frames _ rfl
  exact .done rfl

theorem failTogether_decodeElements (h : c.Agree d) (type type' : ColumnType) (allowsNull : Bool)
    (count index : Nat) (bs : Bytes) :
    FailTogether Eq (decodeElements type allowsNull c count index bs)
      (decodeElements type' allowsNull d count index bs) := by
  induction count generalizing index bs with
  | zero => exact .done rfl
  | succ count ih =>
    refine failTogether_bind (Frame.failTogether_read type type' bs) ?_
    rintro ⟨raw, bs⟩ _ rfl
    refine failTogether_bind (failTogether_refuseIf _ _) fun _ _ _ => ?_
    refine failTogether_bind (h.decode raw) ?_
    rintro a _ rfl
    refine failTogether_bind (ih (index + 1) bs) ?_
    rintro ⟨as, bs⟩ _ rfl
    exact .done rfl

theorem failTogether_parseElement (h : c.Agree d) (type type' : ColumnType) (allowsNull : Bool)
    (text part : List Char) : FailTogether Eq (parseElement type allowsNull c text part)
      (parseElement type' allowsNull d text part) := by
  unfold parseElement
  split
  · exact .failed _ _
  · exact h.parse part

theorem agree_elements (h : c.Agree d) (kind : CollectionKind) (frozen frozen' : Bool) :
    (elements kind frozen c).Agree (elements kind frozen' d) := by
  refine ⟨fun as => ?_, fun bytes => ?_, fun as => ?_, fun text => ?_⟩
  · exact failTogether_map (failTogether_encodeElements h _ _ _ as) fun _ _ => congrArg some
  · refine failTogether_bind (Frame.failTogether_require _ _ bytes) ?_
    rintro bs _ rfl
    dsimp only
    split
    · exact .done rfl
    · refine failTogether_bind (Frame.failTogether_readCount _ _ bs) ?_
      rintro ⟨count, bs⟩ _ rfl
      refine failTogether_bind (failTogether_decodeElements h _ _ _ count 0 bs) ?_
      rintro ⟨as, rest⟩ _ rfl
      refine failTogether_bind (Frame.failTogether_expectEnd _ _ rest) fun _ _ _ => ?_
      exact .done rfl
  · exact congrArg braced (List.map_congr_left fun a _ => h.format a)
  · refine failTogether_bind (failTogether_orRefuse _ _ text _ _) ?_
    rintro parts _ rfl
    exact failTogether_mapM_eq (failTogether_parseElement h _ _ _ text) parts

end

/-! ## Maps -/

section

variable {k l : Coding α} {c d : Coding β}

theorem failTogether_encodeEntry (hk : k.Agree l) (h : c.Agree d) (type type' : ColumnType)
    (e : α × β) : FailTogether Eq (encodeEntry type k c e) (encodeEntry type' l d e) := by
  refine failTogether_bind (hk.encode e.1) ?_
  rintro raw _ rfl
  cases raw with
  | none => exact .failed _ _
  | some key =>
    refine failTogether_bind (failTogether_self _) ?_
    rintro key _ rfl
    refine failTogether_bind (h.encode e.2) ?_
    rintro value _ rfl
    exact failTogether_self _

theorem failTogether_decodeEntries (hk : k.Agree l) (h : c.Agree d) (type type' : ColumnType)
    (count index : Nat) (bs : Bytes) : FailTogether Eq (decodeEntries type k c count index bs)
      (decodeEntries type' l d count index bs) := by
  induction count generalizing index bs with
  | zero => exact .done rfl
  | succ count ih =>
    refine failTogether_bind (Frame.failTogether_read type type' bs) ?_
    rintro ⟨rawKey, bs⟩ _ rfl
    refine failTogether_bind (failTogether_refuseIf _ _) fun _ _ _ => ?_
    refine failTogether_bind (Frame.failTogether_read type type' bs) ?_
    rintro ⟨rawValue, bs⟩ _ rfl
    refine failTogether_bind (hk.decode rawKey) ?_
    rintro key _ rfl
    refine failTogether_bind (h.decode rawValue) ?_
    rintro value _ rfl
    refine failTogether_bind (ih (index + 1) bs) ?_
    rintro ⟨es, bs⟩ _ rfl
    exact .done rfl

theorem failTogether_parseEntry (hk : k.Agree l) (h : c.Agree d) (type type' : ColumnType)
    (text : List Char) (part : List Char × List Char) :
    FailTogether Eq (parseEntry type k c text part) (parseEntry type' l d text part) := by
  refine failTogether_bind (failTogether_refuseIf _ _) fun _ _ _ => ?_
  refine failTogether_bind (hk.parse part.1) ?_
  rintro key _ rfl
  refine failTogether_bind (h.parse part.2) ?_
  rintro value _ rfl
  exact .done rfl

theorem agree_entries (hk : k.Agree l) (h : c.Agree d) (frozen frozen' : Bool) :
    (entries frozen k c).Agree (entries frozen' l d) := by
  refine ⟨fun es => ?_, fun bytes => ?_, fun es => ?_, fun text => ?_⟩
  · refine failTogether_bind (failTogether_self (Frame.writeCount es.length)) ?_
    rintro count _ rfl
    refine failTogether_bind (failTogether_mapM_eq (failTogether_encodeEntry hk h _ _) es) ?_
    rintro frames _ rfl
    exact .done rfl
  · refine failTogether_bind (Frame.failTogether_require _ _ bytes) ?_
    rintro bs _ rfl
    dsimp only
    split
    · exact .done rfl
    · refine failTogether_bind (Frame.failTogether_readCount _ _ bs) ?_
      rintro ⟨count, bs⟩ _ rfl
      refine failTogether_bind (failTogether_decodeEntries hk h _ _ count 0 bs) ?_
      rintro ⟨es, rest⟩ _ rfl
      refine failTogether_bind (Frame.failTogether_expectEnd _ _ rest) fun _ _ _ => ?_
      exact .done rfl
  · refine congrArg braced (List.map_congr_left fun e _ => ?_)
    rw [hk.format, h.format]
  · refine failTogether_bind (failTogether_orRefuse _ _ text _ _) ?_
    rintro parts _ rfl
    exact failTogether_mapM_eq (failTogether_parseEntry hk h _ _ text) parts

end

/-! ## Records -/

section

variable {schema schema' : UserType} {cs ds : List (Coding α)}

/-- Fields at one place agree, or are missing together. -/
theorem agree_getElem? (h : List.Forall₂ Agree cs ds) (index : Nat) :
    (cs[index]? = none ∧ ds[index]? = none) ∨
      ∃ c d, cs[index]? = some c ∧ ds[index]? = some d ∧ c.Agree d := by
  obtain ⟨hlen, hget⟩ := List.forall₂_iff_get.1 h
  by_cases hlt : index < cs.length
  · have hlt' : index < ds.length := by rwa [← hlen]
    exact .inr ⟨_, _, List.getElem?_eq_getElem hlt, List.getElem?_eq_getElem hlt',
      hget index hlt hlt'⟩
  · have hge : cs.length ≤ index := Nat.not_lt.1 hlt
    exact .inl ⟨List.getElem?_eq_none hge, List.getElem?_eq_none (hlen ▸ hge)⟩

theorem failTogether_encodeField (h : List.Forall₂ Agree cs ds) (typeName : String) (as : List α)
    (index : Nat) :
    FailTogether Eq (encodeField typeName cs as index) (encodeField typeName ds as index) := by
  unfold encodeField
  rcases agree_getElem? h index with ⟨hc, hd⟩ | ⟨c, d, hc, hd, hagree⟩
  · rw [hc, hd]
    exact .failed _ _
  · rw [hc, hd]
    cases as[index]? with
    | some a => exact hagree.encode a
    | none => exact .failed _ _

theorem formatField_of_agree (h : List.Forall₂ Agree cs ds) (as : List α) (index : Nat) :
    formatField cs as index = formatField ds as index := by
  unfold formatField
  rcases agree_getElem? h index with ⟨hc, hd⟩ | ⟨c, d, hc, hd, hagree⟩
  · rw [hc, hd]
  · rw [hc, hd]
    cases as[index]? with
    | some a => exact hagree.format a
    | none => rfl

/-- A literal depends on the names of the fields only. -/
theorem format_record (typeName : String) (schema : UserType) (slots : List Nat)
    (cs : List (Coding α)) (as : List α) : (record typeName schema slots cs).format as =
      braced (((schema.fields.map Field.name).zip slots).map fun p =>
        p.1.toList ++ ':' :: formatField cs as p.2) := by
  rw [List.zip_map_left, List.map_map]
  rfl

theorem failTogether_readSlots (type type' : ColumnType) (slots : List Nat) (bs : Bytes)
    (values : List (Option Bytes)) :
    FailTogether Eq (readSlots type slots bs values) (readSlots type' slots bs values) := by
  induction slots generalizing bs values with
  | nil => exact .done rfl
  | cons slot slots ih =>
    rw [readSlots, readSlots]
    split
    · exact .done rfl
    · refine failTogether_bind (Frame.failTogether_read type type' bs) ?_
      rintro ⟨value, rest⟩ _ rfl
      exact ih rest (values.set slot value)

/-- Names lead to the same places where the fields have the same names. -/
theorem failTogether_placeLiterals
    (hnames : schema.fields.map Field.name = schema'.fields.map Field.name) (slots : List Nat)
    (text : List Char) (parts : List (List Char × List Char))
    (literals : List (Option (List Char))) :
    FailTogether Eq (placeLiterals schema slots text parts literals)
      (placeLiterals schema' slots text parts literals) := by
  induction parts generalizing literals with
  | nil => exact .done rfl
  | cons part parts ih =>
    obtain ⟨name, literal⟩ := part
    have hplace : (schema.field? (String.ofList name)).map Prod.fst =
        (schema'.field? (String.ofList name)).map Prod.fst := by
      rw [UserTypeOver.map_fst_field?, UserTypeOver.map_fst_field?, hnames]
    rw [placeLiterals, placeLiterals]
    cases hfound : schema.field? (String.ofList name) with
    | none =>
      cases hfound' : schema'.field? (String.ofList name) with
      | none => exact .failed _ _
      | some found' =>
        rw [hfound, hfound'] at hplace
        cases hplace
    | some found =>
      cases hfound' : schema'.field? (String.ofList name) with
      | none =>
        rw [hfound, hfound'] at hplace
        cases hplace
      | some found' =>
        obtain ⟨position, f⟩ := found
        obtain ⟨position', f'⟩ := found'
        rw [hfound, hfound', Option.map_some, Option.map_some, Option.some.injEq] at hplace
        obtain rfl : position = position' := hplace
        dsimp only
        cases slots[position]? with
        | none => exact ih literals
        | some slot => exact ih (literals.set slot (some literal))

/-- Each declared field is read from its own bytes or literal. -/
theorem failTogether_mapM_zip {γ : Type} (h : List.Forall₂ Agree cs ds)
    {f g : Coding α × γ → Except Error α}
    (hfg : ∀ c d, c.Agree d → ∀ x, FailTogether Eq (f (c, x)) (g (d, x))) (xs : List γ) :
    FailTogether Eq ((cs.zip xs).mapM f) ((ds.zip xs).mapM g) := by
  rw [← List.forall₂_eq_eq_eq]
  have hself : List.Forall₂ Eq xs xs := List.forall₂_refl xs
  refine failTogether_mapM ?_ (forall₂_zip h hself)
  rintro ⟨c, x⟩ ⟨d, _⟩ ⟨hcd, rfl⟩
  exact hfg c d hcd x

theorem map_none_of_agree {γ : Type} (h : List.Forall₂ Agree cs ds) :
    (cs.map fun _ => (none : Option γ)) = ds.map fun _ => none := by
  rw [List.map_const', List.map_const', h.length_eq]

theorem agree_record (hnames : schema.fields.map Field.name = schema'.fields.map Field.name)
    (h : List.Forall₂ Agree cs ds) (typeName : String) (slots : List Nat) :
    (record typeName schema slots cs).Agree (record typeName schema' slots ds) := by
  refine ⟨fun as => ?_, fun bytes => ?_, fun as => ?_, fun text => ?_⟩
  · refine failTogether_map ?_ fun _ _ => congrArg some
    refine failTogether_bind (failTogether_mapM_eq (fun index => ?_) slots) ?_
    · refine failTogether_bind (failTogether_encodeField h typeName as index) ?_
      rintro raw _ rfl
      exact failTogether_self _
    · rintro frames _ rfl
      exact .done rfl
  · refine failTogether_bind (Frame.failTogether_require _ _ bytes) ?_
    rintro bs _ rfl
    dsimp only
    rw [map_none_of_agree h]
    refine failTogether_bind (failTogether_readSlots _ _ slots bs _) ?_
    rintro ⟨values, rest⟩ _ rfl
    refine failTogether_bind (failTogether_refuseIf _ _) fun _ _ _ => ?_
    exact failTogether_mapM_zip h (fun c d hcd bytes => hcd.decode bytes) values
  · rw [format_record, format_record, hnames]
    refine congrArg braced (List.map_congr_left fun p _ => ?_)
    rw [formatField_of_agree h]
  · refine failTogether_bind (failTogether_orRefuse _ _ text _ _) ?_
    rintro parts _ rfl
    dsimp only
    rw [map_none_of_agree h]
    refine failTogether_bind (failTogether_placeLiterals hnames slots text parts _) ?_
    rintro literals _ rfl
    exact failTogether_mapM_zip h (fun c d hcd literal => hcd.parse _) literals

end

end Coding

end CqlWire
