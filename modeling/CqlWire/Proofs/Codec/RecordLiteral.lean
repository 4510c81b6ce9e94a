import CqlWire.Proofs.Codec.DeclaredOrder
import CqlWire.Proofs.Codec.Literal
import CqlWire.Proofs.Codec.LiveStorage
import CqlWire.Proofs.Codec.Null

/-!
# Literals of records in live user-defined types

A record is written in the order of the type that it is stored in, and read by the names of the
fields. If its values have exact literals (`ValueType.IsVerbatim`) and the names stand for
themselves (`ColumnType.HasBareNames`), the codec for the type has exact literals
(`Codec.hasExactLiterals_codecFor`, by induction on the value type), so a record is read back
without the columns that the type lacks. No codec tells one spelling of NULL from another
(`Codec.readsNullAlike`), and different names lead to different columns
(`Record.namesLeadApart_of_named`); so neither the order of the entries matters, nor whether a field
is NULL or left out (`Record.literal_read_in_any_order`).
-/

namespace CqlWire

open Text (isNullLiteral)
open Literal (IsBareName splitEntries)

/-! ## Types with exact literals -/

/-- The types whose literals are quoted texts, words of a fixed set, or the digits of an exact
number or of bytes. -/
def BaseType.IsVerbatim : BaseType → Prop
  | .float32 | .float64 | .instant | .date | .time | .inet => False
  | _ => True

namespace ValueType

mutual

/-- All values in it have exact literals. -/
def IsVerbatim : ValueType → Prop
  | .base b => b.IsVerbatim
  | .enumeration _ => True
  | .option t | .sequence _ t => t.IsVerbatim
  | .mapping _ k t => k.IsVerbatim ∧ t.IsVerbatim
  | .record _ ts => AllVerbatim ts
termination_by structural t => t

/-- The same of several types. -/
def AllVerbatim : List ValueType → Prop
  | [] => True
  | t :: ts => t.IsVerbatim ∧ AllVerbatim ts
termination_by structural ts => ts

end

end ValueType

namespace ColumnType

mutual

/-- The fields of all user-defined types in it have names that stand for themselves in literals. -/
def HasBareNames : ColumnType → Prop
  | .scalar _ => True
  | .list _ c | .set _ c => c.HasBareNames
  | .map _ k c => k.HasBareNames ∧ c.HasBareNames
  | .user ⟨_, _, fields, _⟩ => AllHaveBareNames fields
termination_by structural c => c

/-- The same of several fields. -/
def AllHaveBareNames : List (Field ColumnType) → Prop
  | [] => True
  | ⟨name, c⟩ :: fields => IsBareName name.toList ∧ c.HasBareNames ∧ AllHaveBareNames fields
termination_by structural fields => fields

end

theorem hasBareNames_of_mem {fields : List (Field ColumnType)} (h : AllHaveBareNames fields) :
    ∀ f ∈ fields, IsBareName f.name.toList ∧ f.type.HasBareNames := by
  induction fields with
  | nil => exact List.forall_mem_nil _
  | cons f fields ih => exact List.forall_mem_cons.2 ⟨⟨h.1, h.2.1⟩, ih h.2.2⟩

end ColumnType

/-! ## Codecs for live column types -/

namespace Codec

theorem hasExactLiterals_base {b : BaseType} (h : b.IsVerbatim) : b.codec.HasExactLiterals := by
  cases b with
  | float32 | float64 | instant | date | time | inet => exact h.elim
  | _ => trivial

theorem fieldsHaveExactLiterals {slots : List Nat} (index : Nat) {cs : List Codec}
    (h : ∀ i c, cs[i]? = some c → index + i ∈ slots → c.HasExactLiterals) :
    FieldsHaveExactLiterals slots index cs := by
  induction cs generalizing index with
  | nil => trivial
  | cons c cs ih =>
    refine ⟨h 0 c rfl, ih (index + 1) fun i c hc hin => ?_⟩
    rw [Nat.add_right_comm, Nat.add_assoc] at hin
    exact h (i + 1) c hc hin

/-- The codec that a record is reconciled into, where those of its fields have exact literals. -/
theorem hasExactLiterals_reconcile {header : RecordHeader} {ts : List ValueType} {u : UserType}
    {c : Codec} (hcolumns : header.columns.length = ts.length)
    (hu : (ColumnType.user u).HasDistinctFields) (hn : (ColumnType.user u).HasBareNames)
    (ih : ∀ t ∈ ts, ∀ type : ColumnType, type.HasDistinctFields → type.HasBareNames →
      ∀ c, t.codecFor type = .ok c → c.HasExactLiterals)
    (h : Record.reconcile header (ValueType.fieldShapes ts) u = .ok c) : c.HasExactLiterals := by
  have hshapes := ValueType.length_fieldShapes ts
  obtain ⟨slots, codecs, rfl, hmade⟩ :=
    Record.reconciled_of_reconcile (hcolumns.trans hshapes.symm) h
  have hnames := ColumnType.hasBareNames_of_mem hn
  refine ⟨⟨hu.1, Record.slots_nodup hmade.named hu.1, hmade.named.length_eq,
    fun f hf => (hnames f hf).1⟩, fieldsHaveExactLiterals 0 fun i c hc hin => ?_⟩
  rw [Nat.zero_add] at hin
  -- The codec of a column that a slot names is the one for the type of its field.
  obtain ⟨f, hp⟩ := Record.exists_field hmade.named hin
  obtain ⟨c', hc', hget⟩ := (hmade.codecs_spec hu.1).2.1 _ hp
  obtain rfl : c = c' := Option.some.inj (hc.symm.trans hget)
  obtain ⟨shape, hshape, hfor⟩ := Record.fieldCodec_eq_ok_iff.1 hc'
  rw [ValueType.fieldShapes_eq_map, List.getElem?_map, Option.map_eq_some_iff] at hshape
  obtain ⟨t, ht, rfl⟩ := hshape
  have hf := (List.of_mem_zip hp).1
  exact ih t (List.mem_of_getElem? ht) f.type (ColumnType.hasDistinctFields_of_mem hu.2 f hf)
    (hnames f hf).2 c hfor

mutual

/-- The codec for a column type has exact literals if the values have them. -/
theorem hasExactLiterals_codecFor {t : ValueType} (ht : t.WellFormed) (hv : t.IsVerbatim)
    {type : ColumnType} (hd : type.HasDistinctFields) (hn : type.HasBareNames) {c : Codec}
    (h : t.codecFor type = .ok c) : c.HasExactLiterals := by
  match t with
  | .base b =>
    simp only [ValueType.codecFor, ValueType.defaultFor] at h
    split at h
    · cases h
      exact hasExactLiterals_base hv
    · cases h
  | .enumeration e =>
    simp only [ValueType.codecFor, ValueType.defaultFor] at h
    split at h
    · cases h
      trivial
    · cases h
  | .option t =>
    obtain ⟨inner, hi, rfl⟩ := map_eq_ok_iff.1 h
    exact hasExactLiterals_codecFor (t := t) (c := inner) ht hv hd hn hi
  | .sequence into t =>
    unfold ValueType.codecFor at h
    split at h
    · rename_i frozen element _
      have hd' : element.HasDistinctFields := hd
      obtain ⟨inner, hi, rfl⟩ := map_eq_ok_iff.1 h
      exact hasExactLiterals_codecFor (t := t) (c := inner) ht hv hd' hn hi
    · rename_i frozen element _
      have hd' : element.HasDistinctFields := hd
      obtain ⟨inner, hi, rfl⟩ := map_eq_ok_iff.1 h
      exact hasExactLiterals_codecFor (t := t) (c := inner) ht hv hd' hn hi
    · cases h
  | .mapping into k t =>
    unfold ValueType.codecFor at h
    split at h
    · simp only [bind_eq_ok_iff, pure_eq_ok_iff] at h
      obtain ⟨key, hk, value, hvalue, rfl⟩ := h
      exact ⟨hasExactLiterals_codecFor ht.1 hv.1 hd.1 hn.1 hk,
        hasExactLiterals_codecFor ht.2 hv.2 hd.2 hn.2 hvalue⟩
    · cases h
  | .record header ts =>
    unfold ValueType.codecFor at h
    split at h
    · split at h
      · exact hasExactLiterals_reconcile ht.1.columns hd hn (hasExactLiterals_fields ht.2 hv) h
      · cases h
    · cases h

/-- The same of several types. -/
theorem hasExactLiterals_fields {ts : List ValueType} (hts : ValueType.AllWellFormed ts)
    (hv : ValueType.AllVerbatim ts) : ∀ t ∈ ts, ∀ type : ColumnType, type.HasDistinctFields →
      type.HasBareNames → ∀ c, t.codecFor type = .ok c → c.HasExactLiterals := by
  match ts with
  | [] => exact List.forall_mem_nil _
  | t :: ts =>
    exact List.forall_mem_cons.2 ⟨fun _ hd hn _ h => hasExactLiterals_codecFor hts.1 hv.1 hd hn h,
      hasExactLiterals_fields hts.2 hv.2⟩

end

/-- What is written is read as what the column type has a place for. -/
theorem parse_of_follows {c : Codec} {t : ValueType} {type : ColumnType} (h : c.Follows t type)
    (hs : c.HasExactLiterals) {v w : Value} (hv : t.Holds v) (hw : t.Listing v w)
    (hd : v.HasWritableScales) {b : Option Bytes} (hb : c.encode w = .ok b) :
    c.parse (c.format w) = .ok (t.restrict type v) := by
  obtain ⟨hserves, hkept⟩ := h
  obtain rfl := hserves.valueType_eq
  rw [← hkept v]
  exact (reparses_kept hserves.regular hs hv hw hd b hb).parse_format

/-- No codec tells one spelling of NULL from another. -/
theorem readsNullAlike (c : Codec) : c.coding.ReadsNullAlike := by
  intro text text' htext htext'
  by_cases ho : c.IsOption
  · rw [parse_null_of_isOption ho htext, parse_null_of_isOption ho htext']
    exact .done rfl
  · have hlacks := lacksNull_of_not_isOption ho
    obtain ⟨e, he⟩ := hlacks.parse_null text htext
    obtain ⟨e', he'⟩ := hlacks.parse_null text' htext'
    rw [he, he']
    exact .failed e e'

end Codec

/-! ## Records -/

namespace Record

variable {header : RecordHeader} {ts : List ValueType} {u : UserType} {c : Codec}

/-- Each name leads to the column of that name. -/
theorem namesLeadApart_of_named {slots : List Nat}
    (named : List.Forall₂ (fun f slot => header.columns[slot]? = some f.name) u.fields slots) :
    Coding.NamesLeadApart u slots := by
  have hcolumn : ∀ name i, Coding.slotOf? u slots name = some i →
      header.columns[i]? = some (String.ofList name) := by
    intro name i h
    obtain ⟨⟨p, f⟩, hfound, hslot⟩ := Option.bind_eq_some_iff.1 h
    obtain ⟨hf, hname, -⟩ := UserTypeOver.field?_eq_some_iff.1 hfound
    obtain ⟨slot, hslot', hnamed⟩ := getElem?_of_forall₂ named hf
    obtain rfl : i = slot := Option.some.inj (hslot.symm.trans hslot')
    rw [hnamed, hname]
  intro name name' i h h'
  have hsame := (hcolumn name i h).symm.trans (hcolumn name' i h')
  exact String.ofList_injective (Option.some.inj hsame)

theorem reconcile_of_made (declared : header.WellFormed ts.length)
    (made : identical header (ValueType.fieldShapes ts) u = .ok c ∨
      reordered header (ValueType.fieldShapes ts) u = .ok c) :
    reconcile header (ValueType.fieldShapes ts) u = .ok c := by
  rcases made with made | made
  · obtain ⟨_, hdeclared, _⟩ := bind_eq_ok_iff.1 made
    have h : isDeclaredOrder header u = true := by simpa using refuseIf_eq_ok_iff.1 hdeclared
    rw [reconcile, if_pos h, made]
  · rw [reconcile_eq_reordered declared.nodup declared.length_columns, made]

/-- A record that is stored by positions or by names is read back from its literal, except that the
fields that the types lack are absent. And any two literals with the same entries, in whatever order
and with or without entries of NULL, are read as the same record, or both refused. -/
theorem literal_read_in_any_order (declared : header.WellFormed ts.length)
    (made : identical header (ValueType.fieldShapes ts) u = .ok c ∨
      reordered header (ValueType.fieldShapes ts) u = .ok c) :
    let t := ValueType.record header ts
    (t.Storable → t.IsVerbatim → (ColumnType.user u).HasDistinctFields →
      (ColumnType.user u).HasBareNames → ∀ v w b, t.Holds v → t.Listing v w →
        v.HasWritableScales → c.encode w = .ok b →
          c.parse (c.format w) = .ok (t.restrict (.user u) v)) ∧
    ∀ text text' parts parts', splitEntries '\x7b' '\x7d' text = .ok parts →
      splitEntries '\x7b' '\x7d' text' = .ok parts' → Coding.Rearranges u parts parts' →
        FailTogether Eq (c.parse text) (c.parse text') := by
  intro t
  have hc := reconcile_of_made declared made
  refine ⟨fun ht hv hd hn v w b hholds hw hscales hb => ?_, ?_⟩
  · have hfollows := Codec.follows_reconcile ht hd (Codec.follows_fields ht.2) hc
    have hexact := Codec.hasExactLiterals_reconcile declared.columns hd hn
      (Codec.hasExactLiterals_fields (ValueType.allWellFormed_of_allStorable ht.2) hv) hc
    exact Codec.parse_of_follows hfollows hexact hholds hw hscales hb
  · intro text text' parts parts' hsplit hsplit' hr
    obtain ⟨slots, codecs, rfl, hmade⟩ := reconciled_of_reconcile declared.length_columns hc
    have hnull : ∀ k ∈ Codec.codings codecs, k.ReadsNullAlike := by
      rw [Codec.codings_eq_map]
      exact List.forall_mem_map.2 fun k _ => k.readsNullAlike
    have hlead := namesLeadApart_of_named hmade.named
    exact failTogether_map (Coding.failTogether_parse_record hlead hnull hsplit hsplit' hr)
      fun _ _ h => congrArg Value.record h

/-- A record with a list of records, whose types list their columns in other orders and lack one
each. A field that is left out on one side is NULL on the other. -/
theorem literal_read_in_any_order_nested :
    let addressType : UserType :=
      ⟨none, "address", [⟨"zip code", .scalar .text⟩, ⟨"street", .scalar .text⟩], true⟩
    let u : UserType := ⟨none, "customer",
      [⟨"homes", .list false (.user addressType)⟩, ⟨"name", .scalar .text⟩,
        ⟨"vip", .scalar .boolean⟩], false⟩
    let address : RecordHeader :=
      ⟨"Address", "address", ["street", "zip_code", "floor"], ["street", "zip code", "floor"]⟩
    let header : RecordHeader :=
      ⟨"Customer", "customer", ["name", "note", "homes", "vip"], ["name", "note", "homes", "vip"]⟩
    let ts : List ValueType := [.base .string, .option (.base .string),
      .sequence .vector (.record address
        [.base .string, .option (.base .string), .option (.base .int32)]), .option (.base .bool)]
    let t := ValueType.record header ts
    let c : Codec := .record header u [2, 0, 3] [.scalar .text, .option (.scalar .text),
      .elements .list .vector false (.record address addressType [1, 0]
        [.scalar .text, .option (.scalar .text), .option (.scalar .int)]),
      .option (.scalar .boolean)]
    let v : Value := .record [.text "O'Neil".toList, .present (.text ['x']),
      .sequence [.record [.text "a:b".toList, .absent, .present (.int 7)]], .present (.bool true)]
    let left : Value := .record [.text "O'Neil".toList, .absent,
      .sequence [.record [.text "a:b".toList, .absent, .absent]], .present (.bool true)]
    let b : Option Bytes := some [0, 0, 0, 19, 0, 0, 0, 1, 0, 0, 0, 11, 255, 255, 255, 255, 0, 0, 0,
      3, 97, 58, 98, 0, 0, 0, 6, 79, 39, 78, 101, 105, 108, 0, 0, 0, 1, 1]
    let text := "\x7bname: 'Al', homes: \x7b\x7d\x7d".toList
    let text' := "\x7b homes:\x7b\x7d, vip : null, name:'Al'\x7d".toList
    header.WellFormed ts.length ∧ reordered header (ValueType.fieldShapes ts) u = .ok c ∧
      t.Storable ∧ t.IsVerbatim ∧ (ColumnType.user u).HasDistinctFields ∧
      (ColumnType.user u).HasBareNames ∧ t.Holds v ∧ t.Listing v v ∧ v.HasWritableScales ∧
      c.encode v = .ok b ∧
      c.format v =
        "\x7bhomes:\x7b\x7bzip code:NULL,street:'a:b'\x7d\x7d,name:'O''Neil',vip:true\x7d".toList ∧
      c.parse (c.format v) = .ok left ∧ FailTogether Eq (c.parse text) (c.parse text') := by
  intro addressType u address header ts t c v left b text text'
  have declared : header.WellFormed ts.length := ⟨by decide, rfl, rfl⟩
  have made : reordered header (ValueType.fieldShapes ts) u = .ok c := by rfl
  have haddress : address.WellFormed 3 := ⟨by decide, rfl, rfl⟩
  have ht : t.Storable := by
    refine ⟨declared, trivial, ⟨rfl, trivial⟩, ⟨nofun, haddress, ?_⟩, ⟨rfl, trivial⟩, trivial⟩
    exact ⟨trivial, ⟨rfl, trivial⟩, ⟨rfl, trivial⟩, trivial⟩
  have hv : t.IsVerbatim := by
    exact ⟨trivial, trivial, ⟨trivial, trivial, trivial, trivial⟩, trivial, trivial⟩
  have hd : (ColumnType.user u).HasDistinctFields := by
    refine ⟨?_, ⟨?_, trivial, trivial, trivial⟩, trivial, trivial, trivial⟩
    · decide
    · decide
  have hn : (ColumnType.user u).HasBareNames := by
    refine ⟨?_, ⟨?_, trivial, ?_, trivial, trivial⟩, ?_, trivial, ?_, trivial, trivial⟩ <;> decide
  have hseven : fitsSigned 32 7 = true := by decide
  have hholds : t.Holds v := by
    refine ⟨trivial, trivial, ⟨trivial, List.forall_mem_singleton.2 ?_⟩, trivial, trivial⟩
    exact ⟨trivial, trivial, hseven, trivial⟩
  have hw := ValueType.listing_refl hholds
  have hscales : v.HasWritableScales := by
    simp [v]
  have hb : c.encode v = .ok b := by rfl
  have hformat : c.format v =
      "\x7bhomes:\x7b\x7bzip code:NULL,street:'a:b'\x7d\x7d,name:'O''Neil',vip:true\x7d".toList := by
    decide +kernel
  have hsplit : splitEntries '\x7b' '\x7d' text =
      .ok [("name".toList, "'Al'".toList), ("homes".toList, ['\x7b', '\x7d'])] := by
    decide +kernel
  have hsplit' : splitEntries '\x7b' '\x7d' text' = .ok [("homes".toList, ['\x7b', '\x7d']),
      ("vip".toList, "null".toList), ("name".toList, "'Al'".toList)] := by
    decide +kernel
  obtain ⟨hround, horder⟩ := literal_read_in_any_order declared (.inr made)
  have hparse := hround ht hv hd hn v v b hholds hw hscales hb
  refine ⟨declared, made, ht, hv, hd, hn, hholds, hw, hscales, hb, hformat, hparse, ?_⟩
  refine horder _ _ _ _ hsplit hsplit' ⟨⟨[("vip".toList, "null".toList)], ?_, ?_⟩, by decide⟩
  · decide
  · exact List.forall_mem_singleton.2 ⟨by decide, ⟨"vip", .scalar .boolean⟩, by simp [u], rfl⟩

end Record

end CqlWire
