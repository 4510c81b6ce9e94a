import CqlWire.Proofs.Coding.Agree
import CqlWire.Proofs.Coding.Literal

/-!
# Literals of records

The entries of a record literal are sorted by their names, each of which leads to one declared field
(`slotOf?`). Where no two entries lead to the same field, every field has the literal of the entry
that leads to it, or none (`assigns_of_placeLiterals`). So the entries that were written are found
again (`reparses_record`), and a literal is read alike in whatever order its entries stand, with or
without the ones that are NULL (`failTogether_parse_record`).
-/

namespace CqlWire

open Text (nullWord isNullLiteral IsTight)
open Literal (IsTerm isBare splitEntries splitEntries_braced isTerm_braced_entries)

/-- A name that stands for itself in a literal: bare characters without white space at the ends. -/
structure Literal.IsBareName (name : List Char) : Prop where
  nonempty : name ≠ []
  bare : ∀ c ∈ name, isBare c = true
  tight : IsTight name

instance (name : List Char) : Decidable (Literal.IsBareName name) :=
  decidable_of_iff (name ≠ [] ∧ name.all isBare ∧ name.head?.all (fun c => !Text.isBlank c) ∧
      name.getLast?.all fun c => !Text.isBlank c) <| by
    simp only [List.all_eq_true, Option.all_eq_true, Bool.not_eq_true']
    exact ⟨fun h => ⟨h.1, h.2.1, h.2.2⟩, fun h => ⟨h.nonempty, h.bare, h.tight⟩⟩

theorem Literal.IsBareName.isTerm {name : List Char} (h : Literal.IsBareName name) : IsTerm name :=
  Literal.isTerm_of_isBare h.nonempty h.bare h.tight

namespace Coding

variable {α : Type} {schema : UserType} {slots : List Nat} {text : List Char}

/-! ## Where the entries of a literal go -/

/-- The declared field that a name leads to. -/
def slotOf? (schema : UserType) (slots : List Nat) (name : List Char) : Option Nat :=
  (schema.field? (String.ofList name)).bind fun found => slots[found.1]?

/-- A literal is put where its name leads to. -/
def putLiteral (schema : UserType) (slots : List Nat) (literals : List (Option (List Char)))
    (e : List Char × List Char) : List (Option (List Char)) :=
  match slotOf? schema slots e.1 with
  | some i => literals.set i (some e.2)
  | none => literals

/-- No two entries lead to one field. -/
def EntriesLeadApart (schema : UserType) (slots : List Nat)
    (parts : List (List Char × List Char)) : Prop :=
  parts.Pairwise fun e e' =>
    ∀ i, slotOf? schema slots e.1 = some i → slotOf? schema slots e'.1 ≠ some i

theorem getElem?_putLiteral_of_eq {literals : List (Option (List Char))} {e : List Char × List Char}
    {i : Nat} (h : slotOf? schema slots e.1 = some i) (hi : i < literals.length) :
    (putLiteral schema slots literals e)[i]? = some (some e.2) := by
  rw [putLiteral, h, List.getElem?_set_self hi]

theorem getElem?_putLiteral_of_ne {literals : List (Option (List Char))} {e : List Char × List Char}
    {i : Nat} (h : slotOf? schema slots e.1 ≠ some i) :
    (putLiteral schema slots literals e)[i]? = literals[i]? := by
  unfold putLiteral
  split
  · rename_i j hj
    refine List.getElem?_set_ne fun hji => h ?_
    rw [hj, hji]
  · rfl

theorem length_putLiteral (literals : List (Option (List Char))) (e : List Char × List Char) :
    (putLiteral schema slots literals e).length = literals.length := by
  unfold putLiteral
  split
  · exact List.length_set
  · rfl

theorem placeLiterals_cons_eq_ok_iff {e : List Char × List Char}
    {parts : List (List Char × List Char)} {start literals : List (Option (List Char))} :
    placeLiterals schema slots text (e :: parts) start = .ok literals ↔
      (schema.field? (String.ofList e.1)).isSome ∧
        placeLiterals schema slots text parts (putLiteral schema slots start e) = .ok literals := by
  obtain ⟨name, literal⟩ := e
  rw [placeLiterals, putLiteral, slotOf?]
  cases schema.field? (String.ofList name) with
  | none => simp
  | some found =>
    obtain ⟨position, f⟩ := found
    simp only [Option.bind_some, Option.isSome_some, true_and]
    cases slots[position]? <;> exact Iff.rfl

/-- Entries can be sorted if the type has fields of all their names. -/
theorem exists_placeLiterals_iff {parts : List (List Char × List Char)}
    {start : List (Option (List Char))} :
    (∃ literals, placeLiterals schema slots text parts start = .ok literals) ↔
      ∀ e ∈ parts, (schema.field? (String.ofList e.1)).isSome := by
  induction parts generalizing start with
  | nil => exact ⟨fun _ => List.forall_mem_nil _, fun _ => ⟨start, rfl⟩⟩
  | cons e parts ih =>
    simp only [placeLiterals_cons_eq_ok_iff, exists_and_left, ih, List.forall_mem_cons]

/-- Each field has the literal of the entry that leads to it, or what it had before. -/
theorem getElem?_of_placeLiterals {parts : List (List Char × List Char)}
    {start literals : List (Option (List Char))} (apart : EntriesLeadApart schema slots parts)
    (h : placeLiterals schema slots text parts start = .ok literals) :
    literals.length = start.length ∧
      (∀ e ∈ parts, ∀ i < start.length, slotOf? schema slots e.1 = some i →
        literals[i]? = some (some e.2)) ∧
      ∀ i, (∀ e ∈ parts, slotOf? schema slots e.1 ≠ some i) → literals[i]? = start[i]? := by
  induction parts generalizing start with
  | nil =>
    cases h
    exact ⟨rfl, List.forall_mem_nil _, fun _ _ => rfl⟩
  | cons e parts ih =>
    obtain ⟨hfirst, hrest⟩ := List.pairwise_cons.1 apart
    obtain ⟨hlen, hsaid, hsilent⟩ := ih hrest (placeLiterals_cons_eq_ok_iff.1 h).2
    rw [length_putLiteral] at hlen hsaid
    refine ⟨hlen, List.forall_mem_cons.2 ⟨fun i hi he => ?_, hsaid⟩, fun i hi => ?_⟩
    · rw [hsilent i fun e' he' => hfirst e' he' i he, getElem?_putLiteral_of_eq he hi]
    · obtain ⟨he, hparts⟩ := List.forall_mem_cons.1 hi
      rw [hsilent i hparts, getElem?_putLiteral_of_ne he]

/-- As many fields have the literals of the entries that lead to them, and none elsewhere. -/
structure Assigns (schema : UserType) (slots : List Nat) (count : Nat)
    (parts : List (List Char × List Char)) (literals : List (Option (List Char))) : Prop where
  length_eq : literals.length = count
  said : ∀ e ∈ parts, ∀ i < count, slotOf? schema slots e.1 = some i →
    literals[i]? = some (some e.2)
  silent : ∀ i < count, (∀ e ∈ parts, slotOf? schema slots e.1 ≠ some i) →
    literals[i]? = some none

theorem assigns_of_placeLiterals {fields : List (Coding α)} {parts : List (List Char × List Char)}
    {literals : List (Option (List Char))} (apart : EntriesLeadApart schema slots parts)
    (h : placeLiterals schema slots text parts (fields.map fun _ => none) = .ok literals) :
    Assigns schema slots fields.length parts literals := by
  obtain ⟨hlen, hsaid, hsilent⟩ := getElem?_of_placeLiterals apart h
  rw [List.length_map] at hlen hsaid
  refine ⟨hlen, hsaid, fun i hi hno => ?_⟩
  rw [hsilent i hno, List.getElem?_map, List.getElem?_eq_getElem hi]
  rfl

theorem exists_assigns (fields : List (Coding α)) (text : List Char)
    {parts : List (List Char × List Char)} (apart : EntriesLeadApart schema slots parts)
    (known : ∀ e ∈ parts, (schema.field? (String.ofList e.1)).isSome) : ∃ literals,
      placeLiterals schema slots text parts (fields.map fun _ => none) = .ok literals ∧
        Assigns schema slots fields.length parts literals := by
  obtain ⟨literals, h⟩ := exists_placeLiterals_iff.2 known
  exact ⟨literals, h, assigns_of_placeLiterals apart h⟩

/-- A literal is read by the codings of the fields, from what its entries assign to them. -/
theorem parse_record_eq (typeName : String) (fields : List (Coding α))
    {parts : List (List Char × List Char)}
    (hsplit : splitEntries '\x7b' '\x7d' text = .ok parts) :
    (record typeName schema slots fields).parse text =
      placeLiterals schema slots text parts (fields.map fun _ => none) >>= fun literals =>
        (fields.zip literals).mapM fun p => p.1.parse (p.2.getD nullWord) := by
  simp only [record, hsplit, orRefuse]
  rfl

/-! ## What is written is read back -/

/-- The entries of the literal of a record. -/
def entriesOf (schema : UserType) (slots : List Nat) (fields : List (Coding α)) (as : List α) :
    List (List Char × List Char) :=
  (schema.fields.zip slots).map fun p => (p.1.name.toList, formatField fields as p.2)

theorem format_eq_braced (typeName : String) (schema : UserType) (slots : List Nat)
    (fields : List (Coding α)) (as : List α) : (record typeName schema slots fields).format as =
      braced ((entriesOf schema slots fields as).map fun e => e.1 ++ ':' :: e.2) := by
  rw [entriesOf, List.map_map]
  rfl

/-- The fields of a type have distinct names that stand for themselves, and distinct places. -/
structure NamesApart (schema : UserType) (slots : List Nat) : Prop where
  names_nodup : (schema.fields.map Field.name).Nodup
  slots_nodup : slots.Nodup
  length_eq : schema.fields.length = slots.length
  bare : ∀ f ∈ schema.fields, Literal.IsBareName f.name.toList

namespace NamesApart

/-- The name of a field leads to its own place. -/
theorem slotOf?_name (h : NamesApart schema slots) {p : Field ColumnType × Nat}
    (hp : p ∈ schema.fields.zip slots) :
    (schema.field? p.1.name).isSome ∧ slotOf? schema slots p.1.name.toList = some p.2 := by
  obtain ⟨position, hposition⟩ := List.mem_iff_getElem?.1 hp
  obtain ⟨hf, hslot⟩ := List.getElem?_zip_eq_some.1 hposition
  rw [slotOf?, String.ofList_toList, UserTypeOver.field?_name h.names_nodup hf]
  exact ⟨rfl, hslot⟩

variable (h : NamesApart schema slots) (fields : List (Coding α)) (as : List α)

include h

theorem map_snd_zip : (schema.fields.zip slots).map Prod.snd = slots :=
  List.map_snd_zip (Nat.le_of_eq h.length_eq.symm)

theorem isSome_field?_entriesOf : ∀ e ∈ entriesOf schema slots fields as,
    (schema.field? (String.ofList e.1)).isSome := by
  refine List.forall_mem_map.2 fun p hp => ?_
  rw [String.ofList_toList]
  exact (h.slotOf?_name hp).1

/-- The entries that are written lead to distinct fields. -/
theorem entriesLeadApart_entriesOf :
    EntriesLeadApart schema slots (entriesOf schema slots fields as) := by
  have hslots : ((schema.fields.zip slots).map Prod.snd).Nodup := by
    rw [h.map_snd_zip]
    exact h.slots_nodup
  refine List.pairwise_map.2 ((List.pairwise_map.1 hslots).imp_of_mem fun hp hq hne i hi hi' => ?_)
  rw [(h.slotOf?_name hp).2, Option.some.injEq] at hi
  rw [(h.slotOf?_name hq).2, Option.some.injEq] at hi'
  exact hne (hi.trans hi'.symm)

/-- The fields that the type has are assigned their own literals. -/
theorem getElem?_of_assigns {literals : List (Option (List Char))} {count : Nat}
    (ha : Assigns schema slots count (entriesOf schema slots fields as) literals) {i : Nat}
    (hi : i < count) : literals[i]? =
      some (if i ∈ slots then some (formatField fields as i) else none) := by
  split
  · rename_i hin
    rw [← h.map_snd_zip] at hin
    obtain ⟨p, hp, rfl⟩ := List.mem_map.1 hin
    exact ha.said _ (List.mem_map_of_mem hp) p.2 hi (h.slotOf?_name hp).2
  · rename_i hout
    refine ha.silent i hi (List.forall_mem_map.2 fun p hp hlead => hout ?_)
    rw [(h.slotOf?_name hp).2, Option.some.injEq] at hlead
    rw [← hlead]
    exact (List.of_mem_zip hp).2

end NamesApart

/-- The declared fields that a type has are all stored. -/
theorem stored_of_encode_record {typeName : String} {fields : List (Coding α)} {ws : List α}
    {b : Option Bytes} (h : (record typeName schema slots fields).encode ws = .ok b) :
    ∀ i ∈ slots, ∃ c w raw, fields[i]? = some c ∧ ws[i]? = some w ∧ c.encode w = .ok raw := by
  obtain ⟨bytes, hbytes, -⟩ := map_eq_ok_iff.1 h
  simp only [encodeSlots, bind_eq_ok_iff] at hbytes
  obtain ⟨frames, hframes, -⟩ := hbytes
  intro i hi
  obtain ⟨frame, hframe⟩ := exists_eq_ok_of_mapM hframes i hi
  obtain ⟨raw, hraw, -⟩ := bind_eq_ok_iff.1 hframe
  obtain ⟨c, w, hc, hw, hencode⟩ := encodeField_eq_ok hraw
  exact ⟨c, w, raw, hc, hw, hencode⟩

/-- A field that the type has is read from its own literal, and any other one as NULL. -/
theorem reparses_record {typeName : String} {fields : List (Coding α)} {ws us : List α}
    (hn : NamesApart schema slots) (hlen : fields.length = us.length)
    (h : ∀ i c u, fields[i]? = some c → us[i]? = some u →
      (i ∈ slots → ∀ w, ws[i]? = some w → c.Reparses w u) ∧
        (i ∉ slots → c.parse nullWord = .ok u)) :
    (record typeName schema slots fields).Reparses ws us := by
  intro b hb
  -- What is stored has a literal of one term, from which it is read back.
  have hfield : ∀ i c u, fields[i]? = some c → us[i]? = some u → i ∈ slots →
      IsTerm (formatField fields ws i) ∧ c.parse (formatField fields ws i) = .ok u := by
    intro i c u hc hu hi
    obtain ⟨c', w, raw, hc', hw, hraw⟩ := stored_of_encode_record hb i hi
    obtain rfl : c = c' := Option.some.inj (hc.symm.trans hc')
    obtain ⟨hterm, hparse, -⟩ := (h i c u hc hu).1 hi w hw raw hraw
    rw [formatField, hc, hw]
    exact ⟨hterm, hparse⟩
  have hparts : ∀ e ∈ entriesOf schema slots fields ws, IsTerm e.1 ∧ IsTerm e.2 := by
    refine List.forall_mem_map.2 fun p hp => ?_
    obtain ⟨hf, hslot⟩ := List.of_mem_zip hp
    obtain ⟨c, -, -, hc, -, -⟩ := stored_of_encode_record hb p.2 hslot
    obtain ⟨hlt, -⟩ := List.getElem?_eq_some_iff.1 hc
    have hu := List.getElem?_eq_getElem (l := us) (hlen ▸ hlt)
    exact ⟨(hn.bare p.1 hf).isTerm, (hfield p.2 c _ hc hu hslot).1⟩
  have hsplit := splitEntries_braced hparts
  rw [← format_eq_braced typeName] at hsplit
  refine ⟨?_, ?_, fun hnull => ?_⟩
  · rw [format_eq_braced]
    exact isTerm_braced_entries hparts
  · obtain ⟨literals, hplace, ha⟩ := exists_assigns fields _
      (hn.entriesLeadApart_entriesOf fields ws) (hn.isSome_field?_entriesOf fields ws)
    rw [parse_record_eq typeName fields hsplit, bind_eq_ok_iff]
    refine ⟨literals, hplace, mapM_eq_ok_iff.2 ?_⟩
    refine forall₂_of_getElem? ?_ fun i p u hp hu => ?_
    · rw [List.length_zip, ha.length_eq, Nat.min_self, hlen]
    · obtain ⟨hc, hliteral⟩ := List.getElem?_zip_eq_some.1 hp
      obtain ⟨hlt, -⟩ := List.getElem?_eq_some_iff.1 hc
      rw [hn.getElem?_of_assigns fields ws ha hlt, Option.some.injEq] at hliteral
      rw [← hliteral]
      split
      · rename_i hin
        exact (hfield i p.1 u hc hu hin).2
      · rename_i hout
        exact (h i p.1 u hc hu).2 hout
  · rw [format_eq_braced, isNullLiteral_braced] at hnull
    cases hnull

/-! ## The order of the entries, and those that are left out -/

/-- Two literals of one field, either of which may be missing: they are the same, or both are
NULL. -/
def AlikeOrNull (l l' : Option (List Char)) : Prop :=
  l = l' ∨ isNullLiteral (l.getD nullWord) = true ∧ isNullLiteral (l'.getD nullWord) = true

/-- The entries on the right are those on the left in any order, and NULL for some fields of the
type that are left out there. No name stands twice. -/
structure Rearranges (schema : UserType) (parts parts' : List (List Char × List Char)) : Prop where
  perm : ∃ nulls, parts'.Perm (nulls ++ parts) ∧ ∀ e ∈ nulls,
    isNullLiteral e.2 = true ∧ ∃ f ∈ schema.fields, f.name = String.ofList e.1
  nodup : (parts'.map Prod.fst).Nodup

/-- Different names lead to different fields. -/
def NamesLeadApart (schema : UserType) (slots : List Nat) : Prop :=
  ∀ name name' i, slotOf? schema slots name = some i → slotOf? schema slots name' = some i →
    name = name'

theorem entriesLeadApart_of_nodup (h : NamesLeadApart schema slots)
    {parts : List (List Char × List Char)} (hnames : (parts.map Prod.fst).Nodup) :
    EntriesLeadApart schema slots parts :=
  (List.pairwise_map.1 hnames).imp fun hne i hi hi' => hne (h _ _ i hi hi')

/-- The fields are assigned the same literals, or NULL where they had none. -/
theorem failTogether_placeLiterals_of_rearranges (h : NamesLeadApart schema slots)
    {parts parts' : List (List Char × List Char)} (hr : Rearranges schema parts parts')
    (fields : List (Coding α)) (text text' : List Char) :
    FailTogether (List.Forall₂ AlikeOrNull)
      (placeLiterals schema slots text parts (fields.map fun _ => none))
      (placeLiterals schema slots text' parts' (fields.map fun _ => none)) := by
  obtain ⟨⟨nulls, hperm, hnulls⟩, hnames⟩ := hr
  have hnames' : ((nulls ++ parts).map Prod.fst).Nodup := (hperm.map Prod.fst).nodup_iff.1 hnames
  obtain ⟨-, apart, hcross⟩ := List.pairwise_append.1 (entriesLeadApart_of_nodup h hnames')
  refine failTogether_of_exists_ok_iff ?_ fun literals literals' hplace hplace' => ?_
  · rw [exists_placeLiterals_iff, exists_placeLiterals_iff]
    simp only [hperm.mem_iff, List.forall_mem_append]
    have hknown : ∀ e ∈ nulls, (schema.field? (String.ofList e.1)).isSome := fun e he =>
      UserTypeOver.isSome_field?_iff.2 (hnulls e he).2
    exact ⟨fun hparts => ⟨hknown, hparts⟩, And.right⟩
  · obtain ⟨hlen, hsaid, hsilent⟩ := assigns_of_placeLiterals apart hplace
    obtain ⟨hlen', hsaid', hsilent'⟩ :=
      assigns_of_placeLiterals (entriesLeadApart_of_nodup h hnames) hplace'
    refine forall₂_of_getElem? (hlen.trans hlen'.symm) fun i l l' hl hl' => ?_
    obtain ⟨hlt, -⟩ := List.getElem?_eq_some_iff.1 hl
    rw [hlen] at hlt
    by_cases hlead : ∃ e ∈ parts', slotOf? schema slots e.1 = some i
    · obtain ⟨e, he, hi⟩ := hlead
      rw [hsaid' e he i hlt hi, Option.some.injEq] at hl'
      subst hl'
      rcases List.mem_append.1 (hperm.mem_iff.1 he) with hnull | hpart
      · -- The field is left out on the left, since no other name leads to it.
        have hnone := hsilent i hlt fun e' he' => hcross e hnull e' he' i hi
        rw [hnone, Option.some.injEq] at hl
        subst hl
        exact .inr ⟨rfl, (hnulls e hnull).1⟩
      · rw [hsaid e hpart i hlt hi, Option.some.injEq] at hl
        exact .inl hl.symm
    · have hno : ∀ e ∈ parts', slotOf? schema slots e.1 ≠ some i :=
        fun e he hi => hlead ⟨e, he, hi⟩
      have hno' : ∀ e ∈ parts, slotOf? schema slots e.1 ≠ some i := fun e he =>
        hno e (hperm.mem_iff.2 (List.mem_append_right nulls he))
      rw [hsilent i hlt hno', Option.some.injEq] at hl
      rw [hsilent' i hlt hno, Option.some.injEq] at hl'
      exact .inl (hl.symm.trans hl')

/-- All spellings of NULL are read alike. -/
def ReadsNullAlike (c : Coding α) : Prop :=
  ∀ text text', isNullLiteral text = true → isNullLiteral text' = true →
    FailTogether Eq (c.parse text) (c.parse text')

/-- A record is read alike from literals with the same entries in any order, with or without those
that are NULL. -/
theorem failTogether_parse_record {typeName : String} {fields : List (Coding α)}
    (h : NamesLeadApart schema slots) (hnull : ∀ c ∈ fields, c.ReadsNullAlike)
    {text text' : List Char} {parts parts' : List (List Char × List Char)}
    (hsplit : splitEntries '\x7b' '\x7d' text = .ok parts)
    (hsplit' : splitEntries '\x7b' '\x7d' text' = .ok parts')
    (hr : Rearranges schema parts parts') :
    FailTogether Eq ((record typeName schema slots fields).parse text)
      ((record typeName schema slots fields).parse text') := by
  rw [parse_record_eq typeName fields hsplit, parse_record_eq typeName fields hsplit']
  refine failTogether_bind (failTogether_placeLiterals_of_rearranges h hr fields text text') ?_
  intro literals literals' hliterals
  have hfields : List.Forall₂ (fun c d : Coding α => c = d ∧ c.ReadsNullAlike) fields fields :=
    List.forall₂_same.2 fun c hc => ⟨rfl, hnull c hc⟩
  rw [← List.forall₂_eq_eq_eq]
  refine failTogether_mapM ?_ (forall₂_zip hfields hliterals)
  rintro ⟨c, l⟩ ⟨_, l'⟩ ⟨⟨rfl, hc⟩, rfl | ⟨hl, hl'⟩⟩
  · exact failTogether_self _
  · exact hc _ _ hl hl'

end Coding

end CqlWire
