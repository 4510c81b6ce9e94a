import CqlWire.Proofs.Codec.DeclaredOrder
import CqlWire.Proofs.Coding.Agree
import Mathlib.Data.List.Induction

/-!
# Where a type has the declared columns

Three scans link the fields of a user-defined type with the declared columns. The slots name the
column of each field (`getElem?_slots_iff`), `schemaPosition?` finds the last field of a column
(`schemaPosition?_eq_some_iff`), and a look-up by name finds the first one
(`UserTypeOver.field?_eq_some_iff`). The three agree, and so no column is stored twice, if and only
if the type has no two fields of one name (`isPartialPermutation_iff_distinct_names`). A type with
two fields of one name is accepted nevertheless (`repeated_name_is_accepted`).
-/

namespace CqlWire

namespace Record

variable {header : RecordHeader} {shapes : List FieldShape} {schema : UserType} {slots : List Nat}

/-! ## The three scans -/

theorem schemaPosition?_concat (slots : List Nat) (slot d : Nat) :
    schemaPosition? (slots ++ [slot]) d =
      if slot = d then some slots.length else schemaPosition? slots d := by
  simp [schemaPosition?, List.zipIdx_append]

/-- The position of a column is the last one whose slot names it. -/
theorem schemaPosition?_eq_some_iff {d p : Nat} : schemaPosition? slots d = some p ↔
    slots[p]? = some d ∧ ∀ q, p < q → slots[q]? ≠ some d := by
  induction slots using List.reverseRecOn with
  | nil => simp [schemaPosition?]
  | append_singleton slots slot ih =>
    rw [schemaPosition?_concat]
    by_cases hslot : slot = d
    · subst hslot
      grind
    · rw [if_neg hslot, ih]
      grind

/-- The slots name, for each field, the one declared column of its name. -/
theorem getElem?_slots_iff (hcolumns : header.columns.Nodup)
    (named : List.Forall₂ (fun f slot => header.columns[slot]? = some f.name) schema.fields slots)
    {p d : Nat} : slots[p]? = some d ↔
      ∃ f, schema.fields[p]? = some f ∧ header.columns[d]? = some f.name := by
  have hlen := named.length_eq
  constructor
  · intro hd
    obtain ⟨hlt, rfl⟩ := List.getElem?_eq_some_iff.1 hd
    have hp : p < schema.fields.length := by omega
    exact ⟨schema.fields[p], List.getElem?_eq_getElem hp, named.get hp hlt⟩
  · rintro ⟨f, hf, hd⟩
    obtain ⟨hp, rfl⟩ := List.getElem?_eq_some_iff.1 hf
    have hlt : p < slots.length := by omega
    have hslot : header.columns[slots[p]]? = some schema.fields[p].name := named.get hp hlt
    obtain ⟨hd', -⟩ := List.getElem?_eq_some_iff.1 hd
    obtain rfl := (List.getElem?_inj hd' hcolumns).1 (hd.trans hslot.symm)
    exact List.getElem?_eq_getElem hlt

/-! ## Partial permutations -/

/-- The fields of the type and the declared columns of their names belong together one by one,
whichever of the three scans is asked. -/
structure IsPartialPermutation (header : RecordHeader) (schema : UserType) (slots : List Nat) :
    Prop where
  /-- Distinct fields hold distinct columns. -/
  injective : ∀ p q d : Nat, slots[p]? = some d → slots[q]? = some d → p = q
  /-- A column has the position of every field of its name. -/
  position_iff : ∀ d p : Nat, schemaPosition? slots d = some p ↔
    ∃ f, schema.fields[p]? = some f ∧ header.columns[d]? = some f.name
  /-- The name of a column leads to the position that the column has. -/
  field? : ∀ d p, schemaPosition? slots d = some p →
    ∃ f, header.columns[d]? = some f.name ∧ schema.field? f.name = some (p, f)
  /-- A column is stored once, or not at all when the type lacks it. -/
  count : ∀ d column, header.columns[d]? = some column →
    slots.count d = if column ∈ schema.fields.map Field.name then 1 else 0

theorem isPartialPermutation_of_nodup (hcolumns : header.columns.Nodup)
    (named : List.Forall₂ (fun f slot => header.columns[slot]? = some f.name) schema.fields slots)
    (hfields : (schema.fields.map Field.name).Nodup) :
    IsPartialPermutation header schema slots := by
  have hslots := slots_nodup named hfields
  have hinj : ∀ p q d : Nat, slots[p]? = some d → slots[q]? = some d → p = q := by
    intro p q d hp hq
    obtain ⟨hlt, -⟩ := List.getElem?_eq_some_iff.1 hp
    exact (List.getElem?_inj hlt hslots).1 (hp.trans hq.symm)
  have hposition : ∀ d p, schemaPosition? slots d = some p ↔
      ∃ f, schema.fields[p]? = some f ∧ header.columns[d]? = some f.name := by
    intro d p
    rw [schemaPosition?_eq_some_iff, ← getElem?_slots_iff hcolumns named]
    refine ⟨fun h => h.1, fun hp => ⟨hp, fun q hlt hq => ?_⟩⟩
    have := hinj p q d hp hq
    omega
  refine ⟨hinj, hposition, fun d p hp => ?_, fun d column hd => ?_⟩
  · obtain ⟨f, hf, hd⟩ := (hposition d p).1 hp
    exact ⟨f, hd, UserTypeOver.field?_name hfields hf⟩
  · have hmem : d ∈ slots ↔ column ∈ schema.fields.map Field.name := by
      rw [List.mem_iff_getElem?, List.mem_map]
      simp only [getElem?_slots_iff hcolumns named, hd, Option.some.injEq, List.mem_iff_getElem?]
      grind
    by_cases hin : column ∈ schema.fields.map Field.name
    · rw [if_pos hin, List.count_eq_one_of_mem hslots (hmem.2 hin)]
    · rw [if_neg hin, List.count_eq_zero.2 (fun h => hin (hmem.1 h))]

theorem nodup_of_isPartialPermutation (hcolumns : header.columns.Nodup)
    (named : List.Forall₂ (fun f slot => header.columns[slot]? = some f.name) schema.fields slots)
    (h : IsPartialPermutation header schema slots) : (schema.fields.map Field.name).Nodup := by
  refine List.pairwise_iff_getElem.2 fun p q hp hq hlt hname => ?_
  rw [List.length_map] at hp hq
  simp only [List.getElem_map] at hname
  have hslot : p < slots.length := by
    have := named.length_eq
    omega
  have hd : header.columns[slots[p]]? = some schema.fields[p].name := named.get hp hslot
  have hq' : slots[q]? = some slots[p] :=
    (getElem?_slots_iff hcolumns named).2 ⟨_, List.getElem?_eq_getElem hq, by rw [hd, hname]⟩
  have := h.injective p q _ (List.getElem?_eq_getElem hslot) hq'
  omega

/-- A record that is stored by the names of its columns has in each field of the type the column of
its name. The position of a column is the last field of its name, and a look-up by name finds the
first one; these are inverse to the slots, and every column is stored at most once, if and only if
the type has no two fields of one name. -/
theorem isPartialPermutation_iff_distinct_names {ts : List ValueType} {c : Codec}
    (declared : header.WellFormed ts.length)
    (made : reordered header (ValueType.fieldShapes ts) schema = .ok c) :
    ∃ slots codecs, c = .record header schema slots codecs ∧
      (∀ p d : Nat, slots[p]? = some d ↔
        ∃ f, schema.fields[p]? = some f ∧ header.columns[d]? = some f.name) ∧
      (∀ d p : Nat, schemaPosition? slots d = some p ↔
        slots[p]? = some d ∧ ∀ q, p < q → slots[q]? ≠ some d) ∧
      (∀ name p f, schema.field? name = some (p, f) ↔ schema.fields[p]? = some f ∧
        f.name = name ∧ ∀ q < p, ∀ g, schema.fields[q]? = some g → g.name ≠ name) ∧
      (IsPartialPermutation header schema slots ↔ (schema.fields.map Field.name).Nodup) := by
  have hlen := declared.length_columns
  have hreconciled : reconcile header (ValueType.fieldShapes ts) schema = .ok c := by
    rw [reconcile_eq_reordered declared.nodup hlen, made]
  obtain ⟨slots, codecs, rfl, h⟩ := reconciled_of_reconcile hlen hreconciled
  refine ⟨slots, codecs, rfl, fun p d => getElem?_slots_iff declared.nodup h.named,
    fun d p => schemaPosition?_eq_some_iff, fun name p f => UserTypeOver.field?_eq_some_iff, ?_⟩
  constructor
  · exact nodup_of_isPartialPermutation declared.nodup h.named
  · exact isPartialPermutation_of_nodup declared.nodup h.named

/-- A record with a column that the type lacks; the others come in another order. -/
theorem isPartialPermutation_of_lacking :
    let schema : UserType :=
      ⟨some "shop", "address", [⟨"zip", .scalar .int⟩, ⟨"street", .scalar .text⟩], false⟩
    let header : RecordHeader :=
      ⟨"Address", "address", ["street", "note", "zip"], ["street", "note", "zip"]⟩
    let ts : List ValueType := [.base .string, .option (.base .string), .base .int32]
    let c : Codec :=
      .record header schema [2, 0] [.scalar .text, .option (.scalar .text), .scalar .int]
    header.WellFormed ts.length ∧ reordered header (ValueType.fieldShapes ts) schema = .ok c ∧
      IsPartialPermutation header schema [2, 0] ∧
      (List.range 3).map (schemaPosition? [2, 0]) = [some 1, none, some 0] := by
  intro schema header ts c
  have declared : header.WellFormed ts.length := ⟨by decide, rfl, rfl⟩
  have made : reordered header (ValueType.fieldShapes ts) schema = .ok c := by rfl
  obtain ⟨slots, codecs, hc, -, -, -, hiff⟩ :=
    isPartialPermutation_iff_distinct_names declared made
  obtain ⟨-, -, rfl, -⟩ := Codec.record.inj hc
  exact ⟨declared, made, hiff.2 (by decide), by decide⟩

/-- A type with two fields of one name is accepted. Both hold the one column, which is stored twice;
its position is that of the second field, while its name leads to the first one. -/
theorem repeated_name_is_accepted :
    let schema : UserType :=
      ⟨none, "maybe", [⟨"value", .scalar .int⟩, ⟨"value", .scalar .int⟩], false⟩
    let header : RecordHeader := ⟨"Maybe", "maybe", ["value"], ["value"]⟩
    let ts : List ValueType := [.option (.base .int32)]
    let c : Codec := .record header schema [0, 0] [.option (.scalar .int)]
    header.WellFormed ts.length ∧ reordered header (ValueType.fieldShapes ts) schema = .ok c ∧
      ¬IsPartialPermutation header schema [0, 0] ∧ schemaPosition? [0, 0] 0 = some 1 ∧
      (schema.field? "value").map Prod.fst = some 0 ∧
      c.encode (.record [.present (.int 5)]) =
        .ok (some [0, 0, 0, 4, 0, 0, 0, 5, 0, 0, 0, 4, 0, 0, 0, 5]) := by
  intro schema header ts c
  have hnot : ¬IsPartialPermutation header schema [0, 0] := fun h =>
    absurd (h.injective 0 1 0 rfl rfl) (by decide)
  refine ⟨⟨by decide, rfl, rfl⟩, by rfl, hnot, by decide, by decide, by rfl⟩

end Record

end CqlWire
