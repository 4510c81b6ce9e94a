import CqlWire.Proofs.Schema.Nested
import Mathlib.Data.List.Nodup

/-!
# Schemas as name tables

A schema is the table of what was added to it (`KeyspaceSchema.IsTable`) if each name stands in it
once, in the order of first addition, with what was added last under it. One addition keeps this
(`IsTable.addType`), so any number of them does (`IsTable.foldl_addType`), and as a document only
adds the types that it lists, every schema that there can be is a table (`Reached.isTable`).

In a table an addition leaves all types but one in their places (`IsTable.types_addType`), and a
type is found by its name, bare or behind the keyspace and a dot, and by no other
(`IsTable.userType?_bare`, `IsTable.userType?_qualified`, `IsTable.userType?_eq_none`).
-/

namespace CqlWire

namespace KeyspaceSchema

/-! ## One addition -/

variable {schema : KeyspaceSchema} {us : List UserType}

/-- Among distinct names, one type at most is replaced, and the others stay in their places. -/
theorem replaceOrAppend_eq_of_nodup (u : UserType) {ts : List UserType}
    (h : (ts.map (·.name)).Nodup) :
    replaceOrAppend u ts =
      if u.name ∈ ts.map (·.name) then ts.map fun t => if t.name = u.name then u else t
      else ts ++ [u] := by
  induction ts with
  | nil => rfl
  | cons t ts ih =>
    obtain ⟨hfresh, hrest⟩ := List.nodup_cons.1 h
    by_cases ht : t.name = u.name
    · -- No other type has this name, so the rest of the list is mapped to itself.
      have hsame : ts.map (fun t => if t.name = u.name then u else t) = ts := by
        refine (List.map_congr_left fun s hs => if_neg fun hname => ?_).trans (List.map_id ts)
        exact hfresh (List.mem_map.2 ⟨s, hs, hname.trans ht.symm⟩)
      rw [replaceOrAppend, if_pos ht, if_pos (List.mem_map.2 ⟨t, List.mem_cons_self, ht⟩),
        List.map_cons, if_pos ht, hsame]
    · have hmem : u.name ∈ (t :: ts).map (·.name) ↔ u.name ∈ ts.map (·.name) := by
        rw [List.map_cons, List.mem_cons]
        exact or_iff_right fun hname => ht hname.symm
      rw [replaceOrAppend, if_neg ht, ih hrest]
      simp only [hmem]
      split
      · rw [List.map_cons, if_neg ht]
      · rfl

/-- The schema is the table of what was added: each name once, in the order of first addition, with
what was added last under it as a type of the keyspace. -/
structure IsTable (schema : KeyspaceSchema) (us : List UserType) : Prop where
  nodup : (schema.types.map (·.name)).Nodup
  owned : ∀ t ∈ schema.types, t.keyspace = some schema.keyspace
  names : schema.types.map (·.name) = (us.map (·.name)).eraseDups
  find? : ∀ name, schema.types.find? (·.name = name) =
    (latest? us name).map (·.inKeyspace schema.keyspace)

theorem isTable_empty (keyspace : String) : IsTable (empty keyspace) [] :=
  ⟨List.nodup_nil, List.forall_mem_nil _, rfl, fun _ => rfl⟩

theorem IsTable.mem_names_iff (h : IsTable schema us) {name : String} :
    name ∈ schema.types.map (·.name) ↔ name ∈ us.map (·.name) := by
  rw [h.names, List.mem_eraseDups]

/-- An addition changes the place of its name only; a new name has its place at the end. -/
theorem IsTable.types_addType (h : IsTable schema us) (u : UserType) :
    (schema.addType u).types =
      if u.name ∈ us.map (·.name) then
        schema.types.map fun t => if t.name = u.name then u.inKeyspace schema.keyspace else t
      else schema.types ++ [u.inKeyspace schema.keyspace] := by
  have htypes := replaceOrAppend_eq_of_nodup (u.inKeyspace schema.keyspace) h.nodup
  simp only [← h.mem_names_iff]
  exact htypes

theorem names_addType (schema : KeyspaceSchema) (u : UserType) :
    (schema.addType u).types.map (·.name) =
      if u.name ∈ schema.types.map (·.name) then schema.types.map (·.name)
      else schema.types.map (·.name) ++ [u.name] :=
  replaceOrAppend_names (u.inKeyspace schema.keyspace) schema.types

/-- A name that comes last counts only where it is a new one. -/
theorem eraseDups_concat (names : List String) (name : String) :
    (names ++ [name]).eraseDups =
      if name ∈ names then names.eraseDups else names.eraseDups ++ [name] := by
  rw [List.eraseDups_append]
  split
  · rename_i hmem
    have hnothing : [name].removeAll names = [] := by simpa [List.removeAll] using hmem
    rw [hnothing]
    exact List.append_nil _
  · rename_i hfresh
    have hname : [name].removeAll names = [name] := by simpa [List.removeAll] using hfresh
    rw [hname]
    rfl

/-- A table stays one with a further type. -/
theorem IsTable.addType (h : IsTable schema us) (u : UserType) :
    IsTable (schema.addType u) (us ++ [u]) where
  nodup := by
    rw [names_addType]
    split
    · exact h.nodup
    · rename_i hfresh
      refine List.nodup_append.2 ⟨h.nodup, List.nodup_singleton _, fun a ha b hb hab => ?_⟩
      rw [hab, List.mem_singleton.1 hb] at ha
      exact hfresh ha
  owned := by
    intro t ht
    rcases eq_or_mem_of_mem_replaceOrAppend ht with rfl | ht
    · rfl
    · exact h.owned t ht
  names := by
    rw [names_addType, List.map_append, List.map_singleton, eraseDups_concat, ← h.names]
    simp only [h.mem_names_iff]
  find? name := find?_addType u (h.find? name)

/-! ## Histories -/

theorem IsTable.foldl_addType (h : IsTable schema us) (vs : List UserType) :
    IsTable (vs.foldl KeyspaceSchema.addType schema) (us ++ vs) := by
  induction vs generalizing schema us with
  | nil => rwa [List.append_nil]
  | cons v vs ih =>
    rw [List.append_cons]
    exact ih (h.addType v)

/-- The schemas that there can be, with all that was added to them: a new one, the one of a document
with the types that it lists, or one with a further type. -/
inductive Reached : KeyspaceSchema → List UserType → Prop where
  | empty (keyspace : String) : Reached (empty keyspace) []
  | read {document : List Char} {schema : KeyspaceSchema} {us : List UserType}
    (h : read document = .ok schema) (hus : IsDocument document schema.keyspace us) :
    Reached schema us
  | addType {schema : KeyspaceSchema} {us : List UserType} (h : Reached schema us) (u : UserType) :
    Reached (schema.addType u) (us ++ [u])

theorem Reached.isTable (h : Reached schema us) : IsTable schema us := by
  induction h with
  | empty keyspace => exact isTable_empty keyspace
  | read h hus =>
    rw [Except.ok.inj (h.symm.trans (read_of_isDocument hus))]
    exact (isTable_empty _).foldl_addType _
  | addType _ u ih => exact ih.addType u

/-! ## Lookups -/

theorem IsTable.userType?_bare (h : IsTable schema us) {name : String} (hdot : '.' ∉ name.toList) :
    schema.userType? name = (latest? us name).map (·.inKeyspace schema.keyspace) := by
  rw [userType?_of_count (List.count_eq_zero.2 hdot), h.find?]

theorem IsTable.userType?_qualified (h : IsTable schema us)
    (hkeyspace : '.' ∉ schema.keyspace.toList) (name : String) :
    schema.userType? (schema.keyspace ++ "." ++ name) =
      (latest? us name).map (·.inKeyspace schema.keyspace) := by
  rw [userType?, splitName_eq_some_iff.2 ⟨hkeyspace, rfl⟩, ← h.find?]
  exact if_pos rfl

/-- A name with a dot finds nothing, unless it is one without a dot behind the keyspace. -/
theorem IsTable.userType?_eq_none (h : IsTable schema us) (hnames : ∀ u ∈ us, '.' ∉ u.name.toList)
    {name : String} (hdot : '.' ∈ name.toList)
    (hname : ∀ bare : String, '.' ∉ bare.toList → name ≠ schema.keyspace ++ "." ++ bare) :
    schema.userType? name = none := by
  unfold userType?
  split
  · rename_i hsplit
    exact absurd hdot (List.count_eq_zero.1 (splitName_eq_none_iff.1 hsplit))
  · rename_i keyspace bare hsplit
    split
    · rename_i hkeyspace
      rw [h.find?]
      cases hlatest : latest? us bare with
      | none => rfl
      | some u =>
        obtain ⟨hmem, rfl⟩ := mem_of_latest? hlatest
        exact absurd (hkeyspace ▸ (splitName_eq_some_iff.1 hsplit).2) (hname u.name (hnames u hmem))
    · rfl

/-- Every document that is read describes a keyspace and lists types, and its schema is reached with
them. Every keyspace, with any entries that are types one after another, is read from each text that
spells its words, whatever layout stands around them. A schema that is reached in any way, with what
was added to it, holds each name once, in the order of first addition; its types are all of its
keyspace, whichever they were given with; and a further type takes the place of its name, or one at
the end, and changes no other place. If there is no dot in the keyspace or in any of the names, a
name without a dot finds what was added last under it, if anything, as a type of the keyspace, and so
does the name behind the keyspace and a dot. Any other name with a dot finds nothing. -/
theorem reached_is_table :
    (∀ document schema, read document = .ok schema →
      ∃ us, IsDocument document schema.keyspace us ∧ Reached schema us) ∧
    (∀ keyspace entries document us,
      JsonValue.LaidOut (documentWords keyspace entries) document →
      Lists (empty keyspace) entries us →
        read document = .ok (us.foldl KeyspaceSchema.addType (empty keyspace)) ∧
          Reached (us.foldl KeyspaceSchema.addType (empty keyspace)) us) ∧
    ∀ schema us, Reached schema us →
      (schema.types.map (·.name)).Nodup ∧
      (∀ t ∈ schema.types, t.keyspace = some schema.keyspace) ∧
      schema.types.map (·.name) = (us.map (·.name)).eraseDups ∧
      (∀ u, (schema.addType u).types =
        if u.name ∈ us.map (·.name) then
          schema.types.map fun t => if t.name = u.name then u.inKeyspace schema.keyspace else t
        else schema.types ++ [u.inKeyspace schema.keyspace]) ∧
      ('.' ∉ schema.keyspace.toList → (∀ u ∈ us, '.' ∉ u.name.toList) →
        (∀ name : String, '.' ∉ name.toList →
          schema.userType? name = (latest? us name).map (·.inKeyspace schema.keyspace) ∧
          schema.userType? (schema.keyspace ++ "." ++ name) =
            (latest? us name).map (·.inKeyspace schema.keyspace)) ∧
        ∀ name : String, '.' ∈ name.toList →
          (∀ bare : String, '.' ∉ bare.toList → name ≠ schema.keyspace ++ "." ++ bare) →
          schema.userType? name = none) := by
  refine ⟨?_, ?_, ?_⟩
  · intro document schema h
    obtain ⟨us, hus, -⟩ := read_eq_ok_iff.1 h
    exact ⟨us, hus, .read h hus⟩
  · intro keyspace entries document us hlaid hus
    have hdocument := isDocument_of_laidOut hlaid hus
    have hread := read_of_isDocument hdocument
    refine ⟨hread, .read hread ?_⟩
    rwa [keyspace_foldl_addType]
  · intro schema us hreached
    have h := hreached.isTable
    refine ⟨h.nodup, h.owned, h.names, h.types_addType, fun hkeyspace hnames => ⟨?_, ?_⟩⟩
    · intro name hdot
      exact ⟨h.userType?_bare hdot, h.userType?_qualified hkeyspace name⟩
    · intro name hdot hname
      exact h.userType?_eq_none hnames hdot hname

/-- A document that lists a type, another one, and the first name once more, and then a type of
another keyspace under the second name: both names keep their places, and both spellings of a name
find what was added last. -/
theorem replaced_type_is_found :
    let document := ["\x7b \"keyspace\": \"shop\", \"types\": [\n",
      "  \x7b \"name\": \"address\", \"fields\": [\n",
      "    \x7b \"name\": \"zip\", \"type\": \"int\" \x7d ] \x7d,\n",
      "  \x7b \"name\": \"customer\", \"fields\": [] \x7d,\n",
      "  \x7b \"name\": \"address\", \"fields\": [\n",
      "    \x7b \"name\": \"street\", \"type\": \"text\" \x7d ] \x7d ] \x7d"].flatMap String.toList
    let zip : Field ColumnType := ⟨"zip", .scalar .int⟩
    let street : Field ColumnType := ⟨"street", .scalar .text⟩
    let address : UserType := ⟨none, "address", [zip], false⟩
    let customer : UserType := ⟨none, "customer", [], false⟩
    let moved : UserType := ⟨none, "address", [street], false⟩
    let renewed : UserType := ⟨some "other", "customer", [zip], false⟩
    let schema : KeyspaceSchema :=
      ⟨"shop", [⟨some "shop", "address", [street], false⟩, ⟨some "shop", "customer", [], false⟩]⟩
    let altered := schema.addType renewed
    read document = .ok schema ∧ Reached schema [address, customer, moved] ∧
      Reached altered [address, customer, moved, renewed] ∧
      altered.types.map (·.name) = ["address", "customer"] ∧
      altered.userType? "address" = some ⟨some "shop", "address", [street], false⟩ ∧
      altered.userType? "shop.customer" = some ⟨some "shop", "customer", [zip], false⟩ ∧
      altered.userType? "other.customer" = none := by
  intro document zip street address customer moved renewed schema altered
  have hlists : Lists (empty "shop")
      [("address", [⟨"zip", "int".toList⟩]), ("customer", []),
        ("address", [⟨"street", "text".toList⟩])] [address, customer, moved] := by
    have hzip : ∀ schema, DefinesField schema ⟨"zip", "int".toList⟩ zip := fun _ => ⟨rfl, rfl⟩
    have hstreet : ∀ schema, DefinesField schema ⟨"street", "text".toList⟩ street :=
      fun _ => ⟨rfl, rfl⟩
    exact .cons ⟨rfl, rfl, rfl, .cons (hzip _) .nil⟩ (.cons ⟨rfl, rfl, rfl, .nil⟩
      (.cons ⟨rfl, rfl, rfl, .cons (hstreet _) .nil⟩ (.nil _)))
  obtain ⟨-, hdocuments, htables⟩ := reached_is_table
  obtain ⟨hread, hreached⟩ := hdocuments "shop" _ document _ (by decide +kernel) hlists
  have haltered : Reached altered [address, customer, moved, renewed] := hreached.addType renewed
  obtain ⟨-, -, hnames, -, hlookup⟩ := htables _ _ haltered
  have hdots : ∀ u ∈ [address, customer, moved, renewed], '.' ∉ u.name.toList := by decide
  obtain ⟨hfound, hnothing⟩ := hlookup (by decide) hdots
  obtain ⟨hbare, -⟩ := hfound "address" (by decide)
  obtain ⟨-, hqualified⟩ := hfound "customer" (by decide)
  refine ⟨hread, hreached, haltered, hnames, hbare, hqualified,
    hnothing "other.customer" (by decide) ?_⟩
  intro bare hdot hname
  have hhead : "other.customer".toList.head? = ("shop" ++ "." ++ bare).toList.head? :=
    congrArg (fun name : String => name.toList.head?) hname
  rw [String.toList_append, String.toList_append] at hhead
  exact absurd hhead (by simp)

end KeyspaceSchema

end CqlWire
